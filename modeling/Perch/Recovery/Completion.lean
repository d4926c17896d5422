/-
Completion soundness.

A completion is two calls: `enforce` authorizes the account's `apply_doc` and
leaves a marker, and `rcv_sync` consumes it.  The marker can be left behind by
an authorization whose invocation never runs, so what it stands for has to
hold for as long as it is stored, over everything that happens in between.
-/

import Perch.Recovery.Authorization

namespace Perch.Recovery

open Machine Document

/-! ### Where a record comes from -/

/-- The call that began an attempt, and the target it derived. -/
structure BegunBy (d : Deployment) (account : Address) (a : Attempt) (derived : DerivedTarget)
    (taken : ControllerStep) : Prop where
  assigned : Assigned account a.id taken
  derives : ∃ action replacements config,
    taken.action.call = beginCall account action replacements ∧
      Begun d taken.action.env account (taken.before.slice account) action replacements config
        derived a.asBegun

theorem BegunBy.progressed {d : Deployment} {account : Address} {a b : Attempt}
    {derived : DerivedTarget} {taken : ControllerStep} (begun : b.asBegun = a.asBegun)
    (origin : BegunBy d account a derived taken) : BegunBy d account b derived taken where
  assigned := by
    rw [Attempt.id_of_asBegun begun]
    exact origin.assigned
  derives := by
    rw [begun]
    exact origin.derives

/-- What a record keeps of the derivation it was begun from. -/
theorem BegunBy.terms {d : Deployment} {account : Address} {a : Attempt}
    {derived : DerivedTarget} {taken : ControllerStep}
    (origin : BegunBy d account a derived taken) :
    a.replaced = derived.replaced ∧ a.targetDocHash = derived.docHash ∧
      a.targetBytesHash = d.sha256 derived.canonical ∧
      a.targetConfigHash = derived.configHash := by
  obtain ⟨_, _, _, -, started⟩ := origin.derives
  have record := started.record
  refine ⟨?_, ?_, ?_, ?_⟩
  · exact congrArg Attempt.replaced record
  · exact congrArg Attempt.targetDocHash record
  · exact congrArg Attempt.targetBytesHash record
  · exact congrArg Attempt.targetConfigHash record

theorem Run.begunBy {d : Deployment} {history : History} {now : UInt32} {s : Storage}
    (run : Run d history now s) (account : Address) :
    ∀ id a, (s.slice account).Holds id a →
      ∃ derived, ∃ taken ∈ history, BegunBy d account a derived taken := by
  refine (account_invariant account
    (fun history _ m => ∀ id a, m.Holds id a →
      ∃ derived, ∃ taken ∈ history, BegunBy d account a derived taken)
    Slice.sound_empty ?_ (fun known _ => known) ?_ ?_ run).2
  · simp [Slice.Holds, Storage.slice, Storage.empty]
  · intro history taken known passed id a held
    obtain ⟨derived, past, member, origin⟩ := known id a held
    exact ⟨derived, past, List.mem_cons_of_mem _ member, origin⟩
  · intro history taken reply gate known sound acted
    have kept : ∀ id a, (taken.before.slice account).Holds id a →
        ∃ derived, ∃ past ∈ taken :: history, BegunBy d account a derived past := by
      intro id a held
      obtain ⟨derived, past, member, origin⟩ := known id a held
      exact ⟨derived, past, List.mem_cons_of_mem _ member, origin⟩
    have progressed : ∀ {a c : Attempt},
        (taken.before.slice account).load taken.action.env.sequence a.id = some a →
        c.asBegun = a.asBegun →
        ∃ derived, ∃ past ∈ taken :: history, BegunBy d account c derived past := by
      intro a c loaded begun
      obtain ⟨derived, past, member, origin⟩ := kept a.id a (.of_load loaded)
      exact ⟨derived, past, member, origin.progressed begun⟩
    cases acted.transition.recordEffect sound with
    | kept attempts temporaries =>
        intro id a held
        unfold Slice.Holds at held
        rw [attempts, temporaries] at held
        exact kept id a held
    | @begun action replacements config derived a started called reply' wrote =>
        refine wrote.holds kept ⟨derived, taken, List.mem_cons_self, ?_⟩
        have fresh : a.asBegun = a := by
          rw [started.record]
          rfl
        exact
          { assigned := ⟨acted.named, _, acted.replied.trans (by rw [reply'])⟩
            derives := ⟨action, replacements, config, called, fresh.symm ▸ started⟩ }
    | submitted _ loaded _ _ submission graded wrote =>
        exact wrote.holds kept (progressed loaded (graded.asBegun.trans submission.asBegun))
    | carried loaded _ begun _ _ _ _ wrote =>
        exact wrote.holds kept (progressed loaded begun)

/-! ### What a stored marker stands for -/

/-- An accepted `enforce` at a ledger, for this account's `apply_doc` of the
attempt's exact target bytes. -/
def EnforcedBy (d : Deployment) (account : Address) (a : Attempt) (ledger : UInt32)
    (taken : ControllerStep) : Prop :=
  ∃ args rule target,
    taken.action.call =
      .enforce (.contract { contract := account, fnName := "apply_doc", args := args }) [] rule
        account ∧
    (∃ answer, taken.reply = .ok answer) ∧ taken.action.env.sequence = ledger ∧
    args.head? = some (.bytes target) ∧ d.sha256 target = a.targetBytesHash

/-- The attempt a marker was written for, as it is stored now. -/
def MarkedFor (d : Deployment) (account : Address) (history : History) (m : Slice)
    (marker : CompletionMarker) : Prop :=
  ∃ b, m.attempt marker.attemptId = some b ∧ b.state ≠ .collecting ∧
    b.targetDocHash = marker.targetDocHash ∧ b.executableAfter ≤ marker.ledger ∧
    ∃ taken ∈ history, EnforcedBy d account b marker.ledger taken

/-- A persistent record past collecting keeps its terms and its windows. -/
theorem Transition.settled_record {d : Deployment} {e : Env} {account : Address} {m m' : Slice}
    {call : Call} {reply : Reply} {gate : Option GateCall} {id : UInt64} {b : Attempt}
    (transition : Transition d e account m call reply gate m') (sound : m.Sound e.sequence)
    (stored : m.attempt id = some b) (settled : b.state ≠ .collecting) :
    ∃ c, m'.attempt id = some c ∧ c.asBegun = b.asBegun ∧ c.state ≠ .collecting ∧
      c.executableAfter = b.executableAfter ∧ (b.state.terminal = true → c = b) := by
  have same : b.asBegun = b.asBegun ∧ b.state ≠ .collecting ∧
      b.executableAfter = b.executableAfter ∧ (b.state.terminal = true → b = b) :=
    ⟨rfl, settled, rfl, fun _ => rfl⟩
  have own : b.id = id := sound.keyed id b (.inl stored)
  cases transition.recordEffect sound with
  | kept attempts _ => exact ⟨b, by rw [attempts]; exact stored, same⟩
  | @begun _ _ _ _ a started _ _ wrote =>
      have other : id ≠ a.id := by
        rw [started.record]
        rintro rfl
        exact UInt64.lt_irrefl _ (sound.begun _ b (.inl stored))
      exact ⟨b, by rw [wrote.attempts, Slice.put_attempt_of_ne other]; exact stored, same⟩
  | @submitted _ a _ c _ loaded _ state submission graded wrote =>
      have begun := graded.asBegun.trans submission.asBegun
      have other : id ≠ c.id := by
        rw [Attempt.id_of_asBegun begun]
        rintro rfl
        exact settled (sound.load_holds loaded (.inl stored) ▸ state)
      exact ⟨b, by rw [wrote.attempts, Slice.put_attempt_of_ne other]; exact stored, same⟩
  | @carried a c loaded live begun _ _ progress forward wrote =>
      by_cases written : id = c.id
      · have read : a.id = id := (Attempt.id_of_asBegun begun).symm.trans written.symm
        rw [read] at loaded
        have kept := sound.load_holds loaded (.inl stored)
        subst kept
        refine ⟨c, ?_, begun, ?_, progress.executableAfter, ?_⟩
        · rw [wrote.attempts, written]
          exact Slice.put_attempt_of_stored (written ▸ stored)
        · rcases forward with forward | forward
          · rw [forward]
            exact settled
          · intro collecting
            rw [collecting] at forward
            cases forward
        · intro ended
          exact absurd live (Slice.not_live_of_terminal ended)
      · exact ⟨b, by rw [wrote.attempts, Slice.put_attempt_of_ne written]; exact stored, same⟩

theorem Transition.marker_step {d : Deployment} {e : Env} {account : Address} {m m' : Slice}
    {call : Call} {reply : Reply} {gate : Option GateCall}
    (transition : Transition d e account m call reply gate m') :
    m'.completing = m.completing ∨ m'.completing = none ∨
      ∃ args rule target a entry,
        call = .enforce (.contract { contract := account, fnName := "apply_doc", args := args }) []
          rule account ∧
        args.head? = some (.bytes target) ∧ m.Authorized e.sequence a ∧
        a.executableAfter ≤ e.sequence ∧ d.sha256 target = a.targetBytesHash ∧
        m'.attempt = m.attempt ∧ m'.completing = some entry ∧
        entry.value =
          { attemptId := a.id, targetDocHash := a.targetDocHash, ledger := e.sequence } := by
  cases transition with
  | completed => exact .inr (.inl rfl)
  | classified _ _ settled =>
      have dropped : (m.takeMarker e.sequence).completing = m.completing ∨
          (m.takeMarker e.sequence).completing = none := by
        unfold Slice.takeMarker
        split
        · exact .inl rfl
        · exact .inr rfl
      cases settled <;>
        rcases dropped with dropped | dropped <;>
        first | exact .inl dropped | exact .inr (.inl dropped)
  | @enforced args rule target a config entry _ _ first _ found executable digested written =>
      refine .inr (.inr ⟨args, rule, target, a, entry, rfl, ?_, found, executable, digested, rfl,
        rfl, written⟩)
      obtain ⟨value, head, read⟩ := Option.bind_eq_some_iff.mp first
      cases value with
      | bytes bytes => rw [head, Option.some.inj read]
      | other xdr => cases read
  | cancelledCollecting | cancelledAuthorized | scheduled | upgraded | installed | uninstalled
  | renewed | begun | recorded | invalidated | authorized | approved | proved | published =>
      exact .inl rfl

theorem MarkedFor.acted {d : Deployment} {account : Address} {history : History}
    {taken : ControllerStep} {reply : Reply} {gate : Option GateCall} {marker : CompletionMarker}
    (acted : Acted d account taken reply gate)
    (sound : (taken.before.slice account).Sound taken.action.env.sequence)
    (marked : MarkedFor d account history (taken.before.slice account) marker) :
    MarkedFor d account (taken :: history) (taken.after.slice account) marker := by
  obtain ⟨b, stored, settled, target, executable, past, member, args, rule, bytes, called,
    accepted, ledger, first, digested⟩ := marked
  obtain ⟨c, stored', begun, settled', windows, -⟩ :=
    acted.transition.settled_record sound stored settled
  refine ⟨c, stored', settled', ?_, ?_, past, List.mem_cons_of_mem _ member, args, rule, bytes,
    called, accepted, ledger, first, ?_⟩
  · rw [Attempt.term_eq Attempt.targetDocHash (fun _ => rfl) begun]
    exact target
  · rw [windows]
    exact executable
  · rw [Attempt.term_eq Attempt.targetBytesHash (fun _ => rfl) begun]
    exact digested

theorem Run.markedFor {d : Deployment} {history : History} {now : UInt32} {s : Storage}
    (run : Run d history now s) (account : Address) :
    ∀ entry, s.completing account = some entry →
      MarkedFor d account history (s.slice account) entry.value := by
  refine (account_invariant account
    (fun history _ m => ∀ entry, m.completing = some entry →
      MarkedFor d account history m entry.value)
    Slice.sound_empty ?_ (fun known _ => known) ?_ ?_ run).2
  · intro entry impossible
    cases impossible
  · intro history taken known passed entry present
    obtain ⟨b, stored, settled, target, executable, past, member, enforced⟩ := known entry present
    exact ⟨b, stored, settled, target, executable, past, List.mem_cons_of_mem _ member, enforced⟩
  · intro history taken reply gate known sound acted entry present
    rcases acted.transition.marker_step with kept | dropped |
      ⟨args, rule, target, a, own, called, first, found, executable, digested, records, wrote,
        value⟩
    · exact (known entry (kept ▸ present)).acted acted sound
    · rw [dropped] at present
      cases present
    · rw [wrote] at present
      cases present
      obtain ⟨state, -, stored, -⟩ := sound.authorized_state found
      rw [value]
      refine ⟨a, ?_, ?_, rfl, executable, taken, List.mem_cons_self, args, rule, target, called,
        ⟨_, acted.replied⟩, rfl, first, digested⟩
      · rw [records]
        exact stored
      · rw [state]
        decide

/-! ### Each attempt completes at most once -/

def completes (account : Address) (id : UInt64) (taken : ControllerStep) : Bool :=
  taken.action.call.account = account &&
    match taken.reply with
    | .ok (.synced (.completed completion), _) => completion.attemptId = id
    | _ => false

theorem Passed.not_completes {account : Address} {taken : ControllerStep} {id : UInt64}
    (passed : Passed account taken) : completes account id taken = false := by
  unfold completes
  by_cases named : taken.action.call.account = account
  · obtain ⟨failure, failed⟩ := passed.silent named
    simp [failed]
  · simp [named]

/-- What a completing transition finds and leaves. -/
theorem Transition.completion {d : Deployment} {e : Env} {account : Address} {m m' : Slice}
    {call : Call} {completion : Completion} {gate : Option GateCall}
    (transition : Transition d e account m call (.synced (.completed completion)) gate m') :
    ∃ a docHash recovery validUntil config marker,
      call = .rcvSync account docHash recovery validUntil ∧
      m.Authorized e.sequence a ∧
      completion = { attemptId := a.id, replaced := a.replaced } ∧
      Temporary.read e.sequence m.completing = some marker ∧ marker.attemptId = a.id ∧
      marker.ledger = e.sequence ∧ docHash = a.targetDocHash ∧
      recovery.head? = some config ∧ config.controller = d.address ∧
      config.configHash = a.targetConfigHash ∧
      m'.attempt a.id = some { a with state := .completed } := by
  cases transition with
  | @completed docHash recovery validUntil marker a config _ _ _ left _ sameLedger found own target
      passed here terms _ _ _ =>
      refine ⟨a, docHash, recovery, validUntil, config, marker, rfl, found, rfl, left, own.symm,
        sameLedger, target, passed, here, terms, ?_⟩
      exact Slice.put_attempt_of_state (e := e) (a := { a with state := .completed }) (.inr rfl)
  | classified _ _ settled => cases settled

theorem Run.completes_once {d : Deployment} {history : History} {now : UInt32} {s : Storage}
    (run : Run d history now s) (account : Address) (id : UInt64) :
    history.countP (completes account id) ≤ 1 := by
  refine (account_invariant account
    (fun history _ m => history.countP (completes account id) ≤ 1 ∧
      (history.countP (completes account id) ≠ 0 →
        ∃ b, m.attempt id = some b ∧ b.state = .completed))
    Slice.sound_empty ?_ (fun known _ => known) ?_ ?_ run).2.1
  · simp
  · rintro history taken ⟨once, recorded⟩ passed
    rw [List.countP_cons_of_neg (by simp [passed.not_completes])]
    exact ⟨once, recorded⟩
  · rintro history taken reply gate ⟨once, recorded⟩ sound acted
    by_cases completed : completes account id taken = true
    · -- The attempt was authorized, so it had not completed before.
      have now' := completed
      simp only [completes, acted.replied, acted.named, decide_true, Bool.true_and] at now'
      split at now'
      · rename_i completion _ same
        have replied : reply = .synced (.completed completion) := by
          simp only [Except.ok.injEq, Prod.mk.injEq] at same
          exact same.1
        have transition := acted.transition
        rw [replied] at transition
        obtain ⟨a, _, _, _, _, _, -, found, rfl, -, -, -, -, -, -, -, after⟩ :=
          transition.completion
        have own : a.id = id := by simpa using now'
        subst own
        have never : history.countP (completes account a.id) = 0 := by
          by_contra before
          obtain ⟨b, stored, state⟩ := recorded before
          obtain ⟨authorized, -, stored', -⟩ := sound.authorized_state found
          rw [stored] at stored'
          cases stored'
          rw [state] at authorized
          cases authorized
        rw [List.countP_cons_of_pos completed, never]
        exact ⟨le_refl _, fun _ => ⟨_, after, rfl⟩⟩
      · cases now'
    · rw [List.countP_cons_of_neg completed]
      refine ⟨once, fun before => ?_⟩
      obtain ⟨b, stored, state⟩ := recorded before
      have settled : b.state ≠ .collecting := by
        rw [state]
        decide
      obtain ⟨c, stored', -, -, -, absorbed⟩ :=
        acted.transition.settled_record sound stored settled
      obtain rfl := absorbed (by rw [state]; rfl)
      exact ⟨c, stored', state⟩

/-! ### Completion -/

/-- `rcv_sync` completes an attempt only when it is the live authorized one,
for its own target document and configuration, in the ledger `enforce`
authorized exactly its target bytes, inside its completion window; it returns
the credentials derived when the attempt was begun; and no attempt completes
twice. -/
theorem completion_sound {d : Deployment} {history : History} {now : UInt32} {s : Storage}
    (run : Run d history now s) (account : Address) :
    (∀ (e : Env) docHash recovery validUntil outcome completion, e.sequence = now →
      execute d e s (.rcvSync account docHash recovery validUntil) = .ok outcome →
      outcome.reply = .synced (.completed completion) →
      ∃ a config new derived, authorizedLive now s account = some a ∧
        completion.attemptId = a.id ∧ docHash = a.targetDocHash ∧
        recovery.head? = some new ∧ new.controller = d.address ∧
        new.configHash = a.targetConfigHash ∧
        (∃ taken ∈ history, EnforcedBy d account a now taken) ∧
        epochOf s account = a.epoch ∧
        (∀ visit ∈ visited history s, epochOf visit account = a.epoch →
          visit.config account = some config) ∧
        a.authorizedAt.toNat + config.delayLedgers.toNat ≤ now.toNat ∧ now < a.expiresAt ∧
        (∃ taken ∈ history, BegunBy d account a derived taken) ∧
        completion.replaced = derived.replaced) ∧
    ∀ id, history.countP (completes account id) ≤ 1 := by
  refine ⟨?_, run.completes_once account⟩
  rintro e docHash recovery validUntil outcome completion rfl accepted replied
  have sound := run.sound account
  have transition := (execute_transition sound.keyed accepted).2
  rw [replied] at transition
  obtain ⟨a, docHash', recovery', validUntil', new, marker, called, found, rfl, left, own, ledger,
    target, passed, here, terms, -⟩ := transition.completion
  cases called
  obtain ⟨authorized, pointer, stored, live⟩ := sound.authorized_state found
  obtain ⟨entry, present, -, rfl⟩ := Temporary.read_eq_some.mp left
  obtain ⟨b, stored', -, -, executable, past, member, enforced⟩ :=
      run.markedFor account entry present
  rw [own, stored] at stored'
  cases stored'
  rw [ledger] at executable enforced
  obtain ⟨-, -, config, throughout, evidence⟩ := run.founded account a.id a (.inl stored)
  obtain ⟨derived, begin', member', origin⟩ := run.begunBy account a.id a (.inl stored)
  obtain ⟨delay, -⟩ := evidence.windows authorized
  have expires : e.sequence < a.expiresAt := by
    rcases live.2 with ⟨collecting, -⟩ | ⟨-, -, within⟩
    · rw [authorized] at collecting
      cases collecting
    · exact within
  refine ⟨a, config, new, derived, authorizedLive_eq_some.mpr found, rfl, target, passed, here,
    terms, ⟨past, member, enforced⟩, live.1.symm, ?_, ?_, expires, ⟨begin', member', origin⟩,
    origin.terms.1⟩
  · intro visit visits current
    exact throughout _ (mem_sliced visits) current
  · rw [← delay]
    exact UInt32.le_iff_toNat_le.mp executable

namespace Sample

def applied : Context :=
  .contract { contract := account, fnName := "apply_doc", args := [.bytes target.canonical] }

def recoveryRule : ContextRule where
  id := 1
  contextType := .callContract account
  name := []
  signers := []
  policies := [deployment.address]
  validUntil := none

def newConfig : CompiledRecoveryConfig :=
  { config with configHash := target.configHash }

/-- The sample calls, and the authorization of the completing call at ledger
114. -/
def authorizing : List Invocation :=
  calls ++ [invoke 114 (.enforce applied [] recoveryRule account)]

def authorizedRun : History × Storage :=
  (controller deployment).play [] .empty authorizing

end Sample

theorem completion_sound_sample :
    ∃ outcome,
      execute Sample.deployment (Sample.env 114) Sample.authorizedRun.2
          (.rcvSync Sample.account Sample.target.docHash [Sample.newConfig] 0) = .ok outcome ∧
        outcome.reply =
          .synced (.completed { attemptId := 0, replaced := [Sample.lostKey] }) ∧
        ∃ taken ∈ Sample.authorizedRun.1, ∃ a,
          EnforcedBy Sample.deployment Sample.account a 114 taken := by
  have run : Run Sample.deployment Sample.authorizedRun.1 114 Sample.authorizedRun.2 :=
    Execution.refl.play (by decide)
  have replies : (execute Sample.deployment (Sample.env 114) Sample.authorizedRun.2
      (.rcvSync Sample.account Sample.target.docHash [Sample.newConfig] 0)).map (·.reply) =
      .ok (.synced (.completed { attemptId := 0, replaced := [Sample.lostKey] })) := by
    decide +kernel
  cases accepted : execute Sample.deployment (Sample.env 114) Sample.authorizedRun.2
      (.rcvSync Sample.account Sample.target.docHash [Sample.newConfig] 0) with
  | error failure =>
      rw [accepted] at replies
      cases replies
  | ok outcome =>
      rw [accepted] at replies
      have replied : outcome.reply =
          .synced (.completed { attemptId := 0, replaced := [Sample.lostKey] }) :=
        Except.ok.inj replies
      obtain ⟨a, _, _, _, -, -, -, -, -, -, ⟨taken, member, enforced⟩, -⟩ :=
        (completion_sound run Sample.account).1 _ _ _ _ outcome _ rfl accepted replied
      exact ⟨outcome, rfl, replied, taken, member, a, enforced⟩

end Perch.Recovery
