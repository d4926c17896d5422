/-
Authorization soundness.

Evidence arrives one piece per call, and the statement it is checked against
is rebuilt from storage every time.  Every record carries, over the run that
produced it, the calls that gave its evidence: each guardian it counts
authorized the digest of the attempt's initiation statement, and the adapter
accepted its proof for that statement, under the one configuration of the
attempt's epoch.
-/

import Perch.Recovery.Epoch

namespace Perch.Recovery

open Machine Document

/-! ### Evidence and the calls that gave it -/

/-- A guardian authorized a digest in an accepted call for an attempt. -/
structure ApprovedBy (account : Address) (id : UInt64) (digest : Bytes32) (guardian : Address)
    (taken : ControllerStep) : Prop where
  call : taken.action.call = .submitGuardian account id .initiate guardian
  accepted : ∃ answer, taken.reply = .ok answer
  signed : taken.action.env.requireAuthForArgs guardian digest = true

/-- A factor's adapter accepted a proof with an unspent nullifier in an
accepted call for an attempt. -/
structure ProvedBy (account : Address) (id : UInt64) (asked : RecoveryStatement)
    (factor : CompiledZkFactor) (nullifier : Bytes32) (taken : ControllerStep) : Prop where
  call : ∃ evidence, taken.action.call = .submitZk account id .initiate evidence ∧
    evidence.nullifier = nullifier ∧
    (taken.action.env.zkAdapter factor.adapter).verify asked factor.binding evidence = true
  accepted : ∃ answer, taken.reply = .ok answer
  unspent : taken.before.nullifier (account, nullifier) = none

/-- A call fell into an attempt's evidence window, in the attempt's epoch, and
not after its authorization. -/
structure Timely (account : Address) (a : Attempt) (taken : ControllerStep) : Prop where
  begun : a.createdAt ≤ taken.action.env.sequence
  inWindow : taken.action.env.sequence ≤ a.evidenceDeadline
  inEpoch : epochOf taken.before account = a.epoch
  before : a.state = .authorized → taken.action.env.sequence ≤ a.authorizedAt

/-- A counted guardian is enrolled and approved the attempt's statement. -/
def GuardianCounted (d : Deployment) (account : Address) (history : History)
    (config : CompiledRecoveryConfig) (a : Attempt) (guardian : Address) : Prop :=
  ∃ set digest, config.guardians = some set ∧ guardian ∈ set.guardians ∧
    (initiationStatement d account config a).digest d.sha256 = .ok digest ∧
    ∃ taken ∈ history, ApprovedBy account a.id digest guardian taken ∧ Timely account a taken

/-- A recorded nullifier came with an accepted proof of the statement. -/
def NullifierCounted (d : Deployment) (account : Address) (history : History)
    (config : CompiledRecoveryConfig) (a : Attempt) (nullifier : Bytes32) : Prop :=
  ∃ factor, config.zk = some factor ∧ ∃ taken ∈ history,
    ProvedBy account a.id (initiationStatement d account config a) factor nullifier taken ∧
      Timely account a taken

/-- Everything an attempt has counted was given for its own statement. -/
structure Evidence (d : Deployment) (account : Address) (history : History)
    (config : CompiledRecoveryConfig) (a : Attempt) : Prop where
  distinct : a.guardians.Nodup
  approved : ∀ guardian ∈ a.guardians, GuardianCounted d account history config a guardian
  proved : ∀ nullifier ∈ a.zkNullifier, NullifierCounted d account history config a nullifier
  met : a.state = .authorized → initiationMet config a = true
  windows : a.state = .authorized →
    a.executableAfter.toNat = a.authorizedAt.toNat + config.delayLedgers.toNat ∧
      a.expiresAt.toNat = a.executableAfter.toNat + config.expiryLedgers.toNat

/-- The initiation statement is built from the attempt's terms alone. -/
theorem initiationStatement_of_asBegun {d : Deployment} {account : Address}
    {config : CompiledRecoveryConfig} {a b : Attempt} (begun : b.asBegun = a.asBegun) :
    initiationStatement d account config b = initiationStatement d account config a :=
  Attempt.term_eq (initiationStatement d account config) (fun _ => rfl) begun

/-- Progress that authorizes nothing and keeps the windows. -/
structure SameAuthorization (a b : Attempt) : Prop where
  state : b.state = .authorized → a.state = .authorized
  authorizedAt : b.authorizedAt = a.authorizedAt
  executableAfter : b.executableAfter = a.executableAfter
  expiresAt : b.expiresAt = a.expiresAt

theorem SameAuthorization.refl (a : Attempt) : SameAuthorization a a :=
  ⟨id, rfl, rfl, rfl⟩

theorem Submission.sameAuthorization {d : Deployment} {e : Env} {account : Address} {m : Slice}
    {config : CompiledRecoveryConfig} {a b : Attempt} {domain : EvidenceDomain} {call : Call}
    (submitted : Submission d e account m config a domain call b) : SameAuthorization a b := by
  rw [submitted.unchanged]
  exact ⟨id, rfl, rfl, rfl⟩

section Evidence

variable {d : Deployment} {account : Address} {history : History}
  {config : CompiledRecoveryConfig} {a b : Attempt} {taken : ControllerStep}

theorem Timely.carry (timely : Timely account a taken) (begun : b.asBegun = a.asBegun)
    (progress : SameAuthorization a b) : Timely account b taken where
  begun := by
    rw [Attempt.term_eq Attempt.createdAt (fun _ => rfl) begun]
    exact timely.begun
  inWindow := by
    rw [Attempt.term_eq Attempt.evidenceDeadline (fun _ => rfl) begun]
    exact timely.inWindow
  inEpoch := by
    rw [Attempt.epoch_of_asBegun begun]
    exact timely.inEpoch
  before := by
    intro state
    rw [progress.authorizedAt]
    exact timely.before (progress.state state)

section Counted

variable {longer : History} (begun : b.asBegun = a.asBegun) (grown : history ⊆ longer)
  (timely : ∀ taken ∈ history, Timely account a taken → Timely account b taken)

include begun grown timely

theorem GuardianCounted.move {guardian : Address}
    (counted : GuardianCounted d account history config a guardian) :
    GuardianCounted d account longer config b guardian := by
  obtain ⟨set, digest, enrolled, member, hashed, taken, past, approved, inTime⟩ := counted
  refine ⟨set, digest, enrolled, member, ?_, taken, grown past, ?_, timely taken past inTime⟩
  · rw [initiationStatement_of_asBegun begun]
    exact hashed
  · rw [Attempt.id_of_asBegun begun]
    exact approved

theorem NullifierCounted.move {nullifier : Bytes32}
    (counted : NullifierCounted d account history config a nullifier) :
    NullifierCounted d account longer config b nullifier := by
  obtain ⟨factor, enrolled, taken, past, proved, inTime⟩ := counted
  refine ⟨factor, enrolled, taken, grown past, ?_, timely taken past inTime⟩
  rw [Attempt.id_of_asBegun begun, initiationStatement_of_asBegun begun]
  exact proved

end Counted

/-- Evidence survives every progress of the attempt that adds none. -/
theorem Evidence.carry (given : Evidence d account history config a) {longer : History}
    (grown : history ⊆ longer) (begun : b.asBegun = a.asBegun)
    (guardians : b.guardians = a.guardians) (nullifier : b.zkNullifier = a.zkNullifier)
    (progress : SameAuthorization a b) : Evidence d account longer config b where
  distinct := guardians ▸ given.distinct
  approved guardian counted :=
    (given.approved guardian (guardians ▸ counted)).move begun grown
      fun _ _ timely => timely.carry begun progress
  proved n counted :=
    (given.proved n (nullifier ▸ counted)).move begun grown
      fun _ _ timely => timely.carry begun progress
  met := by
    intro state
    unfold initiationMet
    rw [guardians, nullifier]
    exact given.met (progress.state state)
  windows := by
    intro state
    rw [progress.authorizedAt, progress.executableAfter, progress.expiresAt]
    exact given.windows (progress.state state)

/-- What an accepted call adds, checked against the statement of its attempt. -/
theorem Evidence.submit {m : Slice} (given : Evidence d account history config a)
    {reply : Reply} {gate : Option GateCall}
    (acted : Acted d account taken reply gate) (same : taken.before.slice account = m)
    (submitted : Submission d taken.action.env account m config a .initiate taken.action.call b)
    (live : m.Live taken.action.env.sequence a) (state : a.state = .collecting)
    (created : a.createdAt ≤ taken.action.env.sequence) :
    Evidence d account (taken :: history) config b := by
  have collecting : b.state ≠ .authorized := by
    rw [submitted.state_eq, state]
    decide
  have begun := submitted.asBegun
  have inWindow : taken.action.env.sequence ≤ a.evidenceDeadline := by
    rcases live.2 with ⟨-, -, within⟩ | ⟨authorized, -⟩
    · exact within
    · rw [state] at authorized
      cases authorized
  have timely : Timely account b taken :=
    { begun := Attempt.term_eq Attempt.createdAt (fun _ => rfl) begun ▸ created
      inWindow := Attempt.term_eq Attempt.evidenceDeadline (fun _ => rfl) begun ▸ inWindow
      inEpoch := by
        rw [Attempt.epoch_of_asBegun begun, live.1, ← same]
        rfl
      before := fun authorized => absurd authorized collecting }
  have longer : history ⊆ taken :: history := List.subset_cons_self taken history
  have carried : ∀ earlier ∈ history, Timely account a earlier → Timely account b earlier :=
    fun _ _ timely => timely.carry begun submitted.sameAuthorization
  have answered : ∃ answer, taken.reply = .ok answer := ⟨_, acted.replied⟩
  generalize called : taken.action.call = call at submitted
  cases submitted with
  | @guardian set guardian asked digest enrolled member fresh built timely' hashed signed =>
      simp only [attemptStatement, pure_eq_ok] at built
      subst built
      have newest : ApprovedBy account a.id digest guardian taken :=
        { call := called, accepted := answered, signed := signed }
      exact
        { distinct := by
            refine List.nodup_append.mpr ⟨given.distinct, by simp, ?_⟩
            rintro g counted h single rfl
            exact fresh (List.mem_singleton.mp single ▸ counted)
          approved := by
            intro g counted
            rcases List.mem_append.mp counted with counted | counted
            · exact (given.approved g counted).move begun longer carried
            · rw [List.mem_singleton.mp counted]
              exact ⟨set, digest, enrolled, member, hashed, taken, List.mem_cons_self, newest,
                timely⟩
          proved := fun n counted => (given.proved n counted).move begun longer carried
          met := fun authorized => absurd authorized collecting
          windows := fun authorized => absurd authorized collecting }
  | @zk factor evidence asked enrolled fresh built timely' accepted unspent =>
      simp only [attemptStatement, pure_eq_ok] at built
      subst built
      have unspent' : taken.before.nullifier (account, evidence.nullifier) = none := by
        rw [← same] at unspent
        exact unspent
      have newest : ProvedBy account a.id (initiationStatement d account config a) factor
          evidence.nullifier taken :=
        { call := ⟨evidence, called, rfl, accepted⟩
          accepted := answered
          unspent := unspent' }
      exact
        { distinct := given.distinct
          approved := fun g counted => (given.approved g counted).move begun longer carried
          proved := by
            intro n counted
            have own : evidence.nullifier = n := Option.some.inj counted
            subst own
            exact ⟨factor, enrolled, taken, List.mem_cons_self, newest, timely⟩
          met := fun authorized => absurd authorized collecting
          windows := fun authorized => absurd authorized collecting }

theorem Evidence.authorize {now executableAfter expiresAt : UInt32}
    (given : Evidence d account history config a)
    (met : initiationMet config a = true)
    (past : ∀ taken ∈ history, taken.action.env.sequence ≤ now)
    (delay : executableAfter.toNat = now.toNat + config.delayLedgers.toNat)
    (expiry : expiresAt.toNat = executableAfter.toNat + config.expiryLedgers.toNat) :
    Evidence d account history config (a.authorize now executableAfter expiresAt) := by
  have dated : ∀ taken ∈ history, Timely account a taken →
      Timely account (a.authorize now executableAfter expiresAt) taken := by
    intro taken member timely
    exact
      { begun := timely.begun
        inWindow := timely.inWindow
        inEpoch := timely.inEpoch
        before := fun _ => past taken member }
  have begun : (a.authorize now executableAfter expiresAt).asBegun = a.asBegun := rfl
  exact
    { distinct := given.distinct
      approved := fun g counted => (given.approved g counted).move begun (List.Subset.refl _) dated
      proved := fun n counted => (given.proved n counted).move begun (List.Subset.refl _) dated
      met := fun _ => met
      windows := fun _ => ⟨delay, expiry⟩ }

end Evidence

/-! ### Every record of a run -/

/-- A record's evidence, under the configuration of its epoch. -/
def Founded (d : Deployment) (account : Address) (history : History) (now : UInt32) (m : Slice)
    (a : Attempt) : Prop :=
  a.createdAt ≤ now ∧ (∃ visit ∈ sliced account history m, visit.epoch = a.epoch) ∧ ∃ config,
    Throughout (sliced account history m) a.epoch (some config) ∧
      Evidence d account history config a

structure Wrote (e : Env) (m m' : Slice) (a : Attempt) : Prop where
  attempts : m'.attempt = (m.put e a).attempt
  temporaries : m'.collecting = (m.put e a).collecting

theorem Wrote.holds {e : Env} {m m' : Slice} {b : Attempt} {property : Attempt → Prop}
    (wrote : Wrote e m m' b) (others : ∀ id a, m.Holds id a → property a) (written : property b) :
    ∀ id a, m'.Holds id a → property a := by
  intro id a held
  unfold Slice.Holds at held
  rw [wrote.attempts, wrote.temporaries] at held
  have property' : ∀ id a, (m.put e b).Holds id a → property a :=
    Slice.holds_put_of others written
  exact property' id a held

/-- What becomes of an attempt after evidence for its initiation: it waits for
more, is found stale, or is authorized. -/
def Graded (config : CompiledRecoveryConfig) (now : UInt32) (b c : Attempt) : Prop :=
  c = b ∨ c = { b with state := .invalidated } ∨
    ∃ executableAfter expiresAt : UInt32, initiationMet config b = true ∧
      executableAfter.toNat = now.toNat + config.delayLedgers.toNat ∧
      expiresAt.toNat = executableAfter.toNat + config.expiryLedgers.toNat ∧
      c = b.authorize now executableAfter expiresAt

theorem Graded.asBegun {config : CompiledRecoveryConfig} {now : UInt32} {b c : Attempt}
    (graded : Graded config now b c) : c.asBegun = b.asBegun := by
  rcases graded with rfl | rfl | ⟨_, _, -, -, -, rfl⟩
  · rfl
  · rfl
  · rfl

inductive RecordEffect (d : Deployment) (e : Env) (account : Address) (m : Slice) (call : Call)
    (reply : Reply) (m' : Slice) : Prop where
  | kept (attempts : m'.attempt = m.attempt) (temporaries : m'.collecting = m.collecting)
  | begun {action : RecoveryAction} {replacements : ReplacementSet}
      {config : CompiledRecoveryConfig} {derived : DerivedTarget} {a : Attempt}
      (started : Begun d e account m action replacements config derived a)
      (called : call = beginCall account action replacements) (replied : reply = .begun a.id)
      (wrote : Wrote e m m' a)
  | submitted {config : CompiledRecoveryConfig} {a b c : Attempt}
      (enrolled : m.config = some config) (loaded : m.load e.sequence a.id = some a)
      (live : m.Live e.sequence a) (state : a.state = .collecting)
      (submission : Submission d e account m config a .initiate call b)
      (graded : Graded config e.sequence b c) (wrote : Wrote e m m' c)
  | carried {a c : Attempt} (loaded : m.load e.sequence a.id = some a)
      (live : m.Live e.sequence a) (begun : c.asBegun = a.asBegun)
      (guardians : c.guardians = a.guardians) (nullifier : c.zkNullifier = a.zkNullifier)
      (progress : SameAuthorization a c) (forward : c.state = a.state ∨ c.state.terminal = true)
      (wrote : Wrote e m m' c)

theorem CancelCause.evidence_eq {d : Deployment} {e : Env} {account : Address} {m : Slice}
    {config : CompiledRecoveryConfig} {a b : Attempt} {call : Call} {cancels : Option UInt32}
    (cause : CancelCause d e account m config a call b cancels) :
    b.guardians = a.guardians ∧ b.zkNullifier = a.zkNullifier := by
  cases cause with
  | owner => exact ⟨rfl, rfl⟩
  | evidence submitted =>
      rw [submitted.cancel_evidence.2]
      exact ⟨rfl, rfl⟩

theorem CancelCause.cancelled {d : Deployment} {e : Env} {account : Address} {m : Slice}
    {config : CompiledRecoveryConfig} {a b : Attempt} {call : Call} {cancels : Option UInt32}
    (cause : CancelCause d e account m config a call b cancels) :
    SameAuthorization a { b with state := .cancelled } := by
  cases cause with
  | owner => exact ⟨fun state => (by cases state), rfl, rfl, rfl⟩
  | evidence submitted =>
      obtain ⟨-, authorizedAt, executableAfter, expiresAt⟩ := submitted.sameAuthorization
      exact ⟨fun state => (by cases state), authorizedAt, executableAfter, expiresAt⟩

theorem Transition.recordEffect {d : Deployment} {e : Env} {account : Address} {m m' : Slice}
    {call : Call} {reply : Reply} {gate : Option GateCall}
    (transition : Transition d e account m call reply gate m') (sound : m.Sound e.sequence) :
    RecordEffect d e account m call reply m' := by
  cases transition with
  | @completed _ _ _ _ a _ _ _ _ _ _ _ found =>
      obtain ⟨-, -, -, live⟩ := sound.authorized_state found
      exact .carried (c := { a with state := .completed }) (sound.load_of_authorized found) live
        rfl rfl rfl ⟨fun state => (by cases state), rfl, rfl, rfl⟩ (.inr rfl) ⟨rfl, rfl⟩
  | classified _ _ settled =>
      have dropped := Slice.takeMarker_eq e.sequence m
      generalize (m.takeMarker e.sequence).completing = completing at dropped
      rw [dropped] at settled
      cases settled <;> exact .kept rfl rfl
  | @cancelledCollecting _ a b _ _ _ loaded live _ cause =>
      exact .carried (c := { b with state := .cancelled }) loaded live cause.asBegun
        cause.evidence_eq.1 cause.evidence_eq.2 cause.cancelled (.inr rfl) ⟨rfl, rfl⟩
  | @cancelledAuthorized _ a b _ _ _ loaded live _ cause _ =>
      exact .carried (c := { b with state := .cancelled }) loaded live cause.asBegun
        cause.evidence_eq.1 cause.evidence_eq.2 cause.cancelled (.inr rfl) ⟨rfl, rfl⟩
  | begun started _ _ => exact .begun started rfl rfl ⟨rfl, rfl⟩
  | @recorded _ a b domain _ enrolled loaded live phase submitted _ =>
      cases domain with
      | initiate =>
          exact .submitted enrolled loaded live (phase rfl) submitted (.inl rfl) ⟨rfl, rfl⟩
      | cancel =>
          have same := submitted.cancel_evidence.2
          refine .carried loaded live submitted.asBegun ?_ ?_ submitted.sameAuthorization
            (.inl submitted.state_eq) ⟨rfl, rfl⟩
          · rw [same]
          · rw [same]
  | invalidated enrolled loaded live state submitted _ _ _ =>
      exact .submitted enrolled loaded live state submitted (.inr (.inl rfl)) ⟨rfl, rfl⟩
  | authorized enrolled loaded live state submitted met _ _ delay expiry _ =>
      exact .submitted enrolled loaded live state submitted
        (.inr (.inr ⟨_, _, met, delay, expiry, rfl⟩)) ⟨rfl, rfl⟩
  | scheduled | upgraded | installed | uninstalled | renewed | enforced | approved | proved
  | published => exact .kept rfl rfl

section Founded

variable {d : Deployment} {account : Address} {history : History} {taken : ControllerStep}
  {reply : Reply} {gate : Option GateCall} {a b : Attempt}

theorem dated_cons
    (earlier : ∀ past ∈ history, past.action.env.sequence ≤ taken.action.env.sequence) :
    ∀ past ∈ taken :: history, past.action.env.sequence ≤ taken.action.env.sequence := by
  intro past member
  rcases List.mem_cons.mp member with rfl | member
  · exact UInt32.le_refl _
  · exact earlier past member

/-- A record that a step leaves alone stays founded. -/
theorem Founded.kept (acted : Acted d account taken reply gate)
    (past : a.epoch ≤ (taken.before.slice account).epoch)
    (founded : Founded d account history taken.action.env.sequence (taken.before.slice account) a) :
    Founded d account (taken :: history) taken.action.env.sequence (taken.after.slice account)
      a := by
  obtain ⟨created, ⟨visit, member, begun⟩, config, fixed, evidence⟩ := founded
  refine ⟨created, ⟨visit, List.mem_cons_of_mem _ member, begun⟩, config, fixed.acted acted past,
    ?_⟩
  exact evidence.carry (List.subset_cons_self _ _) rfl rfl rfl (.refl a)

theorem Founded.rewritten (acted : Acted d account taken reply gate)
    (past : a.epoch ≤ (taken.before.slice account).epoch)
    (founded : Founded d account history taken.action.env.sequence (taken.before.slice account) a)
    (begun : b.asBegun = a.asBegun)
    (evidence : ∀ config, Throughout (sliced account history (taken.before.slice account)) a.epoch
      (some config) → Evidence d account history config a →
      Evidence d account (taken :: history) config b) :
    Founded d account (taken :: history) taken.action.env.sequence (taken.after.slice account)
      b := by
  obtain ⟨created, ⟨visit, member, current⟩, config, fixed, given⟩ := founded
  refine ⟨?_, ⟨visit, List.mem_cons_of_mem _ member, ?_⟩, config, ?_, evidence config fixed given⟩
  · rw [Attempt.term_eq Attempt.createdAt (fun _ => rfl) begun]
    exact created
  · rw [Attempt.epoch_of_asBegun begun]
    exact current
  · rw [Attempt.epoch_of_asBegun begun]
    exact fixed.acted acted past

/-- Progress without new evidence keeps a record founded. -/
theorem Founded.progressed (acted : Acted d account taken reply gate)
    (past : a.epoch ≤ (taken.before.slice account).epoch)
    (founded : Founded d account history taken.action.env.sequence (taken.before.slice account) a)
    (begun : b.asBegun = a.asBegun) (guardians : b.guardians = a.guardians)
    (nullifier : b.zkNullifier = a.zkNullifier) (progress : SameAuthorization a b) :
    Founded d account (taken :: history) taken.action.env.sequence (taken.after.slice account)
      b :=
  founded.rewritten acted past begun fun _ _ given =>
    given.carry (List.subset_cons_self _ _) begun guardians nullifier progress

/-- The configuration a call finds is the one of the live attempt's epoch. -/
theorem Throughout.enrolled {m : Slice} {config config' : CompiledRecoveryConfig}
    {now : UInt32} (fixed : Throughout (sliced account history m) a.epoch (some config))
    (live : m.Live now a) (enrolled : m.config = some config') : config' = config := by
  have stored := fixed m List.mem_cons_self live.1.symm
  exact Option.some.inj (enrolled.symm.trans stored)

theorem Acted.founded (acted : Acted d account taken reply gate)
    (sound : (taken.before.slice account).Sound taken.action.env.sequence)
    (fixed : EpochFixed (sliced account history (taken.before.slice account))
      (taken.before.slice account))
    (earlier : ∀ past ∈ history, past.action.env.sequence ≤ taken.action.env.sequence)
    (founded : ∀ id a, (taken.before.slice account).Holds id a →
      Founded d account history taken.action.env.sequence (taken.before.slice account) a) :
    ∀ id a, (taken.after.slice account).Holds id a →
      Founded d account (taken :: history) taken.action.env.sequence (taken.after.slice account)
        a := by
  have kept : ∀ id a, (taken.before.slice account).Holds id a →
      Founded d account (taken :: history) taken.action.env.sequence (taken.after.slice account)
        a :=
    fun id a held => (founded id a held).kept acted (sound.current id a held)
  cases acted.transition.recordEffect sound with
  | kept attempts temporaries =>
      intro id a held
      unfold Slice.Holds at held
      rw [attempts, temporaries] at held
      exact kept id a held
  | @begun action replacements config derived a started called replied wrote =>
      refine wrote.holds kept ?_
      have current : a.epoch = (taken.before.slice account).epoch := by rw [started.record]; rfl
      refine ⟨?_, ⟨_, List.mem_cons_of_mem _ List.mem_cons_self, current.symm⟩, config, ?_, ?_⟩
      · rw [started.record]
        exact UInt32.le_refl _
      · rw [current, ← started.enrolled]
        exact fixed.fixed.acted acted (UInt64.le_refl _)
      · rw [started.record]
        constructor <;> simp [collectingAttempt]
  | @submitted config a b c enrolled loaded live state submission graded wrote =>
      refine wrote.holds kept ?_
      have held := Slice.Holds.of_load loaded
      refine (founded a.id a held).rewritten acted (sound.current a.id a held)
        (graded.asBegun.trans submission.asBegun) ?_
      intro config' throughout given
      obtain rfl := throughout.enrolled live enrolled
      have evidence := given.submit acted rfl submission live state (founded a.id a held).1
      rcases graded with rfl | rfl | ⟨executableAfter, expiresAt, met, delay, expiry, rfl⟩
      · exact evidence
      · exact evidence.carry (List.Subset.refl _) rfl rfl rfl
          ⟨fun state => (by cases state), rfl, rfl, rfl⟩
      · exact evidence.authorize met (dated_cons earlier) delay expiry
  | @carried a c loaded live begun guardians nullifier progress forward wrote =>
      refine wrote.holds kept ?_
      have held := Slice.Holds.of_load loaded
      exact (founded a.id a held).progressed acted (sound.current a.id a held) begun guardians
        nullifier progress

end Founded

theorem Run.founded {d : Deployment} {history : History} {now : UInt32} {s : Storage}
    (run : Run d history now s) (account : Address) :
    ∀ id a, (s.slice account).Holds id a →
      Founded d account history now (s.slice account) a := by
  refine (account_invariant account
    (fun history now m => (∀ past ∈ history, past.action.env.sequence ≤ now) ∧
      EpochFixed (sliced account history m) m ∧
      ∀ id a, m.Holds id a → Founded d account history now m a)
    Slice.sound_empty ?_ ?_ ?_ ?_ run).2.2.2
  · exact ⟨by simp, .initial account, by simp [Slice.Holds, Storage.slice, Storage.empty]⟩
  · rintro history now later m ⟨earlier, fixed, founded⟩ forward
    refine ⟨fun past member => UInt32.le_trans (earlier past member) forward, fixed, ?_⟩
    intro id a held
    obtain ⟨created, rest⟩ := founded id a held
    exact ⟨UInt32.le_trans created forward, rest⟩
  · rintro history taken ⟨earlier, fixed, founded⟩ passed
    refine ⟨dated_cons earlier, fixed.passed, ?_⟩
    intro id a held
    obtain ⟨created, ⟨visit, member, begun⟩, config, throughout, evidence⟩ := founded id a held
    exact ⟨created, ⟨visit, List.mem_cons_of_mem _ member, begun⟩, config, throughout.passed,
      evidence.carry (List.subset_cons_self _ _) rfl rfl rfl (.refl a)⟩
  · rintro history taken reply gate ⟨earlier, fixed, founded⟩ sound acted
    exact ⟨dated_cons earlier, fixed.acted acted, acted.founded sound fixed earlier founded⟩

/-- All counted guardians approved one digest. -/
theorem Evidence.one_digest {d : Deployment} {account : Address} {history : History}
    {config : CompiledRecoveryConfig} {a : Attempt} (given : Evidence d account history config a) :
    ∃ digest, ∀ guardian ∈ a.guardians, ∃ set, config.guardians = some set ∧
      guardian ∈ set.guardians ∧
      (initiationStatement d account config a).digest d.sha256 = .ok digest ∧
      ∃ taken ∈ history, ApprovedBy account a.id digest guardian taken ∧
        Timely account a taken := by
  cases hashed : (initiationStatement d account config a).digest d.sha256 with
  | error failure =>
      refine ⟨.fill 0, fun guardian counted => ?_⟩
      obtain ⟨_, _, -, -, impossible, -⟩ := given.approved guardian counted
      rw [hashed] at impossible
      cases impossible
  | ok digest =>
      refine ⟨digest, fun guardian counted => ?_⟩
      obtain ⟨set, own, enrolled, member, same, rest⟩ := given.approved guardian counted
      rw [hashed] at same
      cases same
      exact ⟨set, enrolled, member, rfl, rest⟩

/-- Whenever an attempt is authorized, the configuration of its epoch was met:
a quorum of distinct guardians each authorized the digest of its initiation
statement, and the adapter accepted a proof of that statement with the
recorded nullifier, all within its evidence window. -/
theorem authorization_sound {d : Deployment} {history : History} {now : UInt32} {s : Storage}
    (run : Run d history now s) (account : Address) (id : UInt64) (a : Attempt)
    (stored : load now s account id = some a) (authorized : a.state = .authorized) :
    a.id = id ∧
    (∃ visit ∈ visited history s, epochOf visit account = a.epoch) ∧ ∃ config,
      (∀ visit ∈ visited history s, epochOf visit account = a.epoch →
        visit.config account = some config) ∧
      (∀ set, config.guardians = some set → ∃ digest, ∃ approvers : List Address, approvers.Nodup ∧
        set.quorum.toNat ≤ approvers.length ∧
        ∀ guardian ∈ approvers, guardian ∈ set.guardians ∧
          (initiationStatement d account config a).digest d.sha256 = .ok digest ∧
          ∃ taken ∈ history, ApprovedBy account id digest guardian taken ∧
            Timely account a taken) ∧
      ∀ factor, config.zk = some factor → ∃ nullifier, a.zkNullifier = some nullifier ∧
        ∃ taken ∈ history,
          ProvedBy account id (initiationStatement d account config a) factor nullifier taken ∧
            Timely account a taken := by
  have held : (s.slice account).Holds id a := .of_load stored
  have own : a.id = id := (run.sound account).keyed id a held
  subst own
  obtain ⟨-, ⟨visit, member, begun⟩, config, throughout, evidence⟩ :=
    run.founded account a.id a held
  have met := evidence.met authorized
  simp only [initiationMet, Bool.and_eq_true, Option.all_eq_true, decide_eq_true_eq] at met
  refine ⟨rfl, ?_, config, ?_, ?_, ?_⟩
  · rcases List.mem_cons.mp member with rfl | member
    · exact ⟨s, List.mem_cons_self, begun⟩
    · obtain ⟨taken, past, rfl⟩ := List.mem_map.mp member
      exact ⟨taken.before, List.mem_cons_of_mem _ (List.mem_map.mpr ⟨taken, past, rfl⟩), begun⟩
  · intro visit member current
    exact throughout _ (mem_sliced member) current
  · intro set enrolled
    obtain ⟨digest, approvals⟩ := evidence.one_digest
    refine ⟨digest, a.guardians, evidence.distinct, met.1 set enrolled, ?_⟩
    intro guardian counted
    obtain ⟨own, enrolled', member, hashed, approved⟩ := approvals guardian counted
    rw [enrolled] at enrolled'
    cases enrolled'
    exact ⟨member, hashed, approved⟩
  · intro factor enrolled
    obtain ⟨nullifier, recorded⟩ := Option.isSome_iff_exists.mp (met.2 factor enrolled)
    obtain ⟨own, enrolled', proved⟩ := evidence.proved nullifier recorded
    rw [enrolled] at enrolled'
    cases enrolled'
    exact ⟨nullifier, recorded, proved⟩

theorem authorization_sound_sample :
    ∃ a, load 104 Sample.reached Sample.account 0 = some a ∧ a.state = .authorized ∧
      a.zkNullifier = some Sample.evidence.nullifier ∧ a.id = 0 := by
  obtain ⟨a, stored⟩ : ∃ a, load 104 Sample.reached Sample.account 0 = some a :=
    Option.isSome_iff_exists.mp (by decide +kernel)
  have state : (load 104 Sample.reached Sample.account 0).map (·.state) = some .authorized := by
    decide +kernel
  have nullifier : (load 104 Sample.reached Sample.account 0).map (·.zkNullifier) =
      some (some Sample.evidence.nullifier) := by
    decide +kernel
  rw [stored] at state nullifier
  have authorized : a.state = .authorized := Option.some.inj state
  exact ⟨a, stored, authorized, Option.some.inj nullifier,
    (authorization_sound Sample.run Sample.account 0 a stored authorized).1⟩

end Perch.Recovery
