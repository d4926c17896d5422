/-
Cancellation accounting.

The count of cancellations belongs to an account for its lifetime, while the
cap on it belongs to the configuration of the day.  One kind of call counts:
evidence that meets the condition against an authorized attempt.  The evidence
itself is kept in the attempt's record from its beginning to its end, whatever
becomes of the attempt in between.
-/

import Perch.Recovery.Nullifier

namespace Perch.Recovery

open Machine Document

/-- The lifetime count of an account's counted cancellations. -/
def Slice.cancelCount (m : Slice) : UInt32 := m.cancels.getD 0

/-! ### Evidence for a cancellation -/

section Evidence

variable {d : Deployment} {e : Env} {account : Address} {m m' : Slice} {call : Call}
  {reply : Reply} {gate : Option GateCall}

/-- One call gives one piece of evidence for one attempt. -/
theorem Submission.unique {config config' : CompiledRecoveryConfig} {a a' b b' : Attempt}
    {domain domain' : EvidenceDomain} {now : UInt32}
    (submitted : Submission d e account m config a domain call b)
    (submitted' : Submission d e account m config' a' domain' call b')
    (loaded : m.load now a.id = some a) (loaded' : m.load now a'.id = some a') :
    a' = a ∧ domain' = domain ∧ b' = b := by
  cases submitted with
  | guardian =>
      generalize named : Call.submitGuardian account a.id domain _ = call at submitted'
      cases submitted' with
      | guardian =>
          simp only [Call.submitGuardian.injEq] at named
          obtain ⟨_, ids, rfl, rfl⟩ := named
          rw [← ids, loaded] at loaded'
          obtain rfl := Option.some.inj loaded'
          exact ⟨rfl, rfl, rfl⟩
      | zk => cases named
  | zk =>
      generalize named : Call.submitZk account a.id domain _ = call at submitted'
      cases submitted' with
      | guardian => cases named
      | zk =>
          simp only [Call.submitZk.injEq] at named
          obtain ⟨_, ids, rfl, rfl⟩ := named
          rw [← ids, loaded] at loaded'
          obtain rfl := Option.some.inj loaded'
          exact ⟨rfl, rfl, rfl⟩

/-- What evidence for a cancellation comes to: it is recorded, or it cancels
the attempt it is about, counted if that was authorized. -/
inductive Cancelling (e : Env) (m : Slice) (config : CompiledRecoveryConfig) (a b : Attempt)
    (m' : Slice) : Prop where
  | waiting (unmet : cancellationMet config b = false) (kept : m'.cancels = m.cancels)
      (wrote : Wrote e m m' b)
  | uncounted (met : cancellationMet config b = true) (state : a.state = .collecting)
      (kept : m'.cancels = m.cancels) (wrote : Wrote e m m' { b with state := .cancelled })
  | counted {next : UInt32} (met : cancellationMet config b = true)
      (state : a.state = .authorized) (capped : m.cancelCount < config.maxCancels)
      (advanced : checkedSucc32 m.cancelCount = some next) (grown : m'.cancels = some next)
      (wrote : Wrote e m m' { b with state := .cancelled })

theorem Transition.cancelling {config : CompiledRecoveryConfig} {a b : Attempt}
    (transition : Transition d e account m call reply gate m')
    (enrolled : m.config = some config) (loaded : m.load e.sequence a.id = some a)
    (submitted : Submission d e account m config a .cancel call b) :
    Cancelling e m config a b m' := by
  have named := submitted.call_eq
  cases transition with
  | @cancelledCollecting config' a' b' _ _ enrolled' loaded' _ state cause =>
      obtain rfl := Option.some.inj (enrolled.symm.trans enrolled')
      cases cause with
      | owner => rcases named with ⟨_, other⟩ | ⟨_, other⟩ <;> cases other
      | evidence submitted' met =>
          obtain ⟨rfl, _, rfl⟩ := submitted.unique submitted' loaded loaded'
          exact .uncounted met state rfl ⟨rfl, rfl⟩
  | @cancelledAuthorized config' a' b' _ _ enrolled' loaded' _ state cause _ =>
      obtain rfl := Option.some.inj (enrolled.symm.trans enrolled')
      cases cause with
      | owner => rcases named with ⟨_, other⟩ | ⟨_, other⟩ <;> cases other
      | evidence submitted' met counted =>
          obtain ⟨rfl, _, rfl⟩ := submitted.unique submitted' loaded loaded'
          obtain ⟨capped, next, advanced, grown⟩ := counted state
          exact .counted met state capped advanced grown ⟨rfl, rfl⟩
  | @recorded config' a' b' domain _ enrolled' loaded' _ _ submitted' unmet =>
      obtain rfl := Option.some.inj (enrolled.symm.trans enrolled')
      obtain ⟨rfl, rfl, rfl⟩ := submitted.unique submitted' loaded loaded'
      exact .waiting unmet rfl ⟨rfl, rfl⟩
  | invalidated _ loaded' _ _ submitted' =>
      obtain ⟨_, other, _⟩ := submitted.unique submitted' loaded loaded'
      cases other
  | authorized _ loaded' _ _ submitted' =>
      obtain ⟨_, other, _⟩ := submitted.unique submitted' loaded loaded'
      cases other
  | begun _ known =>
      rcases known with rfl | rfl <;> rcases named with ⟨_, other⟩ | ⟨_, other⟩ <;> cases other
  | _ => rcases named with ⟨_, other⟩ | ⟨_, other⟩ <;> cases other

/-- Only counted evidence moves the count. -/
theorem Transition.cancelCount_kept (transition : Transition d e account m call reply gate m') :
    m'.cancels = m.cancels ∨ ∃ config a b, m.config = some config ∧
      m.load e.sequence a.id = some a ∧ m.Live e.sequence a ∧ a.state = .authorized ∧
      Submission d e account m config a .cancel call b ∧ cancellationMet config b = true := by
  cases transition with
  | cancelledAuthorized enrolled loaded live state cause _ =>
      cases cause with
      | owner => exact .inl rfl
      | evidence submitted met =>
          exact .inr ⟨_, _, _, enrolled, loaded, live, state, submitted, met⟩
  | classified _ _ settled =>
      have dropped := Slice.takeMarker_eq e.sequence m
      generalize (m.takeMarker e.sequence).completing = completing at dropped
      rw [dropped] at settled
      cases settled <;> exact .inl rfl
  | _ => exact .inl rfl

theorem Transition.cancelCount_le (transition : Transition d e account m call reply gate m') :
    m.cancelCount ≤ m'.cancelCount := by
  rcases transition.cancelCount_kept with
    kept | ⟨config, a, b, enrolled, loaded, _, state, submitted, met⟩
  · rw [Slice.cancelCount, Slice.cancelCount, kept]
  · cases transition.cancelling enrolled loaded submitted with
    | waiting unmet =>
        rw [met] at unmet
        cases unmet
    | uncounted _ collecting =>
        rw [state] at collecting
        cases collecting
    | @counted next _ _ _ advanced grown =>
        have larger := checkedSucc32_eq_some.mp advanced
        have after : m'.cancelCount = next := by
          rw [Slice.cancelCount, grown]
          rfl
        rw [after, UInt32.le_iff_toNat_le]
        omega

theorem Transition.owner_loss {id : UInt64}
    (transition : Transition d e account m call reply gate m')
    (named : call = .rcvCancel account id) :
    ∃ config, m.config = some config ∧ config.profile = .loss := by
  have other : ∀ {config : CompiledRecoveryConfig} {a b : Attempt} {domain : EvidenceDomain},
      ¬Submission d e account m config a domain call b := by
    intro config a b domain submitted
    rcases submitted.call_eq with ⟨_, same⟩ | ⟨_, same⟩ <;> rw [same] at named <;> cases named
  cases transition with
  | cancelledCollecting enrolled _ _ _ cause =>
      cases cause with
      | owner _ loss => exact ⟨_, enrolled, loss⟩
      | evidence submitted => exact absurd submitted other
  | cancelledAuthorized enrolled _ _ _ cause =>
      cases cause with
      | owner _ loss => exact ⟨_, enrolled, loss⟩
      | evidence submitted => exact absurd submitted other
  | recorded _ _ _ _ submitted => exact absurd submitted other
  | invalidated _ _ _ _ submitted => exact absurd submitted other
  | authorized _ _ _ _ submitted => exact absurd submitted other
  | begun _ known => rcases known with rfl | rfl <;> cases named
  | _ => cases named

end Evidence

/-! ### The record of the evidence -/

/-- A later record of an attempt holds the evidence of an earlier one. -/
structure EvidenceKept (a c : Attempt) : Prop where
  guardians : a.cancelGuardians <+: c.cancelGuardians
  zk : a.cancelZk = true → c.cancelZk = true

theorem EvidenceKept.refl (a : Attempt) : EvidenceKept a a :=
  ⟨List.prefix_rfl, id⟩

theorem EvidenceKept.trans {a b c : Attempt} (first : EvidenceKept a b)
    (second : EvidenceKept b c) : EvidenceKept a c :=
  ⟨first.guardians.trans second.guardians, fun given => second.zk (first.zk given)⟩

section Records

variable {d : Deployment} {e : Env} {account : Address} {m m' : Slice} {call : Call}
  {reply : Reply} {gate : Option GateCall}

theorem Submission.evidenceKept {config : CompiledRecoveryConfig} {a b : Attempt}
    {domain : EvidenceDomain} (submitted : Submission d e account m config a domain call b) :
    EvidenceKept a b ∧ (a.cancelGuardians.Nodup → b.cancelGuardians.Nodup) := by
  cases submitted with
  | @guardian _ guardian _ _ _ _ fresh =>
      cases domain with
      | initiate => exact ⟨⟨List.prefix_rfl, id⟩, id⟩
      | cancel =>
          refine ⟨⟨List.prefix_append _ _, id⟩, ?_⟩
          intro distinct
          refine List.nodup_append.mpr ⟨distinct, by simp, ?_⟩
          rintro g counted h single rfl
          exact fresh (List.mem_singleton.mp single ▸ counted)
  | zk =>
      cases domain with
      | initiate => exact ⟨⟨List.prefix_rfl, id⟩, id⟩
      | cancel => exact ⟨⟨List.prefix_rfl, fun _ => rfl⟩, id⟩

/-- A call writes at most one record: a new one without evidence, or the next
one of a live attempt, with all the evidence it had. -/
inductive EvidenceEffect (e : Env) (m m' : Slice) : Prop where
  | kept (attempts : m'.attempt = m.attempt) (temporaries : m'.collecting = m.collecting)
  | begun {c : Attempt} (own : c.id = m.nextAttempt) (fresh : c.cancelGuardians = [])
      (wrote : Wrote e m m' c)
  | carried {a c : Attempt} (loaded : m.load e.sequence a.id = some a) (own : c.id = a.id)
      (evidence : EvidenceKept a c)
      (distinct : a.cancelGuardians.Nodup → c.cancelGuardians.Nodup) (wrote : Wrote e m m' c)

theorem Transition.evidenceEffect (transition : Transition d e account m call reply gate m')
    (sound : m.Sound e.sequence) : EvidenceEffect e m m' := by
  cases transition with
  | @completed _ _ _ _ a _ _ _ _ _ _ _ found =>
      exact .carried (c := { a with state := .completed }) (sound.load_of_authorized found) rfl
        ⟨List.prefix_rfl, id⟩ id ⟨rfl, rfl⟩
  | classified _ _ settled =>
      have dropped := Slice.takeMarker_eq e.sequence m
      generalize (m.takeMarker e.sequence).completing = completing at dropped
      rw [dropped] at settled
      cases settled <;> exact .kept rfl rfl
  | @cancelledCollecting _ a b _ _ _ loaded _ _ cause =>
      cases cause with
      | owner =>
          exact .carried (c := { a with state := .cancelled }) loaded rfl
            ⟨List.prefix_rfl, id⟩ id ⟨rfl, rfl⟩
      | evidence submitted =>
          obtain ⟨⟨guardians, zk⟩, distinct⟩ := submitted.evidenceKept
          exact .carried (c := { b with state := .cancelled }) loaded submitted.id_eq
            ⟨guardians, zk⟩ distinct ⟨rfl, rfl⟩
  | @cancelledAuthorized _ a b _ _ _ loaded _ _ cause _ =>
      cases cause with
      | owner =>
          exact .carried (c := { a with state := .cancelled }) loaded rfl
            ⟨List.prefix_rfl, id⟩ id ⟨rfl, rfl⟩
      | evidence submitted =>
          obtain ⟨⟨guardians, zk⟩, distinct⟩ := submitted.evidenceKept
          exact .carried (c := { b with state := .cancelled }) loaded submitted.id_eq
            ⟨guardians, zk⟩ distinct ⟨rfl, rfl⟩
  | begun started _ _ =>
      have record := started.record
      refine .begun ?_ ?_ ⟨rfl, rfl⟩
      · rw [record]
        rfl
      · rw [record]
        rfl
  | recorded _ loaded _ _ submitted _ =>
      obtain ⟨kept, distinct⟩ := submitted.evidenceKept
      exact .carried loaded submitted.id_eq kept distinct ⟨rfl, rfl⟩
  | @invalidated _ a b _ _ loaded _ _ submitted _ _ _ =>
      obtain ⟨⟨guardians, zk⟩, distinct⟩ := submitted.evidenceKept
      exact .carried (c := { b with state := .invalidated }) loaded submitted.id_eq
        ⟨guardians, zk⟩ distinct ⟨rfl, rfl⟩
  | @authorized _ a b _ executableAfter expiresAt _ loaded _ _ submitted _ _ _ _ _ _ =>
      obtain ⟨⟨guardians, zk⟩, distinct⟩ := submitted.evidenceKept
      exact .carried (c := b.authorize e.sequence executableAfter expiresAt) loaded
        submitted.id_eq ⟨guardians, zk⟩ distinct ⟨rfl, rfl⟩
  | scheduled | upgraded | installed | uninstalled | renewed | enforced | approved | proved
  | published => exact .kept rfl rfl

theorem Slice.Sound.holds_unique {now : UInt32} {id : UInt64} {a b : Attempt}
    (sound : m.Sound now) (first : m.Holds id a) (second : m.Holds id b) : a = b := by
  rcases first with stored | ⟨entry, present, rfl⟩ <;>
    rcases second with stored' | ⟨entry', present', rfl⟩
  · exact Option.some.inj (stored.symm.trans stored')
  · rw [sound.single id a stored] at present'
    cases present'
  · rw [sound.single id b stored'] at present
    cases present
  · rw [present] at present'
    cases present'
    rfl

theorem Wrote.holds_cases {c : Attempt} (wrote : Wrote e m m' c) {id : UInt64} {a : Attempt}
    (held : m'.Holds id a) : id = c.id ∧ a = c ∨ id ≠ c.id ∧ m.Holds id a := by
  have written : (m.put e c).Holds id a := by
    unfold Slice.Holds at held
    rw [wrote.attempts, wrote.temporaries] at held
    exact held
  rw [Slice.holds_put] at written
  by_cases own : id = c.id
  · rw [if_pos own] at written
    exact .inl ⟨own, written⟩
  · rw [if_neg own] at written
    exact .inr ⟨own, written⟩

/-- A record after a call is new, or holds what the attempt's record before it
held. -/
theorem EvidenceEffect.earlier (effect : EvidenceEffect e m m') {id : UInt64} {c : Attempt}
    (held : m'.Holds id c) :
    id = m.nextAttempt ∧ c.cancelGuardians = [] ∨ ∃ a, m.Holds id a ∧ EvidenceKept a c ∧
      (a.cancelGuardians.Nodup → c.cancelGuardians.Nodup) := by
  cases effect with
  | kept attempts temporaries =>
      unfold Slice.Holds at held
      rw [attempts, temporaries] at held
      exact .inr ⟨c, held, .refl c, fun distinct => distinct⟩
  | begun own fresh wrote =>
      rcases wrote.holds_cases held with ⟨rfl, rfl⟩ | ⟨_, held⟩
      · exact .inl ⟨own, fresh⟩
      · exact .inr ⟨c, held, .refl c, fun distinct => distinct⟩
  | carried loaded own evidence distinct wrote =>
      rcases wrote.holds_cases held with ⟨rfl, rfl⟩ | ⟨_, held⟩
      · exact .inr ⟨_, own ▸ .of_load loaded, evidence, distinct⟩
      · exact .inr ⟨c, held, .refl c, fun distinct => distinct⟩

end Records

/-- What a run keeps of the evidence for cancellations: nobody counts twice in
a record, and later records hold the evidence of earlier ones. -/
structure EvidenceLasting (account : Address) (history : History) (m : Slice) : Prop where
  distinct : ∀ id a, m.Holds id a → a.cancelGuardians.Nodup
  known : ∀ past ∈ history, ∀ id a, (past.before.slice account).Holds id a → id < m.nextAttempt
  kept : ∀ past ∈ history, ∀ id a c, (past.before.slice account).Holds id a → m.Holds id c →
    EvidenceKept a c

theorem Run.evidenceLasting {d : Deployment} {history : History} {now : UInt32} {s : Storage}
    (run : Run d history now s) (account : Address) :
    EvidenceLasting account history (s.slice account) := by
  refine (account_invariant account
    (fun history now m => m.Sound now ∧ EvidenceLasting account history m)
    Slice.sound_empty ?_ ?_ ?_ ?_ run).2.2
  · refine ⟨Slice.sound_empty account, ?_, by simp, by simp⟩
    simp [Slice.Holds, Storage.slice, Storage.empty]
  · rintro history now later m ⟨sound, lasting⟩ forward
    exact ⟨sound.later forward, lasting⟩
  · rintro history taken ⟨sound, lasting⟩ passed
    refine ⟨sound, lasting.distinct, ?_, ?_⟩
    · intro past member id a held
      rcases List.mem_cons.mp member with rfl | member
      · exact sound.begun id a held
      · exact lasting.known past member id a held
    · intro past member id a c held later
      rcases List.mem_cons.mp member with rfl | member
      · rw [sound.holds_unique held later]
        exact .refl c
      · exact lasting.kept past member id a c held later
  · rintro history taken reply gate ⟨_, lasting⟩ sound acted
    have effect := acted.transition.evidenceEffect sound
    have moved := acted.transition.move
    refine ⟨sound.move moved, ?_, ?_, ?_⟩
    · intro id c held
      rcases effect.earlier held with ⟨_, fresh⟩ | ⟨a, held, _, distinct⟩
      · rw [fresh]
        exact List.nodup_nil
      · exact distinct (lasting.distinct id a held)
    · intro past member id a held
      refine UInt64.lt_of_lt_of_le ?_ moved.nextAttempt_le
      rcases List.mem_cons.mp member with rfl | member
      · exact sound.begun id a held
      · exact lasting.known past member id a held
    · intro past member id a c held later
      have old : id < (taken.before.slice account).nextAttempt := by
        rcases List.mem_cons.mp member with rfl | member
        · exact sound.begun id a held
        · exact lasting.known past member id a held
      rcases effect.earlier later with ⟨new, _⟩ | ⟨b, between, step, _⟩
      · rw [new] at old
        exact absurd old (UInt64.lt_irrefl _)
      · rcases List.mem_cons.mp member with rfl | member
        · rw [sound.holds_unique held between]
          exact step
        · exact (lasting.kept past member id a b held between).trans step

/-! ### Refusals -/

def Capped (failure : Failure) : Prop :=
  failure = .refused .maxCancelsReached

theorem cancel_uncapped {e : Env} {s : Storage} {account : Address}
    {config : CompiledRecoveryConfig} {a : Attempt} {counted : Bool}
    (free : ¬(counted = true ∧ a.state = .authorized)) :
    Avoids Capped (cancel e s account config a counted) := by
  refine .bind (.ite (fun counts => absurd counts free) fun _ => .pure _) fun s _ => ?_
  refine .ite (fun _ => .ite (fun _ => ?_) fun _ => .pure _) fun _ => .pure _
  exact .bind (.orFail fun _ => by simp [Capped]) fun _ _ => .pure _

theorem capped_late (failure : Failure) (capped : Capped failure) : failure ∈ lateRefusals := by
  rw [capped]
  decide

theorem rcvCancel_uncapped {e : Env} {s : Storage} {account : Address} {id : UInt64} :
    Avoids Capped (rcvCancel e s account id) := by
  refine .bind (.require fun _ => by simp [Capped]) fun _ _ => ?_
  refine .bind (.orFail fun _ => by simp [Capped]) fun config _ => ?_
  refine .bind (.require fun _ => by simp [Capped]) fun _ _ => ?_
  exact .bind (loadLive_avoids capped_late _ _ _ _) fun a _ => cancel_uncapped (by simp)

theorem afterEvidence_uncapped {e : Env} {s : Storage} {account : Address}
    {config : CompiledRecoveryConfig} {b : Attempt} (collecting : b.state = .collecting) :
    Avoids Capped (afterEvidence e s account config b .cancel) := by
  refine .ite (fun _ => cancel_uncapped ?_) fun _ => .pure _
  simp [collecting]

section Uncapped

variable {d : Deployment} {e : Env} {s : Storage} {account : Address} {id : UInt64} {a : Attempt}
  (loaded : (s.slice account).load e.sequence id = some a) (collecting : a.state = .collecting)

include loaded collecting

theorem submitGuardian_uncapped (guardian : Address) :
    Avoids Capped (submitGuardian d e s account id .cancel guardian) := by
  refine submitGuardian_avoids capped_late ?_ ?_ guardian
  · intro config b asked _ _ _ _ _
    exact checkFresh_avoids capped_late (by simp [Capped]) e asked
  · intro config b c _ loaded' _ _ state
    obtain rfl := Option.some.inj (loaded.symm.trans loaded')
    exact afterEvidence_uncapped (state.trans collecting)

theorem submitZk_uncapped (evidence : ZkEvidence) :
    Avoids Capped (submitZk d e s account id .cancel evidence) := by
  refine submitZk_avoids capped_late ?_ ?_ evidence
  · intro config b asked _ _ _ _ _
    exact checkFresh_avoids capped_late (by simp [Capped]) e asked
  · intro config b c _ loaded' _ _ state
    obtain rfl := Option.some.inj (loaded.symm.trans loaded')
    exact afterEvidence_uncapped (state.trans collecting)

end Uncapped

theorem Run.step_error {d : Deployment} {history : History} {now : UInt32} {s : Storage}
    (run : Run d history now s) {taken : ControllerStep} (member : taken ∈ history)
    {failure : Failure} (refused : taken.reply = .error failure) :
    execute d taken.action.env taken.before taken.action.call = .error failure ∧
      taken.after = taken.before := by
  obtain ⟨later, earlier, rfl⟩ := List.append_of_mem member
  obtain ⟨executed, -⟩ := Execution.split later run
  cases called : execute d taken.action.env taken.before taken.action.call with
  | ok outcome =>
      rw [executed] at refused
      simp [System.step, controller, called] at refused
  | error cause =>
      rw [executed] at refused
      simp only [System.step, controller, called] at refused
      cases refused
      refine ⟨rfl, ?_⟩
      rw [executed]
      simp [System.step, controller, called]

/-! ### Cancellation accounting -/

/-- A successful call cancelled a live authorized attempt on evidence that met
the enrolled condition with it. -/
structure CountedCancel (d : Deployment) (account : Address) (taken : ControllerStep)
    (config : CompiledRecoveryConfig) (a b : Attempt) : Prop where
  accepted : ∃ answer, taken.reply = .ok answer
  enrolled : taken.before.config account = some config
  found : authorizedLive taken.action.env.sequence taken.before account = some a
  submitted : Submission d taken.action.env account (taken.before.slice account) config a .cancel
    taken.action.call b
  met : cancellationMet config b = true

theorem CountedCancel.counts {d : Deployment} {history : History} {now : UInt32} {s : Storage}
    {account : Address} {taken : ControllerStep} {config : CompiledRecoveryConfig} {a b : Attempt}
    (run : Run d history now s) (member : taken ∈ history)
    (counted : CountedCancel d account taken config a b) :
    (taken.before.slice account).cancelCount < config.maxCancels ∧
      checkedSucc32 (taken.before.slice account).cancelCount =
        some (taken.after.slice account).cancelCount := by
  obtain ⟨sound, passed | ⟨reply, gate, acted⟩⟩ := run.taken member account
  · have named : taken.action.call.account = account := by
      rcases counted.submitted.call_eq with ⟨_, same⟩ | ⟨_, same⟩ <;> rw [same] <;> rfl
    obtain ⟨failure, refused⟩ := passed.silent named
    obtain ⟨answer, accepted⟩ := counted.accepted
    rw [refused] at accepted
    cases accepted
  · have found := authorizedLive_eq_some.mp counted.found
    obtain ⟨authorized, -⟩ := sound.authorized_state found
    have cancelling := acted.transition.cancelling counted.enrolled
      (sound.load_of_authorized found) counted.submitted
    cases cancelling with
    | waiting unmet =>
        rw [counted.met] at unmet
        cases unmet
    | uncounted _ state =>
        rw [authorized] at state
        cases state
    | counted _ _ capped advanced grown =>
        refine ⟨capped, ?_⟩
        rw [advanced, Slice.cancelCount, grown]
        rfl

/-- A step that moves the count is a counted cancellation. -/
theorem Run.countedCancel {d : Deployment} {history : History} {now : UInt32} {s : Storage}
    (run : Run d history now s) {taken : ControllerStep} (member : taken ∈ history)
    (account : Address) :
    (taken.after.slice account).cancels = (taken.before.slice account).cancels ∨
      ∃ config a b, CountedCancel d account taken config a b := by
  obtain ⟨sound, passed | ⟨reply, gate, acted⟩⟩ := run.taken member account
  · left
    rw [passed.kept]
  · rcases acted.transition.cancelCount_kept with
      kept | ⟨config, a, b, enrolled, loaded, live, state, submitted, met⟩
    · exact .inl kept
    · right
      have found := sound.authorized_of_live (.of_load loaded) state live
      exact ⟨config, a, b, ⟨_, acted.replied⟩, enrolled, authorizedLive_eq_some.mpr found,
        submitted, met⟩

theorem Run.cancelCount_le {d : Deployment} {history : History} {now : UInt32} {s : Storage}
    (run : Run d history now s) (account : Address) :
    ∀ past ∈ history, (past.before.slice account).cancelCount ≤
        (past.after.slice account).cancelCount ∧
      (past.after.slice account).cancelCount ≤ (s.slice account).cancelCount := by
  refine (account_invariant account
    (fun history _ m => ∀ past ∈ history, (past.before.slice account).cancelCount ≤
        (past.after.slice account).cancelCount ∧
      (past.after.slice account).cancelCount ≤ m.cancelCount)
    Slice.sound_empty ?_ ?_ ?_ ?_ run).2
  · simp
  · intro history now later m known _
    exact known
  · intro history taken known passed past member
    rcases List.mem_cons.mp member with rfl | member
    · rw [passed.kept]
      exact ⟨UInt32.le_refl _, UInt32.le_refl _⟩
    · exact known past member
  · intro history taken reply gate known sound acted past member
    have grown := acted.transition.cancelCount_le
    rcases List.mem_cons.mp member with rfl | member
    · exact ⟨grown, UInt32.le_refl _⟩
    · obtain ⟨step, rest⟩ := known past member
      exact ⟨step, UInt32.le_trans rest grown⟩

/-- In every run the count of an account's cancellations never decreases; it
grows, and by one, exactly when evidence that meets the condition cancels a
live authorized attempt, below the cap of the day.  The owner's cancellation
and that of a collecting attempt are not counted and not refused for the cap; a
cancellation that is refused for it leaves everything as it was.  Evidence for
a cancellation stays with its attempt from phase to phase, no guardian counts
twice, and it is the whole of it that decides. -/
theorem cancellation_accounting {d : Deployment} {history : History} {now : UInt32} {s : Storage}
    (run : Run d history now s) (account : Address) :
    (∀ taken ∈ history,
      (taken.before.slice account).cancelCount ≤ (taken.after.slice account).cancelCount ∧
      (taken.after.slice account).cancelCount ≤ (s.slice account).cancelCount) ∧
    (∀ taken ∈ history,
      ((taken.after.slice account).cancelCount ≠ (taken.before.slice account).cancelCount ↔
        ∃ config a b, CountedCancel d account taken config a b) ∧
      ∀ config a b, CountedCancel d account taken config a b →
        (taken.before.slice account).cancelCount < config.maxCancels ∧
        (taken.after.slice account).cancelCount.toNat =
          (taken.before.slice account).cancelCount.toNat + 1) ∧
    (∀ taken ∈ history, ∀ id, taken.action.call = .rcvCancel account id →
      taken.reply ≠ .error (.refused .maxCancelsReached) ∧
      (taken.after.slice account).cancelCount = (taken.before.slice account).cancelCount ∧
      ∀ answer, taken.reply = .ok answer →
        ∃ config, taken.before.config account = some config ∧ config.profile = .loss) ∧
    (∀ taken ∈ history, ∀ id a,
      ((∃ guardian, taken.action.call = .submitGuardian account id .cancel guardian) ∨
        ∃ evidence, taken.action.call = .submitZk account id .cancel evidence) →
      load taken.action.env.sequence taken.before account id = some a → a.state = .collecting →
      taken.reply ≠ .error (.refused .maxCancelsReached) ∧
      (taken.after.slice account).cancelCount = (taken.before.slice account).cancelCount) ∧
    (∀ taken ∈ history, taken.reply = .error (.refused .maxCancelsReached) →
      taken.after = taken.before) ∧
    EvidenceLasting account history (s.slice account) ∧
    ∀ taken ∈ history, ∀ config a b answer, taken.reply = .ok answer →
      taken.before.config account = some config →
      load taken.action.env.sequence taken.before account a.id = some a →
      Submission d taken.action.env account (taken.before.slice account) config a .cancel
        taken.action.call b →
      Wrote taken.action.env (taken.before.slice account) (taken.after.slice account)
        (if cancellationMet config b = true then { b with state := .cancelled } else b) := by
  have kept_of : ∀ taken ∈ history, (∀ config a b, ¬CountedCancel d account taken config a b) →
      (taken.after.slice account).cancelCount = (taken.before.slice account).cancelCount := by
    intro taken member uncounted
    rcases run.countedCancel member account with kept | ⟨config, a, b, counted⟩
    · rw [Slice.cancelCount, kept]
      rfl
    · exact absurd counted (uncounted config a b)
  have acted_of : ∀ taken ∈ history, taken.action.call.account = account →
      ∀ answer, taken.reply = .ok answer → ∃ reply gate, Acted d account taken reply gate := by
    intro taken member named answer replied
    rcases (run.taken member account).2 with passed | acted
    · obtain ⟨failure, refused⟩ := passed.silent named
      rw [replied] at refused
      cases refused
    · exact acted
  refine ⟨run.cancelCount_le account, ?_, ?_, ?_, ?_, run.evidenceLasting account, ?_⟩
  · intro taken member
    have grows : ∀ config a b, CountedCancel d account taken config a b →
        (taken.before.slice account).cancelCount < config.maxCancels ∧
        (taken.after.slice account).cancelCount.toNat =
          (taken.before.slice account).cancelCount.toNat + 1 := by
      intro config a b counted
      obtain ⟨capped, advanced⟩ := counted.counts run member
      exact ⟨capped, checkedSucc32_eq_some.mp advanced⟩
    refine ⟨⟨?_, ?_⟩, grows⟩
    · intro moved
      by_contra uncounted
      exact moved (kept_of taken member fun config a b counted =>
        uncounted ⟨config, a, b, counted⟩)
    · rintro ⟨config, a, b, counted⟩ same
      have larger := (grows config a b counted).2
      rw [same] at larger
      omega
  · intro taken member id called
    refine ⟨?_, ?_, ?_⟩
    · intro refused
      have raised := (run.step_error member refused).1
      rw [called] at raised
      have avoided : Avoids Capped
          (execute d taken.action.env taken.before (.rcvCancel account id)) :=
        .bind rcvCancel_uncapped fun _ _ => .pure _
      exact avoided _ raised rfl
    · apply kept_of taken member
      intro config a b counted
      rcases counted.submitted.call_eq with ⟨_, same⟩ | ⟨_, same⟩ <;>
        rw [called] at same <;> cases same
    · intro answer replied
      obtain ⟨reply, gate, acted⟩ := acted_of taken member (by rw [called]; rfl) answer replied
      exact acted.transition.owner_loss called
  · intro taken member id a called loaded collecting
    refine ⟨?_, ?_⟩
    · intro refused
      have raised := (run.step_error member refused).1
      rcases called with ⟨guardian, same⟩ | ⟨evidence, same⟩
      · rw [same] at raised
        have avoided : Avoids Capped (execute d taken.action.env taken.before
            (.submitGuardian account id .cancel guardian)) :=
          .bind (submitGuardian_uncapped loaded collecting guardian) fun _ _ => .pure _
        exact avoided _ raised rfl
      · rw [same] at raised
        have avoided : Avoids Capped (execute d taken.action.env taken.before
            (.submitZk account id .cancel evidence)) :=
          .bind (submitZk_uncapped loaded collecting evidence) fun _ _ => .pure _
        exact avoided _ raised rfl
    · apply kept_of taken member
      intro config b c counted
      have sound := (run.taken member account).1
      have found := authorizedLive_eq_some.mp counted.found
      obtain ⟨authorized, -, stored, -⟩ := sound.authorized_state found
      have own : b.id = id := by
        rcases counted.submitted.call_eq with ⟨_, same⟩ | ⟨_, same⟩ <;>
          rcases called with ⟨_, same'⟩ | ⟨_, same'⟩ <;> rw [same] at same' <;> cases same' <;> rfl
      rw [own] at stored
      have same := sound.load_holds loaded (.inl stored)
      rw [same, collecting] at authorized
      cases authorized
  · intro taken member refused
    exact (run.step_error member refused).2
  · intro taken member config a b answer replied enrolled loaded submitted
    have named : taken.action.call.account = account := by
      rcases submitted.call_eq with ⟨_, same⟩ | ⟨_, same⟩ <;> rw [same] <;> rfl
    obtain ⟨reply, gate, acted⟩ := acted_of taken member named answer replied
    cases acted.transition.cancelling enrolled loaded submitted with
    | waiting unmet _ wrote =>
        rw [if_neg (by simp [unmet])]
        exact wrote
    | uncounted met _ _ wrote =>
        rw [if_pos met]
        exact wrote
    | counted met _ _ _ _ wrote =>
        rw [if_pos met]
        exact wrote

namespace Sample

/-- One guardian asks for the cancellation while the attempt collects, the
other and the proof after it is authorized. -/
def cancellingCalls : List Invocation :=
  [invoke 100 (.rcvSync account (sha256 source) [config] 0),
   invoke 101 (.beginLostKey account replacements),
   invoke 102 (.submitGuardian account 0 .initiate guardian),
   invoke 102 (.submitGuardian account 0 .cancel guardian),
   invoke 103 (.submitGuardian account 0 .initiate otherGuardian),
   invoke 104 (.submitZk account 0 .initiate evidence),
   invoke 105 (.submitGuardian account 0 .cancel otherGuardian),
   invoke 106 (.submitZk account 0 .cancel evidence)]

def cancelledRun : History × Storage :=
  (controller deployment).play [] .empty cancellingCalls

end Sample

theorem cancellation_accounting_sample :
    (Sample.cancelledRun.2.slice Sample.account).cancelCount = 1 ∧
      ∀ taken ∈ Sample.cancelledRun.1, (taken.after.slice Sample.account).cancelCount ≤ 1 := by
  have count : (Sample.cancelledRun.2.slice Sample.account).cancelCount = 1 := by decide +kernel
  have run : Run Sample.deployment Sample.cancelledRun.1 106 Sample.cancelledRun.2 :=
    Execution.refl.play (by decide)
  refine ⟨count, ?_⟩
  intro taken member
  rw [← count]
  exact ((cancellation_accounting run Sample.account).1 taken member).2

end Perch.Recovery
