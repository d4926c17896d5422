/-
The windows of an attempt.

`begin` fixes when evidence stops and when a cancellation stops; `promote`
fixes the timelock and the completion window at a later ledger.  Both read the
configuration of one epoch, so the second pair falls inside the first: a live
attempt's evidence is never late, and its cancellation statement is one
statement for the attempt's whole life.
-/

import Perch.Recovery.Cancellation
import Perch.Recovery.Completion

namespace Perch.Recovery

open Machine Document

/-! ### The terms of an attempt over an execution -/

/-- What an attempt keeps over its life: its terms, and once it is authorized
its windows. -/
structure Aged (a b : Attempt) : Prop where
  begun : b.asBegun = a.asBegun
  windows : a.state = .authorized →
    b.state ≠ .collecting ∧ b.authorizedAt = a.authorizedAt ∧
      b.executableAfter = a.executableAfter ∧ b.expiresAt = a.expiresAt

theorem Aged.refl (a : Attempt) : Aged a a where
  begun := rfl
  windows authorized := ⟨by simp [authorized], rfl, rfl, rfl⟩

theorem RecordEffect.aged {d : Deployment} {e : Env} {account : Address} {m m' : Slice}
    {call : Call} {reply : Reply} {a : Attempt} (effect : RecordEffect d e account m call reply m')
    (below : a.id < m.nextAttempt) (aged : ∀ id b, m.Holds id b → b.id = a.id → Aged a b) :
    ∀ id b, m'.Holds id b → b.id = a.id → Aged a b := by
  cases effect with
  | kept attempts temporaries =>
      intro id b held
      unfold Slice.Holds at held
      rw [attempts, temporaries] at held
      exact aged id b held
  | begun started _ _ wrote =>
      apply wrote.holds aged
      intro own
      rw [started.record] at own
      have fresh : m.nextAttempt = a.id := own
      exact absurd (fresh ▸ below) (UInt64.lt_irrefl _)
  | @submitted config b c f _ loaded _ state submission graded wrote =>
      apply wrote.holds aged
      intro own
      have begun := graded.asBegun.trans submission.asBegun
      rw [Attempt.id_of_asBegun begun] at own
      have old := aged b.id b (.of_load loaded) own
      exact
        { begun := begun.trans old.begun
          windows := fun authorized => absurd state (old.windows authorized).1 }
  | @carried b c loaded _ begun _ _ progress forward wrote =>
      apply wrote.holds aged
      intro own
      rw [Attempt.id_of_asBegun begun] at own
      have old := aged b.id b (.of_load loaded) own
      refine { begun := begun.trans old.begun, windows := fun authorized => ?_ }
      obtain ⟨state, authorizedAt, executableAfter, expiresAt⟩ := old.windows authorized
      refine ⟨?_, progress.authorizedAt.trans authorizedAt,
        progress.executableAfter.trans executableAfter, progress.expiresAt.trans expiresAt⟩
      rcases forward with same | ended
      · rw [same]
        exact state
      · intro collecting
        rw [collecting] at ended
        cases ended

/-- Every later record of an attempt has its terms, and its windows once it
has them. -/
theorem aged_of_execution {d : Deployment} {now later : UInt32} {s final : Storage}
    {history : History} {account : Address} {id : UInt64} {a : Attempt}
    (sound : ∀ other, (s.slice other).Sound now)
    (execution : Execution (controller d) now s history later final)
    (held : (s.slice account).Holds id a) :
    ∀ b, (final.slice account).Holds id b → Aged a b := by
  have own : a.id = id := (sound account).keyed id a held
  have begun := (sound account).begun id a held
  subst own
  have reached := account_invariant account
    (fun _ _ m => a.id < m.nextAttempt ∧ ∀ id b, m.Holds id b → b.id = a.id → Aged a b)
    sound ⟨begun, ?_⟩ (fun known _ => known) (fun known _ => known) ?_ execution
  · intro b held'
    have own := (reached.1 account).keyed a.id b held'
    exact reached.2.2 a.id b held' own
  · intro i b held' same
    have own := (sound account).keyed i b held'
    have one : i = a.id := own.symm.trans same
    subst one
    rw [(sound account).holds_unique held' held]
    exact .refl a
  · rintro _ taken reply gate ⟨begun, aged⟩ sound acted
    exact ⟨UInt64.lt_of_lt_of_le begun acted.transition.move.nextAttempt_le,
      (acted.transition.recordEffect sound).aged begun aged⟩

/-! ### The windows `begin` fixes -/

/-- Evidence for the initiation stops after an expiry, and evidence for the
cancellation after a delay and an expiry more. -/
structure BegunWindows (config : CompiledRecoveryConfig) (a : Attempt) : Prop where
  evidenceDeadline : a.evidenceDeadline.toNat = a.createdAt.toNat + config.expiryLedgers.toNat
  cancelUntil : a.cancelUntil.toNat =
    a.evidenceDeadline.toNat + config.delayLedgers.toNat + config.expiryLedgers.toNat

theorem BegunWindows.carry {config : CompiledRecoveryConfig} {a b : Attempt}
    (windows : BegunWindows config a) (begun : b.asBegun = a.asBegun) : BegunWindows config b := by
  have created := Attempt.term_eq Attempt.createdAt (fun _ => rfl) begun
  have deadline := Attempt.term_eq Attempt.evidenceDeadline (fun _ => rfl) begun
  have cancel := Attempt.term_eq Attempt.cancelUntil (fun _ => rfl) begun
  constructor
  · rw [deadline, created]
    exact windows.evidenceDeadline
  · rw [cancel, deadline]
    exact windows.cancelUntil

theorem beginAttempt_windows {d : Deployment} {e : Env} {s s' : Storage} {account : Address}
    {action : RecoveryAction} {replacements : ReplacementSet} {id : UInt64}
    (accepted : beginAttempt d e s account action replacements = .ok (id, s')) :
    ∃ config a, s.config account = some config ∧ (s'.slice account).Holds id a ∧
      BegunWindows config a := by
  simp only [beginAttempt, bind_eq_ok, requireConfig_eq_ok, require_eq_ok, mapError_eq_ok,
    orTrap_eq_ok, orFail_eq_ok, authorizedLive_eq_none, addLedgers_eq_ok, pure_eq_ok,
    Prod.exists, Prod.mk.injEq] at accepted
  obtain ⟨config, enrolled, -, -, replacementsHash, -, -, -, _, -, current, -, source,
    sourceDocHash, -, compiler, -, derived, -, ⟨⟩, -, ⟨⟩, -, replaced, -, -, -, next, -,
    evidenceDeadline, deadline, delayed, delay, cancelUntil, cancel, rfl, rfl⟩ := accepted
  refine ⟨config, collectingAttempt (nextAttemptOf s account) action (epochOf s account)
    e.sequence evidenceDeadline cancelUntil sourceDocHash replacementsHash
    (d.sha256 derived.canonical) derived, enrolled, ?_, ?_⟩
  · rw [slice_save]
    exact Slice.holds_put.mpr (if_pos rfl ▸ rfl)
  · constructor
    · exact deadline
    · rw [delay] at cancel
      exact cancel

/-- The call an attempt comes from stored it with its windows. -/
theorem BegunBy.windows {d : Deployment} {account : Address} {a : Attempt}
    {derived : DerivedTarget} {taken : ControllerStep} (origin : BegunBy d account a derived taken)
    (executed : taken = (controller d).step taken.before taken.action) :
    ∃ config b, taken.before.config account = some config ∧
      (taken.after.slice account).Holds a.id b ∧ BegunWindows config b := by
  obtain ⟨-, gate, replied⟩ := origin.assigned
  obtain ⟨action, replacements, -, called, -⟩ := origin.derives
  rw [executed] at replied ⊢
  cases accepted : execute d taken.action.env taken.before taken.action.call with
  | error failure => simp [System.step, controller, accepted] at replied
  | ok outcome =>
      simp only [System.step, controller, accepted, Except.ok.injEq, Prod.mk.injEq] at replied ⊢
      obtain ⟨answered, -⟩ := replied
      rw [called] at accepted
      unfold beginCall at accepted
      split at accepted
      · simp only [execute, bind_eq_ok, pure_eq_ok, Prod.exists] at accepted
        obtain ⟨own, after, begins, rfl⟩ := accepted
        cases answered
        exact beginAttempt_windows begins
      · simp only [execute, bind_eq_ok, pure_eq_ok, Prod.exists] at accepted
        obtain ⟨own, after, begins, rfl⟩ := accepted
        cases answered
        exact beginAttempt_windows begins

theorem Run.begunWindows {d : Deployment} {history : History} {now : UInt32} {s : Storage}
    (run : Run d history now s) {account : Address} {id : UInt64} {a : Attempt}
    (held : (s.slice account).Holds id a) {config : CompiledRecoveryConfig}
    (throughout : Throughout (sliced account history (s.slice account)) a.epoch (some config)) :
    BegunWindows config a := by
  obtain ⟨derived, taken, member, origin⟩ := run.begunBy account id a held
  have own := (run.sound account).keyed id a held
  subst own
  have current : a.epoch = epochOf taken.before account := by
    obtain ⟨_, _, _, -, started⟩ := origin.derives
    have record := congrArg Attempt.epoch started.record
    exact record
  obtain ⟨enrolled, b, stored, written, windows⟩ := origin.windows (run.executed member)
  have present : taken.before.slice account ∈ sliced account history (s.slice account) :=
    List.mem_cons_of_mem _ (List.mem_map.mpr ⟨taken, member, rfl⟩)
  have known : some enrolled = some config :=
    stored.symm.trans (throughout _ present current.symm)
  cases known
  obtain ⟨later, earlier, rfl⟩ := List.append_of_mem member
  obtain ⟨executed, before, after⟩ := Execution.split later run
  have soundAfter : ∀ other, (taken.after.slice other).Sound taken.action.env.sequence := by
    rw [executed]
    exact step_sound taken.action (Run.sound before)
  have aged := aged_of_execution soundAfter after written a held
  exact windows.carry aged.begun

/-! ### The windows `promote` fixes -/

/-- An authorized attempt was authorized inside its evidence window. -/
theorem RecordEffect.authorizedAt_le {d : Deployment} {e : Env} {account : Address} {m m' : Slice}
    {call : Call} {reply : Reply} (effect : RecordEffect d e account m call reply m')
    (timely : ∀ id a, m.Holds id a → a.state = .authorized → a.authorizedAt ≤ a.evidenceDeadline) :
    ∀ id a, m'.Holds id a → a.state = .authorized → a.authorizedAt ≤ a.evidenceDeadline := by
  cases effect with
  | kept attempts temporaries =>
      intro id b held
      unfold Slice.Holds at held
      rw [attempts, temporaries] at held
      exact timely id b held
  | begun started _ _ wrote =>
      apply wrote.holds timely
      intro authorized
      rw [started.record] at authorized
      cases authorized
  | @submitted config b c f _ loaded live state submission graded wrote =>
      apply wrote.holds timely
      intro authorized
      have collecting : c.state = .collecting := submission.state_eq.trans state
      rcases graded with rfl | rfl | ⟨_, _, -, -, -, rfl⟩
      · rw [collecting] at authorized
        cases authorized
      · cases authorized
      · have deadline := Attempt.term_eq Attempt.evidenceDeadline (fun _ => rfl) submission.asBegun
        rcases live.2 with ⟨-, -, within⟩ | ⟨other, -⟩
        · exact deadline ▸ within
        · rw [state] at other
          cases other
  | @carried b c loaded _ begun _ _ progress _ wrote =>
      apply wrote.holds timely
      intro authorized
      rw [progress.authorizedAt, Attempt.term_eq Attempt.evidenceDeadline (fun _ => rfl) begun]
      exact timely b.id b (.of_load loaded) (progress.state authorized)

theorem Run.authorizedAt_le {d : Deployment} {history : History} {now : UInt32} {s : Storage}
    (run : Run d history now s) (account : Address) :
    ∀ id a, (s.slice account).Holds id a → a.state = .authorized →
      a.authorizedAt ≤ a.evidenceDeadline := by
  refine (account_invariant account
    (fun _ _ m => ∀ id a, m.Holds id a → a.state = .authorized →
      a.authorizedAt ≤ a.evidenceDeadline)
    Slice.sound_empty ?_ (fun known _ => known) (fun known _ => known) ?_ run).2
  · simp [Slice.Holds, Storage.slice, Storage.empty]
  · intro _ taken reply gate timely sound acted
    exact (acted.transition.recordEffect sound).authorizedAt_le timely

/-- The windows of an authorized attempt, under the configuration of its
epoch. -/
structure AuthorizedWindows (config : CompiledRecoveryConfig) (a : Attempt) : Prop where
  authorizedAt : a.authorizedAt ≤ a.evidenceDeadline
  executableAfter : a.executableAfter.toNat = a.authorizedAt.toNat + config.delayLedgers.toNat
  expiresAt : a.expiresAt.toNat = a.executableAfter.toNat + config.expiryLedgers.toNat
  cancellable : a.expiresAt ≤ a.cancelUntil

theorem AuthorizedWindows.of_begun {config : CompiledRecoveryConfig} {a : Attempt}
    (windows : BegunWindows config a) (authorizedAt : a.authorizedAt ≤ a.evidenceDeadline)
    (delay : a.executableAfter.toNat = a.authorizedAt.toNat + config.delayLedgers.toNat)
    (expiry : a.expiresAt.toNat = a.executableAfter.toNat + config.expiryLedgers.toNat) :
    AuthorizedWindows config a where
  authorizedAt := authorizedAt
  executableAfter := delay
  expiresAt := expiry
  cancellable := by
    have inside := UInt32.le_iff_toNat_le.mp authorizedAt
    have cancel := windows.cancelUntil
    rw [UInt32.le_iff_toNat_le]
    omega

theorem AuthorizedWindows.carry {config : CompiledRecoveryConfig} {a b : Attempt}
    (windows : AuthorizedWindows config a) (authorized : a.state = .authorized)
    (aged : Aged a b) : AuthorizedWindows config b := by
  obtain ⟨-, authorizedAt, executableAfter, expiresAt⟩ := aged.windows authorized
  have deadline := Attempt.term_eq Attempt.evidenceDeadline (fun _ => rfl) aged.begun
  have cancel := Attempt.term_eq Attempt.cancelUntil (fun _ => rfl) aged.begun
  constructor
  · rw [authorizedAt, deadline]
    exact windows.authorizedAt
  · rw [executableAfter, authorizedAt]
    exact windows.executableAfter
  · rw [expiresAt, executableAfter]
    exact windows.expiresAt
  · rw [expiresAt, cancel]
    exact windows.cancellable

/-- The completion window is open for a ledger exactly when the expiry is not
zero. -/
theorem AuthorizedWindows.open_iff {config : CompiledRecoveryConfig} {a : Attempt}
    (windows : AuthorizedWindows config a) :
    a.executableAfter < a.expiresAt ↔ config.expiryLedgers ≠ 0 := by
  have expiry := windows.expiresAt
  have zero : config.expiryLedgers = 0 ↔ config.expiryLedgers.toNat = 0 := UInt32.toNat_inj.symm
  rw [UInt32.lt_iff_toNat_lt, ne_eq, zero]
  omega

/-! ### Live attempts -/

/-- What a run knows of a record: its configuration and windows. -/
structure Scheduled (account : Address) (history : History) (m : Slice)
    (config : CompiledRecoveryConfig) (a : Attempt) : Prop where
  visited : ∃ visit ∈ sliced account history m, visit.epoch = a.epoch
  throughout : Throughout (sliced account history m) a.epoch (some config)
  begun : BegunWindows config a
  authorized : a.state = .authorized → AuthorizedWindows config a

theorem Run.scheduled {d : Deployment} {history : History} {now : UInt32} {s : Storage}
    (run : Run d history now s) {account : Address} {id : UInt64} {a : Attempt}
    (held : (s.slice account).Holds id a) :
    ∃ config, Scheduled account history (s.slice account) config a := by
  obtain ⟨-, visited, config, throughout, evidence⟩ := run.founded account id a held
  have begun := run.begunWindows held throughout
  refine ⟨config, ⟨visited, throughout, begun, fun authorized => ?_⟩⟩
  obtain ⟨delay, expiry⟩ := evidence.windows authorized
  exact .of_begun begun (run.authorizedAt_le account id a held authorized) delay expiry

section Live

variable {account : Address} {history : History} {m : Slice} {config : CompiledRecoveryConfig}
  {a : Attempt} {now : UInt32}

theorem Scheduled.enrolled (scheduled : Scheduled account history m config a)
    (live : m.Live now a) : m.config = some config :=
  scheduled.throughout m List.mem_cons_self live.1.symm

theorem Scheduled.le_cancelUntil (scheduled : Scheduled account history m config a)
    (live : m.Live now a) : now ≤ a.cancelUntil := by
  rcases live.2 with ⟨-, -, within⟩ | ⟨authorized, -, within⟩
  · have deadline := UInt32.le_iff_toNat_le.mp within
    have cancel := scheduled.begun.cancelUntil
    rw [UInt32.le_iff_toNat_le]
    omega
  · exact UInt32.le_trans (UInt32.le_of_lt within) (scheduled.authorized authorized).cancellable

theorem Slice.Live.le_evidenceDeadline (live : m.Live now a) (collecting : a.state = .collecting) :
    now ≤ a.evidenceDeadline := by
  rcases live.2 with ⟨-, -, within⟩ | ⟨authorized, -⟩
  · exact within
  · rw [collecting] at authorized
    cases authorized

end Live

/-- Only a change's bound is the provider's, so any other statement is fresh
through its last ledger. -/
theorem checkFresh_of_le {e : Env} {statement : RecoveryStatement}
    (unchanging : statement.subject.isChange = false)
    (inTime : e.sequence ≤ statement.timing.validUntilLedger) :
    checkFresh e statement = .ok () := by
  apply checkFresh_eq_ok.mpr
  apply RecoveryStatement.checkFresh_eq_ok.mpr
  refine ⟨inTime, fun change => ?_⟩
  unfold RecoveryStatement.action at change
  generalize statement.subject = subject at unchanging change
  cases subject with
  | lostKey => simp [StatementSubject.action] at change
  | compromise => simp [StatementSubject.action] at change
  | cancel => simp [StatementSubject.action] at change
  | reconfigure => cases unchanging
  | upgrade => cases unchanging

theorem initiationStatement_fresh {d : Deployment} {e : Env} {account : Address}
    {config : CompiledRecoveryConfig} {a : Attempt} (inTime : e.sequence ≤ a.evidenceDeadline) :
    checkFresh e (initiationStatement d account config a) = .ok () := by
  refine checkFresh_of_le ?_ inTime
  unfold initiationStatement
  cases a.action <;> rfl

theorem cancelStatement_fresh {d : Deployment} {e : Env} {account : Address}
    {config : CompiledRecoveryConfig} {a : Attempt} {asked : RecoveryStatement}
    (built : attemptStatement d account config a .cancel = .ok asked)
    (inTime : e.sequence ≤ a.cancelUntil) : checkFresh e asked = .ok () := by
  simp only [attemptStatement, bind_eq_ok, pure_eq_ok] at built
  obtain ⟨_, -, rfl⟩ := built
  exact checkFresh_of_le rfl inTime

/-- The cancellation statement of an attempt depends on its terms alone. -/
theorem cancelStatement_of_asBegun {d : Deployment} {account : Address}
    {config : CompiledRecoveryConfig} {a b : Attempt} (begun : b.asBegun = a.asBegun) :
    attemptStatement d account config b .cancel = attemptStatement d account config a .cancel :=
  Attempt.term_eq (attemptStatement d account config · .cancel) (fun _ => rfl) begun

/-! ### Refusals -/

/-- Refused as too late or too long, or for a ledger out of range. -/
def Untimely (failure : Failure) : Prop :=
  failure = .refused .evidenceExpired ∨ failure = .refused .ledgerOverflow

theorem untimely_late (failure : Failure) (untimely : Untimely failure) :
    failure ∈ lateRefusals := by
  rcases untimely with rfl | rfl
  · decide
  · decide

section Timely

variable {d : Deployment} {e : Env} {s : Storage} {account : Address}
  {config : CompiledRecoveryConfig} {a b : Attempt}

/-- The additions of `promote` stay below the ledger `begin` already reached. -/
theorem promote_timely (windows : BegunWindows config a) (inTime : e.sequence ≤ a.evidenceDeadline)
    (b : Attempt) : Avoids Untimely (promote e s account config b) := by
  have deadline := UInt32.le_iff_toNat_le.mp inTime
  have cancel := windows.cancelUntil
  have bound := a.cancelUntil.toNat_lt
  have fits {x y : UInt32} (small : x.toNat + y.toNat < 2 ^ 32) :
      Avoids Untimely (addLedgers x y) := by
    refine .orFail fun missing => ?_
    unfold checkedAdd at missing
    rw [if_pos small] at missing
    cases missing
  refine .bind (.require fun _ => by simp [Untimely]) fun _ _ => ?_
  refine .bind ?_ fun stale _ => .ite (fun _ => .pure _) fun _ => ?_
  · unfold staleSource
    split
    · exact .bind (.orFail fun _ => by simp [Untimely]) fun _ _ => .pure _
    · exact .pure _
  · refine .bind (fits (by omega)) fun executableAfter delayed => ?_
    have delay := addLedgers_eq_ok.mp delayed
    refine .bind (fits (by omega)) fun expiresAt _ => .ite (fun _ => ?_) fun _ => .pure _
    exact .bind (.orFail fun _ => by simp [Untimely]) fun _ _ => .pure _

theorem cancel_timely {counted : Bool} : Avoids Untimely (cancel e s account config b counted) := by
  refine .bind (.ite (fun _ => ?_) fun _ => .pure _) fun _ _ => ?_
  · refine .bind (.require fun _ => by simp [Untimely]) fun _ _ => ?_
    exact .bind (.orFail fun _ => by simp [Untimely]) fun _ _ => .pure _
  · refine .ite (fun _ => .ite (fun _ => ?_) fun _ => .pure _) fun _ => .pure _
    exact .bind (.orFail fun _ => by simp [Untimely]) fun _ _ => .pure _

/-- Counted evidence is followed by no untimely refusal. -/
theorem afterEvidence_timely {domain : EvidenceDomain} (windows : BegunWindows config a)
    (inTime : domain = .initiate → e.sequence ≤ a.evidenceDeadline) :
    Avoids Untimely (afterEvidence e s account config b domain) := by
  cases domain with
  | initiate =>
      refine .ite (fun _ => ?_) fun _ => .pure _
      exact .bind (promote_timely windows (inTime rfl) b) fun _ _ => .pure _
  | cancel => exact .ite (fun _ => cancel_timely) fun _ => .pure _

end Timely

section Submissions

variable {d : Deployment} {history : History} {s : Storage} {account : Address} {e : Env}
  (run : Run d history e.sequence s) (id : UInt64) (domain : EvidenceDomain)

include run

/-- What evidence is checked against is fresh while its attempt is live. -/
theorem Run.attemptStatement_fresh {config : CompiledRecoveryConfig} {a : Attempt}
    {asked : RecoveryStatement} (loaded : (s.slice account).load e.sequence id = some a)
    (live : (s.slice account).Live e.sequence a)
    (phase : domain = .initiate → a.state = .collecting)
    (built : attemptStatement d account config a domain = .ok asked) :
    checkFresh e asked = .ok () := by
  obtain ⟨_, scheduled⟩ := run.scheduled (.of_load loaded)
  cases domain with
  | initiate =>
      simp only [attemptStatement, pure_eq_ok] at built
      subst built
      exact initiationStatement_fresh (live.le_evidenceDeadline (phase rfl))
  | cancel => exact cancelStatement_fresh built (scheduled.le_cancelUntil live)

theorem Run.submitGuardian_timely (guardian : Address) :
    Avoids Untimely (submitGuardian d e s account id domain guardian) := by
  refine submitGuardian_avoids untimely_late ?_ ?_ guardian
  · intro config a asked _ loaded live phase built
    rw [run.attemptStatement_fresh id domain loaded live phase built]
    exact .ok ()
  · intro config a b enrolled loaded live phase _
    obtain ⟨own, scheduled⟩ := run.scheduled (.of_load loaded)
    have same : own = config := Option.some.inj ((scheduled.enrolled live).symm.trans enrolled)
    subst same
    exact afterEvidence_timely scheduled.begun fun initiate =>
      live.le_evidenceDeadline (phase initiate)

theorem Run.submitZk_timely (evidence : ZkEvidence) :
    Avoids Untimely (submitZk d e s account id domain evidence) := by
  refine submitZk_avoids untimely_late ?_ ?_ evidence
  · intro config a asked _ loaded live phase built
    rw [run.attemptStatement_fresh id domain loaded live phase built]
    exact .ok ()
  · intro config a b enrolled loaded live phase _
    obtain ⟨own, scheduled⟩ := run.scheduled (.of_load loaded)
    have same : own = config := Option.some.inj ((scheduled.enrolled live).symm.trans enrolled)
    subst same
    exact afterEvidence_timely scheduled.begun fun initiate =>
      live.le_evidenceDeadline (phase initiate)

end Submissions

/-! ### Configurations stored unchecked

Enrollment and reconfiguration pass `check_config`; a completion stores what
its call passes. -/

/-- The guard under which `rcv_sync` takes a call for a completion. -/
def Completing (now : UInt32) (s : Storage) (account : Address) (docHash : Bytes32) : Prop :=
  ∃ marker, Temporary.read now (s.completing account) = some marker ∧
    marker.targetDocHash = docHash ∧ marker.ledger = now ∧
    (authorizedLive now s account).any (fun a => a.id = marker.attemptId) = true

/-- A call of the account that completes passes a configuration with an
expiry. -/
def PassesExpiry (account : Address) (taken : ControllerStep) : Prop :=
  ∀ docHash recovery validUntil config,
    taken.action.call = .rcvSync account docHash recovery validUntil →
    recovery.head? = some config →
    Completing taken.action.env.sequence taken.before account docHash →
    config.expiryLedgers ≠ 0

def Expiring (visits : List Slice) : Prop :=
  ∀ visit ∈ visits, ∀ config, visit.config = some config → config.expiryLedgers ≠ 0

theorem checkConfig_expiry {account : Address} {config : CompiledRecoveryConfig}
    (valid : checkConfig account config = .ok ()) : config.expiryLedgers ≠ 0 := by
  simp only [checkConfig, bind_eq_ok, require_eq_ok] at valid
  obtain ⟨-, timing, -⟩ := valid
  exact fun zero => timing (.inr (.inl zero))

theorem Acted.expiring {d : Deployment} {account : Address} {taken : ControllerStep}
    {reply : Reply} {gate : Option GateCall} (acted : Acted d account taken reply gate)
    (passes : PassesExpiry account taken)
    (expiring : ∀ config, (taken.before.slice account).config = some config →
      config.expiryLedgers ≠ 0) :
    ∀ config, (taken.after.slice account).config = some config → config.expiryLedgers ≠ 0 := by
  have transition := acted.transition
  generalize called : taken.action.call = call at transition
  generalize taken.after.slice account = m' at transition ⊢
  cases transition with
  | @completed docHash recovery _ marker a config _ _ _ left sameDoc sameLedger found own _
      passed =>
      intro stored present
      cases present
      refine passes docHash recovery _ config called passed ⟨marker, left, sameDoc, sameLedger, ?_⟩
      rw [authorizedLive_eq_some.mpr found]
      simp [own]
  | classified _ _ settled =>
      have dropped := Slice.takeMarker_eq taken.action.env.sequence (taken.before.slice account)
      generalize ((taken.before.slice account).takeMarker taken.action.env.sequence).completing =
        completing at dropped
      rw [dropped] at settled
      cases settled with
      | nothing => exact expiring
      | same => exact expiring
      | enrolled _ _ _ valid _ _ =>
          intro stored present
          cases present
          exact checkConfig_expiry valid
      | reconfigured _ _ _ _ _ valid _ _ =>
          intro stored present
          cases present
          exact checkConfig_expiry valid
      | removed =>
          intro stored present
          cases present
  | _ => exact expiring

theorem Run.expiring {d : Deployment} {history : History} {now : UInt32} {s : Storage}
    (run : Run d history now s) (account : Address)
    (passes : ∀ taken ∈ history, PassesExpiry account taken) :
    Expiring (sliced account history (s.slice account)) := by
  refine (account_invariant account
    (fun history _ m => (∀ taken ∈ history, PassesExpiry account taken) →
      Expiring (sliced account history m))
    Slice.sound_empty ?_ (fun known _ => known) ?_ ?_ run).2 passes
  · intro _ visit member config present
    rw [sliced, List.map_nil, List.mem_singleton] at member
    subst member
    cases present
  · intro history taken known _ passes visit member
    have earlier : ∀ past ∈ history, PassesExpiry account past :=
      fun past member => passes past (List.mem_cons_of_mem _ member)
    exact known earlier visit (sliced_passed member)
  · intro history taken reply gate known _ acted passes visit member
    have earlier : Expiring (sliced account history (taken.before.slice account)) :=
      known fun past member => passes past (List.mem_cons_of_mem _ member)
    rcases List.mem_cons.mp member with rfl | member
    · exact acted.expiring (passes taken List.mem_cons_self)
        (earlier _ List.mem_cons_self)
    · exact earlier visit member

/-! ### Windows fit -/

theorem origin_visited {d : Deployment} {now later : UInt32} {s final : Storage}
    {further : History} (execution : Execution (controller d) now s further later final) :
    s ∈ visited further final := by
  refine Execution.invariant (fun history _ final => s ∈ visited history final)
    List.mem_cons_self (fun known _ => known) ?_ execution
  intro history state action known
  exact List.mem_cons_of_mem _ known

/-- While it is live, at any two ledgers, an attempt has one configuration and
one cancellation statement. -/
theorem Run.one_cancelStatement {d : Deployment} {history further : History} {now later : UInt32}
    {s final : Storage} {account : Address} {id : UInt64} {config : CompiledRecoveryConfig}
    {a b : Attempt} (run : Run d history now s)
    (execution : Execution (controller d) now s further later final)
    (held : (s.slice account).Holds id a) (live : (s.slice account).Live now a)
    (enrolled : s.config account = some config) (held' : (final.slice account).Holds id b)
    (live' : (final.slice account).Live later b) :
    final.config account = some config ∧
      attemptStatement d account config b .cancel =
        attemptStatement d account config a .cancel := by
  have aged := aged_of_execution run.sound execution held b held'
  refine ⟨?_, cancelStatement_of_asBegun aged.begun⟩
  have fixed := (Run.epochFixed (Execution.trans run execution) account).fixed
  have passed : s.slice account ∈ sliced account (further ++ history) (final.slice account) := by
    have member : s.slice account ∈ sliced account further (final.slice account) :=
      mem_sliced (origin_visited execution)
    rcases List.mem_cons.mp member with same | member
    · exact List.mem_cons.mpr (.inl same)
    · refine List.mem_cons_of_mem _ ?_
      rw [List.map_append]
      exact List.mem_append_left _ member
  have epochs : (s.slice account).epoch = (final.slice account).epoch :=
    live.1.symm.trans ((Attempt.epoch_of_asBegun aged.begun).symm.trans live'.1)
  exact (fixed _ passed epochs).symm.trans enrolled

/-- An attempt's windows, over every run.  The completion window is open for
at least a ledger exactly when the configuration of the attempt's epoch has an
expiry, which it has when the run's completions passed one. -/
theorem attempt_windows_fit {d : Deployment} {history : History} {now : UInt32} {s : Storage}
    (run : Run d history now s) (account : Address) (id : UInt64) (a : Attempt)
    (loaded : load now s account id = some a) :
    ∃ config, (∃ visit ∈ visited history s, epochOf visit account = a.epoch) ∧
      (∀ visit ∈ visited history s, epochOf visit account = a.epoch →
        visit.config account = some config) ∧
      ((∀ taken ∈ history, PassesExpiry account taken) → config.expiryLedgers ≠ 0) ∧
      a.createdAt ≤ a.evidenceDeadline ∧
      (a.state = .authorized →
        ∀ further later final, Execution (controller d) now s further later final →
          ∀ b, load later final account id = some b →
            b.authorizedAt ≤ b.evidenceDeadline ∧
            b.executableAfter.toNat = b.authorizedAt.toNat + config.delayLedgers.toNat ∧
            (b.executableAfter < b.expiresAt ↔ config.expiryLedgers ≠ 0) ∧
            b.expiresAt ≤ b.cancelUntil) ∧
      (isLive now s account a = true → s.config account = some config ∧
        (∀ e : Env, e.sequence = now →
          (∀ asked, attemptStatement d account config a .cancel = .ok asked →
            checkFresh e asked = .ok ()) ∧
          (a.state = .collecting →
            checkFresh e (initiationStatement d account config a) = .ok () ∧
            ∀ b, promote e s account config b ≠ .error (.refused .ledgerOverflow)) ∧
          ∀ domain,
            (∀ guardian failure,
              execute d e s (.submitGuardian account id domain guardian) = .error failure →
              ¬Untimely failure) ∧
            ∀ evidence failure,
              execute d e s (.submitZk account id domain evidence) = .error failure →
              ¬Untimely failure) ∧
        ∀ further later final, Execution (controller d) now s further later final →
          ∀ b, load later final account id = some b → isLive later final account b = true →
            final.config account = some config ∧
            attemptStatement d account config b .cancel =
              attemptStatement d account config a .cancel) := by
  have held : (s.slice account).Holds id a := .of_load loaded
  obtain ⟨config, scheduled⟩ := run.scheduled held
  obtain ⟨visit, member, begun⟩ := scheduled.visited
  have stored : visit.config = some config := scheduled.throughout visit member begun
  refine ⟨config, ?_, ?_, ?_, ?_, ?_, ?_⟩
  · rcases List.mem_cons.mp member with rfl | member
    · exact ⟨s, List.mem_cons_self, begun⟩
    · obtain ⟨taken, past, rfl⟩ := List.mem_map.mp member
      exact ⟨taken.before, List.mem_cons_of_mem _ (List.mem_map.mpr ⟨taken, past, rfl⟩), begun⟩
  · intro other present current
    exact scheduled.throughout _ (mem_sliced present) current
  · intro passes
    exact run.expiring account passes visit member config stored
  · have deadline := scheduled.begun.evidenceDeadline
    rw [UInt32.le_iff_toNat_le]
    omega
  · intro authorized further later final execution b found
    have aged := aged_of_execution run.sound execution held b (.of_load found)
    have windows := (scheduled.authorized authorized).carry authorized aged
    exact ⟨windows.authorizedAt, windows.executableAfter, windows.open_iff, windows.cancellable⟩
  · intro lives
    have live := isLive_eq_true.mp lives
    have enrolled : s.config account = some config := scheduled.enrolled live
    refine ⟨enrolled, ?_, ?_⟩
    · rintro e rfl
      refine ⟨?_, ?_, ?_⟩
      · intro asked built
        exact cancelStatement_fresh built (scheduled.le_cancelUntil live)
      · intro collecting
        have inTime := live.le_evidenceDeadline collecting
        refine ⟨initiationStatement_fresh inTime, fun b overflow => ?_⟩
        exact promote_timely scheduled.begun inTime b _ overflow (.inr rfl)
      · intro domain
        refine ⟨fun guardian => ?_, fun evidence => ?_⟩
        · exact Avoids.bind (run.submitGuardian_timely id domain guardian) fun _ _ => .pure _
        · exact Avoids.bind (run.submitZk_timely id domain evidence) fun _ _ => .pure _
    · intro further later final execution b found lives'
      exact run.one_cancelStatement execution held live enrolled (.of_load found)
        (isLive_eq_true.mp lives')

theorem sample_passesExpiry :
    ∀ taken ∈ ((controller Sample.deployment).play [] .empty Sample.calls).1,
      PassesExpiry Sample.account taken := by
  have expiring : ∀ invocation ∈ Sample.calls, ∀ docHash recovery validUntil config,
      invocation.call = .rcvSync Sample.account docHash recovery validUntil →
      recovery.head? = some config → config.expiryLedgers ≠ 0 := by
    intro invocation member docHash recovery validUntil config called passed
    simp only [Sample.calls, List.mem_cons, List.not_mem_nil, or_false] at member
    rcases member with rfl | rfl | rfl | rfl | rfl
    · cases called
      cases passed
      decide
    all_goals cases called
  intro taken member docHash recovery validUntil config called passed _
  have played := System.play_actions (controller Sample.deployment) [] .empty Sample.calls
  have action : taken.action ∈ Sample.calls := by
    have acted := List.mem_map_of_mem (f := (·.action)) member
    rw [played] at acted
    simpa using acted
  exact expiring taken.action action docHash recovery validUntil config called passed

theorem attempt_windows_fit_sample :
    ∃ a, load 104 Sample.reached Sample.account 0 = some a ∧ a.executableAfter < a.expiresAt := by
  obtain ⟨a, loaded⟩ : ∃ a, load 104 Sample.reached Sample.account 0 = some a :=
    Option.isSome_iff_exists.mp (by decide +kernel)
  have state : (load 104 Sample.reached Sample.account 0).map (·.state) = some .authorized := by
    decide +kernel
  rw [loaded] at state
  have authorized : a.state = .authorized := Option.some.inj state
  obtain ⟨config, -, -, expiring, -, windows, -⟩ :=
    attempt_windows_fit Sample.run Sample.account 0 a loaded
  obtain ⟨-, -, opens, -⟩ := windows authorized [] 104 Sample.reached .refl a loaded
  exact ⟨a, loaded, opens.mpr (expiring sample_passesExpiry)⟩

namespace Sample

/-- The attempt's target configuration, as a contract that is no perch account
can pass it: under the hash it derived, and without an expiry. -/
def unexpiring : CompiledRecoveryConfig :=
  { config with configHash := target.configHash, expiryLedgers := 0 }

/-- The attempt completes with that configuration, and another one is begun and
authorized in one ledger. -/
def closing : List Invocation :=
  authorizing ++
    [invoke 114 (.rcvSync account target.docHash [unexpiring] 0),
     invoke 115 (.beginLostKey account replacements),
     invoke 115 (.submitGuardian account 1 .initiate guardian),
     invoke 115 (.submitGuardian account 1 .initiate otherGuardian),
     invoke 115 (.submitZk account 1 .initiate { evidence with nullifier := .fill 19 })]

def closed : Storage :=
  ((controller deployment).play [] .empty closing).2

end Sample

/-- An authorized attempt whose completion window has no ledger. -/
theorem completion_window_closed :
    ¬∀ (d : Deployment) (history : History) (now : UInt32) (s : Storage),
      Run d history now s → ∀ account id a, load now s account id = some a →
        a.state = .authorized → a.executableAfter < a.expiresAt := by
  intro fits
  have run : Run Sample.deployment
      ((controller Sample.deployment).play [] .empty Sample.closing).1 115 Sample.closed :=
    Execution.refl.play (by decide)
  obtain ⟨a, loaded⟩ : ∃ a, load 115 Sample.closed Sample.account 1 = some a :=
    Option.isSome_iff_exists.mp (by decide +kernel)
  have read : (load 115 Sample.closed Sample.account 1).map
      (fun a => (a.state, a.executableAfter, a.expiresAt)) = some (.authorized, 125, 125) := by
    decide +kernel
  rw [loaded] at read
  simp only [Option.map_some, Option.some.injEq, Prod.mk.injEq] at read
  obtain ⟨authorized, executableAfter, expiresAt⟩ := read
  have opens := fits _ _ _ _ run Sample.account 1 a loaded authorized
  rw [executableAfter, expiresAt] at opens
  exact UInt32.lt_irrefl _ opens

end Perch.Recovery
