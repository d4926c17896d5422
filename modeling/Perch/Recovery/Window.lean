/-
The authorization window.

An account has at most one authorized attempt, and while it has one no other
attempt can collect evidence.  From the moment of the authorization until it
is completed, cancelled, or expired, the controller accepts nothing else for
the account.
-/

import Perch.Machine.Sha256
import Perch.Recovery.Invariant

namespace Perch.Recovery

open Machine Document

/-! ### Siblings of an authorized attempt -/

namespace Slice

variable {now : UInt32} {m : Slice}

/-- An authorization leaves no sibling collecting. -/
theorem Sound.not_live_of_authorized {id : UInt64} {a b : Attempt} (sound : m.Sound now)
    (found : m.Authorized now a) (held : m.Holds id b) (collecting : b.state = .collecting) :
    ¬m.Live now b := by
  rintro ⟨-, ⟨-, above, -⟩ | ⟨authorized, -⟩⟩
  · have own : b.id = id := sound.keyed id b held
    rw [sound.window a found, own] at above
    exact UInt64.lt_irrefl _ (UInt64.lt_of_lt_of_le (sound.begun id b held) above)
  · rw [collecting] at authorized
    cases authorized

theorem Sound.quiet_of_collecting {id : UInt64} {b : Attempt} (sound : m.Sound now)
    (held : m.Holds id b) (collecting : b.state = .collecting) (live : m.Live now b) :
    m.Quiet now :=
  fun _ found => sound.not_live_of_authorized found held collecting live

/-- The record a call reads in the window is the authorized one. -/
theorem Sound.live_eq_authorized {id : UInt64} {a b : Attempt} (sound : m.Sound now)
    (found : m.Authorized now a) (held : m.Holds id b) (live : m.Live now b) : b = a := by
  by_cases authorized : b.state = .authorized
  · exact (sound.authorized_of_live held authorized live).unique found
  · have collecting : b.state = .collecting := by
      rcases live.2 with ⟨state, -⟩ | ⟨state, -⟩
      · exact state
      · exact absurd state authorized
    exact absurd live (sound.not_live_of_authorized found held collecting)

end Slice

/-! ### The refusal at the head of `promote` -/

def SecondAuthorization (failure : Failure) : Prop :=
  failure = .refused .attemptAuthorized

theorem orTrap_avoids {α : Type} (answer : Option α) : Avoids SecondAuthorization (orTrap answer) :=
  .orFail fun _ => by simp [SecondAuthorization]

theorem addLedgers_avoids (a b : UInt32) : Avoids SecondAuthorization (addLedgers a b) :=
  .orFail fun _ => by simp [SecondAuthorization]

theorem promote_avoids {e : Env} {s : Storage} {account : Address}
    (config : CompiledRecoveryConfig) (a : Attempt)
    (quiet : (s.slice account).Quiet e.sequence) :
    Avoids SecondAuthorization (promote e s account config a) := by
  refine .bind (.require fun found => absurd (authorizedLive_eq_none.mpr quiet) found) fun _ _ => ?_
  refine .bind ?_ fun stale _ => .ite (fun _ => .pure _) fun _ => ?_
  · unfold staleSource
    split
    · exact .bind (orTrap_avoids _) fun _ _ => .pure _
    · exact .pure _
  · refine .bind (addLedgers_avoids _ _) fun executableAfter _ => ?_
    refine .bind (addLedgers_avoids _ _) fun expiresAt _ => .ite (fun _ => ?_) fun _ => .pure _
    exact .bind (orTrap_avoids _) fun _ _ => .pure _

/-- Evidence for an initiation reaches `promote` only while no attempt is
authorized. -/
theorem afterEvidence_avoids {e : Env} {s : Storage} {account : Address}
    {config : CompiledRecoveryConfig} {a b : Attempt} {id : UInt64}
    (sound : (s.slice account).Sound e.sequence)
    (loaded : (s.slice account).load e.sequence id = some a)
    (live : (s.slice account).Live e.sequence a) (collecting : a.state = .collecting) :
    Avoids SecondAuthorization (afterEvidence e s account config b .initiate) := by
  have quiet := sound.quiet_of_collecting (.of_load loaded) collecting live
  unfold afterEvidence
  refine .ite (fun _ => ?_) fun _ => .pure _
  exact .bind (promote_avoids config b quiet) fun _ _ => .pure _

/-! ### Refusals of evidence -/

/-- The refusals evidence can meet once its attempt has been found live. -/
def lateRefusals : List Failure :=
  [.refused .attemptAuthorized, .refused .maxCancelsReached, .refused .evidenceExpired,
    .refused .ledgerOverflow]

section LateRefusals

variable {bad : Failure → Prop} (late : ∀ failure, bad failure → failure ∈ lateRefusals)

include late

theorem early_harmless {failure : Failure} (early : failure ∉ lateRefusals) : ¬bad failure :=
  fun raised => early (late failure raised)

theorem loadLive_avoids (now : UInt32) (s : Storage) (account : Address) (id : UInt64) :
    Avoids bad (loadLive now s account id) := by
  refine .bind (.orFail fun _ => early_harmless late (by decide)) fun a _ => ?_
  exact .bind (.require fun _ => early_harmless late (by decide)) fun _ _ => .pure a

theorem digest_avoids (d : Deployment) (statement : RecoveryStatement) :
    Avoids bad (digest d statement) := by
  refine .renamed (.bind (.bind (.orFail fun _ => ?_) fun _ _ => ?_) fun _ _ => .pure _)
  · exact early_harmless late (by decide)
  · exact .bind (.orFail fun _ => early_harmless late (by decide)) fun _ _ => .pure _

theorem attemptStatement_avoids (d : Deployment) (account : Address)
    (config : CompiledRecoveryConfig) (a : Attempt) (domain : EvidenceDomain) :
    Avoids bad (attemptStatement d account config a domain) := by
  cases domain with
  | initiate => exact .pure _
  | cancel => exact .bind (digest_avoids late d _) fun _ _ => .pure _

theorem checkFresh_avoids (fresh : ¬bad (.refused .evidenceExpired)) (e : Env)
    (statement : RecoveryStatement) : Avoids bad (checkFresh e statement) := by
  refine .mapError fun error => ?_
  cases error with
  | evidenceExpired => exact fresh
  | evidenceWindowTooLong => exact fresh
  | _ => exact early_harmless late (by decide)

variable {d : Deployment} {e : Env} {s : Storage} {account : Address} {id : UInt64}
  {domain : EvidenceDomain}
  (fresh : ∀ config a asked, s.config account = some config →
    (s.slice account).load e.sequence id = some a → (s.slice account).Live e.sequence a →
    (domain = .initiate → a.state = .collecting) →
    attemptStatement d account config a domain = .ok asked → Avoids bad (checkFresh e asked))
  (after : ∀ config a b, s.config account = some config →
    (s.slice account).load e.sequence id = some a → (s.slice account).Live e.sequence a →
    (domain = .initiate → a.state = .collecting) → b.state = a.state →
    Avoids bad (afterEvidence e s account config b domain))

include fresh after

/-- A guardian's approval meets a late refusal only in its freshness check or
after it was counted. -/
theorem submitGuardian_avoids (guardian : Address) :
    Avoids bad (submitGuardian d e s account id domain guardian) := by
  have harmless {failure : Failure} (early : failure ∉ lateRefusals) : ¬bad failure :=
    early_harmless late early
  refine .bind (.orFail fun _ => harmless (by decide)) fun config enrolled => ?_
  refine .bind (.orFail fun _ => harmless (by decide)) fun set _ => ?_
  refine .bind (.require fun _ => harmless (by decide)) fun _ _ => ?_
  refine .bind (loadLive_avoids late _ _ _ _) fun a found => ?_
  obtain ⟨loaded, live⟩ := loadLive_eq_ok.mp found
  refine .bind (.require fun _ => harmless (by decide)) fun _ phase => ?_
  refine .bind (.require fun _ => harmless (by decide)) fun _ _ => ?_
  refine .bind (attemptStatement_avoids late _ _ _ _ _) fun asked built => ?_
  have stored := requireConfig_eq_ok.mp enrolled
  have collecting := require_eq_ok.mp phase
  refine .bind (fresh config a asked stored loaded live collecting ?_) fun _ _ => ?_
  · cases domain with
    | initiate => exact built
    | cancel => exact built
  refine .bind (digest_avoids late _ _) fun digest _ => ?_
  refine .bind (.require fun _ => harmless (by decide)) fun _ _ => ?_
  refine after config a _ stored loaded live collecting ?_
  cases domain with
  | initiate => rfl
  | cancel => rfl

/-- The same of a proof. -/
theorem submitZk_avoids (evidence : ZkEvidence) :
    Avoids bad (submitZk d e s account id domain evidence) := by
  have harmless {failure : Failure} (early : failure ∉ lateRefusals) : ¬bad failure :=
    early_harmless late early
  refine .bind (.orFail fun _ => harmless (by decide)) fun config enrolled => ?_
  refine .bind (.orFail fun _ => harmless (by decide)) fun factor _ => ?_
  refine .bind (loadLive_avoids late _ _ _ _) fun a found => ?_
  obtain ⟨loaded, live⟩ := loadLive_eq_ok.mp found
  refine .bind (.require fun _ => harmless (by decide)) fun _ phase => ?_
  refine .bind (.require fun _ => harmless (by decide)) fun _ _ => ?_
  refine .bind (attemptStatement_avoids late _ _ _ _ _) fun asked built => ?_
  have stored := requireConfig_eq_ok.mp enrolled
  have collecting := require_eq_ok.mp phase
  refine .bind (fresh config a asked stored loaded live collecting built) fun _ _ => ?_
  refine .bind ?_ fun _ _ => ?_
  · refine .bind (.require fun _ => harmless (by decide)) fun _ _ => ?_
    exact .require fun _ => harmless (by decide)
  · refine after config a _ stored loaded live collecting ?_
    cases domain with
    | initiate => rfl
    | cancel => rfl

end LateRefusals

theorem secondAuthorization_late (failure : Failure) (second : SecondAuthorization failure) :
    failure ∈ lateRefusals := by
  rw [second]
  decide

section Second

variable {d : Deployment} {e : Env} {s : Storage} {account : Address}
  (sound : (s.slice account).Sound e.sequence) (id : UInt64)

include sound

theorem submitGuardian_once (guardian : Address) :
    Avoids SecondAuthorization (submitGuardian d e s account id .initiate guardian) := by
  refine submitGuardian_avoids secondAuthorization_late ?_ ?_ guardian
  · intro config a asked _ _ _ _ _
    exact checkFresh_avoids secondAuthorization_late (by simp [SecondAuthorization]) e asked
  · intro config a b _ loaded live phase _
    exact afterEvidence_avoids sound loaded live (phase rfl)

theorem submitZk_once (evidence : ZkEvidence) :
    Avoids SecondAuthorization (submitZk d e s account id .initiate evidence) := by
  refine submitZk_avoids secondAuthorization_late ?_ ?_ evidence
  · intro config a asked _ _ _ _ _
    exact checkFresh_avoids secondAuthorization_late (by simp [SecondAuthorization]) e asked
  · intro config a b _ loaded live phase _
    exact afterEvidence_avoids sound loaded live (phase rfl)

end Second

/-! ### A deployment to evaluate on -/

namespace Sample

def sha256 : Sha256 :=
  fun message => ⟨Sha256.hash message, Sha256.length_hash message⟩

def deployment : Deployment where
  sha256 := sha256
  networkId := .fill 9
  address := .contract (.fill 2)

def account : Address := .contract (.fill 1)

def guardian : Address := .account (.fill 3)

def otherGuardian : Address := .account (.fill 4)

def factor : CompiledZkFactor where
  adapter := .contract (.fill 5)
  circuitId := .fill 6
  pool := .contract (.fill 7)
  enrollmentId := .fill 8
  commitment := .fill 0

def config : CompiledRecoveryConfig where
  configHash := .fill 10
  profile := .protectedProfile
  mode := .combined { guardians := [guardian, otherGuardian], quorum := 2 } factor
  controller := deployment.address
  baseline := none
  replaceable := []
  delayLedgers := 10
  expiryLedgers := 100
  maxCancels := 3

def lostKey : Credential := .delegated (.account (.fill 11))

def replacements : ReplacementSet where
  signers := [{ signerId := [97], credential := .delegated (.account (.fill 12)) }]
  zkEnrollment := [{ id := .fill 13, commitment := .fill 14 }]

def source : Bytes := [123, 125]

def target : DerivedTarget where
  canonical := [123, 32, 125]
  docHash := sha256 [123, 32, 125]
  configHash := .fill 15
  fingerprints := []
  replaced := [lostKey]

def env (sequence : UInt32) : Env where
  sequence := sequence
  maxTtl := 3110400
  minTemporaryTtl := 16
  requireAuth _ := true
  requireAuthForArgs _ _ := true
  account _ :=
    { appliedDoc := some (some source)
      appliedDocHash := some (some (sha256 source))
      docCompiler := some (.contract (.fill 16))
      isRevoked := fun _ => some false
      isEnrolledId := fun _ => some false
      rcvGate := fun _ _ => some () }
  docCompiler _ :=
    { compileDoc := fun _ => none
      deriveTarget := fun _ _ _ _ => some target }
  zkAdapter _ :=
    { verify := fun _ _ _ => true
      circuitId := some (.fill 6)
      treeDepth := some 20 }
  poolDepth _ := some 20

def evidence : ZkEvidence where
  treeId := 0
  root := .fill 17
  nullifier := .fill 18
  proof := []

def invoke (sequence : UInt32) (call : Call) : Invocation :=
  { env := env sequence, call := call }

/-- Enrollment, one attempt, and the evidence that authorizes it at ledger
104. -/
def calls : List Invocation :=
  [invoke 100 (.rcvSync account (sha256 source) [config] 0),
   invoke 101 (.beginLostKey account replacements),
   invoke 102 (.submitGuardian account 0 .initiate guardian),
   invoke 103 (.submitGuardian account 0 .initiate otherGuardian),
   invoke 104 (.submitZk account 0 .initiate evidence)]

def reached : Storage :=
  ((controller deployment).play [] .empty calls).2

theorem run : Run deployment ((controller deployment).play [] .empty calls).1 104 reached :=
  Execution.refl.play (by decide)

end Sample

/-! ### At most one authorization -/

/-- At most one attempt is live and authorized; while one is, none is live and
collecting; and so `promote` never meets another authorized attempt. -/
theorem authorized_attempt_exclusive {d : Deployment} {history : History} {now : UInt32}
    {s : Storage} (run : Run d history now s) (account : Address) :
    (∀ i j a b, load now s account i = some a → a.state = .authorized →
      isLive now s account a = true → load now s account j = some b → b.state = .authorized →
      isLive now s account b = true → i = j ∧ a = b) ∧
    (∀ i j a b, load now s account i = some a → a.state = .authorized →
      isLive now s account a = true → load now s account j = some b → b.state = .collecting →
      isLive now s account b = false) ∧
    ∀ e : Env, e.sequence = now →
      (∀ id a, load now s account id = some a → a.state = .collecting →
        isLive now s account a = true →
        ∀ config b, promote e s account config b ≠ .error (.refused .attemptAuthorized)) ∧
      (∀ id guardian, execute d e s (.submitGuardian account id .initiate guardian) ≠
        .error (.refused .attemptAuthorized)) ∧
      ∀ id evidence, execute d e s (.submitZk account id .initiate evidence) ≠
        .error (.refused .attemptAuthorized) := by
  have sound := run.sound account
  refine ⟨?_, ?_, ?_⟩
  · intro i j a b first authorized live second authorized' live'
    have found := sound.authorized_of_live (.of_load first) authorized (isLive_eq_true.mp live)
    have same := sound.live_eq_authorized found (.of_load second) (isLive_eq_true.mp live')
    subst same
    have own : b.id = i := sound.keyed i b (.of_load first)
    have own' : b.id = j := sound.keyed j b (.of_load second)
    exact ⟨own.symm.trans own', rfl⟩
  · intro i j a b first authorized live second collecting
    have found := sound.authorized_of_live (.of_load first) authorized (isLive_eq_true.mp live)
    have dead := sound.not_live_of_authorized found (.of_load second) collecting
    exact Bool.eq_false_iff.mpr (mt isLive_eq_true.mp dead)
  · rintro e rfl
    refine ⟨?_, ?_, ?_⟩
    · intro id a loaded collecting live config b refused
      have quiet := sound.quiet_of_collecting (.of_load loaded) collecting (isLive_eq_true.mp live)
      exact promote_avoids config b quiet _ refused rfl
    · intro id guardian refused
      have avoided : Avoids SecondAuthorization
          (execute d e s (.submitGuardian account id .initiate guardian)) :=
        .bind (submitGuardian_once sound id guardian) fun _ _ => .pure _
      exact avoided _ refused rfl
    · intro id evidence refused
      have avoided : Avoids SecondAuthorization
          (execute d e s (.submitZk account id .initiate evidence)) :=
        .bind (submitZk_once sound id evidence) fun _ _ => .pure _
      exact avoided _ refused rfl

theorem authorized_attempt_exclusive_sample :
    (authorizedLive 104 Sample.reached Sample.account).isSome = true ∧
      ∀ id guardian,
        execute Sample.deployment (Sample.env 104) Sample.reached
          (.submitGuardian Sample.account id .initiate guardian) ≠
        .error (.refused .attemptAuthorized) :=
  ⟨by decide +kernel,
    ((authorized_attempt_exclusive Sample.run Sample.account).2.2 (Sample.env 104) rfl).2.1⟩

/-! ### The window is closed -/

def Call.closedInWindow : Call → Bool
  | .rcvUpgrade _ _ | .beginLostKey _ _ | .beginCompromise _ _ | .approveChange _ _ _ _
  | .submitZkChange _ _ _ _ | .submitGuardian _ _ .initiate _ | .submitZk _ _ .initiate _ => true
  | _ => false

def Call.mayCancel (id : UInt64) : Call → Bool
  | .rcvCancel _ attemptId | .submitGuardian _ attemptId .cancel _
  | .submitZk _ attemptId .cancel _ => attemptId = id
  | _ => false

theorem Call.open_of_mayCancel {id : UInt64} {call : Call} (cancels : call.mayCancel id = true) :
    call.closedInWindow = false := by
  unfold Call.mayCancel at cancels
  split at cancels
  · rfl
  · rfl
  · rfl
  · cases cancels

/-- Nothing of the account moved but the evidence for cancelling `a`. -/
structure WindowFrame (account : Address) (a : Attempt) (s s' : Storage) : Prop where
  config : s'.config account = s.config account
  epoch : epochOf s' account = epochOf s account
  nextAttempt : nextAttemptOf s' account = nextAttemptOf s account
  invalidateBelow : invalidateBelowOf s' account = invalidateBelowOf s account
  authorized : s'.authorized account = s.authorized account
  cancels : s'.cancels account = s.cancels account
  nullifiers : ∀ n, s'.nullifier (account, n) = s.nullifier (account, n)
  approvals : ∀ h, s'.approval (account, h) = s.approval (account, h)
  others : ∀ id, id ≠ a.id → s'.attempt (account, id) = s.attempt (account, id) ∧
    s'.collecting (account, id) = s.collecting (account, id)
  own : s'.collecting (account, a.id) = none ∧ ∃ cancelGuardians cancelZk,
    s'.attempt (account, a.id) =
      some { a with cancelGuardians := cancelGuardians, cancelZk := cancelZk }

structure Slice.Framed (a : Attempt) (m m' : Slice) : Prop where
  config : m'.config = m.config
  epoch : m'.epoch = m.epoch
  nextAttempt : m'.nextAttempt = m.nextAttempt
  invalidateBelow : m'.invalidateBelow = m.invalidateBelow
  authorized : m'.authorized = m.authorized
  cancels : m'.cancels = m.cancels
  nullifiers : m'.nullifier = m.nullifier
  approvals : m'.approval = m.approval
  others : ∀ id, id ≠ a.id → m'.attempt id = m.attempt id ∧ m'.collecting id = m.collecting id
  own : m'.collecting a.id = none ∧ ∃ cancelGuardians cancelZk,
    m'.attempt a.id =
      some { a with cancelGuardians := cancelGuardians, cancelZk := cancelZk }

theorem Slice.Framed.storage {account : Address} {a : Attempt} {s s' : Storage}
    (framed : Slice.Framed a (s.slice account) (s'.slice account)) :
    WindowFrame account a s s' where
  config := framed.config
  epoch := framed.epoch
  nextAttempt := framed.nextAttempt
  invalidateBelow := framed.invalidateBelow
  authorized := framed.authorized
  cancels := framed.cancels
  nullifiers := congrFun framed.nullifiers
  approvals := congrFun framed.approvals
  others := framed.others
  own := framed.own

theorem Submission.cancel_evidence {d : Deployment} {e : Env} {account : Address} {m : Slice}
    {config : CompiledRecoveryConfig} {a b : Attempt} {call : Call}
    (submitted : Submission d e account m config a .cancel call b) :
    call.mayCancel a.id = true ∧
      b = { a with cancelGuardians := b.cancelGuardians, cancelZk := b.cancelZk } := by
  cases submitted with
  | guardian => exact ⟨by simp [Call.mayCancel], rfl⟩
  | zk => exact ⟨by simp [Call.mayCancel], rfl⟩

theorem CancelCause.mayCancel {d : Deployment} {e : Env} {account : Address} {m : Slice}
    {config : CompiledRecoveryConfig} {a b : Attempt} {call : Call} {cancels : Option UInt32}
    (cause : CancelCause d e account m config a call b cancels) : call.mayCancel a.id = true := by
  cases cause with
  | owner => simp [Call.mayCancel]
  | evidence submitted => exact submitted.cancel_evidence.1

/-- What a transition can be while an attempt is authorized. -/
theorem Transition.in_window {d : Deployment} {e : Env} {account : Address} {m m' : Slice}
    {call : Call} {reply : Reply} {gate : Option GateCall} {a : Attempt}
    (transition : Transition d e account m call reply gate m') (sound : m.Sound e.sequence)
    (found : m.Authorized e.sequence a) :
    (∃ docHash recovery validUntil, call = .rcvSync account docHash recovery validUntil ∧
        reply = .synced (.completed { attemptId := a.id, replaced := a.replaced })) ∨
      (call.mayCancel a.id = true ∧ reply = .done ∧
        ∃ b, m'.attempt a.id = some b ∧ b.state = .cancelled) ∨
      (call.closedInWindow = false ∧ reply = .done ∧ m.Framed a m') := by
  obtain ⟨-, -, stored, -⟩ := sound.authorized_state found
  have kept : ∃ cancelGuardians cancelZk, m.attempt a.id =
      some { a with cancelGuardians := cancelGuardians, cancelZk := cancelZk } :=
    ⟨a.cancelGuardians, a.cancelZk, stored⟩
  have alone := sound.single a.id a stored
  have still (completing : Option (Temporary CompletionMarker))
      (baseline : Bytes32 → Option Bytes) :
      m.Framed a { m with completing := completing, baseline := baseline } :=
    { config := rfl
      epoch := rfl
      nextAttempt := rfl
      invalidateBelow := rfl
      authorized := rfl
      cancels := rfl
      nullifiers := rfl
      approvals := rfl
      others := fun _ _ => ⟨rfl, rfl⟩
      own := ⟨alone, kept⟩ }
  cases transition with
  | completed _ _ _ _ found' =>
      have same := found'.unique found
      subst same
      exact .inl ⟨_, _, _, rfl, rfl⟩
  | classified _ quiet _ => exact absurd found (quiet a)
  | scheduled _ _ quiet _ => exact absurd found (quiet a)
  | upgraded _ _ quiet _ => exact absurd found (quiet a)
  | begun started _ _ => exact absurd found (started.quiet a)
  | invalidated _ _ _ _ _ _ quiet _ => exact absurd found (quiet a)
  | authorized _ _ _ _ _ _ quiet _ _ _ _ => exact absurd found (quiet a)
  | approved _ _ _ quiet => exact absurd found (quiet a)
  | proved _ _ quiet => exact absurd found (quiet a)
  | cancelledCollecting _ loaded live state _ =>
      exact absurd live (sound.not_live_of_authorized found (.of_load loaded) state)
  | @cancelledAuthorized _ a' b _ _ _ loaded live state cause _ =>
      have same := sound.live_eq_authorized found (.of_load loaded) live
      subst same
      have own : b.id = a'.id := Attempt.id_of_asBegun cause.asBegun
      refine .inr (.inl ⟨cause.mayCancel, rfl, { b with state := .cancelled }, ?_, rfl⟩)
      rw [← own]
      refine Slice.put_attempt_of_stored (b := a') ?_
      rw [← own] at stored
      exact stored
  | @recorded _ a' b domain _ _ loaded live phase submitted _ =>
      have same := sound.live_eq_authorized found (.of_load loaded) live
      subst same
      cases domain with
      | initiate =>
          exact absurd live (sound.not_live_of_authorized found (.of_load loaded) (phase rfl))
      | cancel =>
          obtain ⟨named, evidence⟩ := submitted.cancel_evidence
          have own : b.id = a'.id := submitted.id_eq
          have written : (m.put e b).attempt a'.id = some b := by
            rw [← own] at stored ⊢
            exact Slice.put_attempt_of_stored stored
          refine .inr (.inr ⟨?_, rfl, ?_⟩)
          · cases submitted <;> rfl
          · exact
              { config := rfl
                epoch := rfl
                nextAttempt := rfl
                invalidateBelow := rfl
                authorized := rfl
                cancels := rfl
                nullifiers := rfl
                approvals := rfl
                others := fun id other =>
                  have distinct : id ≠ b.id := fun same => other (same.trans own)
                  ⟨Slice.put_attempt_of_ne distinct, Slice.put_collecting_of_ne distinct⟩
                own := ⟨Slice.single_put sound.single _ _ written, _, _,
                  written.trans (congrArg some evidence)⟩ }
  | installed => exact .inr (.inr ⟨rfl, rfl, still m.completing m.baseline⟩)
  | uninstalled => exact .inr (.inr ⟨rfl, rfl, still m.completing m.baseline⟩)
  | renewed => exact .inr (.inr ⟨rfl, rfl, still m.completing m.baseline⟩)
  | enforced => exact .inr (.inr ⟨rfl, rfl, still _ m.baseline⟩)
  | published => exact .inr (.inr ⟨rfl, rfl, still m.completing _⟩)

theorem execute_in_window {d : Deployment} {e : Env} {s : Storage} {account : Address}
    {call : Call} {outcome : Outcome} {a : Attempt} (own : call.account = account)
    (accepted : execute d e s call = .ok outcome)
    (sound : (s.slice account).Sound e.sequence)
    (found : (s.slice account).Authorized e.sequence a) :
    (∃ docHash recovery validUntil, call = .rcvSync account docHash recovery validUntil ∧
        outcome.reply = .synced (.completed { attemptId := a.id, replaced := a.replaced })) ∨
      (call.mayCancel a.id = true ∧ outcome.reply = .done ∧
        ∃ b, outcome.storage.attempt (account, a.id) = some b ∧ b.state = .cancelled) ∨
      (call.closedInWindow = false ∧ outcome.reply = .done ∧
        WindowFrame account a s outcome.storage) := by
  subst own
  rcases (execute_transition sound.keyed accepted).2.in_window sound found with
    completed | cancelled | ⟨opened, reply, framed⟩
  · exact .inl completed
  · exact .inr (.inl cancelled)
  · exact .inr (.inr ⟨opened, reply, framed.storage⟩)

/-- While `a` is authorized, a call for its account completes `a`, cancels
`a`, or changes nothing but the evidence for cancelling `a`. -/
theorem window_closed {d : Deployment} {history : History} {now : UInt32} {s : Storage}
    (run : Run d history now s) (account : Address) (a : Attempt)
    (found : authorizedLive now s account = some a) (e : Env) (same : e.sequence = now) :
    (∀ docHash recovery validUntil outcome,
      execute d e s (.rcvSync account docHash recovery validUntil) = .ok outcome →
      outcome.reply = .synced (.completed { attemptId := a.id, replaced := a.replaced })) ∧
    (∀ call, call.account = account → call.closedInWindow = true →
      ∃ failure, execute d e s call = .error failure) ∧
    ∀ call outcome, call.account = account → execute d e s call = .ok outcome →
      outcome.reply = .synced (.completed { attemptId := a.id, replaced := a.replaced }) ∨
        (call.mayCancel a.id = true ∧
          ∃ b, outcome.storage.attempt (account, a.id) = some b ∧ b.state = .cancelled) ∨
        WindowFrame account a s outcome.storage := by
  subst same
  have sound := run.sound account
  have found' := authorizedLive_eq_some.mp found
  refine ⟨?_, ?_, ?_⟩
  · intro docHash recovery validUntil outcome accepted
    rcases execute_in_window rfl accepted sound found' with ⟨_, _, _, -, reply⟩ | ⟨cancels, -⟩ |
      ⟨-, reply, -⟩
    · exact reply
    · cases cancels
    · simp only [execute, bind_eq_ok, pure_eq_ok] at accepted
      obtain ⟨_, -, rfl⟩ := accepted
      cases reply
  · intro call own closed
    cases accepted : execute d e s call with
    | error failure => exact ⟨failure, rfl⟩
    | ok outcome =>
        rcases execute_in_window own accepted sound found' with
          ⟨_, _, _, rfl, -⟩ | ⟨cancels, -⟩ | ⟨opened, -⟩
        · cases closed
        · rw [Call.open_of_mayCancel cancels] at closed
          cases closed
        · rw [closed] at opened
          cases opened
  · intro call outcome own accepted
    rcases execute_in_window own accepted sound found' with ⟨_, _, _, -, reply⟩ |
      ⟨cancels, -, cancelled⟩ | ⟨-, -, framed⟩
    · exact .inl reply
    · exact .inr (.inl ⟨cancels, cancelled⟩)
    · exact .inr (.inr framed)

theorem window_closed_sample :
    (∃ a, authorizedLive 104 Sample.reached Sample.account = some a ∧ a.id = 0) ∧
      ∃ failure, execute Sample.deployment (Sample.env 104) Sample.reached
        (.beginLostKey Sample.account Sample.replacements) = .error failure := by
  obtain ⟨a, found⟩ : ∃ a, authorizedLive 104 Sample.reached Sample.account = some a :=
    Option.isSome_iff_exists.mp (by decide +kernel)
  have first : (authorizedLive 104 Sample.reached Sample.account).map (·.id) = some 0 := by
    decide +kernel
  refine ⟨⟨a, found, ?_⟩, ?_⟩
  · simpa [found] using first
  · exact (window_closed Sample.run Sample.account a found (Sample.env 104) rfl).2.1 _ rfl rfl

end Perch.Recovery
