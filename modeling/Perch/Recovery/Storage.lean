/-
The recovery controller's records and storage.

Every entry is per account, per attempt, per nullifier, or per statement
digest.  Persistent entries are never absent once written (an archived one is
unavailable, and a call that touches it fails), so their lifetimes are not
modelled.  Collecting attempts and completion markers are temporary: they
carry their lifetime and vanish when it ends.
-/

import Mathlib.Logic.Function.Basic
import Perch.Document.Compiled
import Perch.Machine.Words
import Perch.Recovery.Credential

namespace Perch.Recovery

open Machine Document

/-! ### Records -/

inductive EvidenceDomain
  | initiate
  | cancel
deriving DecidableEq

inductive AttemptState
  | collecting
  | authorized
  | completed
  | cancelled
  | invalidated
deriving DecidableEq

structure Attempt where
  id : UInt64
  action : RecoveryAction
  epoch : UInt64
  createdAt : UInt32
  evidenceDeadline : UInt32
  cancelUntil : UInt32
  authorizedAt : UInt32
  executableAfter : UInt32
  expiresAt : UInt32
  sourceDocHash : Bytes32
  targetDocHash : Bytes32
  targetBytesHash : Bytes32
  targetConfigHash : Bytes32
  replacementsHash : Bytes32
  replaced : List Credential
  state : AttemptState
  guardians : List Address
  zkNullifier : Option Bytes32
  cancelGuardians : List Address
  cancelZk : Bool
deriving DecidableEq

structure ChangeApproval where
  guardians : List Address
  zk : Bool
deriving DecidableEq

def ChangeApproval.empty : ChangeApproval :=
  { guardians := [], zk := false }

structure CompletionMarker where
  attemptId : UInt64
  targetDocHash : Bytes32
  ledger : UInt32
deriving DecidableEq

structure ActivityGate where
  authorizedAttempt : Option UInt64
  frozen : Bool
  untilLedger : UInt32
deriving DecidableEq

/-! ### Storage -/

/-- `RecoveryStorage`. -/
structure Storage where
  config : Address → Option CompiledRecoveryConfig
  epoch : Address → Option UInt64
  nextAttempt : Address → Option UInt64
  invalidateBelow : Address → Option UInt64
  authorized : Address → Option UInt64
  cancels : Address → Option UInt32
  attempt : Address × UInt64 → Option Attempt
  collecting : Address × UInt64 → Option (Temporary Attempt)
  completing : Address → Option (Temporary CompletionMarker)
  nullifier : Address × Bytes32 → Option Bool
  approval : Address × Bytes32 → Option ChangeApproval
  baseline : Address × Bytes32 → Option Bytes

/-- A freshly deployed controller: it is constructorless. -/
def Storage.empty : Storage where
  config _ := none
  epoch _ := none
  nextAttempt _ := none
  invalidateBelow _ := none
  authorized _ := none
  cancels _ := none
  attempt _ := none
  collecting _ := none
  completing _ := none
  nullifier _ := none
  approval _ := none
  baseline _ := none

/-! ### The contracts and host a call can reach -/

structure Deployment where
  sha256 : Sha256
  networkId : Bytes32
  /-- The controller's own address. -/
  address : Address

/-- The account surface the controller calls.  An absent answer is a call that
trapped. -/
structure AccountView where
  appliedDoc : Option (Option Bytes)
  appliedDocHash : Option (Option Bytes32)
  docCompiler : Option Address
  isRevoked : Bytes32 → Option Bool
  isEnrolledId : Bytes32 → Option Bool
  rcvGate : UInt64 → UInt32 → Option Unit

structure DocCompiler where
  compileDoc : Bytes → Option CompiledDoc
  deriveTarget : Bytes → Bytes → RecoveryAction → ReplacementSet → Option DerivedTarget

structure ZkAdapter where
  verify : RecoveryStatement → ZkBinding → ZkEvidence → Bool
  circuitId : Option Bytes32
  treeDepth : Option UInt32

/-- One invocation's environment.  Nothing is assumed about the contracts it
reaches; the host refuses re-entry, so none of them runs the controller. -/
structure Env where
  sequence : UInt32
  maxTtl : UInt32
  minTemporaryTtl : UInt32
  requireAuth : Address → Bool
  requireAuthForArgs : Address → Bytes32 → Bool
  account : Address → AccountView
  docCompiler : Address → DocCompiler
  zkAdapter : Address → ZkAdapter
  poolDepth : Address → Option UInt32

structure GateCall where
  attemptId : UInt64
  frozenUntil : UInt32
deriving DecidableEq

/-! ### State helpers -/

def orTrap {α : Type} (answer : Option α) : Except Failure α :=
  orFail answer .trapped

@[simp] theorem orTrap_eq_ok {α : Type} {answer : Option α} {value : α} :
    orTrap answer = .ok value ↔ answer = some value := orFail_eq_ok

@[simp] theorem orTrap_ne_refused {α : Type} {answer : Option α} {error : RecoveryError} :
    orTrap answer ≠ .error (.refused error) := by
  simp [orTrap]

def addLedgers (a b : UInt32) : Except Failure UInt32 :=
  orFail (checkedAdd a b) (.refused .ledgerOverflow)

def requireConfig (s : Storage) (account : Address) : Except Failure CompiledRecoveryConfig :=
  orFail (s.config account) (.refused .notEnrolled)

def epochOf (s : Storage) (account : Address) : UInt64 :=
  (s.epoch account).getD 0

def nextAttemptOf (s : Storage) (account : Address) : UInt64 :=
  (s.nextAttempt account).getD 0

def invalidateBelowOf (s : Storage) (account : Address) : UInt64 :=
  (s.invalidateBelow account).getD 0

def bumpEpoch (s : Storage) (account : Address) : Except Failure (UInt64 × Storage) := do
  let next ← orTrap (checkedSucc (epochOf s account))
  pure (next, { s with epoch := Function.update s.epoch account (some next) })

/-- Store a configuration and bump the epoch, which kills every attempt and
every piece of evidence from before. -/
def storeConfig (s : Storage) (account : Address) (config : CompiledRecoveryConfig) :
    Except Failure Storage := do
  let (_, s) ← bumpEpoch { s with config := Function.update s.config account (some config) } account
  pure s

def load (now : UInt32) (s : Storage) (account : Address) (attemptId : UInt64) : Option Attempt :=
  (s.attempt (account, attemptId)).or (Temporary.read now (s.collecting (account, attemptId)))

/-- An attempt is live while its epoch is current, it is not terminal, no
sibling's authorization invalidated it, and its phase's window is open. -/
def isLive (now : UInt32) (s : Storage) (account : Address) (a : Attempt) : Bool :=
  if a.epoch ≠ epochOf s account then false
  else match a.state with
    | .collecting => invalidateBelowOf s account ≤ a.id && now ≤ a.evidenceDeadline
    | .authorized => s.authorized account = some a.id && now < a.expiresAt
    | .completed | .cancelled | .invalidated => false

def loadLive (now : UInt32) (s : Storage) (account : Address) (attemptId : UInt64) :
    Except Failure Attempt := do
  let attempt ← orFail (load now s account attemptId) (.refused .noSuchAttempt)
  require (isLive now s account attempt = true) (.refused .attemptNotLive)
  pure attempt

/-- Whether a record goes to persistent storage: it was authorized, its
evidence window outlives any temporary entry, or it is there already. -/
def savesPersistently (e : Env) (s : Storage) (account : Address) (attempt : Attempt) : Bool :=
  attempt.state = .authorized || attempt.state = .completed ||
    e.maxTtl < saturatingAdd (saturatingSub attempt.evidenceDeadline e.sequence) 1 ||
    (s.attempt (account, attempt.id)).isSome

def save (e : Env) (s : Storage) (account : Address) (attempt : Attempt) : Storage :=
  let key := (account, attempt.id)
  if savesPersistently e s account attempt then
    { s with
      collecting := Function.update s.collecting key none
      attempt := Function.update s.attempt key (some attempt) }
  else
    let evidenceWindow := saturatingAdd (saturatingSub attempt.evidenceDeadline e.sequence) 1
    let entry := Temporary.write e.sequence e.minTemporaryTtl (s.collecting key) attempt
    { s with
      collecting := Function.update s.collecting key
        (some (entry.extend e.sequence evidenceWindow evidenceWindow)) }

def authorizedLive (now : UInt32) (s : Storage) (account : Address) : Option Attempt :=
  match s.authorized account with
  | none => none
  | some id =>
      match s.attempt (account, id) with
      | none => none
      | some attempt => if isLive now s account attempt then some attempt else none

/-- While an attempt is authorized, the only evidence accepted is for that
attempt's cancellation. -/
def refuseInWindow (now : UInt32) (s : Storage) (account : Address) : Except Failure Unit :=
  require (authorizedLive now s account = none) (.refused .attemptAuthorized)

def storeApproval (s : Storage) (account : Address) (digest : Bytes32) (approval : ChangeApproval) :
    Storage :=
  { s with approval := Function.update s.approval (account, digest) (some approval) }

def changeEvidence (s : Storage) (account : Address) (digest : Bytes32) : ChangeApproval :=
  (s.approval (account, digest)).getD .empty

end Perch.Recovery
