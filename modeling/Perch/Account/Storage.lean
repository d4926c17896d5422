/-
The account's own storage, and the refusals of its entry points.

Everything here is one account's.  The OpenZeppelin rules it holds are another
library's storage and stand beside this record, not in it.  Lifetimes of
persistent entries are not modelled: an archived entry is unavailable, never
absent.
-/

import Perch.Account.Rules
import Perch.Document.Compiler
import Perch.Machine.Words

namespace Perch.Account

open Machine Document Recovery

/-! ### Refusals -/

inductive PerchAccountError
  | adminLockout
  | revokedCredential
  | enrollmentReused
  | zkFactorChangedInPlace
  | reservedFunction
  | recoveryNotEnrolled
  | noPendingUpgrade
  | upgradeRequestMismatch
  | upgradeNotReady
  | timingOverflow
  | invalidCredential
  | staleUpgrade
  | compiler (error : DocCompilerError)
  | recovery (error : RecoveryError)
  | staleRevision
deriving DecidableEq

inductive PoolError
  | accountNotContract
  | nonCanonicalCommitment
  | enrollmentIdTaken
  | unknownTree
  | pageTooLarge
  | treeIdOverflow
deriving DecidableEq

inductive PerchAuthError
  | reservedFunction
  | accountFrozen
deriving DecidableEq

/-- Why an account call leaves nothing: its own refusal, a callee's, or a trap. -/
inductive AccountFailure
  | refused (error : PerchAccountError)
  | unauthorized (error : PerchAuthError)
  | rules (failure : OzFailure)
  | pool (error : PoolError)
  | trapped
deriving DecidableEq

def compilerFailure : DocFailure → AccountFailure
  | .refused error => .refused (.compiler error)
  | .trapped => .trapped

def controllerFailure : Failure → AccountFailure
  | .refused error => .refused (.recovery error)
  | .trapped => .trapped

/-! ### Storage -/

structure FreezeGate where
  attemptId : UInt64
  untilLedger : UInt32
deriving DecidableEq

structure UpgradeRequest where
  requestId : UInt64
  wasmHash : Bytes32
  generation : UInt64
  controllerEpoch : Option UInt64
  executableAt : UInt32
deriving DecidableEq

inductive UpgradeReadiness
  | ready
  | notYet
  | stale
deriving DecidableEq

def accountUpgradeDelayLedgers : UInt32 := 7 * 17280

def UpgradeRequest.schedule (requestId : UInt64) (wasmHash : Bytes32) (generation : UInt64)
    (controllerEpoch : Option UInt64) (now : UInt32) : Option UpgradeRequest :=
  (checkedAdd now accountUpgradeDelayLedgers).map fun executableAt =>
    { requestId := requestId
      wasmHash := wasmHash
      generation := generation
      controllerEpoch := controllerEpoch
      executableAt := executableAt }

def UpgradeRequest.readiness (request : UpgradeRequest) (now : UInt32) (generation : UInt64) :
    UpgradeReadiness :=
  if generation ≠ request.generation then .stale
  else if now < request.executableAt then .notYet
  else .ready

/-- `PerchStorage`. -/
structure AccountStorage where
  appliedDoc : Option Bytes32
  appliedDocBytes : Option Bytes
  appliedFingerprints : Option (List Bytes32)
  recoveryController : Option Address
  recoveryRule : Option UInt32
  gate : Option FreezeGate
  currentZk : Option CompiledZkFactor
  revoked : Bytes32 → Bool
  enrolledIds : Bytes32 → Bool
  pendingUpgrade : Option UpgradeRequest
  recoveryGeneration : Option UInt64
  installedRules : Option (List InstalledRule)
  nextUpgradeId : Option UInt64
  revision : Option UInt64

def AccountStorage.empty : AccountStorage where
  appliedDoc := none
  appliedDocBytes := none
  appliedFingerprints := none
  recoveryController := none
  recoveryRule := none
  gate := none
  currentZk := none
  revoked _ := false
  enrolledIds _ := false
  pendingUpgrade := none
  recoveryGeneration := none
  installedRules := none
  nextUpgradeId := none
  revision := none

namespace AccountStorage

def generationOf (s : AccountStorage) : UInt64 := s.recoveryGeneration.getD 0

def revisionOf (s : AccountStorage) : UInt64 := s.revision.getD 0

def rulesOf (s : AccountStorage) : List InstalledRule := s.installedRules.getD []

def advanceGeneration (s : AccountStorage) : Except AccountFailure AccountStorage := do
  let next ← orFail (checkedSucc s.generationOf) .trapped
  pure { s with recoveryGeneration := some next }

def advanceRevision (s : AccountStorage) : Except AccountFailure AccountStorage := do
  let next ← orFail (checkedSucc s.revisionOf) .trapped
  pure { s with revision := some next }

/-- Advance the generation for an outcome that is a recovery transition. -/
def noteOutcome (s : AccountStorage) (outcome : SyncOutcome) :
    Except AccountFailure AccountStorage :=
  if outcome.bumpsGeneration then s.advanceGeneration else pure s

def dropPendingUpgrade (s : AccountStorage) : AccountStorage :=
  { s with pendingUpgrade := none }

/-- A completed recovery revokes what it replaced and what the target drops,
lifts the freeze, and drops a pending upgrade. -/
def completeRecovery (sha256 : Sha256) (s : AccountStorage) (replaced : List Credential)
    (targetFingerprints : List Bytes32) : Except AccountFailure AccountStorage := do
  let replacedFingerprints ← replaced.mapM fun credential =>
    (credential.fingerprint sha256).mapError fun _ => .refused .invalidCredential
  let before := s.appliedFingerprints.getD []
  let revoked := revocations replacedFingerprints before targetFingerprints
  pure { s with
    revoked := fun fingerprint => fingerprint ∈ revoked || s.revoked fingerprint
    gate := none
    pendingUpgrade := none }

/-- The applied document is rewritten only when its hash changes. -/
def recordDocument (s : AccountStorage) (compiled : CompiledDoc) : AccountStorage :=
  if s.appliedDoc ≠ some compiled.docHash then
    { s with
      appliedDoc := some compiled.docHash
      appliedDocBytes := some compiled.canonical
      appliedFingerprints := some compiled.fingerprints }
  else s

end AccountStorage

end Perch.Account
