/-
The recovery interface crate: the compiled configuration, credentials and
replacement sets, the controller's refusals and outcomes, and the ZK boundary
types.
-/

import Perch.Host

namespace Perch.Recovery

/-! ### Compiled configuration -/

inductive RecoveryProfile
  | loss
  | protectedProfile
deriving DecidableEq

structure CompiledGuardianSet where
  guardians : List Address
  quorum : UInt32
deriving DecidableEq

structure ZkBinding where
  pool : Address
  enrollmentId : Bytes32
  circuitId : Bytes32
deriving DecidableEq

structure CompiledZkFactor where
  adapter : Address
  circuitId : Bytes32
  pool : Address
  enrollmentId : Bytes32
  commitment : Bytes32
deriving DecidableEq

def CompiledZkFactor.binding (factor : CompiledZkFactor) : ZkBinding :=
  { pool := factor.pool
    enrollmentId := factor.enrollmentId
    circuitId := factor.circuitId }

inductive CompiledRecoveryMode
  | guardianOnly (set : CompiledGuardianSet)
  | zkOnly (factor : CompiledZkFactor)
  | combined (set : CompiledGuardianSet) (factor : CompiledZkFactor)
deriving DecidableEq

structure CompiledRecoveryConfig where
  configHash : Bytes32
  profile : RecoveryProfile
  mode : CompiledRecoveryMode
  controller : Address
  baseline : Option Bytes32
  replaceable : List SString
  delayLedgers : UInt32
  expiryLedgers : UInt32
  maxCancels : UInt32
deriving DecidableEq

def CompiledRecoveryConfig.guardians (config : CompiledRecoveryConfig) :
    Option CompiledGuardianSet :=
  match config.mode with
  | .guardianOnly set | .combined set _ => some set
  | .zkOnly _ => none

def CompiledRecoveryConfig.zk (config : CompiledRecoveryConfig) : Option CompiledZkFactor :=
  match config.mode with
  | .zkOnly factor | .combined _ factor => some factor
  | .guardianOnly _ => none

/-- Across one `apply_doc` the ZK factor stays entirely unchanged or carries a
new enrollment id. -/
def zkFactorTransitionOk (old new : Option CompiledZkFactor) : Bool :=
  match old, new with
  | some a, some b => a = b || a.enrollmentId ≠ b.enrollmentId
  | _, _ => true

/-- The leaf the account inserts when applying `new` over `old`: exactly when
the enrollment id changes. -/
def leafToInsert (old new : Option CompiledZkFactor) : Option CompiledZkFactor :=
  match new, old with
  | none, _ => none
  | some next, some previous =>
      if previous.enrollmentId = next.enrollmentId then none else some next
  | some next, none => some next

/-! ### Credentials and replacement sets -/

inductive Credential
  | delegated (address : Address)
  | external (verifier : Address) (key : Bytes)
deriving DecidableEq

structure Replacement where
  signerId : SString
  credential : Credential
deriving DecidableEq

structure ZkEnrollment where
  id : Bytes32
  commitment : Bytes32
deriving DecidableEq

structure ReplacementSet where
  signers : List Replacement
  zkEnrollment : List ZkEnrollment
deriving DecidableEq

/-! ### Statements -/

inductive RecoveryAction
  | lostKey
  | compromise
  | cancel
  | reconfigure
  | upgrade
deriving DecidableEq

structure ConfigBinding where
  epoch : UInt64
  configHash : Bytes32
deriving DecidableEq

structure StatementTiming where
  delayLedgers : UInt32
  expiryLedgers : UInt32
  validUntilLedger : UInt32
deriving DecidableEq

structure AttemptSubject where
  attemptId : UInt64
  sourceDocHash : Bytes32
  targetDocHash : Bytes32
  replacementsHash : Bytes32
deriving DecidableEq

structure CancelSubject where
  attemptId : UInt64
  attemptStatement : Bytes32
deriving DecidableEq

inductive ConfigChange
  | remove
  | set (configHash : Bytes32)
deriving DecidableEq

structure UpgradeSubject where
  requestId : UInt64
  wasmHash : Bytes32
deriving DecidableEq

inductive StatementSubject
  | lostKey (subject : AttemptSubject)
  | compromise (subject : AttemptSubject)
  | cancel (subject : CancelSubject)
  | reconfigure (change : ConfigChange)
  | upgrade (subject : UpgradeSubject)
deriving DecidableEq

structure RecoveryStatement where
  networkId : Bytes32
  account : Address
  controller : Address
  config : ConfigBinding
  timing : StatementTiming
  subject : StatementSubject
deriving DecidableEq

inductive StatementError
  | accountNotContract
  | controllerNotContract
  | unsupportedAddress
  | replacementsNotCanonical
  | emptyReplacements
  | evidenceExpired
  | evidenceWindowTooLong
deriving DecidableEq

/-! ### The controller's refusals and outcomes -/

inductive RecoveryError
  | notEnrolled
  | attemptAuthorized
  | noSuchAttempt
  | attemptNotLive
  | attemptNotCollecting
  | notExecutableYet
  | wrongTarget
  | notAGuardian
  | alreadyCounted
  | modeHasNoGuardians
  | modeHasNoZk
  | zkEvidenceRejected
  | nullifierSpent
  | evidenceExpired
  | invalidStatement
  | conditionNotMet
  | maxCancelsReached
  | ownerCancelRefused
  | invalidReplacements
  | credentialRevoked
  | enrollmentIdReused
  | noBaseline
  | baselineNotPublished
  | baselineMismatch
  | zkWiringMismatch
  | zkFactorChangedInPlace
  | invalidConfiguration
  | staleUpgrade
  | ledgerOverflow
  | malformedContextRule
  | replacedCredentialRetained
deriving DecidableEq

/-- Why a controller call produced no state: a typed refusal, or a trap
(missing authorization, an overflowing counter, a callee that failed). -/
inductive Failure
  | refused (error : RecoveryError)
  | trapped
deriving DecidableEq

structure Completion where
  attemptId : UInt64
  replaced : List Credential
deriving DecidableEq

inductive SyncOutcome
  | unchanged
  | enrolled
  | reconfigured
  | removed
  | completed (completion : Completion)
deriving DecidableEq

def SyncOutcome.bumpsGeneration : SyncOutcome → Bool
  | .unchanged => false
  | _ => true

inductive UpgradeStep
  | schedule (subject : UpgradeSubject) (approvalValidUntil : UInt32)
  | execute (recordedEpoch : UInt64)
deriving DecidableEq

structure ZkEvidence where
  treeId : UInt32
  root : Bytes32
  nullifier : Bytes32
  proof : Bytes
deriving DecidableEq

end Perch.Recovery
