/-
The policy document: the rule set an owner writes, reviews, and applies.

Plain data.  The mapping between these types and JSON is the parser's on the
way in and the canonical writer's on the way out; what a document must satisfy
beyond its shape is validation's.
-/

import Perch.Host

namespace Perch.Ir

/-! ### Signers -/

inductive SignerMethod
  | external (verifier : String) (key : String)
  | delegated (address : String)
deriving DecidableEq

structure SignerDecl where
  id : String
  method : SignerMethod
deriving DecidableEq

/-! ### Rules -/

inductive Scope
  | contract (address : String)
  | selfAdmin
deriving DecidableEq

inductive Principals
  | all (signers : List String)
  | threshold (signers : List String) (m : UInt32)
  | selfAuthenticating (policy : String) (installParamHex : String) (ack : String)
deriving DecidableEq

inductive ArgPred
  | isSelf
  | addressEq (address : String)
  | stringIn (values : List String)
  | stringPrefix (initial : String)
  | u32Eq (value : UInt32)
deriving DecidableEq

structure ArgConstraint where
  index : UInt32
  pred : ArgPred
deriving DecidableEq

/-- A cumulative spend cap.  The limit is an `i128`, written as a decimal
string because it does not fit a JSON number. -/
structure CapConstraint where
  token : Option String
  limit : String
  periodLedgers : UInt32
deriving DecidableEq

structure Rule where
  name : String
  scope : Scope
  principals : Principals
  /-- Absent: every function. -/
  functions : Option (List String)
  args : Option (List ArgConstraint)
  notAfterLedger : Option UInt32
  cap : Option CapConstraint
deriving DecidableEq

/-! ### Recovery -/

inductive RecoveryProfile
  | loss
  | protectedProfile
deriving DecidableEq

structure GuardianSet where
  guardians : List String
  quorum : UInt32
deriving DecidableEq

structure ZkFactor where
  adapter : String
  circuitId : String
  pool : String
  enrollmentId : String
  commitment : String
deriving DecidableEq

inductive RecoveryMode
  | guardianOnly (guardians : GuardianSet)
  | zkOnly (zk : ZkFactor)
  | combined (guardians : GuardianSet) (zk : ZkFactor)
deriving DecidableEq

structure BaselineCommitment where
  docHash : String
deriving DecidableEq

structure RecoveryConfig where
  profile : RecoveryProfile
  mode : RecoveryMode
  controller : String
  baseline : Option BaselineCommitment
  replaceable : List String
  delayLedgers : UInt32
  expiryLedgers : UInt32
  maxCancels : UInt32
deriving DecidableEq

structure PolicyDoc where
  version : UInt32
  network : Option String
  signers : List SignerDecl
  rules : List Rule
  recovery : Option RecoveryConfig
deriving DecidableEq

end Perch.Ir
