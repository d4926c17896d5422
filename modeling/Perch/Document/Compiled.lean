/-
What the document compiler returns: compiled rules, the compiled document, and
a derived recovery target.
-/

import Perch.Program.Rpn
import Perch.Recovery.Interface

namespace Perch.Document

open Recovery Program

/-- Where a compiled rule applies; `selfAdmin` is resolved by the applying
account to its own address. -/
inductive RuleScope
  | selfAdmin
  | contract (address : Address)
deriving DecidableEq

structure CompiledCap where
  spendingLimit : Int
  periodLedgers : UInt32
deriving DecidableEq

structure CompiledRule where
  name : SString
  scope : RuleScope
  signers : List Signer
  validUntil : Option UInt32
  install : List InstallParams
  cap : List CompiledCap
deriving DecidableEq

structure CompiledDoc where
  docHash : Bytes32
  canonical : Bytes
  fingerprints : List Bytes32
  rules : List CompiledRule
  recovery : List CompiledRecoveryConfig
deriving DecidableEq

structure DerivedTarget where
  canonical : Bytes
  docHash : Bytes32
  configHash : Bytes32
  fingerprints : List Bytes32
  replaced : List Credential
deriving DecidableEq

/-- The anti-brick check: a policy-free, never-expiring self-admin rule with a
signer survives. -/
def adminSurvives (rules : List CompiledRule) : Bool :=
  rules.any fun rule =>
    rule.scope = .selfAdmin && rule.validUntil.isNone && !rule.signers.isEmpty &&
      rule.install.isEmpty && rule.cap.isEmpty

end Perch.Document
