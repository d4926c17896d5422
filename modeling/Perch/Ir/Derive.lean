/-
Recovery target derivation.

A recovery never installs a document somebody chose: its target is derived
from a source document, the replacements declared, and the recovery member
currently applied.
-/

import Perch.Ir.Canon

namespace Perch.Ir

inductive DeriveAction
  | lostKey
  | compromise
deriving DecidableEq

structure Replacement where
  signerId : String
  method : SignerMethod
deriving DecidableEq

structure ZkRotation where
  enrollmentId : String
  commitment : String
deriving DecidableEq

inductive DeriveError
  | notEnrolled
  | notCanonical
  | emptyReplacements
  | notReplaceable (id : String)
  | undeclaredSigner (id : String)
  | kindMismatch (id : String)
  | zkEnrollmentMismatch
deriving DecidableEq

/-- Strictly ascending by bytes. -/
def ascending : List Bytes → Bool
  | [] => true
  | [_] => true
  | first :: second :: rest => first < second && ascending (second :: rest)

def sameKind : SignerMethod → SignerMethod → Bool
  | .external a _, .external b _ => a = b
  | .delegated _, .delegated _ => true
  | _, _ => false

def setMethod (id : String) (method : SignerMethod) : List SignerDecl → List SignerDecl
  | [] => []
  | decl :: rest =>
      if decl.id = id then { decl with method := method } :: rest
      else decl :: setMethod id method rest

def replaceSigner (replaceable : List String) (signers : List SignerDecl) (r : Replacement) :
    Except DeriveError (List SignerDecl) :=
  if r.signerId ∉ replaceable then .error (.notReplaceable r.signerId)
  else
    match signers.find? fun decl => decl.id = r.signerId with
    | none => .error (.undeclaredSigner r.signerId)
    | some decl =>
        if sameKind decl.method r.method then .ok (setMethod r.signerId r.method signers)
        else .error (.kindMismatch r.signerId)

def ZkFactor.rotated (z : ZkFactor) (rotation : ZkRotation) : ZkFactor :=
  { z with enrollmentId := rotation.enrollmentId, commitment := rotation.commitment }

/-- A rotation must be given exactly when the mode has a factor to rotate. -/
def rotateMode (mode : RecoveryMode) (zk : Option ZkRotation) : Except DeriveError RecoveryMode :=
  match mode, zk with
  | .guardianOnly g, none => .ok (.guardianOnly g)
  | .zkOnly z, some rotation => .ok (.zkOnly (z.rotated rotation))
  | .combined g z, some rotation => .ok (.combined g (z.rotated rotation))
  | _, _ => .error .zkEnrollmentMismatch

def deriveTarget (source current : PolicyDoc) (action : DeriveAction)
    (replacements : List Replacement) (zk : Option ZkRotation) : Except DeriveError PolicyDoc := do
  let some recovery := current.recovery | .error .notEnrolled
  if ascending (replacements.map fun r => utf8 r.signerId) = false then .error .notCanonical
  else if action = .lostKey ∧ replacements = [] then .error .emptyReplacements
  else
    let signers ← replacements.foldlM (replaceSigner recovery.replaceable) source.signers
    let mode ← rotateMode recovery.mode zk
    .ok { version := source.version
          network := source.network
          signers := signers
          rules := source.rules
          recovery := some { recovery with mode := mode } }

end Perch.Ir
