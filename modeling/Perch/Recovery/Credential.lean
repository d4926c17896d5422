/-
Credential identity for revocation, and the hash of a replacement set.

A credential is fingerprinted over a self-delimiting encoding; a replacement
set refuses any order but the strictly ascending one.
-/

import Perch.Recovery.Statement

namespace Perch.Recovery

open Machine

def credentialDomain : Bytes := "perch/recovery/credential".toUTF8.data.toList

def replacementsDomain : Bytes := "perch/recovery/replacements".toUTF8.data.toList

def Credential.encode : Credential → Except StatementError Bytes
  | .delegated address => do
      let tagged ← orFail (taggedAddress address) .unsupportedAddress
      pure (1 :: tagged)
  | .external verifier key => do
      let tagged ← orFail (taggedAddress verifier) .unsupportedAddress
      pure (2 :: tagged ++ beBytes 4 key.length ++ key)

def Credential.fingerprint (sha256 : Sha256) (credential : Credential) :
    Except StatementError Bytes32 := do
  let encoded ← credential.encode
  pure (sha256 (credentialDomain ++ encoded))

def bytesLt : Bytes → Bytes → Bool
  | [], [] => false
  | [], _ :: _ => true
  | _ :: _, [] => false
  | x :: a, y :: b => if x ≠ y then x < y else bytesLt a b

/-- The replacements of a set after `prev`, refusing an id that does not
follow it. -/
def encodeReplacements (prev : Option Bytes) : List Replacement → Except StatementError Bytes
  | [] => pure []
  | replacement :: rest => do
      require (∀ p ∈ prev, bytesLt p replacement.signerId = true) .replacementsNotCanonical
      let credential ← replacement.credential.encode
      let tail ← encodeReplacements (some replacement.signerId) rest
      pure (beBytes 4 replacement.signerId.length ++ replacement.signerId ++ credential ++ tail)

def ReplacementSet.encode (set : ReplacementSet) : Except StatementError Bytes := do
  let signers ← encodeReplacements none set.signers
  let enrollment ← match set.zkEnrollment with
    | [] => pure [0]
    | [z] => pure (1 :: z.id.bytes ++ z.commitment.bytes)
    | _ => throw .replacementsNotCanonical
  pure (beBytes 4 set.signers.length ++ signers ++ enrollment)

def ReplacementSet.hash (sha256 : Sha256) (set : ReplacementSet) :
    Except StatementError Bytes32 := do
  let encoded ← set.encode
  pure (sha256 (replacementsDomain ++ encoded))

/-- The fingerprints a completion revokes: every replaced source credential,
and every current one the target drops, in first-seen order. -/
def revocations (replaced current target : List Bytes32) : List Bytes32 :=
  let out := replaced.foldl (fun out f => if f ∈ out then out else out ++ [f]) []
  current.foldl (fun out f => if f ∉ target ∧ f ∉ out then out ++ [f] else out) out

/-- Every replaced source credential leaves the account. -/
def replacedCredentialsLeave (replaced target : List Bytes32) : Bool :=
  replaced.all fun f => f ∉ target

end Perch.Recovery
