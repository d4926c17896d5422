/-
What the contracts hash, told apart by how it begins.

Guardians and signers approve bare digests, so the bytes behind them must say
what they are.  Six of the seven kinds begin with a domain tag and the seventh,
the canonical form of a document, with a brace; no tag begins another.
-/

import Perch.Account.Contract
import Perch.Document.Valid

namespace Perch.Account

open Machine Document Recovery

inductive PreimageKind
  | statement
  | credential
  | replacements
  | config
  | rule
  | authorization
  | document
deriving DecidableEq

/-- The bytes hashed under each kind.  The configuration's text comes from a
caller and may be anything. -/
inductive Preimage : PreimageKind → Bytes → Prop
  | statement {statement : RecoveryStatement} {encoded : Bytes}
      (encodes : statement.encode = .ok encoded) : Preimage .statement encoded
  | credential {credential : Credential} {encoded : Bytes}
      (encodes : credential.encode = .ok encoded) :
      Preimage .credential (credentialDomain ++ encoded)
  | replacements {set : ReplacementSet} {encoded : Bytes} (encodes : set.encode = .ok encoded) :
      Preimage .replacements (replacementsDomain ++ encoded)
  | config (canonicalRecoveryJson : Bytes) :
      Preimage .config (configDomain ++ canonicalRecoveryJson)
  | rule (rule : Ir.Rule) :
      Preimage .rule (Ir.ruleHashDomain ++ Ir.utf8 (Ir.ruleCanonicalJson rule))
  | authorization (accountId signaturePayload : Bytes32) :
      Preimage .authorization (authAddrDomain ++ accountId.bytes ++ signaturePayload.bytes)
  | document (doc : Ir.PolicyDoc) : Preimage .document (Ir.utf8 (Ir.canonicalJson doc))

def PreimageKind.tag : PreimageKind → Bytes
  | .statement => statementDomain
  | .credential => credentialDomain
  | .replacements => replacementsDomain
  | .config => configDomain
  | .rule => Ir.ruleHashDomain
  | .authorization => authAddrDomain
  | .document => [0x7b]

theorem statementDomain_prefix {statement : RecoveryStatement} {encoded : Bytes}
    (encodes : statement.encode = .ok encoded) : statementDomain <+: encoded := by
  simp only [RecoveryStatement.encode, bind_eq_ok, pure_eq_ok] at encodes
  obtain ⟨_, _, _, _, rfl⟩ := encodes
  simp only [List.append_assoc]
  exact List.prefix_append _ _

theorem canonicalJson_prefix (doc : Ir.PolicyDoc) :
    PreimageKind.document.tag <+: Ir.utf8 (Ir.canonicalJson doc) := by
  rw [Ir.canonicalJson, Ir.docToCv, Ir.writeValue, utf8_ofList, List.flatMap_cons]
  exact List.prefix_append _ _

theorem Preimage.tag_prefix {kind : PreimageKind} {bytes : Bytes}
    (preimage : Preimage kind bytes) : kind.tag <+: bytes := by
  cases preimage with
  | statement encodes => exact statementDomain_prefix encodes
  | credential => exact List.prefix_append _ _
  | replacements => exact List.prefix_append _ _
  | config => exact List.prefix_append _ _
  | rule => exact List.prefix_append _ _
  | authorization =>
      rw [List.append_assoc]
      exact List.prefix_append _ _
  | document doc => exact canonicalJson_prefix doc

theorem PreimageKind.tag_prefix_free {kind kind' : PreimageKind}
    (begins : kind.tag <+: kind'.tag) : kind = kind' := by
  revert begins
  cases kind <;> cases kind' <;> decide

theorem Preimage.kind_unique {kind kind' : PreimageKind} {bytes : Bytes}
    (preimage : Preimage kind bytes) (preimage' : Preimage kind' bytes) : kind = kind' := by
  rcases List.prefix_or_prefix_of_prefix preimage.tag_prefix preimage'.tag_prefix with
    begins | begins
  · exact PreimageKind.tag_prefix_free begins
  · exact (PreimageKind.tag_prefix_free begins).symm

/-- Every digest of the contracts is of bytes of its kind. -/
theorem digests_of_preimages :
    (∀ sha256 (statement : RecoveryStatement) digest, statement.digest sha256 = .ok digest →
      ∃ bytes, Preimage .statement bytes ∧ digest = sha256 bytes) ∧
    (∀ sha256 (credential : Credential) digest, credential.fingerprint sha256 = .ok digest →
      ∃ bytes, Preimage .credential bytes ∧ digest = sha256 bytes) ∧
    (∀ sha256 (set : ReplacementSet) digest, set.hash sha256 = .ok digest →
      ∃ bytes, Preimage .replacements bytes ∧ digest = sha256 bytes) ∧
    (∀ sha256 text, ∃ bytes, Preimage .config bytes ∧ configHash sha256 text = sha256 bytes) ∧
    (∀ (host : Compile.LowerHost) (rule : Ir.Rule),
      ∃ bytes, Preimage .rule bytes ∧ Compile.ruleHashOnchain host rule = host.sha256 bytes) ∧
    (∀ (d : AccountDeployment) payload,
      ∃ bytes, Preimage .authorization bytes ∧ bindPayload d payload = d.sha256 bytes) ∧
    ∀ (host : CompilerHost) docJson compiled, compileDoc host docJson = .ok compiled →
      ∃ bytes, Preimage .document bytes ∧ compiled.docHash = host.sha256 bytes := by
  refine ⟨?_, ?_, ?_, ?_, ?_, ?_, ?_⟩
  · intro sha256 statement digest made
    simp only [RecoveryStatement.digest, bind_eq_ok, pure_eq_ok] at made
    obtain ⟨encoded, encodes, rfl⟩ := made
    exact ⟨encoded, .statement encodes, rfl⟩
  · intro sha256 credential digest made
    simp only [Credential.fingerprint, bind_eq_ok, pure_eq_ok] at made
    obtain ⟨encoded, encodes, rfl⟩ := made
    exact ⟨_, .credential encodes, rfl⟩
  · intro sha256 set digest made
    simp only [ReplacementSet.hash, bind_eq_ok, pure_eq_ok] at made
    obtain ⟨encoded, encodes, rfl⟩ := made
    exact ⟨_, .replacements encodes, rfl⟩
  · intro sha256 text
    exact ⟨_, .config text, rfl⟩
  · intro host rule
    exact ⟨_, .rule rule, rfl⟩
  · intro d payload
    exact ⟨_, .authorization _ payload, rfl⟩
  · intro host docJson compiled compiles
    obtain ⟨doc, _, compiles⟩ := compileDoc_eq_ok.mp compiles
    have shape := compileParsed_eq_ok compiles
    refine ⟨_, .document doc, ?_⟩
    rw [shape.docHash, shape.canonical]

/-- The encoding of a statement determines it, statements of different actions
never encode alike, and no bytes are hashed under two kinds. -/
theorem preimages_separated :
    (∀ (left right : RecoveryStatement) encoded, left.encode = .ok encoded →
      right.encode = .ok encoded → left = right) ∧
    (∀ (left right : RecoveryStatement) encoded encoded', left.encode = .ok encoded →
      right.encode = .ok encoded' → left.action ≠ right.action → encoded ≠ encoded') ∧
    ∀ bytes kind kind', Preimage kind bytes → Preimage kind' bytes → kind = kind' := by
  refine ⟨?_, ?_, ?_⟩
  · intro left right encoded leftEncodes rightEncodes
    exact RecoveryStatement.encode_injective leftEncodes rightEncodes
  · intro left right encoded encoded' leftEncodes rightEncodes differ same
    rw [← same] at rightEncodes
    rw [RecoveryStatement.encode_injective leftEncodes rightEncodes] at differ
    exact differ rfl
  · intro bytes kind kind' preimage preimage'
    exact preimage.kind_unique preimage'

def sampleRemoval : RecoveryStatement where
  networkId := BytesN.fill 1
  account := .contract (BytesN.fill 2)
  controller := .contract (BytesN.fill 3)
  config := { epoch := 4, configHash := BytesN.fill 5 }
  timing := { delayLedgers := 6, expiryLedgers := 7, validUntilLedger := 8 }
  subject := .reconfigure .remove

/-- The encoding of a removal is no document. -/
theorem preimages_separated_sample :
    ∃ encoded, sampleRemoval.encode = .ok encoded ∧ ¬Preimage .document encoded := by
  obtain ⟨encoded, encodes⟩ : ∃ encoded, sampleRemoval.encode = .ok encoded := ⟨_, rfl⟩
  refine ⟨encoded, encodes, ?_⟩
  intro document
  cases preimages_separated.2.2 _ _ _ (.statement encodes) document

end Perch.Account
