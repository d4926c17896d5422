/-
What every rule of a compiled document is.

The compiler's caps stand well below the rule store's limits.  Validation tells
signers apart by their keys, and the compiler hands on no key its verifier would
respell.  So a compiled rule asks for nothing the store documents refusing.
-/

import Perch.Compile.Failures
import Perch.Document.Spelling

namespace Perch.Document

open Machine Recovery Compile

/-! ### Caps -/

theorem lowerRule_cap {hexDecode : String → Option Bytes} {lowerHost : LowerHost}
    {doc : Ir.PolicyDoc} {rule : Ir.Rule} {declared : List String}
    (valid : Ir.validateRule hexDecode declared rule = []) {lowered : LoweredRule}
    (lowers : lowerRule lowerHost doc rule = .ok lowered) :
    ∀ cap ∈ lowered.cap, 0 < cap.limit ∧ 0 < cap.periodLedgers := by
  simp only [lowerRule, bind_eq_ok, Except.ok.injEq, Prod.exists] at lowers
  obtain ⟨_, _, _, _, _, cap, capped, _, _, _, _, rfl⟩ := lowers
  intro lowered member
  cases declares : rule.cap with
  | none =>
      rw [declares] at capped
      cases capped
      cases member
  | some constraint =>
      simp only [Ir.validateRule, List.append_eq_nil_iff, declares, Option.map_some,
        Option.getD_some, Ir.validateCap, reportIf_eq_nil] at valid
      obtain ⟨_, ⟨positive, lasting⟩, _⟩ := valid
      rw [declares] at capped
      obtain ⟨built, lowers, rfl⟩ := map_eq_ok.mp capped
      cases member
      unfold lowerCap at lowers
      obtain ⟨limit, parsed, rfl⟩ := map_eq_ok.mp lowers
      rw [orFail_eq_ok] at parsed
      rw [parsed, Option.all_some, decide_eq_true_eq, Int.not_le] at positive
      exact ⟨positive, UInt32.pos_iff_ne_zero.mpr lasting⟩

/-! ### Signers -/

section Signers

variable {host : CompilerHost}

/-- The host reads hex by digits, and no two texts as one address. -/
structure CompilerHost.Reads (host : CompilerHost) : Prop where
  hex : ∀ text, host.hexDecode text = hexPairs (Ir.utf8 text)
  address : ∀ {text text' : String} {address : Address},
    host.addressFromStr text = some address → host.addressFromStr text' = some address →
      text = text'

theorem toSigner_delegated {text : String} {signer : Signer} :
    toSigner host (.delegated text) = .ok signer ↔
      ∃ address, host.addressFromStr text = some address ∧ .delegated address = signer := by
  simp only [toSigner, addressFromStr, bind_eq_ok, orFail_eq_ok, pure_eq_ok]

theorem toSigner_external {text keyHex : String} {signer : Signer} :
    toSigner host (.external text keyHex) = .ok signer ↔
      ∃ verifier, host.addressFromStr text = some verifier ∧
        ∃ key, hexPairs (Ir.utf8 keyHex) = some key ∧ .external verifier key = signer := by
  simp only [toSigner, addressFromStr, hexBytes, bind_eq_ok, orFail_eq_ok, pure_eq_ok]

/-- One signer is one key. -/
theorem toSigner_key (reads : host.Reads) {spec spec' : SignerSpec} {signer : Signer}
    (resolves : toSigner host spec = .ok signer) (resolves' : toSigner host spec' = .ok signer) :
    Analyze.keyOf host.hexDecode spec = Analyze.keyOf host.hexDecode spec' := by
  cases spec with
  | delegated text =>
      obtain ⟨address, found, rfl⟩ := toSigner_delegated.mp resolves
      cases spec' with
      | delegated text' =>
          obtain ⟨_, found', same⟩ := toSigner_delegated.mp resolves'
          cases same
          rw [reads.address found found']
      | external text' keyHex' =>
          obtain ⟨_, _, _, _, differ⟩ := toSigner_external.mp resolves'
          cases differ
  | external text keyHex =>
      obtain ⟨verifier, found, key, decoded, rfl⟩ := toSigner_external.mp resolves
      cases spec' with
      | delegated text' =>
          obtain ⟨_, _, differ⟩ := toSigner_delegated.mp resolves'
          cases differ
      | external text' keyHex' =>
          obtain ⟨_, found', _, decoded', same⟩ := toSigner_external.mp resolves'
          cases same
          rw [reads.address found found', Analyze.keyOf, Analyze.keyOf, reads.hex, reads.hex,
            decoded, decoded']

/-- Signers are told apart by their keys. -/
theorem signers_nodup (reads : host.Reads) {specs : List SignerSpec} {signers : List Signer}
    (resolved : List.Forall₂ (fun spec signer => toSigner host spec = .ok signer) specs signers)
    (keys : (specs.map (Analyze.keyOf host.hexDecode)).Nodup) : signers.Nodup := by
  induction resolved with
  | nil => exact List.nodup_nil
  | cons head tail ih =>
      rw [List.map_cons, List.nodup_cons] at keys
      refine List.nodup_cons.mpr ⟨fun again => keys.1 ?_, ih keys.2⟩
      obtain ⟨spec, listed, resolves⟩ := exists_of_mem_left tail.flip again
      exact List.mem_map.mpr ⟨spec, listed, toSigner_key reads resolves head⟩

/-- A key that stands in a batch the verifier leaves as it is. -/
def CompilerHost.Keeps (host : CompilerHost) (verifier : Address) (key : Bytes) : Prop :=
  ∃ batch, key ∈ batch ∧ host.canonicalizeKeys verifier batch = some batch

/-- Every verifier with keys is listed. -/
def Batches.Listed (batches : Batches) : Prop :=
  ∀ verifier, batches.keys verifier ≠ [] → verifier ∈ batches.verifiers

theorem Batches.Listed.add {batches next : Batches} {s : Ir.SignerDecl} (listed : batches.Listed)
    (added : batches.add host s = .ok next) : next.Listed := by
  unfold Batches.add at added
  cases declares : s.method with
  | delegated text =>
      simp only [declares, bind_eq_ok, pure_eq_ok] at added
      obtain ⟨_, _, rfl⟩ := added
      exact listed
  | external text key =>
      simp only [declares, bind_eq_ok, pure_eq_ok] at added
      obtain ⟨verifier, _, _, _, rfl⟩ := added
      intro other held
      by_cases own : other = verifier
      · subst own
        dsimp only
        split
        · assumption
        · simp
      · dsimp only at held
        rw [Function.update_of_ne own] at held
        have before := listed other held
        dsimp only
        split
        · exact before
        · exact List.mem_append_left _ before

theorem batches_listed {batches final : Batches} {signers : List Ir.SignerDecl}
    (listed : batches.Listed) (walked : signers.foldlM (Batches.add host) batches = .ok final) :
    final.Listed := by
  induction signers generalizing batches with
  | nil =>
      simp only [List.foldlM_nil, pure_eq_ok] at walked
      exact walked ▸ listed
  | cons s rest ih =>
      rw [List.foldlM_cons] at walked
      obtain ⟨next, added, walked⟩ := bind_eq_ok.mp walked
      exact ih (listed.add added) walked

/-- The compiler refuses a key its verifier would respell. -/
theorem canonicalCredentials_keeps {signers : List Ir.SignerDecl} {credentials : List Credential}
    (canonical : canonicalCredentials host signers = .ok credentials) {s : Ir.SignerDecl}
    (member : s ∈ signers) {verifier : Address} {key : Bytes}
    (declares : credentialOf host s = .ok (.external verifier key)) :
    host.Keeps verifier key := by
  simp only [canonicalCredentials, bind_eq_ok] at canonical
  obtain ⟨batches, walked, _, checked, _⟩ := canonical
  obtain ⟨_, slots, _, aligned⟩ := batches_eq_ok walked
  have listed : batches.Listed := batches_listed (by simp [Batches.Listed, Batches.empty]) walked
  obtain ⟨⟨address, place⟩, _, credential, read, spelled⟩ := exists_of_mem_left aligned member
  obtain rfl := Except.ok.inj (spelled.symm.trans declares)
  cases place with
  | none => simp [slotCredential] at read
  | some i =>
      simp only [slotCredential, bind_eq_ok, orFail_eq_ok, pure_eq_ok, Credential.external.injEq]
        at read
      obtain ⟨_, found, rfl, rfl⟩ := read
      have held := List.mem_of_getElem? found
      have kept := forM_eq_ok.mp checked address (listed address (List.ne_nil_of_mem held))
      simp only [canonicalBatch, bind_eq_ok, orFail_eq_ok, require_eq_ok] at kept
      obtain ⟨keys, answered, rfl⟩ := kept
      exact ⟨_, held, answered⟩

theorem toSigner_credential {decl : Ir.SignerDecl} {verifier : Address} {key : Bytes}
    (resolves : toSigner host (signerSpec decl.method) = .ok (.external verifier key)) :
    credentialOf host decl = .ok (.external verifier key) := by
  unfold credentialOf
  cases declares : decl.method with
  | delegated text =>
      rw [declares] at resolves
      obtain ⟨_, _, differ⟩ := toSigner_delegated.mp resolves
      cases differ
  | external text keyHex =>
      rw [declares] at resolves
      obtain ⟨_, found, _, decoded, same⟩ := toSigner_external.mp resolves
      cases same
      simp [addressFromStr, hexBytes, found, decoded, orFail]

end Signers

/-! ### Rules -/

section Rules

variable {host : CompilerHost} {doc : Ir.PolicyDoc} {compiled : CompiledDoc}

/-- What the rule store, and the policies a rule attaches, ask of a rule. -/
structure CompiledRule.Wellformed (host : CompilerHost) (rule : CompiledRule) : Prop where
  signed : rule.signers ≠ []
  distinct : rule.signers.Nodup
  few : rule.signers.length ≤ maxDocSigners
  canonical : ∀ verifier key, .external verifier key ∈ rule.signers → host.Keeps verifier key
  shortName : rule.name.length ≤ maxRuleNameBytes
  program : ∀ params ∈ rule.install, params.program.validate = .ok ()
  cap : ∀ cap ∈ rule.cap, 0 < cap.spendingLimit ∧ 0 < cap.periodLedgers

/-- A compiled rule was lowered from a rule of the document. -/
theorem Compiles.lowered (compiles : Compiles host doc compiled) {rule : CompiledRule}
    (member : rule ∈ compiled.rules) : ∃ source ∈ doc.rules, ∃ lowered,
      lowerRule host.lowerHost doc source = .ok lowered ∧ toCompiled host lowered = .ok rule := by
  obtain ⟨plan, planned, resolved⟩ := compiles.rules
  simp only [Compile.compile, bind_eq_ok, Except.ok.injEq] at planned
  obtain ⟨rules, mapped, rfl⟩ := planned
  obtain ⟨lowered, listed, resolves⟩ := exists_of_mem_left (mapM_eq_ok resolved).flip member
  obtain ⟨source, given, lowers⟩ := exists_of_mem_left (mapM_eq_ok mapped).flip listed
  exact ⟨source, given, lowered, lowers, resolves⟩

theorem Compiles.length_rules (compiles : Compiles host doc compiled) :
    compiled.rules.length ≤ maxDocRules := by
  have few := compiles.capped
  simp only [not_or, Nat.not_lt] at few
  have names := congrArg List.length compiles.names
  rw [List.length_map, List.length_map] at names
  exact names ▸ few.2.1

theorem Compiles.wellformed (reads : host.Reads) (compiles : Compiles host doc compiled)
    {rule : CompiledRule} (member : rule ∈ compiled.rules) : rule.Wellformed host := by
  obtain ⟨source, given, lowered, lowers, resolves⟩ := compiles.lowered member
  have sound := Analyze.soundRule_of_valid (validate_eq_ok.mpr compiles.valid) given
  have well := wellLowered sound lowers
  have caps := lowerRule_cap sound.valid lowers
  obtain ⟨few, _, short⟩ : doc.signers.length ≤ maxDocSigners ∧ doc.rules.length ≤ maxDocRules ∧
      ¬doc.rules.any (fun r => maxRuleNameBytes < (Ir.utf8 r.name).length) = true := by
    simpa only [not_or, Nat.not_lt] using compiles.capped
  obtain ⟨credentials, canonical, _⟩ := compiles.fingerprints
  obtain ⟨ids, least, parts⟩ := lowerRule_eq_ok lowers
  obtain ⟨_, distinct, declared⟩ := quorum_declared (validateRule_eq_nil sound.valid).principals
    parts.asks
  simp only [toCompiled, bind_eq_ok, pure_eq_ok] at resolves
  obtain ⟨scope, _, signers, resolved, rfl⟩ := resolves
  have resolved := mapM_eq_ok resolved
  constructor
  · intro unsigned
    dsimp only at unsigned
    rw [unsigned] at resolved
    exact well.signers (List.length_eq_zero_iff.mp resolved.length_eq)
  · exact signers_nodup reads resolved well.credentials
  · have listed := (List.subperm_of_subset distinct declared).length_le
    rw [List.length_map] at listed
    have same := (mapM_eq_ok parts.signers).length_eq
    dsimp only
    rw [← resolved.length_eq, ← same]
    exact listed.trans few
  · intro verifier key held
    obtain ⟨spec, spelled, resolves⟩ := exists_of_mem_left resolved.flip held
    obtain ⟨id, _, found⟩ := exists_of_mem_left (mapM_eq_ok parts.signers).flip spelled
    obtain ⟨decl, declares, _, rfl⟩ := resolveSigner_eq_ok found
    exact canonicalCredentials_keeps canonical declares (toSigner_credential resolves)
  · dsimp only
    rw [well.name, ← Nat.not_lt]
    intro long
    exact short (List.any_eq_true.mpr ⟨source, given, decide_eq_true long⟩)
  · intro params attached
    exact well.installable params (Option.mem_toList.mp attached)
  · intro cap attached
    obtain ⟨spec, listed, rfl⟩ := List.mem_map.mp attached
    exact caps spec (Option.mem_toList.mp listed)

end Rules

end Perch.Document
