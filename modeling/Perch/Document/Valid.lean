/-
What the document compiler guarantees about its output.

A compiled document has passed validation, so its rules have different names,
and it stands for the canonical bytes it carries: compiling those bytes again
gives the same document.
-/

import Perch.Document.Compiler
import Perch.Ir.RoundTrip
import Perch.Machine.Lists

namespace Perch.Document

open Machine Recovery

/-! ### Validation -/

section Validation

open Ir

theorem utf8_injective {first second : String} (same : utf8 first = utf8 second) :
    first = second := by
  have decoded := congrArg Utf8.decode same
  rw [utf8, utf8, Utf8.decode_encode, Utf8.decode_encode] at decoded
  exact Option.some.inj decoded

theorem utf8_ofList (text : List Char) :
    utf8 (String.ofList text) = text.flatMap String.utf8EncodeChar := by
  simp [utf8, String.toUTF8, List.utf8Encode]

theorem reportIf_eq_nil {fails : Prop} [Decidable fails] {error : ValidationError} :
    reportIf fails error = [] ↔ ¬fails := by
  unfold reportIf
  split <;> simp_all

/-- A walk that reports nothing saw no key twice and no faulty item. -/
theorem eachSeen_eq_nil {α κ : Type} [DecidableEq κ] {key : α → κ}
    {report : Bool → α → List ValidationError} (reported : ∀ item, report true item ≠ [])
    {seen : List κ} {items : List α} (silent : eachSeen key report seen items = []) :
    (items.map key).Nodup ∧ ∀ item ∈ items, key item ∉ seen ∧ report false item = [] := by
  induction items generalizing seen with
  | nil => simp
  | cons item rest ih =>
      rw [eachSeen, List.append_eq_nil_iff] at silent
      obtain ⟨here, there⟩ := silent
      have fresh : key item ∉ seen := by
        intro repeated
        rw [decide_eq_true repeated] at here
        exact reported item here
      rw [decide_eq_false fresh] at here
      obtain ⟨distinct, rest⟩ := ih there
      refine ⟨?_, ?_⟩
      · rw [List.map_cons, List.nodup_cons]
        refine ⟨?_, distinct⟩
        intro later
        obtain ⟨other, member, same⟩ := List.mem_map.mp later
        exact (rest other member).1 (same ▸ List.mem_cons_self)
      · intro other member
        rcases List.mem_cons.mp member with rfl | later
        · exact ⟨fresh, here⟩
        · obtain ⟨unseen, silent⟩ := rest other later
          exact ⟨fun earlier => unseen (List.mem_cons_of_mem _ earlier), silent⟩

theorem validateRules_eq_nil {hexDecode : String → Option Bytes} {declared : List String}
    {position : Nat} {seen : List String} {rules : List Rule}
    (silent : validateRules hexDecode declared position seen rules = []) :
    (rules.map Rule.name).Nodup ∧ ∀ rule ∈ rules, rule.name ∉ seen ∧ rule.name ≠ "" ∧
      validateRule hexDecode declared rule = [] := by
  induction rules generalizing position seen with
  | nil => simp
  | cons rule rest ih =>
      simp only [validateRules, List.append_eq_nil_iff] at silent
      obtain ⟨⟨named, valid⟩, more⟩ := silent
      have nonempty : rule.name ≠ "" := by
        intro empty
        simp [empty] at named
      rw [if_neg nonempty, reportIf_eq_nil] at named
      obtain ⟨distinct, rest⟩ := ih more
      refine ⟨?_, ?_⟩
      · rw [List.map_cons, List.nodup_cons]
        refine ⟨?_, distinct⟩
        intro later
        obtain ⟨other, member, same⟩ := List.mem_map.mp later
        exact (rest other member).1 (same ▸ List.mem_cons_self)
      · intro other member
        rcases List.mem_cons.mp member with rfl | later
        · exact ⟨named, nonempty, valid⟩
        · obtain ⟨unseen, valid⟩ := rest other later
          exact ⟨fun earlier => unseen (List.mem_cons_of_mem _ earlier), valid⟩

theorem violations_eq_nil {hexDecode : String → Option Bytes} {doc : PolicyDoc} :
    violations hexDecode doc = [] ↔ doc.version = 1 ∧
      validateSigners hexDecode 0 ⟨[], [], []⟩ doc.signers = [] ∧
      validateRules hexDecode (doc.signers.map SignerDecl.id) 0 [] doc.rules = [] ∧
      ∀ r, doc.recovery = some r →
        validateRecovery (doc.signers.map SignerDecl.id) r = [] ∧
          validateRulesAvoidZkContracts doc r = [] := by
  unfold violations
  cases doc.recovery <;> simp [List.append_eq_nil_iff, reportIf_eq_nil]

theorem validate_eq_ok {hexDecode : String → Option Bytes} {doc : PolicyDoc} {done : Unit} :
    validate hexDecode doc = .ok done ↔ violations hexDecode doc = [] := by
  unfold validate
  split <;> simp_all

end Validation

/-! ### Compiled documents -/

variable {host : CompilerHost}

structure Compiles (host : CompilerHost) (doc : Ir.PolicyDoc) (compiled : CompiledDoc) : Prop where
  valid : Ir.violations host.hexDecode doc = []
  network : ∃ network, doc.network = some network ∧
    host.sha256 (Ir.utf8 network) = host.networkId
  capped : ¬(maxDocSigners < doc.signers.length ∨ maxDocRules < doc.rules.length ∨
    doc.rules.any (fun r => maxRuleNameBytes < (Ir.utf8 r.name).length) = true)
  rules : ∃ plan, Compile.compile host.lowerHost doc unpinned = .ok plan ∧
    plan.rules.mapM (toCompiled host) = .ok compiled.rules
  canonical : compiled.canonical = Ir.utf8 (Ir.canonicalJson doc)
  short : compiled.canonical.length ≤ maxDocCanonicalBytes
  docHash : compiled.docHash = host.sha256 compiled.canonical
  recovery : doc.recovery.toList.mapM (toCompiledRecovery host) = .ok compiled.recovery
  fingerprints : ∃ credentials, canonicalCredentials host doc.signers = .ok credentials ∧
    Document.fingerprints host credentials = .ok compiled.fingerprints

theorem compileParsed_eq_ok {doc : Ir.PolicyDoc} {compiled : CompiledDoc}
    (compiles : compileParsed host doc = .ok compiled) : Compiles host doc compiled := by
  simp only [compileParsed, bind_eq_ok, mapError_eq_ok, validate_eq_ok, orFail_eq_ok,
    require_eq_ok, pure_eq_ok] at compiles
  obtain ⟨_, valid, network, named, _, bound, _, capped, plan, lowered, rules, resolved, _, short,
    recovery, enrolled, credentials, declared, prints, fingerprinted, rfl⟩ := compiles
  exact
    { valid := valid
      network := ⟨network, named, bound⟩
      capped := capped
      rules := ⟨plan, lowered, resolved⟩
      canonical := rfl
      short := short
      docHash := rfl
      recovery := enrolled
      fingerprints := ⟨credentials, declared, fingerprinted⟩ }

theorem Compiles.compileParsed_eq {doc : Ir.PolicyDoc} {compiled : CompiledDoc}
    (compiles : Compiles host doc compiled) : compileParsed host doc = .ok compiled := by
  obtain ⟨network, named, bound⟩ := compiles.network
  obtain ⟨plan, lowered, resolved⟩ := compiles.rules
  obtain ⟨credentials, declared, fingerprinted⟩ := compiles.fingerprints
  have canonical := compiles.canonical
  have short := compiles.short
  rw [canonical] at short
  have docHash := compiles.docHash
  simp only [compileParsed, bind_eq_ok, mapError_eq_ok, validate_eq_ok, orFail_eq_ok,
    require_eq_ok, pure_eq_ok]
  refine ⟨(), compiles.valid, network, named, (), bound, (), compiles.capped, plan, lowered,
    compiled.rules, resolved, (), short, compiled.recovery, compiles.recovery, credentials,
    declared, compiled.fingerprints, fingerprinted, ?_⟩
  rw [← canonical, ← docHash]

theorem Compiles.recovery_mem {doc : Ir.PolicyDoc} {compiled : CompiledDoc}
    (compiles : Compiles host doc compiled) {config : CompiledRecoveryConfig}
    (member : config ∈ compiled.recovery) :
    ∃ r, doc.recovery = some r ∧ toCompiledRecovery host r = .ok config := by
  have mapped := compiles.recovery
  cases declared : doc.recovery with
  | none =>
      rw [declared, Option.toList_none, List.mapM_nil, pure_eq_ok] at mapped
      rw [← mapped] at member
      cases member
  | some r =>
      rw [declared] at mapped
      simp only [Option.toList_some, List.mapM_cons, List.mapM_nil, bind_eq_ok, pure_eq_ok]
        at mapped
      obtain ⟨built, builds, _, rfl, shape⟩ := mapped
      rw [← shape, List.mem_singleton] at member
      exact ⟨r, rfl, member ▸ builds⟩

theorem compileDoc_eq_ok {docJson : Bytes} {compiled : CompiledDoc} :
    compileDoc host docJson = .ok compiled ↔
      ∃ doc, parse host docJson = .ok doc ∧ compileParsed host doc = .ok compiled := by
  simp [compileDoc]

theorem parse_canonical (conforms : host.lexer.Conforms) {doc : Ir.PolicyDoc}
    (version : doc.version = 1) : parse host (Ir.utf8 (Ir.canonicalJson doc)) = .ok doc := by
  simp only [parse, Ir.utf8, Utf8.decode_encode, bind_eq_ok, orFail_eq_ok, mapError_eq_ok]
  exact ⟨_, rfl, Ir.fromJson_canonicalJson conforms version⟩

theorem compileDoc_of_doc (conforms : host.lexer.Conforms) {doc : Ir.PolicyDoc}
    (version : doc.version = 1) :
    compileDoc host (Ir.utf8 (Ir.canonicalJson doc)) = compileParsed host doc := by
  rw [compileDoc, parse_canonical conforms version, ok_bind]

/-- Compiling a compiled document's canonical bytes gives the document. -/
theorem compileDoc_canonical (conforms : host.lexer.Conforms) {docJson : Bytes}
    {compiled : CompiledDoc} (compiles : compileDoc host docJson = .ok compiled) :
    compileDoc host compiled.canonical = .ok compiled := by
  obtain ⟨doc, _, whole⟩ := compileDoc_eq_ok.mp compiles
  have shape := compileParsed_eq_ok whole
  apply compileDoc_eq_ok.mpr
  refine ⟨doc, ?_, whole⟩
  rw [shape.canonical]
  exact parse_canonical conforms (violations_eq_nil.mp shape.valid).1

/-! ### Rules -/

theorem lowerRule_name {lowerHost : Compile.LowerHost} {doc : Ir.PolicyDoc} {rule : Ir.Rule}
    {lowered : Compile.LoweredRule} (lowers : Compile.lowerRule lowerHost doc rule = .ok lowered) :
    lowered.name = rule.name := by
  simp only [Compile.lowerRule, bind_eq_ok, Except.ok.injEq] at lowers
  obtain ⟨_, _, _, _, _, _, _, _, _, _, rfl⟩ := lowers
  rfl

theorem toCompiled_name {lowered : Compile.LoweredRule} {rule : CompiledRule}
    (resolves : toCompiled host lowered = .ok rule) : rule.name = Ir.utf8 lowered.name := by
  simp only [toCompiled, bind_eq_ok, pure_eq_ok] at resolves
  obtain ⟨_, _, _, _, rfl⟩ := resolves
  rfl

theorem Compiles.names {doc : Ir.PolicyDoc} {compiled : CompiledDoc}
    (compiles : Compiles host doc compiled) :
    compiled.rules.map CompiledRule.name = doc.rules.map fun rule => Ir.utf8 rule.name := by
  obtain ⟨plan, lowered, resolved⟩ := compiles.rules
  simp only [Compile.compile, bind_eq_ok, Except.ok.injEq] at lowered
  obtain ⟨rules, mapped, rfl⟩ := lowered
  have lowerNames : rules.map Compile.LoweredRule.name = doc.rules.map Ir.Rule.name := by
    refine (map_eq_of_forall₂ ((mapM_eq_ok mapped).imp ?_)).symm
    intro rule lowered lowers
    exact (lowerRule_name lowers).symm
  have wireNames : compiled.rules.map CompiledRule.name =
      rules.map fun rule => Ir.utf8 rule.name := by
    refine (map_eq_of_forall₂ ((mapM_eq_ok resolved).imp ?_)).symm
    intro lowered rule resolves
    exact (toCompiled_name resolves).symm
  calc
    compiled.rules.map CompiledRule.name = (rules.map Compile.LoweredRule.name).map Ir.utf8 := by
      rw [wireNames, List.map_map]
      rfl
    _ = doc.rules.map fun rule => Ir.utf8 rule.name := by
      rw [lowerNames, List.map_map]
      rfl

theorem Compiles.names_nodup {doc : Ir.PolicyDoc} {compiled : CompiledDoc}
    (compiles : Compiles host doc compiled) :
    (compiled.rules.map CompiledRule.name).Nodup := by
  have distinct := (validateRules_eq_nil (violations_eq_nil.mp compiles.valid).2.2.1).1
  rw [compiles.names]
  have bytes := distinct.map (f := Ir.utf8) fun _ _ same => utf8_injective same
  rwa [List.map_map] at bytes

end Perch.Document
