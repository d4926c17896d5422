/-
When compiling a valid document fails, and with what.

Two kinds of rule cannot be lowered: one whose principals are not signers, and
one whose program does not fit the interpreter.  The compiler reports the first
of them, and lowers every other rule.
-/

import Perch.Analyze.Credentials

namespace Perch.Compile

open Machine Ir Program Document

def SelfAuthenticating (rule : Rule) : Prop :=
  ∃ policy params ack, rule.principals = .selfAuthenticating policy params ack

def Unlowerable (rule : Rule) : Prop :=
  SelfAuthenticating rule ∨ maxStackDepth < leafCount rule

def LoweringFails (rule : Rule) (error : LowerError) : Prop :=
  (SelfAuthenticating rule ∧ error = .unsupported rule.name
    "self-authenticating rules need a policy-call op not in program v1") ∨
  (¬SelfAuthenticating rule ∧ maxStackDepth < leafCount rule ∧
    error = .invalidProgram rule.name
      (if maxProgramLen < leafCount rule + 1 then .tooLarge else .stackOverflow))

structure WellLowered (hexDecode : String → Option Bytes) (rule : Rule) (lowered : LoweredRule) :
    Prop where
  name : lowered.name = rule.name
  signers : lowered.signers ≠ []
  distinct : lowered.signers.Nodup
  /-- Not only spelled apart: no credential is counted twice. -/
  credentials : (lowered.signers.map (Analyze.keyOf hexDecode)).Nodup
  attached : lowered.install ≠ none ↔ (∃ signers m, rule.principals = .threshold signers m) ∨
    rule.functions ≠ none ∨ rule.args ≠ none ∨ rule.cap ≠ none
  installable : ∀ install, lowered.install = some install → install.program.validate = .ok ()

/-! ### Programs that do not fit -/

section Rules

variable {hexDecode : String → Option Bytes} {host : LowerHost} {doc : PolicyDoc} {rule : Rule}

/-- A conjunction of more leaves than the stack holds is not valid. -/
theorem validate_conjunction_error {leaves : List Op} (leaf : ∀ op ∈ leaves, pops op = .ok 0)
    (large : maxStackDepth < leaves.length) :
    RpnProgram.validate ⟨programVersion, leaves ++ [.all (UInt32.ofNat leaves.length)]⟩ =
      .error (if maxProgramLen < leaves.length + 1 then .tooLarge else .stackOverflow) := by
  have named : leaves ++ [Op.all (UInt32.ofNat leaves.length)] ≠ [] := by simp
  have depths := foldlM_leaves leaf (Nat.zero_le maxStackDepth)
  rw [Nat.zero_add, if_pos large] at depths
  unfold RpnProgram.validate
  rw [if_neg (not_not.mpr rfl), if_neg named, List.length_append, List.length_singleton]
  split
  · rfl
  · rw [List.foldlM_append, depths]
    rfl

theorem buildProgram_error {least : UInt32} {functions args : List Op}
    (lowers : functionLeaves rule = .ok functions) (lowers' : argLeaves host rule = .ok args)
    (large : maxStackDepth < leafCount rule) :
    buildProgram host rule least = .error (.invalidProgram rule.name
      (if maxProgramLen < leafCount rule + 1 then .tooLarge else .stackOverflow)) := by
  obtain ⟨length, leaf⟩ := @buildProgram_leaves host rule least _ _ lowers lowers'
  rw [← length] at large
  have invalid := validate_conjunction_error leaf large
  rw [length] at invalid
  rw [buildProgram_eq, lowers, ok_bind, lowers', ok_bind]
  simp only [length, invalid]
  rfl

theorem buildProgram_valid {least : UInt32} {program : RpnProgram}
    (built : buildProgram host rule least = .ok program) : program.validate = .ok () := by
  simp only [buildProgram_eq, bind_eq_ok, mapError_eq_ok, Except.ok.injEq] at built
  obtain ⟨_, _, _, _, _, valid, rfl⟩ := built
  exact valid

/-! ### Rules -/

/-- The host knows every address a rule's predicates name. -/
def Decodable (host : LowerHost) (rule : Rule) : Prop :=
  ∀ constraints, rule.args = some constraints → ∀ constraint ∈ constraints,
    ∀ address, constraint.pred = .addressEq address → host.addressFromStr address ≠ none

theorem quorum_error_iff : (∃ error, quorum rule = .error error) ↔ SelfAuthenticating rule := by
  unfold quorum SelfAuthenticating
  cases rule.principals <;> simp

theorem quorum_declared {declared ids : List String} {least : UInt32}
    (valid : validatePrincipals hexDecode rule.name declared rule.principals = [])
    (asks : quorum rule = .ok (ids, least)) :
    ids ≠ [] ∧ ids.Nodup ∧ ∀ id ∈ ids, id ∈ declared := by
  cases kind : rule.principals with
  | all signers =>
      simp only [quorum, kind, Except.ok.injEq, Prod.mk.injEq] at asks
      rw [kind] at valid
      rw [← asks.1]
      exact validatePrincipalSigners_eq_nil valid
  | threshold signers m =>
      simp only [quorum, kind, Except.ok.injEq, Prod.mk.injEq] at asks
      rw [kind] at valid
      simp only [validatePrincipals, List.append_eq_nil_iff] at valid
      rw [← asks.1]
      exact validatePrincipalSigners_eq_nil valid.1
  | selfAuthenticating policy params ack => simp [quorum, kind] at asks

theorem not_constraintFree (large : maxStackDepth < leafCount rule) :
    constraintFree rule = false := by
  rw [← Bool.not_eq_true]
  intro free
  obtain ⟨_, functions, args, _⟩ := constraintFree_eq_true.mp free
  simp only [leafCount, functions, args, maxStackDepth] at large
  simp at large

theorem resolved_keys {name : String} {ids : List String} {specs : List SignerSpec}
    (resolved : ids.mapM (resolveSigner doc name) = .ok specs) :
    specs.map (Analyze.keyOf hexDecode) = ids.map (Analyze.declaredKey hexDecode doc) := by
  have each := mapM_eq_ok resolved
  clear resolved
  induction each with
  | nil => rfl
  | cons resolves _ ih =>
      rw [List.map_cons, List.map_cons, ih, Analyze.declaredKey]
      unfold resolveSigner at resolves
      split at resolves
      · cases resolves
      next decl found =>
        rw [found, Option.bind_some, Analyze.declKey]
        split at resolves <;> cases resolves <;> simp_all [signerSpec]

theorem lowerRule_large {ids : List String} {least : UInt32}
    (valid : validateRule hexDecode (doc.signers.map SignerDecl.id) rule = [])
    (asks : quorum rule = .ok (ids, least))
    (declared : ∀ id ∈ ids, id ∈ doc.signers.map SignerDecl.id)
    (decodable : Decodable host rule) (large : maxStackDepth < leafCount rule) :
    lowerRule host doc rule = .error (.invalidProgram rule.name
      (if maxProgramLen < leafCount rule + 1 then .tooLarge else .stackOverflow)) := by
  obtain ⟨signers, resolved⟩ := @resolveSigners_ok doc rule.name ids declared
  obtain ⟨cap, capped⟩ := lowerCap_ok valid
  obtain ⟨functions, lowers⟩ := functionLeaves_ok (validateRule_functions valid)
  obtain ⟨args, lowers'⟩ := argLeaves_ok decodable
  unfold lowerRule
  simp only [asks, resolved, capped, ok_bind, not_constraintFree large,
    buildProgram_error lowers lowers' large]
  rfl

/-- Why a valid rule does not lower. -/
theorem lowerRule_error_iff (sound : Analyze.SoundRule hexDecode doc rule)
    (decodable : Decodable host rule) {error : LowerError} :
    lowerRule host doc rule = .error error ↔ LoweringFails rule error := by
  obtain ⟨known, valid⟩ := sound
  have principals := (validateRule_eq_nil valid).principals
  cases asks : quorum rule with
  | error raised =>
      have selfAuthenticating := quorum_error_iff.mp ⟨raised, asks⟩
      obtain ⟨policy, params, ack, kind⟩ := selfAuthenticating
      simp only [quorum, kind, Except.error.injEq] at asks
      have fails : lowerRule host doc rule = .error raised := by
        unfold lowerRule
        simp only [quorum, kind, asks]
        rfl
      rw [fails, ← asks]
      simp only [LoweringFails, SelfAuthenticating, kind]
      simp [eq_comm]
  | ok asked =>
      obtain ⟨ids, least⟩ := asked
      have signed : ¬SelfAuthenticating rule := by
        rw [← quorum_error_iff, asks]
        simp
      obtain ⟨_, _, declared⟩ := quorum_declared principals asks
      simp only [LoweringFails, signed, false_and, false_or, not_false_eq_true, true_and]
      by_cases large : maxStackDepth < leafCount rule
      · rw [lowerRule_large valid asks declared decodable large]
        simp [large, eq_comm]
      · obtain ⟨lowered, lowers⟩ := lowerRule_total valid asks declared decodable
          (Nat.not_lt.mp large)
        simp [large, lowers]

theorem unlowerable_iff : Unlowerable rule ↔ ∃ error, LoweringFails rule error := by
  unfold Unlowerable LoweringFails
  by_cases selfAuthenticating : SelfAuthenticating rule
  · simp [selfAuthenticating]
  · by_cases large : maxStackDepth < leafCount rule <;> simp [selfAuthenticating, large]

theorem lowerRule_ok_iff (sound : Analyze.SoundRule hexDecode doc rule)
    (decodable : Decodable host rule) :
    (∃ lowered, lowerRule host doc rule = .ok lowered) ↔ ¬Unlowerable rule := by
  simp only [unlowerable_iff, ← lowerRule_error_iff sound decodable]
  cases lowerRule host doc rule <;> simp

/-- A rule of signers has a constraint exactly when it is not a bare `all`. -/
theorem constrained_iff {ids : List String} {least : UInt32}
    (asks : quorum rule = .ok (ids, least)) :
    ((∃ signers m, rule.principals = .threshold signers m) ∨ rule.functions ≠ none ∨
      rule.args ≠ none ∨ rule.cap ≠ none) ↔ constraintFree rule = false := by
  rw [← Bool.not_eq_true, constraintFree_eq_true]
  cases kind : rule.principals with
  | all signers => simp [-not_and, not_and_or]
  | threshold signers m => simp
  | selfAuthenticating policy params ack => simp [quorum, kind] at asks

theorem lowerRule_attaches {lowered : LoweredRule}
    (lowers : lowerRule host doc rule = .ok lowered) :
    lowered.install ≠ none ↔ constraintFree rule = false := by
  simp only [lowerRule, bind_eq_ok, Except.ok.injEq, Prod.exists] at lowers
  obtain ⟨_, _, _, _, _, _, _, install, attached, _, _, rfl⟩ := lowers
  cases free : constraintFree rule with
  | true =>
      simp only [free, if_true, Except.ok.injEq] at attached
      simp [← attached]
  | false =>
      simp only [free, Bool.false_eq_true, if_false, bind_eq_ok, Except.ok.injEq] at attached
      obtain ⟨_, _, rfl⟩ := attached
      simp

theorem wellLowered (sound : Analyze.SoundRule hexDecode doc rule) {lowered : LoweredRule}
    (lowers : lowerRule host doc rule = .ok lowered) : WellLowered hexDecode rule lowered := by
  obtain ⟨known, valid⟩ := sound
  obtain ⟨ids, least, parts⟩ := lowerRule_eq_ok lowers
  obtain ⟨listed, distinct, declared⟩ :=
    quorum_declared (validateRule_eq_nil valid).principals parts.asks
  have keys : (lowered.signers.map (Analyze.keyOf hexDecode)).Nodup := by
    rw [resolved_keys parts.signers]
    apply distinct.map_on
    intro id member id' member' same
    exact known.declaredKey_injective (declared id member) (declared id' member') same
  constructor
  · exact lowerRule_name lowers
  · intro empty
    have size := (mapM_eq_ok parts.signers).length_eq
    rw [empty, List.length_nil, List.length_eq_zero_iff] at size
    exact listed size
  · exact keys.of_map
  · exact keys
  · rw [constrained_iff parts.asks, lowerRule_attaches lowers]
  · intro install attached
    rcases parts.install with ⟨_, bare⟩ | ⟨program, built, with_⟩
    · rw [bare] at attached
      cases attached
    · rw [with_] at attached
      cases attached
      exact buildProgram_valid built

end Rules

/-- Compiling a valid document fails only at a rule there is no lowering for, the
first of them, and lowers every rule otherwise. -/
theorem compile_failures_exact {hexDecode : String → Option Bytes} {host : LowerHost}
    {doc : PolicyDoc} {interpreterWasmHash : Bytes32} (valid : validate hexDecode doc = .ok ())
    (decodable : ∀ rule ∈ doc.rules, Decodable host rule) :
    (∀ error, compile host doc interpreterWasmHash = .error error ↔
      ∃ before rule after, doc.rules = before ++ rule :: after ∧
        (∀ earlier ∈ before, ¬Unlowerable earlier) ∧ LoweringFails rule error) ∧
    ((∃ error, compile host doc interpreterWasmHash = .error error) ↔
      ∃ rule ∈ doc.rules, Unlowerable rule) ∧
    ∀ plan, compile host doc interpreterWasmHash = .ok plan →
      List.Forall₂ (WellLowered hexDecode) doc.rules plan.rules := by
  have sound := fun rule member => @Analyze.soundRule_of_valid _ _ rule valid member
  have first : ∀ error, compile host doc interpreterWasmHash = .error error ↔
      ∃ before rule after, doc.rules = before ++ rule :: after ∧
        (∀ earlier ∈ before, ¬Unlowerable earlier) ∧ LoweringFails rule error := by
    intro error
    simp only [compile, bind_eq_error, reduceCtorEq, and_false, exists_false, or_false,
      mapM_eq_error]
    constructor
    · rintro ⟨before, rule, after, split, earlier, fails⟩
      rw [split] at sound decodable
      refine ⟨before, rule, after, split, ?_, ?_⟩
      · intro other member
        have listed := List.mem_append_left (rule :: after) member
        exact (lowerRule_ok_iff (sound other listed) (decodable other listed)).mp
          (earlier other member)
      · have listed : rule ∈ before ++ rule :: after := by simp
        exact (lowerRule_error_iff (sound rule listed) (decodable rule listed)).mp fails
    · rintro ⟨before, rule, after, split, earlier, fails⟩
      rw [split] at sound decodable
      refine ⟨before, rule, after, split, ?_, ?_⟩
      · intro other member
        have listed := List.mem_append_left (rule :: after) member
        exact (lowerRule_ok_iff (sound other listed) (decodable other listed)).mpr
          (earlier other member)
      · have listed : rule ∈ before ++ rule :: after := by simp
        exact (lowerRule_error_iff (sound rule listed) (decodable rule listed)).mpr fails
  refine ⟨first, ?_, ?_⟩
  · constructor
    · rintro ⟨error, fails⟩
      obtain ⟨before, rule, after, split, _, refused⟩ := (first error).mp fails
      exact ⟨rule, by simp [split], unlowerable_iff.mpr ⟨error, refused⟩⟩
    · rintro ⟨rule, member, unlowerable⟩
      cases compiled : compile host doc interpreterWasmHash with
      | error error => exact ⟨error, rfl⟩
      | ok plan =>
          simp only [compile, bind_eq_ok, Except.ok.injEq] at compiled
          obtain ⟨lowered, mapped, _⟩ := compiled
          obtain ⟨result, _, lowers⟩ := exists_of_mem_left (mapM_eq_ok mapped) member
          exact absurd unlowerable ((lowerRule_ok_iff (sound rule member)
            (decodable rule member)).mp ⟨result, lowers⟩)
  · intro plan compiled
    simp only [compile, bind_eq_ok, Except.ok.injEq] at compiled
    obtain ⟨lowered, mapped, rfl⟩ := compiled
    have each := (List.forall₂_and_left _ _).mpr ⟨sound, mapM_eq_ok mapped⟩
    exact each.imp fun rule lowered held => wellLowered held.1 held.2

section Sample

open Analyze

/-- The sample's rules compile: neither names a policy, and both fit. -/
theorem compile_failures_exact_sample :
    ∃ plan, compile (localHost "T").lowerHost sampleLimited (BytesN.fill 0) = .ok plan ∧
      List.Forall₂ (WellLowered (localHost "T").hexDecode) sampleLimited.rules plan.rules := by
  have decodable : ∀ rule ∈ sampleLimited.rules, Decodable (localHost "T").lowerHost rule := by
    intro rule member constraints listed constraint inside address kind
    simp only [sampleLimited, List.mem_singleton] at member
    subst member
    simp only [Option.some.injEq] at listed
    subst listed
    simp only [List.mem_cons, List.not_mem_nil, or_false] at inside
    rcases inside with rfl | rfl <;> cases kind
  obtain ⟨_, fails, lowers⟩ := @compile_failures_exact _ _ _ (BytesN.fill 0)
    sampleLimited_valid decodable
  cases compiled : compile (localHost "T").lowerHost sampleLimited (BytesN.fill 0) with
  | ok plan => exact ⟨plan, rfl, lowers plan compiled⟩
  | error error =>
      obtain ⟨rule, member, unlowerable⟩ := fails.mp ⟨error, compiled⟩
      simp only [sampleLimited, List.mem_singleton] at member
      subst member
      simp [Unlowerable, SelfAuthenticating, leafCount, maxStackDepth] at unlowerable

end Sample

end Perch.Compile
