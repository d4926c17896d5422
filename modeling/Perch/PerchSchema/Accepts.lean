/-
The published schema accepts every valid document.

The grammar says what the members of a document's tree are, and validation
what their values satisfy; together they meet every keyword.  The unions are
told apart by a literal or by a required member, so exactly one branch
accepts, and references go no deeper than three.
-/

import Perch.Document.Addresses
import Perch.Ir.Grammar
import Perch.PerchSchema.Patterns

namespace Perch

open Machine Machine.JsonSchema Document

namespace Ir

/-! ### Members -/

section Members

variable {α : Type} {v : Json} {known : List String} {obj : Members} {name : String}
  {means : Meaning α}

theorem Requires.mem {value : α} (held : Requires obj name means value) :
    name ∈ obj.map Prod.fst := by
  obtain ⟨tree, present, -⟩ := held
  exact List.mem_map_of_mem present

theorem Requires.cons_mem {value : α} {names : List String}
    (held : Requires obj name means value) (rest : ∀ other ∈ names, other ∈ obj.map Prod.fst) :
    ∀ other ∈ name :: names, other ∈ obj.map Prod.fst :=
  List.forall_mem_cons.mpr ⟨held.mem, rest⟩

theorem Node.missing (node : Node v known obj) (unknown : name ∉ known) :
    name ∉ obj.map Prod.fst := by
  intro there
  obtain ⟨entry, member, rfl⟩ := List.mem_map.mp there
  exact unknown (node.known entry member)

theorem Requires.only {value : α} (held : Requires obj name means value)
    (node : Node v known obj) {tree : Json} (present : (name, tree) ∈ obj) : means tree value := by
  obtain ⟨other, there, meant⟩ := held
  have same := List.inj_on_of_nodup_map node.distinct present there rfl
  rw [(Prod.mk.inj same).2]
  exact meant

theorem Allows.only {value : Option α} (held : Allows obj name means value)
    (node : Node v known obj) {tree : Json} (present : (name, tree) ∈ obj) :
    ∃ read, value = some read ∧ means tree read := by
  cases value with
  | none => exact absurd (List.mem_map_of_mem present) held
  | some read =>
      obtain ⟨other, there, -, meant⟩ := held
      have same := List.inj_on_of_nodup_map node.distinct present there rfl
      rw [(Prod.mk.inj same).2]
      exact ⟨read, rfl, meant⟩

theorem Requires.string_mem {text : String} (held : Requires obj name MeansString text) :
    (name, .string text) ∈ obj := by
  obtain ⟨_, present, rfl⟩ := held
  exact present

end Members

theorem MeansU32.numeral {v : Json} {value : UInt32} (meant : MeansU32 v value) :
    ∃ digits, v = .number digits true ∧
      Machine.numeral digits = some ((value.toNat : Int) : Rat) := by
  obtain ⟨digits, rfl, body, written, nonempty, decimal, same⟩ := meant
  refine ⟨digits, rfl, ?_⟩
  rw [numeral_digits nonempty decimal written, same]

theorem MeansList.strings {v : Json} {values : List String}
    (meant : MeansList MeansString v values) : v = .array (values.map Json.string) := by
  obtain ⟨items, rfl, aligned⟩ := meant
  congr 1
  induction aligned with
  | nil => rfl
  | cons head _ ih => rw [head, ih, List.map_cons]

end Ir

namespace PerchSchema

open Ir

variable {refs : String → Json → Prop}

/-! ### Leaves -/

theorem string_accepts {v : Json} {text : String} (meant : MeansString v text) :
    accepts refs [.type .string] v := by
  rw [meant]
  exact ⟨trivial, trivial⟩

theorem pattern_accepts {v : Json} {text pattern : String} (meant : MeansString v text)
    (covered : Regex.Matches pattern text) :
    accepts refs [.type .string, .pattern pattern] v := by
  rw [meant]
  refine ⟨trivial, ?_, trivial⟩
  intro other same
  obtain rfl := Json.string.inj same
  exact covered

theorem contractAddress_accepts {v : Json} {text : String} (meant : MeansString v text)
    (shape : isContractAddressShape text = true) : accepts refs contractAddress v :=
  pattern_accepts meant (matches_contract shape)

theorem address_accepts {v : Json} {text : String} (meant : MeansString v text)
    (shape : isAddressShape text = true) : accepts refs address v :=
  pattern_accepts meant (matches_address shape)

theorem sha256Hex_accepts {v : Json} {text : String} (meant : MeansString v text)
    (hex : isSha256Hex text = true) : accepts refs sha256Hex v :=
  pattern_accepts meant (matches_sha256Hex hex)

theorem u32_accepts {v : Json} {value : UInt32} {least : Nat} (meant : MeansU32 v value)
    (enough : least ≤ value.toNat) : accepts refs (u32Field least) v := by
  obtain ⟨digits, rfl, reads⟩ := meant.numeral
  have fits := value.toNat_lt
  refine ⟨⟨value.toNat, reads⟩, ?_, ?_, trivial⟩
  · intro other isInt same
    injection same with same
    subst same
    exact ⟨_, reads, Rat.intCast_le_intCast.mpr (by omega)⟩
  · intro other isInt same
    injection same with same
    subst same
    exact ⟨_, reads, Rat.intCast_le_intCast.mpr (by omega)⟩

theorem positive_of_ne_zero {value : UInt32} (nonzero : value ≠ 0) : 1 ≤ value.toNat := by
  have other : value.toNat ≠ 0 := fun zero => nonzero (UInt32.toNat_inj.mp zero)
  omega

/-! ### Lists of texts -/

theorem texts_accepts {v : Json} {values : List String} {item : Schema}
    (meant : MeansList MeansString v values) (nonempty : values ≠ []) (distinct : values.Nodup)
    (each : ∀ text ∈ values, accepts refs item (.string text)) : accepts refs (texts item) v := by
  obtain rfl := meant.strings
  refine ⟨trivial, ?_, ?_, ?_, trivial⟩
  · intro other same
    obtain rfl := Json.array.inj same
    rw [List.length_map]
    exact List.length_pos_iff.mpr nonempty
  · intro other same
    obtain rfl := Json.array.inj same
    rw [List.pairwise_map]
    refine distinct.imp ?_
    intro a b different equal
    exact different (Json.string.inj (same_string.mp equal)).symm
  · intro other same
    obtain rfl := Json.array.inj same
    intro tree member
    obtain ⟨text, listed, rfl⟩ := List.mem_map.mp member
    exact each text listed

/-! ### The chain -/

/-- A bound that holds is met by every link of the chain, however long the
list. -/
theorem countBoundChain_accepts {listField boundField : String} {cap : Nat} {obj : Members}
    (bounded : ∀ list bound, (listField, list) ∈ obj → (boundField, bound) ∈ obj →
      ∃ items value, list = .array items ∧ MeansU32 bound value ∧ value.toNat ≤ items.length) :
    acceptsAll refs (countBoundChain listField boundField cap) (.object obj) := by
  apply acceptsAll_of
  intro link member
  obtain ⟨len, -, rfl⟩ := List.mem_map.mp member
  refine ⟨?_, trivial⟩
  rintro ⟨there, counted, -⟩
  have listThere := there obj rfl listField List.mem_cons_self
  obtain ⟨⟨_, list⟩, listHeld, rfl⟩ := List.mem_map.mp listThere
  obtain ⟨⟨sized, -⟩, -⟩ := counted obj rfl
  refine ⟨?_, trivial⟩
  intro other same
  obtain rfl := Json.object.inj same
  refine ⟨⟨?_, trivial⟩, fun closed => by cases closed⟩
  intro bound boundHeld
  obtain ⟨items, value, rfl, meant, below⟩ := bounded list bound listHeld boundHeld
  obtain ⟨-, most, -⟩ := sized _ listHeld
  have short := most items rfl
  obtain ⟨digits, rfl, reads⟩ := meant.numeral
  refine ⟨?_, trivial⟩
  intro other isInt same
  injection same with same
  subst same
  exact ⟨_, reads, Rat.intCast_le_intCast.mpr (by omega)⟩

/-! ### Objects -/

section Node

variable {v : Json} {known : List String} {obj : Members} {names : List String}
  {listed : List (String × Schema)}

/-- A record accepts a node that has its required members and no others than
it lists. -/
theorem node_accepts (node : Node v known obj) (there : ∀ name ∈ names, name ∈ obj.map Prod.fst)
    (covered : ∀ name ∈ known, name ∈ listed.map Prod.fst)
    (each : acceptsMembers refs listed obj) : accepts refs (record names listed) v := by
  rw [node.object]
  exact accepts_record there each fun entry member => covered _ (node.known entry member)

/-- A union accepts a node through the record its literal names. -/
theorem tagged_accepts {tag : String} {variants : List Variant} (node : Node v known obj)
    (held : Requires obj "type" MeansString tag) (distinct : (variants.map Prod.fst).Nodup)
    (chosen : (tag, names, listed) ∈ variants) (there : ∀ name ∈ names, name ∈ obj.map Prod.fst)
    (covered : ∀ name ∈ known, name ∈ "type" :: listed.map Prod.fst)
    (each : acceptsMembers refs listed obj) :
    acceptsOne refs (JsonSchema.tagged "type" variants) v := by
  have literal : ∀ tree, ("type", tree) ∈ obj → accepts refs [.const (.string tag)] tree := by
    intro tree present
    rw [held.only node present]
    exact ⟨.string tag, trivial⟩
  have accepted : accepts refs
      (record ("type" :: names) (("type", [.const (.string tag)]) :: listed)) v := by
    apply node_accepts node
    · exact List.forall_mem_cons.mpr ⟨held.mem, there⟩
    · exact covered
    · exact ⟨literal, each⟩
  rw [node.object] at accepted ⊢
  exact acceptsOne_tagged held.string_mem distinct chosen accepted

theorem union_accepts {tag : String} {variants : List Variant} (node : Node v known obj)
    (held : Requires obj "type" MeansString tag) (distinct : (variants.map Prod.fst).Nodup)
    (chosen : (tag, names, listed) ∈ variants) (there : ∀ name ∈ names, name ∈ obj.map Prod.fst)
    (covered : ∀ name ∈ known, name ∈ "type" :: listed.map Prod.fst)
    (each : acceptsMembers refs listed obj) :
    accepts refs [.type .object, .oneOf (JsonSchema.tagged "type" variants)] v := by
  refine ⟨?_, tagged_accepts node held distinct chosen there covered each, trivial⟩
  rw [node.object]
  trivial

end Node

/-! ### Signers -/

/-- What validation establishes about a signer's method. -/
def ValidMethod (hexDecode : String → Option Bytes) : SignerMethod → Prop
  | .external verifier key => isContractAddressShape verifier = true ∧
      ∃ decoded, hexDecode key = some decoded ∧ decoded ≠ [] ∧ decoded.length ≤ maxSignerKeyLen
  | .delegated address => isAddressShape address = true

theorem validateMethod_valid {hexDecode : String → Option Bytes} {seen : SeenSigners}
    {id : String} {method : SignerMethod}
    (silent : validateMethod hexDecode seen id method = []) : ValidMethod hexDecode method := by
  cases method with
  | external verifier key =>
      rw [validateMethod, List.append_eq_nil_iff, reportIf_eq_nil, Bool.not_eq_false] at silent
      refine ⟨silent.2, ?_⟩
      cases decoded : hexDecode key with
      | none => simp [decoded] at silent
      | some bytes =>
          have checked := silent.1
          simp only [decoded, List.append_eq_nil_iff, reportIf_eq_nil, not_or, not_lt] at checked
          exact ⟨bytes, rfl, checked.1⟩
  | delegated address =>
      rw [validateMethod, List.append_eq_nil_iff, reportIf_eq_nil, Bool.not_eq_false] at silent
      exact silent.1

theorem validateSigners_valid {hexDecode : String → Option Bytes} {position : Nat}
    {seen : SeenSigners} {signers : List SignerDecl}
    (silent : validateSigners hexDecode position seen signers = []) :
    ∀ signer ∈ signers, ValidMethod hexDecode signer.method := by
  induction signers generalizing position seen with
  | nil => simp
  | cons signer rest ih =>
      simp only [validateSigners, List.append_eq_nil_iff] at silent
      intro other member
      rcases List.mem_cons.mp member with rfl | member
      · exact validateMethod_valid silent.1.2
      · exact ih silent.2 other member

/-- What the hex library documents of its decoder: digits of either case, two
a byte. -/
def DecodesHex (hexDecode : String → Option Bytes) : Prop :=
  ∀ text, hexDecode text = hexPairs (utf8 text)

theorem signer_accepts {hexDecode : String → Option Bytes} (decodes : DecodesHex hexDecode)
    {v : Json} {signer : SignerDecl} (meant : MeansSigner v signer)
    (valid : ValidMethod hexDecode signer.method) : accepts refs signerDecl v := by
  obtain ⟨id, method⟩ := signer
  cases method with
  | external verifier key =>
      obtain ⟨obj, node, verifierHeld, keyHeld, idHeld⟩ := meant
      obtain ⟨shape, decoded, read, nonempty, few⟩ := valid
      rw [decodes] at read
      have accepted : accepts refs externalSigner v := by
        apply node_accepts node
        · exact idHeld.cons_mem (verifierHeld.cons_mem (keyHeld.cons_mem (List.forall_mem_nil _)))
        · decide
        · refine ⟨?_, ?_, ?_, trivial⟩
          · exact fun tree present => string_accepts (idHeld.only node present)
          · exact fun tree present => contractAddress_accepts (verifierHeld.only node present) shape
          · exact fun tree present => pattern_accepts (keyHeld.only node present)
              (matches_signerKey read nonempty few)
      have missing := node.missing (show "address" ∉ ["id", "verifier", "key"] by decide)
      rw [node.object] at accepted ⊢
      exact ⟨trivial, .inl ⟨accepted, refuses_missing (by decide) missing, trivial⟩, trivial⟩
  | delegated delegate =>
      obtain ⟨obj, node, addressHeld, idHeld⟩ := meant
      have accepted : accepts refs delegatedSigner v := by
        apply node_accepts node
        · exact idHeld.cons_mem (addressHeld.cons_mem (List.forall_mem_nil _))
        · decide
        · refine ⟨?_, ?_, trivial⟩
          · exact fun tree present => string_accepts (idHeld.only node present)
          · exact fun tree present => address_accepts (addressHeld.only node present) valid
      have missing := node.missing (show "verifier" ∉ ["id", "address"] by decide)
      rw [node.object] at accepted ⊢
      exact ⟨trivial, .inr ⟨refuses_missing (by decide) missing, .inl ⟨accepted, trivial⟩⟩,
        trivial⟩

/-! ### Rules -/

theorem scope_accepts {v : Json} {scope : Scope} {rule : String} (meant : MeansScope v scope)
    (silent : validateScope rule scope = []) : accepts refs PerchSchema.scope v := by
  cases scope with
  | contract target =>
      obtain ⟨obj, node, held, targetHeld⟩ := meant
      rw [validateScope, reportIf_eq_nil, Bool.not_eq_false] at silent
      refine union_accepts node held (by decide) (.head _)
        (targetHeld.cons_mem (List.forall_mem_nil _)) (by decide) ⟨?_, trivial⟩
      exact fun tree present => contractAddress_accepts (targetHeld.only node present) silent
  | selfAdmin =>
      obtain ⟨obj, node, held⟩ := meant
      exact union_accepts node held (by decide) (.tail _ (.head _)) (List.forall_mem_nil _)
        (by decide) trivial

theorem pred_accepts {v : Json} {pred : ArgPred} {rule : String} {index : UInt32}
    (meant : MeansPred v pred) (silent : validatePred rule index pred = []) :
    accepts refs argPred v := by
  cases pred with
  | isSelf =>
      obtain ⟨obj, node, held⟩ := meant
      exact union_accepts node held (by decide) (.head _) (List.forall_mem_nil _) (by decide)
        trivial
  | addressEq target =>
      obtain ⟨obj, node, held, targetHeld⟩ := meant
      rw [validatePred, reportIf_eq_nil, Bool.not_eq_false] at silent
      refine union_accepts node held (by decide) (.tail _ (.head _))
        (targetHeld.cons_mem (List.forall_mem_nil _)) (by decide) ⟨?_, trivial⟩
      exact fun tree present => address_accepts (targetHeld.only node present) silent
  | stringIn values =>
      obtain ⟨obj, node, held, valuesHeld⟩ := meant
      rw [validatePred, List.append_eq_nil_iff, reportIf_eq_nil] at silent
      obtain ⟨distinct, -⟩ := eachSeen_eq_nil (by simp [reportIf]) silent.2
      rw [List.map_id] at distinct
      refine union_accepts node held (by decide) (.tail _ (.tail _ (.head _)))
        (valuesHeld.cons_mem (List.forall_mem_nil _)) (by decide) ⟨?_, trivial⟩
      exact fun tree present => texts_accepts (valuesHeld.only node present) silent.1 distinct
        fun _ _ => string_accepts rfl
  | stringPrefix initial =>
      obtain ⟨obj, node, held, initialHeld⟩ := meant
      refine union_accepts node held (by decide) (.tail _ (.tail _ (.tail _ (.head _))))
        (initialHeld.cons_mem (List.forall_mem_nil _)) (by decide) ⟨?_, trivial⟩
      exact fun tree present => string_accepts (initialHeld.only node present)
  | u32Eq value =>
      obtain ⟨obj, node, held, valueHeld⟩ := meant
      refine union_accepts node held (by decide) (.tail _ (.tail _ (.tail _ (.tail _ (.head _)))))
        (valueHeld.cons_mem (List.forall_mem_nil _)) (by decide) ⟨?_, trivial⟩
      exact fun tree present => u32_accepts (valueHeld.only node present) (Nat.zero_le _)

theorem signers_accepts {v : Json} {rule : String} {signers declared : List String}
    (meant : MeansList MeansString v signers)
    (silent : validatePrincipalSigners rule signers declared = []) :
    accepts refs (texts [.type .string]) v := by
  rw [validatePrincipalSigners, List.append_eq_nil_iff, reportIf_eq_nil] at silent
  obtain ⟨distinct, -⟩ := eachSeen_eq_nil (by simp [reportIf]) silent.2
  rw [List.map_id] at distinct
  exact texts_accepts meant silent.1 distinct fun _ _ => string_accepts rfl

/-- Whether a bounded list stands beside its bound. -/
theorem chain_vacuous {listField boundField : String} {cap : Nat} {v : Json}
    {known : List String} {obj : Members} (node : Node v known obj)
    (unknown : boundField ∉ known) :
    acceptsAll refs (countBoundChain listField boundField cap) v := by
  rw [node.object]
  apply countBoundChain_accepts
  intro list bound _ boundHeld
  exact absurd (node.known _ boundHeld) unknown

theorem chain_accepts {listField boundField : String} {cap : Nat} {v : Json}
    {known : List String} {obj : Members} {values : List String} {count : UInt32}
    (node : Node v known obj) (listHeld : Requires obj listField (MeansList MeansString) values)
    (boundHeld : Requires obj boundField MeansU32 count) (below : count.toNat ≤ values.length) :
    acceptsAll refs (countBoundChain listField boundField cap) v := by
  rw [node.object]
  apply countBoundChain_accepts
  intro list bound listThere boundThere
  refine ⟨_, count, (listHeld.only node listThere).strings, boundHeld.only node boundThere, ?_⟩
  rwa [List.length_map]

theorem principals_accepts {hexDecode : String → Option Bytes} (decodes : DecodesHex hexDecode)
    {v : Json} {principals : Principals} {rule : String} {declared : List String}
    (meant : MeansPrincipals v principals)
    (silent : validatePrincipals hexDecode rule declared principals = []) :
    accepts refs PerchSchema.principals v := by
  cases principals with
  | all signers =>
      obtain ⟨obj, node, held, signersHeld⟩ := meant
      refine ⟨?_, chain_vacuous node (by decide), ?_, trivial⟩
      · rw [node.object]
        trivial
      · refine tagged_accepts node held (by decide) (.head _)
          (signersHeld.cons_mem (List.forall_mem_nil _)) (by decide) ⟨?_, trivial⟩
        exact fun tree present => signers_accepts (signersHeld.only node present) silent
  | threshold signers m =>
      obtain ⟨obj, node, held, signersHeld, mHeld⟩ := meant
      simp only [validatePrincipals, List.append_eq_nil_iff, reportIf_eq_nil, not_or,
        not_lt] at silent
      obtain ⟨listed, nonzero, below⟩ := silent
      refine ⟨?_, chain_accepts node signersHeld mHeld below, ?_, trivial⟩
      · rw [node.object]
        trivial
      · refine tagged_accepts node held (by decide) (.tail _ (.head _))
          (signersHeld.cons_mem (mHeld.cons_mem (List.forall_mem_nil _))) (by decide)
          ⟨?_, ?_, trivial⟩
        · exact fun tree present => signers_accepts (signersHeld.only node present) listed
        · exact fun tree present => u32_accepts (mHeld.only node present)
            (positive_of_ne_zero nonzero)
  | selfAuthenticating policy installParamHex ack =>
      obtain ⟨obj, node, held, policyHeld, paramHeld, ackHeld⟩ := meant
      simp only [validatePrincipals, List.append_eq_nil_iff, reportIf_eq_nil, not_not,
        Bool.not_eq_false] at silent
      obtain ⟨⟨rfl, shape⟩, hex⟩ := silent
      refine ⟨?_, chain_vacuous node (by decide), ?_, trivial⟩
      · rw [node.object]
        trivial
      · refine tagged_accepts node held (by decide) (.tail _ (.tail _ (.head _)))
          (policyHeld.cons_mem (paramHeld.cons_mem (ackHeld.cons_mem (List.forall_mem_nil _))))
          (by decide) ⟨?_, ?_, ?_, trivial⟩
        · exact fun tree present => contractAddress_accepts (policyHeld.only node present) shape
        · intro tree present
          obtain ⟨bytes, read⟩ := Option.ne_none_iff_exists'.mp hex
          rw [decodes] at read
          exact pattern_accepts (paramHeld.only node present) (matches_installParam read)
        · intro tree present
          rw [ackHeld.only node present]
          exact ⟨.string _, trivial⟩

theorem ref_accepts {name : String} {schema : Schema} {depth : Nat} {v : Json}
    (found : policyDefs.lookup name = some schema)
    (accepted : accepts (resolve policyDefs depth) schema v) :
    accepts (resolve policyDefs (depth + 1)) [.ref name] v :=
  ⟨⟨schema, found, accepted⟩, trivial⟩

theorem arg_accepts {depth : Nat} {v : Json} {constraint : ArgConstraint} {rule : String}
    (meant : MeansArg v constraint)
    (silent : validatePred rule constraint.index constraint.pred = []) :
    accepts (resolve policyDefs (depth + 1)) argConstraint v := by
  obtain ⟨obj, node, indexHeld, predHeld⟩ := meant
  apply node_accepts node
  · exact indexHeld.cons_mem (predHeld.cons_mem (List.forall_mem_nil _))
  · decide
  · refine ⟨?_, ?_, trivial⟩
    · exact fun tree present => u32_accepts (indexHeld.only node present) (Nat.zero_le _)
    · exact fun tree present => ref_accepts rfl (pred_accepts (predHeld.only node present) silent)

theorem cap_accepts {v : Json} {cap : CapConstraint} {rule : String} {scope : Scope}
    (meant : MeansCap v cap) (silent : validateCap rule scope cap = []) :
    accepts refs capConstraint v := by
  obtain ⟨obj, node, tokenHeld, limitHeld, periodHeld⟩ := meant
  simp only [validateCap, List.append_eq_nil_iff, reportIf_eq_nil] at silent
  obtain ⟨⟨positive, nonzero⟩, inScope⟩ := silent
  apply node_accepts node
  · exact limitHeld.cons_mem (periodHeld.cons_mem (List.forall_mem_nil _))
  · decide
  · refine ⟨?_, ?_, ?_, trivial⟩
    · intro tree present
      obtain ⟨token, named, meant⟩ := tokenHeld.only node present
      refine contractAddress_accepts meant ?_
      rw [named] at inScope
      cases scope with
      | selfAdmin => cases inScope
      | contract target =>
          rw [validateCapScope] at inScope
          by_contra malformed
          rw [if_pos (Bool.eq_false_iff.mpr malformed)] at inScope
          cases inScope
    · intro tree present
      refine pattern_accepts (limitHeld.only node present) ?_
      cases parsed : parseI128 cap.limit with
      | none => simp [parsed] at positive
      | some value =>
          apply matches_limit parsed
          simpa [parsed] using positive
    · exact fun tree present => u32_accepts (periodHeld.only node present)
        (positive_of_ne_zero nonzero)

theorem name_accepts {v : Json} {name : String} (meant : MeansString v name)
    (ascii : ∀ c ∈ name.toList, c.toNat < 128) (short : (utf8 name).length ≤ maxRuleNameBytes) :
    accepts refs [.type .string, .pattern ruleNamePattern, .maxLength maxRuleNameBytes] v := by
  obtain ⟨kind, spelled, -⟩ : accepts refs [.type .string, .pattern ruleNamePattern] v :=
    pattern_accepts meant (matches_ruleName ascii)
  refine ⟨kind, spelled, ?_, trivial⟩
  intro text same
  obtain rfl := Json.string.inj (meant.symm.trans same)
  exact (length_le_utf8 name).trans short

theorem functions_accepts {v : Json} {functions : List String} {rule : String}
    (meant : MeansList MeansString v functions)
    (silent : validateFunctions rule functions = []) :
    accepts refs (texts [.type .string, .minLength 1]) v := by
  rw [validateFunctions, List.append_eq_nil_iff, reportIf_eq_nil] at silent
  obtain ⟨distinct, each⟩ := eachSeen_eq_nil (by simp [reportIf]) silent.2
  rw [List.map_id] at distinct
  refine texts_accepts meant silent.1 distinct ?_
  intro function member
  refine ⟨trivial, ?_, trivial⟩
  intro text same
  obtain rfl := Json.string.inj same
  have nonempty : function ≠ "" := by
    rintro rfl
    simpa using (each "" member).2
  rw [Nat.one_le_iff_ne_zero]
  intro empty
  exact nonempty (String.length_eq_zero_iff.mp empty)

theorem args_accepts {depth : Nat} {v : Json} {args : List ArgConstraint} {rule : String}
    (meant : MeansList MeansArg v args) (silent : validateArgs rule args = []) :
    accepts (resolve policyDefs (depth + 2))
      [.type .array, .minItems 1, .items [.ref "argConstraint"]] v := by
  rw [validateArgs, List.append_eq_nil_iff, reportIf_eq_nil] at silent
  obtain ⟨-, each⟩ := eachSeen_eq_nil (by simp [reportIf]) silent.2
  obtain ⟨items, rfl, aligned⟩ := meant
  refine ⟨trivial, ?_, ?_, trivial⟩
  · intro other same
    obtain rfl := Json.array.inj same
    rw [aligned.length_eq]
    exact List.length_pos_iff.mpr silent.1
  · intro other same
    obtain rfl := Json.array.inj same
    intro item member
    obtain ⟨constraint, listed, meant⟩ := exists_of_mem_left aligned member
    exact ref_accepts rfl (arg_accepts meant (List.append_eq_nil_iff.mp (each _ listed).2).2)

theorem rule_accepts {hexDecode : String → Option Bytes} (decodes : DecodesHex hexDecode)
    {depth : Nat} {v : Json} {rule : Rule} {declared : List String} (meant : MeansRule v rule)
    (silent : validateRule hexDecode declared rule = [])
    (ascii : ∀ c ∈ rule.name.toList, c.toNat < 128)
    (short : (utf8 rule.name).length ≤ maxRuleNameBytes) :
    accepts (resolve policyDefs (depth + 2)) PerchSchema.rule v := by
  obtain ⟨obj, node, nameHeld, scopeHeld, principalsHeld, functionsHeld, argsHeld, ledgerHeld,
    capHeld⟩ := meant
  simp only [validateRule, List.append_eq_nil_iff, reportIf_eq_nil] at silent
  obtain ⟨⟨⟨⟨⟨inScope, authorized⟩, called⟩, argued⟩, live⟩, capped⟩ := silent
  apply node_accepts node
  · exact nameHeld.cons_mem (scopeHeld.cons_mem (principalsHeld.cons_mem (List.forall_mem_nil _)))
  · decide
  · refine ⟨?_, ?_, ?_, ?_, ?_, ?_, ?_, trivial⟩
    · exact fun tree present => name_accepts (nameHeld.only node present) ascii short
    · exact fun tree present => ref_accepts rfl
        (scope_accepts (scopeHeld.only node present) inScope)
    · exact fun tree present => ref_accepts rfl
        (principals_accepts decodes (principalsHeld.only node present) authorized)
    · intro tree present
      obtain ⟨functions, named, meant⟩ := functionsHeld.only node present
      rw [named] at called
      exact functions_accepts meant called
    · intro tree present
      obtain ⟨args, named, meant⟩ := argsHeld.only node present
      rw [named] at argued
      exact args_accepts meant argued
    · intro tree present
      obtain ⟨ledger, named, meant⟩ := ledgerHeld.only node present
      refine u32_accepts meant (positive_of_ne_zero ?_)
      rintro rfl
      exact live named
    · intro tree present
      obtain ⟨cap, named, meant⟩ := capHeld.only node present
      rw [named] at capped
      exact ref_accepts rfl (cap_accepts meant capped)

/-! ### Recovery -/

section Mode

variable {depth : Nat} {v : Json} {known : List String} {obj : Members} {guardianSet : GuardianSet}
  {zk : ZkFactor}

theorem guardianFields_accepts (node : Node v known obj) (held : RequiresGuardians obj guardianSet)
    (silent : validateGuardianSet guardianSet = []) :
    acceptsMembers (resolve policyDefs (depth + 1)) guardianFields obj := by
  simp only [validateGuardianSet, List.append_eq_nil_iff, reportIf_eq_nil, not_or] at silent
  obtain ⟨⟨nonempty, each⟩, nonzero, -⟩ := silent
  obtain ⟨distinct, shaped⟩ := eachSeen_eq_nil (by simp [reportIf]) each
  rw [List.map_id] at distinct
  refine ⟨?_, ?_, trivial⟩
  · intro tree present
    refine ref_accepts rfl (texts_accepts (held.1.only node present) nonempty distinct ?_)
    intro guardian member
    have silent := (List.append_eq_nil_iff.mp (shaped guardian member).2).2
    rw [reportIf_eq_nil, Bool.not_eq_false] at silent
    exact address_accepts rfl silent
  · exact fun tree present => ref_accepts rfl
      (u32_accepts (held.2.only node present) (positive_of_ne_zero nonzero))

/-- The quorum of a valid guardian set is within it, however large it is. -/
theorem guardianChain_accepts {cap : Nat} (node : Node v known obj)
    (held : RequiresGuardians obj guardianSet) (silent : validateGuardianSet guardianSet = []) :
    acceptsAll refs (countBoundChain "guardians" "quorum" cap) v := by
  simp only [validateGuardianSet, List.append_eq_nil_iff, reportIf_eq_nil, not_or,
    not_lt] at silent
  exact chain_accepts node held.1 held.2 silent.2.2

theorem zkFields_accepts (node : Node v known obj) (held : RequiresZk obj zk)
    (silent : validateZkFactor zk = []) :
    acceptsMembers (resolve policyDefs (depth + 1)) zkFields obj := by
  obtain ⟨adapter, circuitId, pool, enrollmentId, commitment⟩ := held
  simp only [validateZkFactor, List.append_eq_nil_iff, reportIf_eq_nil, not_or,
    Bool.not_eq_false] at silent
  obtain ⟨⟨⟨⟨adapterShape, circuitHex⟩, poolShape⟩, enrollmentHex⟩, commitmentHex, -⟩ := silent
  refine ⟨?_, ?_, ?_, ?_, ?_, trivial⟩
  · exact fun tree present => ref_accepts rfl
      (contractAddress_accepts (adapter.only node present) adapterShape)
  · exact fun tree present => ref_accepts rfl
      (sha256Hex_accepts (circuitId.only node present) circuitHex)
  · exact fun tree present => ref_accepts rfl
      (contractAddress_accepts (pool.only node present) poolShape)
  · exact fun tree present => ref_accepts rfl
      (sha256Hex_accepts (enrollmentId.only node present) enrollmentHex)
  · exact fun tree present => ref_accepts rfl
      (sha256Hex_accepts (commitment.only node present) commitmentHex)

theorem guardians_there {names : List String} (held : RequiresGuardians obj guardianSet)
    (rest : ∀ name ∈ names, name ∈ obj.map Prod.fst) :
    ∀ name ∈ "guardians" :: "quorum" :: names, name ∈ obj.map Prod.fst :=
  held.1.cons_mem (held.2.cons_mem rest)

theorem zk_there (held : RequiresZk obj zk) :
    ∀ name ∈ ["adapter", "circuit-id", "pool", "enrollment-id", "commitment"],
      name ∈ obj.map Prod.fst := by
  obtain ⟨adapter, circuitId, pool, enrollmentId, commitment⟩ := held
  apply adapter.cons_mem
  apply circuitId.cons_mem
  apply pool.cons_mem
  apply enrollmentId.cons_mem
  exact commitment.cons_mem (List.forall_mem_nil _)

end Mode

theorem mode_accepts {depth : Nat} {v : Json} {mode : RecoveryMode} (meant : MeansMode v mode)
    (silent : validateMode mode = []) :
    accepts (resolve policyDefs (depth + 1)) recoveryMode v := by
  cases mode with
  | guardianOnly guardianSet =>
      obtain ⟨obj, node, held, guarded⟩ := meant
      refine ⟨?_, guardianChain_accepts node guarded silent, ?_, trivial⟩
      · rw [node.object]
        trivial
      · exact tagged_accepts node held (by decide) (.head _)
          (guardians_there guarded (List.forall_mem_nil _)) (by decide)
          (guardianFields_accepts node guarded silent)
  | zkOnly zk =>
      obtain ⟨obj, node, held, proven⟩ := meant
      refine ⟨?_, chain_vacuous node (by decide), ?_, trivial⟩
      · rw [node.object]
        trivial
      · exact tagged_accepts node held (by decide) (.tail _ (.head _)) (zk_there proven)
          (by decide) (zkFields_accepts node proven silent)
  | combined guardianSet zk =>
      obtain ⟨obj, node, held, guarded, proven⟩ := meant
      obtain ⟨silentGuardians, silentZk⟩ := List.append_eq_nil_iff.mp silent
      refine ⟨?_, guardianChain_accepts node guarded silentGuardians, ?_, trivial⟩
      · rw [node.object]
        trivial
      · exact tagged_accepts node held (by decide) (.tail _ (.tail _ (.head _)))
          (guardians_there guarded (zk_there proven)) (by decide)
          (acceptsMembers_append.mpr ⟨guardianFields_accepts node guarded silentGuardians,
            zkFields_accepts node proven silentZk⟩)

theorem baseline_accepts {v : Json} {baseline : BaselineCommitment}
    (meant : MeansBaseline v baseline) (hex : isSha256Hex baseline.docHash = true) :
    accepts refs baselineCommitment v := by
  obtain ⟨obj, node, held⟩ := meant
  apply node_accepts node
  · exact held.cons_mem (List.forall_mem_nil _)
  · decide
  · exact ⟨fun tree present => sha256Hex_accepts (held.only node present) hex, trivial⟩

theorem profile_accepts {v : Json} {profile : RecoveryProfile} (meant : MeansProfile v profile) :
    accepts refs [.enum [.string "loss", .string "protected"]] v := by
  rw [show v = _ from meant]
  refine ⟨⟨_, ?_, .string _⟩, trivial⟩
  cases profile with
  | loss => exact .head _
  | protectedProfile => exact .tail _ (.head _)

theorem recovery_accepts {depth : Nat} {v : Json} {recovery : RecoveryConfig}
    {declared : List String} (meant : MeansRecovery v recovery)
    (silent : validateRecovery declared recovery = []) :
    accepts (resolve policyDefs (depth + 2)) recoveryConfig v := by
  obtain ⟨obj, node, profileHeld, modeHeld, controllerHeld, baselineHeld, replaceableHeld,
    delayHeld, expiryHeld, cancelsHeld⟩ := meant
  simp only [validateRecovery, List.append_eq_nil_iff, reportIf_eq_nil,
    Bool.not_eq_false] at silent
  obtain ⟨⟨⟨⟨⟨⟨⟨nonempty, each⟩, delay⟩, expiry⟩, cancels⟩, shape⟩, based⟩, authorized⟩ := silent
  apply node_accepts node
  · apply profileHeld.cons_mem
    apply modeHeld.cons_mem
    apply controllerHeld.cons_mem
    apply replaceableHeld.cons_mem
    apply delayHeld.cons_mem
    apply expiryHeld.cons_mem
    exact cancelsHeld.cons_mem (List.forall_mem_nil _)
  · decide
  · refine ⟨?_, ?_, ?_, ?_, ?_, ?_, ?_, ?_, trivial⟩
    · exact fun tree present => profile_accepts (profileHeld.only node present)
    · exact fun tree present => ref_accepts rfl
        (mode_accepts (modeHeld.only node present) authorized)
    · exact fun tree present => contractAddress_accepts (controllerHeld.only node present) shape
    · intro tree present
      obtain ⟨baseline, named, meant⟩ := baselineHeld.only node present
      rw [named] at based
      refine ref_accepts rfl (baseline_accepts meant ?_)
      exact Bool.not_eq_false _ ▸ reportIf_eq_nil.mp based
    · intro tree present
      obtain ⟨distinct, -⟩ := eachSeen_eq_nil (by simp [reportIf]) each
      rw [List.map_id] at distinct
      exact texts_accepts (replaceableHeld.only node present) nonempty distinct
        fun _ _ => string_accepts rfl
    · exact fun tree present => u32_accepts (delayHeld.only node present)
        (positive_of_ne_zero delay)
    · exact fun tree present => u32_accepts (expiryHeld.only node present)
        (positive_of_ne_zero expiry)
    · exact fun tree present => u32_accepts (cancelsHeld.only node present)
        (positive_of_ne_zero cancels)

/-! ### Documents -/

/-- The sizes the compiler takes, with names whose characters are bytes. -/
structure Publishable (doc : PolicyDoc) : Prop where
  signers : doc.signers.length ≤ maxDocSigners
  rules : doc.rules.length ≤ maxDocRules
  ascii : ∀ rule ∈ doc.rules, ∀ c ∈ rule.name.toList, c.toNat < 128
  short : ∀ rule ∈ doc.rules, (utf8 rule.name).length ≤ maxRuleNameBytes

theorem list_accepts {α : Type} {means : Meaning α} {v : Json} {values : List α} {item : Schema}
    {most : Nat} (meant : MeansList means v values) (few : values.length ≤ most)
    (each : ∀ value ∈ values, ∀ tree, means tree value → accepts refs item tree) :
    accepts refs [.type .array, .items item, .maxItems most] v := by
  obtain ⟨items, rfl, aligned⟩ := meant
  refine ⟨trivial, ?_, ?_, trivial⟩
  · intro other same
    obtain rfl := Json.array.inj same
    intro tree member
    obtain ⟨value, listed, meant⟩ := exists_of_mem_left aligned member
    exact each value listed tree meant
  · intro other same
    obtain rfl := Json.array.inj same
    rw [aligned.length_eq]
    exact few

theorem version_accepts {v : Json} (meant : MeansU32 v 1) :
    accepts refs [.const (.number "1" true)] v := by
  obtain ⟨digits, rfl, reads⟩ := meant.numeral
  have one : numeral "1" = some ((Nat.ofDigitChars 10 ['1'] 0 : Int) : Rat) :=
    numeral_digits (by decide) (by simp) (.inl rfl)
  exact ⟨.number one reads, trivial⟩

theorem doc_accepts {hexDecode : String → Option Bytes} (decodes : DecodesHex hexDecode)
    {depth : Nat} {v : Json} {doc : PolicyDoc} (meant : MeansDoc v doc)
    (silent : violations hexDecode doc = []) (publishable : Publishable doc) :
    accepts (resolve policyDefs (depth + 3)) policySchema v := by
  obtain ⟨obj, node, versionHeld, networkHeld, signersHeld, rulesHeld, recoveryHeld⟩ := meant
  obtain ⟨version, signersValid, rulesValid, recoveryValid⟩ := violations_eq_nil.mp silent
  rw [version] at versionHeld
  apply node_accepts node
  · apply versionHeld.cons_mem
    apply signersHeld.cons_mem
    exact rulesHeld.cons_mem (List.forall_mem_nil _)
  · decide
  · refine ⟨?_, ?_, ?_, ?_, ?_, trivial⟩
    · exact fun tree present => version_accepts (versionHeld.only node present)
    · intro tree present
      obtain ⟨network, -, meant⟩ := networkHeld.only node present
      exact string_accepts meant
    · intro tree present
      apply list_accepts (signersHeld.only node present) publishable.signers
      intro signer member item meant
      exact ref_accepts rfl
        (signer_accepts decodes meant (validateSigners_valid signersValid signer member))
    · intro tree present
      apply list_accepts (rulesHeld.only node present) publishable.rules
      intro rule member item meant
      have valid := ((validateRules_eq_nil rulesValid).2 rule member).2.2
      exact ref_accepts rfl (rule_accepts decodes meant valid (publishable.ascii rule member)
        (publishable.short rule member))
    · intro tree present
      obtain ⟨recovery, named, meant⟩ := recoveryHeld.only node present
      exact ref_accepts rfl (recovery_accepts meant (recoveryValid recovery named).1)

/-- The published schema validates every text that parses to a valid document
of a publishable size; a bound that holds meets its chain whatever the list's
length, and the two open patterns match all that the validator reads. -/
theorem schema_accepts_valid (hexDecode : String → Option Bytes) (lexer : JsonLexer)
    (decodes : DecodesHex hexDecode) :
    (∀ input tree doc, lexer input = .ok tree → fromJson lexer input = .ok doc →
      validate hexDecode doc = .ok () → Publishable doc →
        Validates policyDefs policySchema tree) ∧
    (∀ refs listField boundField cap obj,
      (∀ list bound, (listField, list) ∈ obj → (boundField, bound) ∈ obj →
        ∃ items value, list = .array items ∧ MeansU32 bound value ∧
          value.toNat ≤ items.length) →
      acceptsAll refs (countBoundChain listField boundField cap) (.object obj)) ∧
    (∀ text value, parseI128 text = some value → 0 < value →
      Regex.Matches limitPattern text) ∧
    ∀ key bytes, hexDecode key = some bytes → bytes ≠ [] → bytes.length ≤ maxSignerKeyLen →
      Regex.Matches signerKeyPattern key := by
  refine ⟨?_, ?_, ?_, ?_⟩
  · intro input tree doc lexed parsed valid publishable
    obtain ⟨meant, -⟩ := (fromJson_eq_ok lexed).mp parsed
    have silent := validate_eq_ok.mp valid
    refine ⟨3, fun depth enough => ?_⟩
    obtain ⟨deeper, rfl⟩ := Nat.exists_eq_add_of_le' enough
    exact doc_accepts decodes meant silent publishable
  · intro refs listField boundField cap obj bounded
    exact countBoundChain_accepts bounded
  · intro text value parsed positive
    exact matches_limit parsed positive
  · intro key bytes read nonempty few
    rw [decodes] at read
    exact matches_signerKey read nonempty few

def publishedDoc : PolicyDoc where
  version := 1
  network := some "T"
  signers :=
    [{ id := "a", method := .delegated accountOne },
      { id := "b", method := .external contractSeven "0aFF" }]
  rules :=
    [{ name := "pay", scope := .contract contractSeven, principals := .threshold ["a", "b"] 2
       functions := some ["transfer"], args := some [{ index := 0, pred := .isSelf }]
       notAfterLedger := some 9
       cap := some { token := none, limit := "+0100", periodLedgers := 7 } }]
  recovery := some
    { profile := .loss
      mode := .guardianOnly { guardians := [accountOne], quorum := 1 }
      controller := contractSeven
      baseline := none
      replaceable := ["a"]
      delayLedgers := 1
      expiryLedgers := 2
      maxCancels := 1 }

set_option maxRecDepth 16384 in
theorem schema_accepts_valid_published :
    Validates policyDefs policySchema (docToCv publishedDoc).tree := by
  have decodes : DecodesHex (localHost "T").hexDecode := fun _ => rfl
  have valid : validate (localHost "T").hexDecode publishedDoc = .ok () := by decide
  have publishable : Publishable publishedDoc := by
    constructor
    · decide
    · decide
    · simp [publishedDoc]
    · decide
  have accepted := (schema_accepts_valid (localHost "T").hexDecode jsonReader decodes).1
  exact accepted (canonicalJson publishedDoc) _ publishedDoc
    (lexer_canonicalJson jsonReader_conforms _) (fromJson_canonicalJson jsonReader_conforms rfl)
    valid publishable

end PerchSchema

end Perch
