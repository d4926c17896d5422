/-
The wallet's document schema.

The schemas mirror the document model member by member, under its wire names,
and refuse unknown members anywhere.  A JSON tree that means a document is
accepted, and what is accepted is the document's canonical value.
-/

import Perch.Ir.Grammar
import Perch.Machine.JsonText
import Perch.Machine.Zod

namespace Perch.PerchJs

open Machine Machine.Js

namespace Schema

open Machine.Zod

def u32 : Schema := int 0 0xFFFFFFFF

/-! ### Signers -/

def externalSignerDecl : Schema :=
  object [("id", string), ("verifier", string), ("key", string)]

def delegatedSignerDecl : Schema := object [("id", string), ("address", string)]

def signerDecl : Schema := union [externalSignerDecl, delegatedSignerDecl]

/-! ### Rules -/

def contractScope := variant "type" "contract" [("address", string)]

def selfAdminScope := variant "type" "self-admin" []

def scope : Schema := discriminatedUnion "type" [contractScope, selfAdminScope]

def allPrincipals := variant "type" "all" [("signers", array string)]

def thresholdPrincipals := variant "type" "threshold" [("signers", array string), ("m", u32)]

def selfAuthenticatingPrincipals :=
  variant "type" "self-authenticating"
    [("policy", string), ("install-param-hex", string), ("ack", string)]

def principals : Schema :=
  discriminatedUnion "type" [allPrincipals, thresholdPrincipals, selfAuthenticatingPrincipals]

def isSelfPred := variant "type" "is-self" []

def addressEqPred := variant "type" "address-eq" [("address", string)]

def stringInPred := variant "type" "string-in" [("values", array string)]

def stringPrefixPred := variant "type" "string-prefix" [("prefix", string)]

def u32EqPred := variant "type" "u32-eq" [("value", u32)]

def argPred : Schema :=
  discriminatedUnion "type" [isSelfPred, addressEqPred, stringInPred, stringPrefixPred, u32EqPred]

def argConstraint : Schema := object [("index", u32), ("pred", argPred)]

def capConstraint : Schema :=
  object [("token", optional string), ("limit", string), ("period-ledgers", u32)]

def rule : Schema :=
  object [("name", string), ("scope", scope), ("principals", principals),
    ("functions", optional (array string)), ("args", optional (array argConstraint)),
    ("not-after-ledger", optional u32), ("cap", optional capConstraint)]

/-! ### Recovery -/

def guardianFields : Shape := [("guardians", array string), ("quorum", u32)]

def zkFields : Shape :=
  [("adapter", string), ("circuit-id", string), ("pool", string), ("enrollment-id", string),
    ("commitment", string)]

def guardianOnlyMode := variant "type" "guardian-only" guardianFields

def zkOnlyMode := variant "type" "zk-only" zkFields

def combinedMode := variant "type" "combined" (guardianFields ++ zkFields)

def recoveryMode : Schema := discriminatedUnion "type" [guardianOnlyMode, zkOnlyMode, combinedMode]

def baselineCommitment : Schema := object [("doc-hash", string)]

def recoveryConfig : Schema :=
  object [("profile", oneOf ["loss", "protected"]), ("mode", recoveryMode),
    ("controller", string), ("baseline", optional baselineCommitment),
    ("replaceable", array string), ("delay-ledgers", u32), ("expiry-ledgers", u32),
    ("max-cancels", u32)]

def policyDocSchema : Schema :=
  object [("version", literalNumber (.ofNat 1)), ("network", optional string),
    ("signers", array signerDecl), ("rules", array rule), ("recovery", optional recoveryConfig)]

end Schema

/-- What the wallet throws on a text: `JSON.parse`'s error, or the schema's. -/
inductive ParseFailure
  | json (message : Text)
  | schema
deriving DecidableEq

def parsePolicyDoc (value : Value) : Except ParseFailure Value :=
  orFail (Schema.policyDocSchema value) .schema

def parsePolicyDocJson (jsonParse : Text → Except Text Value) (json : Text) :
    Except ParseFailure Value := do
  let value ← (jsonParse json).mapError .json
  parsePolicyDoc value

/-! ### Canonical values as JavaScript values -/

mutual

def cvValue : Ir.Cv → Value
  | .str text => .string (utf16 text)
  | .u32 n => .number (.ofNat n.toNat)
  | .arr items => .array (cvValues items)
  | .obj entries => .object (cvMembers entries)

def cvValues : List Ir.Cv → List Value
  | [] => []
  | item :: items => cvValue item :: cvValues items

def cvMembers : List (String × Ir.Cv) → List (Text × Value)
  | [] => []
  | (key, cv) :: entries => (utf16 key, cvValue cv) :: cvMembers entries

end

theorem cvValues_eq_map (items : List Ir.Cv) : cvValues items = items.map cvValue := by
  induction items with
  | nil => rfl
  | cons item rest ih => rw [cvValues, ih, List.map_cons]

theorem cvValue_defined (cv : Ir.Cv) : cvValue cv ≠ .undefined := by
  cases cv <;> simp [cvValue]

/-! ### What the schemas accept -/

section Acceptance

variable {number : String → Number}

/-- A tree that means something is accepted as the canonical value of what it
means. -/
def Accepts {α : Type} (number : String → Number) (schema : Zod.Schema) (means : Ir.Meaning α)
    (toCv : α → Ir.Cv) : Prop :=
  ∀ tree value, means tree value →
    schema (JsonText.toValue number tree) = some (cvValue (toCv value))

theorem string_accepts : Accepts number Zod.string Ir.MeansString .str := by
  rintro _ text rfl
  rfl

theorem u32_accepts (reads : JsonText.ReadsNumerals number) :
    Accepts number Schema.u32 Ir.MeansU32 .u32 := by
  rintro _ value ⟨digits, rfl, decimal⟩
  have fits := value.toNat_lt
  have inside : (Number.ofNat value.toNat).within 0 0xFFFFFFFF = true :=
    Number.within_ofNat (show value.toNat ≤ 0xFFFFFFFF by omega)
  rw [JsonText.toValue, reads digits value.toNat decimal (by omega)]
  simp only [Schema.u32, Zod.int, Number.isInteger_ofNat, inside, Bool.and_self, if_true]
  rfl

theorem array_accepts {α : Type} {schema : Zod.Schema} {means : Ir.Meaning α} {toCv : α → Ir.Cv}
    (item : Accepts number schema means toCv) :
    Accepts number (Zod.array schema) (Ir.MeansList means)
      (fun values => .arr (values.map toCv)) := by
  rintro _ values ⟨items, rfl, each⟩
  rw [JsonText.toValue, cvValue, JsonText.toValues_eq_map, cvValues_eq_map, List.map_map]
  apply Zod.array_eq
  rw [List.forall₂_map_left_iff, List.forall₂_map_right_iff]
  exact each.imp fun tree value meant => item tree value meant

theorem strings_accepts :
    Accepts number (Zod.array Zod.string) (Ir.MeansList Ir.MeansString) .strs :=
  array_accepts string_accepts

/-! ### Objects -/

/-- The fields of a shape, read from an object, are these canonical members. -/
def Reads (number : String → Number) (obj : Ir.Members) (shape : Zod.Shape)
    (entries : List (String × Ir.Cv)) : Prop :=
  Zod.Fields (JsonText.toMembers number obj) shape (cvMembers entries)

theorem Reads.nil {obj : Ir.Members} : Reads number obj [] [] := Zod.Fields.nil

section Node

variable {v : Json} {known : List String} {obj : Ir.Members} (node : Ir.Node v known obj)
include node

theorem Reads.required {α : Type} {schema : Zod.Schema} {means : Ir.Meaning α} {toCv : α → Ir.Cv}
    {name : String} {value : α} {shape : Zod.Shape} {entries : List (String × Ir.Cv)}
    (accepts : Accepts number schema means toCv) (held : Ir.Requires obj name means value)
    (rest : Reads number obj shape entries) :
    Reads number obj ((name, schema) :: shape) ((name, toCv value) :: entries) := by
  obtain ⟨tree, present, meant⟩ := held
  refine .present ?_ (cvValue_defined _) rest
  rw [JsonText.lookup_toMembers_of_mem node.distinct present]
  exact accepts tree value meant

theorem Reads.allowed {α : Type} {schema : Zod.Schema} {means : Ir.Meaning α} {toCv : α → Ir.Cv}
    {name : String} {value : Option α} {shape : Zod.Shape} {entries : List (String × Ir.Cv)}
    (accepts : Accepts number schema means toCv) (held : Ir.Allows obj name means value)
    (rest : Reads number obj shape entries) :
    Reads number obj ((name, Zod.optional schema) :: shape)
      (Ir.optional name toCv value ++ entries) := by
  cases value with
  | none =>
      refine .absent ?_ (fun present => held (JsonText.mem_toMembers_keys.mp present)) rest
      rw [JsonText.lookup_toMembers_of_notMem held]
      rfl
  | some value =>
      obtain ⟨tree, present, _, meant⟩ := held
      refine .present ?_ (cvValue_defined _) rest
      have accepted := accepts tree value meant
      rw [JsonText.lookup_toMembers_of_mem node.distinct present]
      cases shape : JsonText.toValue number tree with
      | undefined => cases tree <;> cases shape
      | _ => rw [← accepted, shape]; rfl

/-- A strict object over exactly the known keys accepts the node. -/
theorem object_accepts {shape : Zod.Shape} {entries : List (String × Ir.Cv)}
    (keys : ∀ name ∈ known, name ∈ shape.map Prod.fst) (reads : Reads number obj shape entries) :
    Zod.object shape (JsonText.toValue number v) = some (cvValue (.obj entries)) := by
  rw [node.object, JsonText.toValue_object node.distinct, cvValue]
  refine Zod.object_eq ?_ reads
  intro entry present
  rw [JsonText.toMembers_eq_map] at present
  obtain ⟨member, held, rfl⟩ := List.mem_map.mp present
  have listed := keys _ (node.known member held)
  obtain ⟨field, present, same⟩ := List.mem_map.mp listed
  exact List.mem_map.mpr ⟨field, present, congrArg utf16 same⟩

/-- The variant a node's tag names accepts it. -/
theorem variant_accepts {tag : String} {shape : Zod.Shape} {entries : List (String × Ir.Cv)}
    {variants : List (String × Zod.Schema)}
    (found : (variants.find? fun variant => tag == variant.1) =
      some (Zod.variant "type" tag shape))
    (keys : ∀ name ∈ known, name ∈ "type" :: shape.map Prod.fst)
    (tagged : Ir.Requires obj "type" Ir.MeansString tag) (reads : Reads number obj shape entries) :
    Zod.discriminatedUnion "type" variants (JsonText.toValue number v) =
      some (cvValue (.obj (("type", .str tag) :: entries))) := by
  have literal : Accepts number (Zod.literal tag)
      (fun tree text => tree = .string text ∧ text = tag)
      .str := by
    rintro _ text ⟨rfl, rfl⟩
    exact Zod.literal_utf16 text
  obtain ⟨tree, present, rfl⟩ := tagged
  have whole : Zod.object (("type", Zod.literal tag) :: shape) (JsonText.toValue number v) =
      some (cvValue (.obj (("type", .str tag) :: entries))) :=
    object_accepts node keys (Reads.required node literal ⟨_, present, rfl, rfl⟩ reads)
  rw [← whole, node.object, JsonText.toValue_object node.distinct]
  apply Zod.discriminatedUnion_eq found
  rw [JsonText.lookup_toMembers_of_mem node.distinct present]
  rfl

end Node

/-! ### Documents -/

theorem signer_accepts : Accepts number Schema.signerDecl Ir.MeansSigner Ir.signerToCv := by
  rintro v ⟨id, method⟩ meant
  cases method with
  | external verifier key =>
      obtain ⟨obj, node, verifierHeld, keyHeld, idHeld⟩ := meant
      have accepted : Schema.externalSignerDecl (JsonText.toValue number v) = _ :=
        object_accepts node (by decide)
          (.required node string_accepts idHeld (.required node string_accepts verifierHeld
            (.required node string_accepts keyHeld .nil)))
      simp only [Schema.signerDecl, Zod.union, List.findSome?_cons, accepted, Ir.signerToCv]
  | delegated address =>
      obtain ⟨obj, node, addressHeld, idHeld⟩ := meant
      have accepted : Schema.delegatedSignerDecl (JsonText.toValue number v) = _ :=
        object_accepts node (by decide)
          (.required node string_accepts idHeld (.required node string_accepts addressHeld .nil))
      -- The external shape does not name `address`, so it refuses the object.
      have refused : Schema.externalSignerDecl (JsonText.toValue number v) = none := by
        obtain ⟨_, present, _⟩ := addressHeld
        rw [node.object, JsonText.toValue_object node.distinct]
        have listed : utf16 "address" ∈ (JsonText.toMembers number obj).map Prod.fst :=
          JsonText.mem_toMembers_keys.mpr (List.mem_map_of_mem present)
        obtain ⟨entry, held, named⟩ := List.mem_map.mp listed
        apply Zod.object_unknown held
        rw [named]
        decide
      simp only [Schema.signerDecl, Zod.union, List.findSome?_cons, refused, accepted,
        Ir.signerToCv]

theorem scope_accepts : Accepts number Schema.scope Ir.MeansScope Ir.scopeToCv := by
  intro v scope meant
  cases scope with
  | contract address =>
      obtain ⟨obj, node, tagged, held⟩ := meant
      exact variant_accepts node rfl (by decide) tagged
        (.required node string_accepts held .nil)
  | selfAdmin =>
      obtain ⟨obj, node, tagged⟩ := meant
      exact variant_accepts node rfl (by decide) tagged .nil

theorem principals_accepts (reads : JsonText.ReadsNumerals number) :
    Accepts number Schema.principals Ir.MeansPrincipals Ir.principalsToCv := by
  intro v principals meant
  cases principals with
  | all signers =>
      obtain ⟨obj, node, tagged, held⟩ := meant
      exact variant_accepts node rfl (by decide) tagged (.required node strings_accepts held .nil)
  | threshold signers m =>
      obtain ⟨obj, node, tagged, held, mHeld⟩ := meant
      exact variant_accepts node rfl (by decide) tagged
        (.required node strings_accepts held (.required node (u32_accepts reads) mHeld .nil))
  | selfAuthenticating policy hex ack =>
      obtain ⟨obj, node, tagged, held, hexHeld, ackHeld⟩ := meant
      exact variant_accepts node rfl (by decide) tagged
        (.required node string_accepts held (.required node string_accepts hexHeld
          (.required node string_accepts ackHeld .nil)))

theorem pred_accepts (reads : JsonText.ReadsNumerals number) :
    Accepts number Schema.argPred Ir.MeansPred Ir.predToCv := by
  intro v pred meant
  cases pred with
  | isSelf =>
      obtain ⟨obj, node, tagged⟩ := meant
      exact variant_accepts node rfl (by decide) tagged .nil
  | addressEq address =>
      obtain ⟨obj, node, tagged, held⟩ := meant
      exact variant_accepts node rfl (by decide) tagged (.required node string_accepts held .nil)
  | stringIn values =>
      obtain ⟨obj, node, tagged, held⟩ := meant
      exact variant_accepts node rfl (by decide) tagged (.required node strings_accepts held .nil)
  | stringPrefix initial =>
      obtain ⟨obj, node, tagged, held⟩ := meant
      exact variant_accepts node rfl (by decide) tagged (.required node string_accepts held .nil)
  | u32Eq value =>
      obtain ⟨obj, node, tagged, held⟩ := meant
      exact variant_accepts node rfl (by decide) tagged
        (.required node (u32_accepts reads) held .nil)

theorem argConstraint_accepts (reads : JsonText.ReadsNumerals number) :
    Accepts number Schema.argConstraint Ir.MeansArg Ir.argConstraintToCv := by
  rintro v constraint ⟨obj, node, index, pred⟩
  exact object_accepts node (by decide)
    (.required node (u32_accepts reads) index (.required node (pred_accepts reads) pred .nil))

theorem cap_accepts (reads : JsonText.ReadsNumerals number) :
    Accepts number Schema.capConstraint Ir.MeansCap Ir.capToCv := by
  rintro v cap ⟨obj, node, token, limit, period⟩
  exact object_accepts node (by decide)
    (.allowed node string_accepts token (.required node string_accepts limit
      (.required node (u32_accepts reads) period .nil)))

theorem rule_accepts (reads : JsonText.ReadsNumerals number) :
    Accepts number Schema.rule Ir.MeansRule Ir.ruleToCv := by
  rintro v rule ⟨obj, node, name, scope, principals, functions, args, expiry, cap⟩
  have accepted : Schema.rule (JsonText.toValue number v) = some (cvValue (.obj _)) :=
    object_accepts node (by decide)
      (.required node string_accepts name (.required node scope_accepts scope
        (.required node (principals_accepts reads) principals
          (.allowed node strings_accepts functions
            (.allowed node (array_accepts (argConstraint_accepts reads)) args
              (.allowed node (u32_accepts reads) expiry
                (.allowed node (cap_accepts reads) cap .nil)))))))
  rw [accepted]
  simp [Ir.ruleToCv]

theorem profile_accepts :
    Accepts number (Zod.oneOf ["loss", "protected"]) Ir.MeansProfile
      (fun profile => .str (Ir.recoveryProfileStr profile)) := by
  rintro _ profile rfl
  cases profile <;>
    simp [JsonText.toValue, Zod.oneOf, Ir.recoveryProfileStr, isText_utf16, cvValue]

section Modes

variable {v : Json} {known : List String} {obj : Ir.Members} (node : Ir.Node v known obj)
include node

theorem guardians_read (reads : JsonText.ReadsNumerals number) {g : Ir.GuardianSet}
    (held : Ir.RequiresGuardians obj g) {shape : Zod.Shape} {entries : List (String × Ir.Cv)}
    (rest : Reads number obj shape entries) :
    Reads number obj (Schema.guardianFields ++ shape) (Ir.guardianFields g ++ entries) := by
  obtain ⟨guardians, quorum⟩ := held
  exact .required node strings_accepts guardians (.required node (u32_accepts reads) quorum rest)

theorem zk_read {z : Ir.ZkFactor} (held : Ir.RequiresZk obj z) :
    Reads number obj Schema.zkFields (Ir.zkFields z) := by
  obtain ⟨adapter, circuit, pool, enrollment, commitment⟩ := held
  exact .required node string_accepts adapter (.required node string_accepts circuit
    (.required node string_accepts pool (.required node string_accepts enrollment
      (.required node string_accepts commitment .nil))))

end Modes

theorem mode_accepts (reads : JsonText.ReadsNumerals number) :
    Accepts number Schema.recoveryMode Ir.MeansMode Ir.recoveryModeToCv := by
  intro v mode meant
  cases mode with
  | guardianOnly g =>
      obtain ⟨obj, node, tagged, guardians⟩ := meant
      exact variant_accepts node rfl (by decide) tagged
        (guardians_read node reads guardians .nil)
  | zkOnly z =>
      obtain ⟨obj, node, tagged, zk⟩ := meant
      exact variant_accepts node rfl (by decide) tagged (zk_read node zk)
  | combined g z =>
      obtain ⟨obj, node, tagged, guardians, zk⟩ := meant
      exact variant_accepts node rfl (by decide) tagged
        (guardians_read node reads guardians (zk_read node zk))

theorem baseline_accepts :
    Accepts number Schema.baselineCommitment Ir.MeansBaseline Ir.baselineToCv := by
  rintro v baseline ⟨obj, node, hash⟩
  exact object_accepts node (by decide) (.required node string_accepts hash .nil)

theorem recovery_accepts (reads : JsonText.ReadsNumerals number) :
    Accepts number Schema.recoveryConfig Ir.MeansRecovery Ir.recoveryToCv := by
  rintro v recovery ⟨obj, node, profile, mode, controller, baseline, replaceable, delay, expiry,
    cancels⟩
  have accepted : Schema.recoveryConfig (JsonText.toValue number v) = some (cvValue (.obj _)) :=
    object_accepts node (by decide)
      (.required node profile_accepts profile (.required node (mode_accepts reads) mode
        (.required node string_accepts controller (.allowed node baseline_accepts baseline
          (.required node strings_accepts replaceable
            (.required node (u32_accepts reads) delay
              (.required node (u32_accepts reads) expiry
                (.required node (u32_accepts reads) cancels .nil))))))))
  rw [accepted]
  simp [Ir.recoveryToCv]

theorem version_accepts (reads : JsonText.ReadsNumerals number) :
    Accepts number (Zod.literalNumber (.ofNat 1))
      (fun tree version => Ir.MeansU32 tree version ∧ version = 1) .u32 := by
  rintro _ version ⟨⟨digits, rfl, decimal⟩, rfl⟩
  rw [JsonText.toValue, reads digits 1 decimal (by decide)]
  rfl

theorem doc_accepts (reads : JsonText.ReadsNumerals number) {tree : Json} {doc : Ir.PolicyDoc}
    (meant : Ir.MeansDoc tree doc) (supported : doc.version = 1) :
    Schema.policyDocSchema (JsonText.toValue number tree) = some (cvValue (Ir.docToCv doc)) := by
  obtain ⟨obj, node, ⟨versionTree, present, version⟩, network, signers, rules, recovery⟩ := meant
  have accepted : Schema.policyDocSchema (JsonText.toValue number tree) =
      some (cvValue (.obj _)) :=
    object_accepts node (by decide)
      (.required node (version_accepts reads) ⟨versionTree, present, version, supported⟩
        (.allowed node string_accepts network
          (.required node (array_accepts signer_accepts) signers
            (.required node (array_accepts (rule_accepts reads)) rules
              (.allowed node (recovery_accepts reads) recovery .nil)))))
  rw [accepted]
  simp [Ir.docToCv]

end Acceptance

end Perch.PerchJs
