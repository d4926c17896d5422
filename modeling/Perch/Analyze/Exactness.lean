/-
The encoding of a rule is exact.

A contract call is one assignment of the symbolic invocation, and where the
rule's string constants reach the solver as they are, the assignment satisfies
the rule's formula exactly when the lowered rule authorizes the call, expiry
aside.  What the solver finds unsatisfiable is then never authorized.
-/

import Perch.Analyze.Literals
import Perch.Analyze.Narrowing
import Perch.Document.Strkey
import Mathlib.Data.Fintype.EquivFin

namespace Perch.Analyze

open Machine Ir Compile Document Program

/-! ### Calls as assignments -/

section Assignments

variable (host : LowerHost) (vals : TryFromVal)

/-- An address is spelled in one way, and a value has one type. -/
structure LawfulHost : Prop where
  address : ∀ text text' address, host.addressFromStr text = some address →
    host.addressFromStr text' = some address → text = text'
  u32 : ∀ value, vals.u32 value ≠ none → vals.address value = none
  string : ∀ value, vals.string value ≠ none → vals.address value = none ∧ vals.u32 value = none

/-- An address' id: 0 for the account's own, and the place among the interned
ones for those. -/
def addressId (addresses : List String) (self address : Address) : Nat :=
  if address = self then 0
  else addresses.findIdx (fun literal => host.addressFromStr literal = some address) + 1

def typeOf (value : Val) : Int :=
  if vals.address value ≠ none then tAddr
  else if vals.u32 value ≠ none then tU32
  else if vals.string value ≠ none then tStr
  else tOther

/-- A string's bytes as characters, which they are in ASCII. -/
def codes (bytes : Bytes) : Smt.Str := bytes.map UInt8.toNat

/-- The symbolic invocation a call is, with as many signers.  What the call
leaves open, it sets to nothing. -/
def represented (addresses : List String) (asked : Question) (signers : Nat) : Assignment where
  bool _ := true
  int := fun
    | .signerCount => signers
    | .argCount => asked.call.args.length
    | .argType index => (asked.call.args[index.toNat]?.map (typeOf vals)).getD tOther
    | .argAddr index =>
        ((asked.call.args[index.toNat]?.bind vals.address).map
          (addressId host addresses asked.self)).getD 0
    | .argU32 index => ((asked.call.args[index.toNat]?.bind vals.u32).map UInt32.toNat).getD 0
  str := fun
    | .fnName => characters asked.call.fnName
    | .argStr index => ((asked.call.args[index.toNat]?.bind vals.string).map codes).getD []

end Assignments

def Plain (s : String) : Prop := (∀ byte ∈ utf8 s, byte < 128) ∧ denoted s = characters s

/-- The string constants a rule's encoding holds are plain. -/
def PlainRule (rule : Rule) : Prop :=
  ∀ constraints, rule.args = some constraints → ∀ constraint ∈ constraints,
    ∀ s ∈ constants constraint.pred, Plain s

theorem utf8_characters {s : String} (ascii : ∀ byte ∈ utf8 s, byte < 128) :
    characters s = codes (utf8 s) := by
  have chars : s.toList = (utf8 s).map fun byte => Char.ofNat byte.toNat := by
    rw [← Utf8.lossyChars_ascii ascii, ← String.toList_ofList (l := Utf8.lossyChars (utf8 s))]
    exact congrArg String.toList (Utf8.lossy_encode s).symm
  rw [characters, chars, List.map_map, codes]
  apply List.map_congr_left
  intro byte member
  have small : byte.toNat < 128 := UInt8.lt_iff_toNat_lt.mp (ascii byte member)
  exact Utf8.toNat_ofNat (Or.inl (by omega))

theorem Plain.denoted_eq {s : String} (plain : Plain s) : denoted s = codes (utf8 s) := by
  rw [plain.2, utf8_characters plain.1]

theorem codes_injective {first second : Bytes} (same : codes first = codes second) :
    first = second := by
  apply List.map_injective_iff.mpr _ same
  intro a b equal
  exact UInt8.toNat_inj.mp equal

theorem codes_prefix {first second : Bytes} :
    codes first <+: codes second ↔ first <+: second :=
  List.prefix_map_iff_of_injective fun _ _ equal => UInt8.toNat_inj.mp equal

/-! ### One predicate -/

section Predicates

variable {host : LowerHost} {vals : TryFromVal} {addresses : List String} {asked : Question}
  {signers : Nat} {index : UInt32} {value : Val}

theorem typeOf_address : typeOf vals value = tAddr ↔ vals.address value ≠ none := by
  unfold typeOf
  split_ifs <;> simp_all [tAddr, tU32, tStr, tOther]

theorem typeOf_u32 (lawful : LawfulHost host vals) :
    typeOf vals value = tU32 ↔ vals.u32 value ≠ none := by
  have single := lawful.u32 value
  unfold typeOf
  split_ifs <;> simp_all [tAddr, tU32, tStr, tOther]

theorem typeOf_string (lawful : LawfulHost host vals) :
    typeOf vals value = tStr ↔ vals.string value ≠ none := by
  have single := lawful.string value
  unfold typeOf
  split_ifs <;> simp_all [tAddr, tU32, tStr, tOther]

theorem addressId_eq_iff (lawful : LawfulHost host vals) {self address : Address}
    {literal : String} (interned : literal ∈ addresses)
    (apart : ∀ text ∈ addresses, host.addressFromStr text ≠ some self) :
    addressId host addresses self address = addresses.idxOf literal + 1 ↔
      host.addressFromStr literal = some address := by
  have inside := List.idxOf_lt_length_iff.mpr interned
  unfold addressId
  split
  next own =>
    constructor
    · intro zero
      omega
    · intro spelled
      rw [own] at spelled
      exact absurd spelled (apart literal interned)
  next other =>
    rw [Nat.add_right_cancel_iff]
    constructor
    · intro place
      have bound : addresses.findIdx
          (fun text => decide (host.addressFromStr text = some address)) < addresses.length := by
        rw [place]
        exact inside
      have found := List.findIdx_getElem (w := bound)
      simp only [place, List.getElem_idxOf, decide_eq_true_eq] at found
      exact found
    · intro spelled
      rw [List.idxOf]
      congr 1
      funext text
      rw [Bool.eq_iff_iff, decide_eq_true_iff, beq_iff_eq]
      constructor
      · intro spelled'
        exact lawful.address text literal address spelled' spelled
      · intro same
        rw [same, spelled]

theorem predHolds_iff (lawful : LawfulHost host vals)
    (apart : ∀ text ∈ addresses, host.addressFromStr text ≠ some asked.self)
    (given : asked.call.args[index.toNat]? = some value) {pred : ArgPred}
    (interned : ∀ literal, pred = .addressEq literal → literal ∈ addresses)
    (plain : ∀ s ∈ constants pred, Plain s)
    (short : ∀ initial, pred = .stringPrefix initial → Short initial) :
    PredHolds addresses (represented host vals addresses asked signers) index pred ↔
      ArgPredMeans host vals asked value pred := by
  have kind : (represented host vals addresses asked signers).int (.argType index) =
      typeOf vals value := by
    simp [represented, given]
  have text : (represented host vals addresses asked signers).str (.argStr index) =
      ((vals.string value).map codes).getD [] := by
    simp [represented, given]
  have id : (represented host vals addresses asked signers).int (.argAddr index) =
      ((vals.address value).map (addressId host addresses asked.self)).getD 0 := by
    simp [represented, given]
  have number : (represented host vals addresses asked signers).int (.argU32 index) =
      ((vals.u32 value).map UInt32.toNat).getD 0 := by
    simp [represented, given]
  cases pred with
  | isSelf =>
      simp only [PredHolds, ArgPredMeans, kind, typeOf_address, id]
      cases read : vals.address value with
      | none => simp
      | some address =>
          by_cases own : address = asked.self
          · simp [addressId, own]
          · simp only [addressId, own, if_false, Option.map_some, Option.getD_some,
              Option.some.injEq, iff_false, not_and]
            omega
  | addressEq literal =>
      simp only [PredHolds, ArgPredMeans, kind, typeOf_address, id]
      cases read : vals.address value with
      | none => simp
      | some address =>
          have same : addressId host addresses asked.self address =
              addresses.idxOf literal + 1 ↔ host.addressFromStr literal = some address :=
            addressId_eq_iff lawful (interned literal rfl) apart
          simp only [ne_eq, reduceCtorEq, not_false_eq_true, Option.map_some, Option.getD_some,
            true_and, Option.some.injEq, exists_eq_right', ← same]
          omega
  | u32Eq want =>
      simp only [PredHolds, ArgPredMeans, kind, typeOf_u32 lawful, number]
      cases read : vals.u32 value with
      | none => simp
      | some given => simp [UInt32.toNat_inj]
  | stringIn values =>
      simp only [PredHolds, ArgPredMeans, kind, typeOf_string lawful, text]
      cases read : vals.string value with
      | none => simp
      | some bytes =>
          simp only [ne_eq, reduceCtorEq, not_false_eq_true, true_and, Option.map_some,
            Option.getD_some, Option.some.injEq, exists_eq_left']
          rw [codes, List.length_map, ← codes]
          apply and_congr_right
          intro fits
          constructor
          · rintro ⟨want, listed, fine, same⟩
            have named := plain want (List.mem_filter.mpr ⟨listed, decide_eq_true fine⟩)
            rw [named.denoted_eq] at same
            exact ⟨want, listed, codes_injective same⟩
          · rintro ⟨want, listed, rfl⟩
            have fine : Short want := fits
            have named := plain want (List.mem_filter.mpr ⟨listed, decide_eq_true fine⟩)
            exact ⟨want, listed, fine, named.denoted_eq.symm⟩
  | stringPrefix initial =>
      have named := plain initial List.mem_cons_self
      simp only [PredHolds, ArgPredMeans, kind, typeOf_string lawful, text, named.denoted_eq]
      cases read : vals.string value with
      | none => simp
      | some bytes => simp [short initial rfl, codes_prefix]

end Predicates

/-! ### One rule -/

section Rules

variable {hexDecode : String → Option Bytes} {host : LowerHost} {vals : TryFromVal}
  {doc : PolicyDoc} {rule : Rule} {asked : Question}

/-- The floor of a rule's formula is met by the signers its program asks for. -/
theorem signerFloor_iff (sound : SoundRule hexDecode doc rule)
    (addressable : doc.signers.length < 4294967296) {lowered : LoweredRule}
    (lowers : lowerRule host doc rule = .ok lowered) :
    signerFloor rule.principals ≤ (lowered.authenticated asked).length ↔
      PrincipalsMean doc asked rule.principals := by
  obtain ⟨known, valid⟩ := sound
  have principals := (validateRule_eq_nil valid).principals
  have bounded : (doc.signers.map SignerDecl.id).length < 4294967296 := by
    rwa [List.length_map]
  obtain ⟨ids, least, parts⟩ := lowerRule_eq_ok lowers
  rw [← quorum_authenticated asked known.ids principals bounded parts, floor_le_iff]
  obtain ⟨distinct, declared, positive, kind⟩ := quorum_valid principals bounded parts.asks
  have fewer : (lowered.authenticated asked).length ≤ lowered.signers.length :=
    List.length_filter_le _ _
  have each := (mapM_eq_ok parts.signers).length_eq
  have fits := (List.subperm_of_subset distinct declared).length_le
  have small : (lowered.authenticated asked).length < 4294967296 := by omega
  rw [UInt32.toNat_ofNat_of_lt' small]
  rcases kind with ⟨m, threshold, rfl⟩ | ⟨every, size⟩
  · rw [threshold, signerFloor]
    omega
  · rw [every, signerFloor]
    omega

/-- A rule's formula holds of a call exactly when the lowered rule authorizes it,
expiry aside, whatever is interned beside the rule's own addresses. -/
theorem ruleAllows_exact (lawful : LawfulHost host vals) (sound : SoundRule hexDecode doc rule)
    (addressable : doc.signers.length < 4294967296) (plain : PlainRule rule)
    {lowered : LoweredRule} (lowers : lowerRule host doc rule = .ok lowered)
    (scope : ScopeMeans host asked rule.scope) (enc : Encoder) {addresses : List String}
    (grown : (enc.ruleAllows rule).2.addresses <+: addresses)
    (apart : ∀ text ∈ addresses, host.addressFromStr text ≠ some asked.self) :
    (enc.ruleAllows rule).1.Holds
        (represented host vals addresses asked (lowered.authenticated asked).length) ↔
      { lowered with validUntil := none }.authorizes host vals asked = true := by
  have valid := validateRule_eq_nil sound.valid
  have floor : signerFloor rule.principals ≤ (lowered.authenticated asked).length ↔
      PrincipalsMean doc asked rule.principals := signerFloor_iff sound addressable lowers
  have functions : ∀ names, rule.functions = some names → ∀ name ∈ names,
      (characters asked.call.fnName = denoted name ↔ asked.call.fnName = name) := by
    intro names listed name member
    rw [denoted_symbol (validateRule_functions sound.valid names listed name member)]
    exact ⟨characters_injective, congrArg characters⟩
  have args : ∀ constraints, rule.args = some constraints → ∀ constraint ∈ constraints,
      ∀ value, asked.call.args[constraint.index.toNat]? = some value →
        (PredHolds addresses (represented host vals addresses asked
            (lowered.authenticated asked).length) constraint.index constraint.pred ↔
          ArgPredMeans host vals asked value constraint.pred) := by
    intro constraints listed constraint member value given
    refine predHolds_iff lawful apart given ?_ (plain constraints listed constraint member) ?_
    · intro literal named
      apply grown.subset
      simp only [Encoder.ruleAllows, listed, Option.getD_some]
      exact argsHold_interned enc member named
    · intro initial kind
      exact sound.prefix_short listed member kind
  rw [(ruleAllows_spec enc rule).2 addresses grown,
    unexpired_iff vals asked sound.known.ids addressable valid lowers]
  constructor
  · intro holds
    refine ⟨scope, floor.mp (Nat.cast_le.mp holds.signers), ?_, ?_⟩
    · intro names listed
      obtain ⟨_, name, member, same⟩ := holds.functions names listed
      exact (functions names listed name member).mp same ▸ member
    · intro constraints listed constraint member
      obtain ⟨_, present, pred⟩ := holds.args constraints listed constraint member
      have inside : constraint.index.toNat < asked.call.args.length := Nat.cast_lt.mp present
      have given := List.getElem?_eq_getElem inside
      exact ⟨_, given, (args constraints listed constraint member _ given).mp pred⟩
  · rintro ⟨_, principals, named, held⟩
    constructor
    · exact Nat.cast_le.mpr (floor.mpr principals)
    · intro names listed
      have member := named names listed
      exact ⟨rfl, _, member, (functions names listed _ member).mpr rfl⟩
    · intro constraints listed constraint member
      obtain ⟨value, given, means⟩ := held constraints listed constraint member
      obtain ⟨inside, _⟩ := List.getElem?_eq_some_iff.mp given
      exact ⟨rfl, Nat.cast_lt.mpr inside,
        (args constraints listed constraint member value given).mpr means⟩

end Rules

/-! ### What the queries prove -/

/-- A document, with the host it is compiled and enforced by. -/
structure Setting where
  hexDecode : String → Option Bytes
  host : LowerHost
  vals : TryFromVal
  doc : PolicyDoc
  lawful : LawfulHost host vals
  valid : validate hexDecode doc = .ok ()
  addressable : doc.signers.length < 4294967296

def addressLiterals (rule : Rule) : List String :=
  (rule.args.getD []).filterMap fun constraint =>
    match constraint.pred with
    | .addressEq address => some address
    | _ => none

/-- A call on a rule's scope, of an account that the rule does not name. -/
structure InScope (host : LowerHost) (rule : Rule) (asked : Question) : Prop where
  scope : ScopeMeans host asked rule.scope
  apart : ∀ text ∈ addressLiterals rule, host.addressFromStr text ≠ some asked.self

/-- A rule's formula is exact, interned with other addresses or alone. -/
def RulesExact : Prop :=
  ∀ (given : Setting), ∀ rule ∈ given.doc.rules, PlainRule rule →
    ∀ lowered, lowerRule given.host given.doc rule = .ok lowered →
      ∀ asked : Question, ScopeMeans given.host asked rule.scope →
        ∀ (enc : Encoder) (addresses : List String),
          (enc.ruleAllows rule).2.addresses <+: addresses →
          (∀ text ∈ addresses, given.host.addressFromStr text ≠ some asked.self) →
          ((enc.ruleAllows rule).1.Holds (represented given.host given.vals addresses asked
              (lowered.authenticated asked).length) ↔
            { lowered with validUntil := none }.authorizes given.host given.vals asked = true)

def DeadRulesProve : Prop :=
  ∀ (given : Setting) (runZ3 : Script → Smt.Verdict), Smt.Sound runZ3 →
    List.Forall₂ (fun rule report => report.rule = rule.name ∧
        (PlainRule rule → report.verdict = .unsat →
          ∀ lowered, lowerRule given.host given.doc rule = .ok lowered →
            ∀ asked : Question, InScope given.host rule asked →
              lowered.authorizes given.host given.vals asked = false))
      given.doc.rules (deadRules runZ3 given.doc)

/-- Rules with no violation call only the listed functions of their contract. -/
def OnlyCallsProves (given : Setting) (contract : String) (allowed : List String) : Prop :=
  ∀ runZ3 : Script → Smt.Verdict, Smt.Sound runZ3 →
    onlyCalls runZ3 given.doc contract allowed = [] →
      ∀ rule ∈ given.doc.rules, rule.scope = .contract contract → PlainRule rule →
        ∀ lowered, lowerRule given.host given.doc rule = .ok lowered →
          ∀ asked : Question, InScope given.host rule asked →
            lowered.authorizes given.host given.vals asked = true → asked.call.fnName ∈ allowed

def OnlyCallsProve (allowed : List String) : Prop :=
  ∀ (given : Setting) (contract : String), OnlyCallsProves given contract allowed

/-- No rule of the contract has a model outside the list. -/
def Silent (given : Setting) (contract : String) (allowed : List String) : Prop :=
  ∀ rule ∈ given.doc.rules, rule.scope = .contract contract →
    ¬Smt.Satisfiable (outsideScript rule allowed)

def Reaches (given : Setting) (rule : Rule) (name : String) : Prop :=
  PlainRule rule ∧ ∃ lowered asked, lowerRule given.host given.doc rule = .ok lowered ∧
    InScope given.host rule asked ∧ lowered.authorizes given.host given.vals asked = true ∧
    asked.call.fnName = name

/-- A rule of the contract lists and reaches a function that an entry of the list
denotes, and that the list does not name. -/
def Hides (given : Setting) (contract : String) (allowed : List String) : Prop :=
  ∃ rule ∈ given.doc.rules, rule.scope = .contract contract ∧
    ∃ names, rule.functions = some names ∧ ∃ name ∈ names, name ∉ allowed ∧
      (∃ entry ∈ allowed, denoted entry = characters name) ∧ Reaches given rule name

section Queries

variable {rule : Rule} {given : Setting} {asked : Question}

theorem argsHold_literals (enc : Encoder) (constraints : List ArgConstraint) :
    ∀ text ∈ (enc.argsHold constraints).2.addresses, text ∈ enc.addresses ∨
      ∃ constraint ∈ constraints, constraint.pred = .addressEq text := by
  induction constraints generalizing enc with
  | nil => exact fun text member => Or.inl member
  | cons constraint rest ih =>
      intro text member
      rcases ih (enc.predHolds constraint.index constraint.pred).2 text member with here | later
      · cases kind : constraint.pred with
        | addressEq address =>
            rw [kind] at here
            change text ∈ ((enc.inspect constraint.index).addrId address).2.addresses at here
            unfold Encoder.addrId at here
            split at here
            · exact Or.inl (by simpa using here)
            · simp only [inspect_addresses, List.mem_append, List.mem_singleton] at here
              rcases here with old | rfl
              · exact Or.inl old
              · exact Or.inr ⟨constraint, List.mem_cons_self, kind⟩
        | _ =>
            rw [kind] at here
            exact Or.inl (by simpa [Encoder.predHolds] using here)
      · obtain ⟨other, listed, named⟩ := later
        exact Or.inr ⟨other, List.mem_cons_of_mem _ listed, named⟩

/-- A rule encoded alone interns only its own addresses. -/
theorem ruleAllows_literals :
    ∀ text ∈ (Encoder.new.ruleAllows rule).2.addresses, text ∈ addressLiterals rule := by
  intro text member
  rcases argsHold_literals Encoder.new (rule.args.getD []) text member with old | later
  · cases old
  · obtain ⟨constraint, listed, named⟩ := later
    exact List.mem_filterMap.mpr ⟨constraint, listed, by rw [named]⟩

theorem represented_ranges (host : LowerHost) (vals : TryFromVal) (addresses : List String)
    (asked : Question) (signers : Nat) :
    (∀ index, 0 ≤ (represented host vals addresses asked signers).int (.argType index) ∧
      (represented host vals addresses asked signers).int (.argType index) ≤ tOther) ∧
    ∀ index, 0 ≤ (represented host vals addresses asked signers).int (.argU32 index) ∧
      (represented host vals addresses asked signers).int (.argU32 index) ≤ 4294967295 := by
  constructor
  · intro index
    simp only [represented]
    cases asked.call.args[index.toNat]? with
    | none =>
        change 0 ≤ tOther ∧ tOther ≤ tOther
        decide
    | some value =>
        simp only [Option.map_some, Option.getD_some]
        unfold typeOf
        split_ifs <;> decide
  · intro index
    simp only [represented]
    cases asked.call.args[index.toNat]?.bind vals.u32 with
    | none =>
        change (0 : Int) ≤ 0 ∧ (0 : Int) ≤ 4294967295
        decide
    | some value =>
        have bound := value.toNat_lt
        simp only [Option.map_some, Option.getD_some]
        omega

theorem represented_declared {enc : Encoder} {host : LowerHost} {vals : TryFromVal}
    {addresses : List String} {signers : Nat} {f : Formula} (declared : f ∈ enc.declarations) :
    f.Holds (represented host vals addresses asked signers) := by
  obtain ⟨types, numbers⟩ := represented_ranges host vals addresses asked signers
  exact declarations_of_ranges (Int.natCast_nonneg _) (Int.natCast_nonneg _) types numbers f
    declared

theorem holds_of_authorized (member : rule ∈ given.doc.rules) (plain : PlainRule rule)
    {lowered : LoweredRule} (lowers : lowerRule given.host given.doc rule = .ok lowered)
    (within : InScope given.host rule asked)
    (authorized : lowered.authorizes given.host given.vals asked = true) :
    (Encoder.new.ruleAllows rule).1.Holds (represented given.host given.vals
      (Encoder.new.ruleAllows rule).2.addresses asked (lowered.authenticated asked).length) := by
  have exact_ := ruleAllows_exact given.lawful (soundRule_of_valid given.valid member)
    given.addressable plain lowers within.scope Encoder.new (List.prefix_refl _)
    fun text interned => within.apart text (ruleAllows_literals text interned)
  exact exact_.mpr (authorizes_iff_unexpired.mp authorized).2

theorem rulesExact : RulesExact := by
  intro given rule member plain lowered lowers asked scope enc addresses grown apart
  exact ruleAllows_exact given.lawful (soundRule_of_valid given.valid member) given.addressable
    plain lowers scope enc grown apart

theorem deadRulesProve : DeadRulesProve := by
  intro given runZ3 sound
  rw [deadRules, List.forall₂_map_right_iff, List.forall₂_same]
  intro rule member
  refine ⟨rfl, ?_⟩
  intro plain unsat lowered lowers asked within
  rw [← Bool.not_eq_true]
  intro authorized
  refine sound _ unsat ⟨represented given.host given.vals
    (Encoder.new.ruleAllows rule).2.addresses asked (lowered.authenticated asked).length, ?_⟩
  intro f asserted
  rcases List.mem_append.mp asserted with declared | single
  · exact represented_declared declared
  · rw [List.mem_singleton.mp single]
    exact holds_of_authorized member plain lowers within authorized

/-! ### Functions outside a list -/

theorem onlyCalls_eq_nil {runZ3 : Script → Smt.Verdict} {doc : PolicyDoc} {contract : String}
    {allowed : List String} :
    onlyCalls runZ3 doc contract allowed = [] ↔ ∀ rule ∈ doc.rules,
      rule.scope = .contract contract → runZ3 (outsideScript rule allowed) = .unsat := by
  rw [onlyCalls, List.flatMap_eq_nil_iff]
  apply forall₂_congr
  intro rule _
  by_cases onContract : rule.scope = .contract contract
  · simp only [onContract, if_true, true_imp_iff]
    cases runZ3 (outsideScript rule allowed) <;> simp
  · simp [onContract]

def renamed (m : Assignment) (fnName : Smt.Str) : Assignment :=
  { m with
    str := fun
      | .fnName => fnName
      | .argStr index => m.str (.argStr index) }

theorem declarations_renamed {enc : Encoder} {host : LowerHost} {vals : TryFromVal}
    {addresses : List String} {signers : Nat} (fnName : Smt.Str) {f : Formula}
    (declared : f ∈ enc.declarations) :
    f.Holds (renamed (represented host vals addresses asked signers) fnName) := by
  obtain ⟨types, numbers⟩ := represented_ranges host vals addresses asked signers
  apply declarations_of_ranges _ _ _ _ f declared
  · exact Int.natCast_nonneg _
  · exact Int.natCast_nonneg _
  · exact types
  · exact numbers

/-- Only a rule that lists functions looks at the name. -/
theorem RuleHolds.renamed {addresses : List String} {m : Assignment} {fnName : Smt.Str}
    (holds : RuleHolds addresses m rule)
    (kept : rule.functions ≠ none → fnName = m.str .fnName) :
    RuleHolds addresses (renamed m fnName) rule := by
  constructor
  · exact holds.signers
  · intro names listed
    obtain ⟨contract, name, member, same⟩ := holds.functions names listed
    exact ⟨contract, name, member, (kept (by simp [listed])).trans same⟩
  · intro constraints listed constraint member
    obtain ⟨contract, present, pred⟩ := holds.args constraints listed constraint member
    refine ⟨contract, present, ?_⟩
    cases kind : constraint.pred <;> rw [kind] at pred <;> exact pred

theorem exists_other_name (allowed : List String) :
    ∃ fnName : Smt.Str, ∀ entry ∈ allowed, fnName ≠ denoted entry := by
  obtain ⟨fnName, fresh⟩ := Infinite.exists_notMem_finset (allowed.map denoted).toFinset
  refine ⟨fnName, ?_⟩
  intro entry member same
  rw [same] at fresh
  exact fresh (List.mem_toFinset.mpr (List.mem_map_of_mem member))

/-- Silence proves the list, unless an entry denotes a function it does not name. -/
theorem onlyCallsProves {contract : String} {allowed : List String}
    (unhidden : ¬(Silent given contract allowed ∧ Hides given contract allowed)) :
    OnlyCallsProves given contract allowed := by
  intro runZ3 sound silent rule member onContract plain lowered lowers asked within authorized
  have unsat : Silent given contract allowed := fun other listed there =>
    sound _ (onlyCalls_eq_nil.mp silent other listed there)
  have holds := holds_of_authorized member plain lowers within authorized
  have spec := fun m => (ruleAllows_spec (m := m) Encoder.new rule).2 _ (List.prefix_refl _)
  rw [spec] at holds
  by_contra outside
  obtain ⟨fnName, kept, other⟩ : ∃ fnName : Smt.Str,
      (rule.functions ≠ none → fnName = characters asked.call.fnName) ∧
        ∀ entry ∈ allowed, fnName ≠ denoted entry := by
    cases listed : rule.functions with
    | none =>
        obtain ⟨fnName, other⟩ := exists_other_name allowed
        exact ⟨fnName, by simp, other⟩
    | some names =>
        refine ⟨characters asked.call.fnName, fun _ => rfl, ?_⟩
        intro entry present same
        obtain ⟨_, name, listed', spelled⟩ := holds.functions names listed
        have symbol := validateRule_functions (soundRule_of_valid given.valid member).valid
          names listed name listed'
        have called : asked.call.fnName = name :=
          characters_injective (spelled.trans (denoted_symbol symbol))
        exact unhidden ⟨unsat, rule, member, onContract, names, listed, asked.call.fnName,
          called ▸ listed', outside, ⟨entry, present, same.symm⟩, plain, lowered, asked, lowers,
          within, authorized, rfl⟩
  refine unsat rule member onContract ⟨renamed (represented given.host given.vals
    (Encoder.new.ruleAllows rule).2.addresses asked (lowered.authenticated asked).length)
    fnName, ?_⟩
  intro f asserted
  rcases List.mem_append.mp asserted with declared | asserted
  · exact declarations_renamed _ declared
  · simp only [List.mem_cons, List.not_mem_nil, or_false] at asserted
    rcases asserted with rfl | rfl | rfl
    · exact (spec _).mpr (holds.renamed kept)
    · rfl
    · rw [Smt.holds_conjunction]
      intro f listed
      obtain ⟨entry, present, rfl⟩ := List.mem_map.mp listed
      exact other entry present

/-- And only then: the solver that decides every script is silent. -/
theorem onlyCallsProves_iff {contract : String} {allowed : List String} :
    OnlyCallsProves given contract allowed ↔
      ¬(Silent given contract allowed ∧ Hides given contract allowed) := by
  refine ⟨?_, onlyCallsProves⟩
  rintro proves ⟨unsat, rule, member, onContract, names, _, name, _, missing, _, plain, lowered,
    asked, lowers, within, authorized, rfl⟩
  refine missing (proves exactSolver exactSolver_sound ?_ rule member onContract plain lowered
    lowers asked within authorized)
  rw [onlyCalls_eq_nil]
  intro other listed there
  rw [exactSolver, if_neg (unsat other listed there)]

theorem onlyCallsProve {allowed : List String} (named : ∀ entry ∈ allowed, ∀ name,
    isValidSymbol name = true → denoted entry = characters name → name ∈ allowed) :
    OnlyCallsProve allowed := by
  intro given contract
  apply onlyCallsProves
  rintro ⟨_, rule, member, _, names, listed, name, listed', missing, ⟨entry, present, same⟩, _⟩
  have symbol := validateRule_functions (soundRule_of_valid given.valid member).valid
    names listed name listed'
  exact missing (named entry present name symbol same)

end Queries

section Sample

def listingRule (name : String) : Rule where
  name := "ci"
  scope := .contract "CADQOBYHA4DQOBYHA4DQOBYHA4DQOBYHA4DQOBYHA4DQOBYHA4DQP5KR"
  principals := .all ["a"]
  functions := some [name]
  args := none
  notAfterLedger := none
  cap := none

def listingDoc (name : String) : PolicyDoc where
  version := 1
  network := some "T"
  signers :=
    [{ id := "a"
       method := .delegated "GAAQCAIBAEAQCAIBAEAQCAIBAEAQCAIBAEAQCAIBAEAQCAIBAEAQDZ7H" }]
  rules := [listingRule name]
  recovery := none

set_option maxRecDepth 16384 in
theorem listingDoc_valid {name : String} (symbol : isValidSymbol name = true) :
    validate (localHost "T").hexDecode (listingDoc name) = .ok () := by
  have signers : validateSigners (localHost "T").hexDecode 0 ⟨[], [], []⟩
      (listingDoc name).signers = [] := by
    change validateSigners (localHost "T").hexDecode 0 ⟨[], [], []⟩ (listingDoc "").signers = []
    decide
  have scope : validateScope "ci" (listingRule name).scope = [] := by
    change validateScope "ci" (listingRule "").scope = []
    decide
  have named : name ≠ "" := by
    rintro rfl
    revert symbol
    decide
  rw [validate_eq_ok, violations_eq_nil]
  refine ⟨rfl, signers, ?_, nofun⟩
  simp [listingDoc, validateRules, validateRule, listingRule, validatePrincipals,
    validatePrincipalSigners, validateFunctions, eachSeen, reportIf, symbol, named]
  exact scope

theorem localHost_lawful : LawfulHost (localHost "T").lowerHost xdrVals := by
  constructor
  · intro text text' address spells spells'
    exact localAddressFromStr_injective spells spells'
  · intro value some
    exact rfl
  · intro value some
    exact ⟨rfl, rfl⟩

def listingSetting {name : String} (symbol : isValidSymbol name = true) : Setting where
  hexDecode := (localHost "T").hexDecode
  host := (localHost "T").lowerHost
  vals := xdrVals
  doc := listingDoc name
  lawful := localHost_lawful
  valid := listingDoc_valid symbol
  addressable := Nat.one_lt_ofNat

set_option maxRecDepth 16384 in
/-- An entry that denotes a function it does not name hides the function. -/
theorem not_onlyCallsProve {allowed : List String} {entry name : String} (listed : entry ∈ allowed)
    (symbol : isValidSymbol name = true) (same : denoted entry = characters name)
    (missing : name ∉ allowed) : ¬OnlyCallsProve allowed := by
  intro proves
  have spelled : denoted name = characters name := denoted_symbol symbol
  have silent : onlyCalls exactSolver (listingDoc name)
      "CADQOBYHA4DQOBYHA4DQOBYHA4DQOBYHA4DQOBYHA4DQOBYHA4DQP5KR" allowed = [] := by
    rw [onlyCalls_eq_nil]
    intro rule member _
    obtain rfl := List.mem_singleton.mp member
    rw [exactSolver, if_neg]
    rintro ⟨m, holds⟩
    have asserted : ∀ f ∈ [(Encoder.new.ruleAllows (listingRule name)).1, .var .ctxContract,
        Smt.conjunction (allowed.map fun f => .not (.strEq (.var .fnName) (.lit (smtString f))))],
        f.Holds m := fun f inside => holds f (List.mem_append_right _ inside)
    simp only [List.forall_mem_cons, Smt.holds_conjunction] at asserted
    obtain ⟨allow, _, outside, _⟩ := asserted
    have named := ((ruleAllows_spec Encoder.new (listingRule name)).2 _
      (List.prefix_refl _)).mp allow
    obtain ⟨_, called, only, reads⟩ := named.functions [name] rfl
    rw [List.mem_singleton.mp only, spelled, ← same] at reads
    exact outside _ (List.mem_map_of_mem listed) reads
  have sound : SoundRule (localHost "T").hexDecode (listingDoc name) (listingRule name) :=
    soundRule_of_valid (listingDoc_valid symbol) List.mem_cons_self
  obtain ⟨lowered, lowers⟩ := @lowerRule_total _ (localHost "T").lowerHost _ _ ["a"] 1 sound.valid
    rfl (fun id member => member) nofun (Nat.le_of_ble_eq_true rfl)
  obtain ⟨contract, resolves⟩ : ∃ contract, localAddressFromStr
      "CADQOBYHA4DQOBYHA4DQOBYHA4DQOBYHA4DQOBYHA4DQOBYHA4DQP5KR" = some contract :=
    Option.isSome_iff_exists.mp (by decide)
  let asked : Question :=
    { call := { contract := contract, fnName := name, args := [] }
      self := .contract (BytesN.fill 0)
      ledger := 0
      signed := fun _ => true }
  have scope : ScopeMeans (localHost "T").lowerHost asked (listingRule name).scope := resolves
  have permits : Permits (localHost "T").lowerHost xdrVals (listingDoc name) asked
      (listingRule name) := by
    refine ⟨scope, nofun, ?_, ?_, nofun⟩
    · intro id member
      obtain rfl := List.mem_singleton.mp member
      exact ⟨_, List.mem_cons_self, rfl, rfl⟩
    · rintro names ⟨⟩
      exact List.mem_cons_self
  have authorized := (sound.authorizes_iff Nat.one_lt_ofNat lowers asked).mpr permits
  exact missing (proves (listingSetting symbol) _ exactSolver exactSolver_sound silent _
    List.mem_cons_self rfl nofun lowered lowers asked ⟨scope, nofun⟩ authorized)

end Sample

/-- Formulas are exact and dead rules dead.  Silence about a list of functions
proves it of a document exactly when the list hides no function of it, and of
every document exactly when no entry denotes a function the list does not name. -/
theorem queries_prove_iff (allowed : List String) :
    ((RulesExact ∧ DeadRulesProve ∧ OnlyCallsProve allowed) ↔
      ∀ entry ∈ allowed, ∀ name, isValidSymbol name = true →
        denoted entry = characters name → name ∈ allowed) ∧
    ∀ (given : Setting) (contract : String),
      (RulesExact ∧ DeadRulesProve ∧ OnlyCallsProves given contract allowed) ↔
        ¬(Silent given contract allowed ∧ Hides given contract allowed) := by
  constructor
  · constructor
    · rintro ⟨_, _, proves⟩ entry listed name symbol same
      by_contra missing
      exact not_onlyCallsProve listed symbol same missing proves
    · intro named
      exact ⟨rulesExact, deadRulesProve, onlyCallsProve named⟩
  · intro given contract
    rw [← onlyCallsProves_iff]
    exact ⟨fun proves => proves.2.2, fun proves => ⟨rulesExact, deadRulesProve, proves⟩⟩

/-- An escape hides the function it spells. -/
theorem queries_prove_escaped :
    ¬(RulesExact ∧ DeadRulesProve ∧ OnlyCallsProve ["\\u\x7b70\x7dublish"]) := by
  rintro ⟨_, _, proves⟩
  have same : denoted "\\u\x7b70\x7dublish" = characters "publish" := by decide
  exact not_onlyCallsProve List.mem_cons_self (by decide) same (by decide) proves

end Perch.Analyze
