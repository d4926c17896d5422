/-
What the encoding of a rule says, and what `unsat` says of two rules.

For every rule there are invocations made to its measure, whose strings can
still be chosen.  If the solver finds no invocation that the child allows and
the parent does not, then none of these is one, and what the parent restricts
can be read off the child.
-/

import Mathlib.Algebra.BigOperators.Group.List.Basic
import Perch.Analyze.Encoder
import Perch.Document.Valid

namespace Perch.Analyze

open Machine Ir

/-! ### What an encoding says -/

section Encoding

/-- What a text denotes once it is a literal of a script. -/
def denoted (s : String) : Smt.Str := Smt.literal (smtString s)

/-- A candidate the chain can compare with an argument. -/
def Short (s : String) : Prop := (utf8 s).length ≤ maxStrArgLen

instance (s : String) : Decidable (Short s) := inferInstanceAs (Decidable (_ ≤ _))

def PredHolds (addresses : List String) (m : Assignment) (index : UInt32) : ArgPred → Prop
  | .isSelf => m.int (.argType index) = tAddr ∧ m.int (.argAddr index) = 0
  | .addressEq address =>
      m.int (.argType index) = tAddr ∧ m.int (.argAddr index) = (addresses.idxOf address + 1 : Nat)
  | .u32Eq value => m.int (.argType index) = tU32 ∧ m.int (.argU32 index) = value.toNat
  | .stringIn values =>
      m.int (.argType index) = tStr ∧ (m.str (.argStr index)).length ≤ maxStrArgLen ∧
        ∃ value ∈ values, Short value ∧ m.str (.argStr index) = denoted value
  | .stringPrefix initial =>
      Short initial ∧ m.int (.argType index) = tStr ∧ denoted initial <+: m.str (.argStr index)

structure RuleHolds (addresses : List String) (m : Assignment) (rule : Rule) : Prop where
  signers : (signerFloor rule.principals : Int) ≤ m.int .signerCount
  functions : ∀ names, rule.functions = some names →
    m.bool .ctxContract = true ∧ ∃ name ∈ names, m.str .fnName = denoted name
  args : ∀ constraints, rule.args = some constraints → ∀ constraint ∈ constraints,
    m.bool .ctxContract = true ∧ (constraint.index.toNat : Int) < m.int .argCount ∧
      PredHolds addresses m constraint.index constraint.pred

variable {m : Assignment}

theorem addrId_spec (enc : Encoder) (address : String) :
    enc.addresses <+: (enc.addrId address).2.addresses ∧
      address ∈ (enc.addrId address).2.addresses ∧
      (enc.addrId address).1 = (enc.addrId address).2.addresses.idxOf address + 1 ∧
      (enc.addrId address).2.argIndexes = enc.argIndexes := by
  unfold Encoder.addrId
  split
  next known => exact ⟨List.prefix_refl _, known, rfl, rfl⟩
  next fresh =>
    refine ⟨List.prefix_append _ _, by simp, ?_, rfl⟩
    simp [List.idxOf_append_of_notMem fresh]

@[simp] theorem inspect_addresses (enc : Encoder) (index : UInt32) :
    (enc.inspect index).addresses = enc.addresses := by
  unfold Encoder.inspect
  split <;> rfl

theorem idxOf_of_prefix {address : String} {earlier later : List String}
    (grown : earlier <+: later) (known : address ∈ earlier) :
    later.idxOf address = earlier.idxOf address := by
  obtain ⟨more, rfl⟩ := grown
  exact List.idxOf_append_of_mem known

theorem holds_stringIn {index : UInt32} {values : List String} :
    (stringInHolds index values).Holds m ↔
      m.int (.argType index) = tStr ∧ (m.str (.argStr index)).length ≤ maxStrArgLen ∧
        ∃ value ∈ values, Short value ∧ m.str (.argStr index) = denoted value := by
  have candidates : (∃ f ∈ (values.filter fun v => (utf8 v).length ≤ maxStrArgLen).map
      (argStrIs index), f.Holds m) ↔
      ∃ value ∈ values, Short value ∧ m.str (.argStr index) = denoted value := by
    constructor
    · rintro ⟨f, listed, holds⟩
      obtain ⟨value, kept, rfl⟩ := List.mem_map.mp listed
      obtain ⟨member, short⟩ := List.mem_filter.mp kept
      exact ⟨value, member, of_decide_eq_true short, holds⟩
    · rintro ⟨value, member, short, same⟩
      exact ⟨_, List.mem_map_of_mem (List.mem_filter.mpr ⟨member, decide_eq_true short⟩), same⟩
  simp only [stringInHolds, Smt.holds_conjunction, List.forall_mem_cons, List.not_mem_nil,
    IsEmpty.forall_iff, implies_true, and_true, Smt.holds_disjunction, candidates, typeIs,
    Smt.Formula.Holds, Smt.IntTerm.value, Smt.StrTerm.value, Nat.cast_le]

theorem holds_stringPrefix {index : UInt32} {initial : String} :
    (stringPrefixHolds index initial).Holds m ↔
      Short initial ∧ m.int (.argType index) = tStr ∧
        denoted initial <+: m.str (.argStr index) := by
  unfold stringPrefixHolds
  split
  next long =>
    simp only [Smt.Formula.Holds, Bool.false_eq_true, false_iff, not_and]
    intro short
    exact absurd short (Nat.not_le.mpr long)
  next short =>
    simp only [Smt.Formula.Holds, typeIs, Smt.IntTerm.value, Smt.StrTerm.value]
    exact ⟨fun both => ⟨Nat.not_lt.mp short, both⟩, fun all => all.2⟩

/-- What one predicate's formula says, whatever is interned after it. -/
theorem predHolds_spec (enc : Encoder) (index : UInt32) (pred : ArgPred) :
    enc.addresses <+: (enc.predHolds index pred).2.addresses ∧
      ∀ final, (enc.predHolds index pred).2.addresses <+: final →
        ((enc.predHolds index pred).1.Holds m ↔
          (index.toNat : Int) < m.int .argCount ∧ PredHolds final m index pred) := by
  cases pred with
  | isSelf =>
      refine ⟨by simp [Encoder.predHolds], ?_⟩
      intro final _
      rfl
  | addressEq address =>
      obtain ⟨grown, known, numbered, _⟩ := addrId_spec (enc.inspect index) address
      rw [inspect_addresses] at grown
      refine ⟨grown, ?_⟩
      intro final later
      have place : final.idxOf address =
          ((enc.inspect index).addrId address).2.addresses.idxOf address :=
        idxOf_of_prefix later known
      simp only [Encoder.predHolds, addrHolds, typeIs, Smt.Formula.Holds, Smt.IntTerm.value,
        PredHolds, numbered, place]
  | u32Eq value =>
      refine ⟨by simp [Encoder.predHolds], ?_⟩
      intro final _
      rfl
  | stringIn values =>
      refine ⟨by simp [Encoder.predHolds], ?_⟩
      intro final _
      simp only [Encoder.predHolds, Smt.Formula.Holds, holds_stringIn, PredHolds]
      rfl
  | stringPrefix initial =>
      refine ⟨by simp [Encoder.predHolds], ?_⟩
      intro final _
      simp only [Encoder.predHolds, Smt.Formula.Holds, holds_stringPrefix, PredHolds]
      rfl

theorem declarations_of_ranges {enc : Encoder} (signers : 0 ≤ m.int .signerCount)
    (args : 0 ≤ m.int .argCount)
    (types : ∀ index, 0 ≤ m.int (.argType index) ∧ m.int (.argType index) ≤ tOther)
    (numbers : ∀ index, 0 ≤ m.int (.argU32 index) ∧ m.int (.argU32 index) ≤ 4294967295) :
    ∀ f ∈ enc.declarations, f.Holds m := by
  intro f listed
  rw [Encoder.declarations, List.mem_append] at listed
  rcases listed with fixed | perArg
  · simp only [List.mem_cons, List.not_mem_nil, or_false] at fixed
    rcases fixed with rfl | rfl
    · exact signers
    · exact args
  · obtain ⟨index, _, perArg⟩ := List.mem_flatMap.mp perArg
    simp only [List.mem_cons, List.not_mem_nil, or_false] at perArg
    rcases perArg with rfl | rfl
    · exact types index
    · exact numbers index

theorem argsHold_spec (enc : Encoder) (constraints : List ArgConstraint) :
    enc.addresses <+: (enc.argsHold constraints).2.addresses ∧
      ∀ final, (enc.argsHold constraints).2.addresses <+: final →
        ((∀ f ∈ (enc.argsHold constraints).1, f.Holds m) ↔
          ∀ constraint ∈ constraints, m.bool .ctxContract = true ∧
            (constraint.index.toNat : Int) < m.int .argCount ∧
            PredHolds final m constraint.index constraint.pred) := by
  induction constraints generalizing enc with
  | nil => simp [Encoder.argsHold]
  | cons constraint rest ih =>
      obtain ⟨grown, here⟩ := predHolds_spec (m := m) enc constraint.index constraint.pred
      obtain ⟨grown', there⟩ := ih (enc.predHolds constraint.index constraint.pred).2
      refine ⟨grown.trans grown', ?_⟩
      intro final later
      have first := here final (grown'.trans later)
      have others := there final later
      simp only [Encoder.argsHold, List.forall_mem_cons]
      rw [first, others]
      exact and_assoc.symm

theorem argsHold_interned (enc : Encoder) {constraints : List ArgConstraint}
    {constraint : ArgConstraint} (member : constraint ∈ constraints) {address : String}
    (named : constraint.pred = .addressEq address) :
    address ∈ (enc.argsHold constraints).2.addresses := by
  induction constraints generalizing enc with
  | nil => cases member
  | cons first rest ih =>
      rcases List.mem_cons.mp member with rfl | later
      · have known : address ∈ (enc.predHolds constraint.index constraint.pred).2.addresses := by
          rw [named]
          exact (addrId_spec (enc.inspect constraint.index) address).2.1
        exact (argsHold_spec (m := ⟨fun _ => true, fun _ => 0, fun _ => []⟩) _ rest).1.subset known
      · exact ih _ later

/-- What a rule's formula says, whatever is interned after it. -/
theorem ruleAllows_spec (enc : Encoder) (rule : Rule) :
    enc.addresses <+: (enc.ruleAllows rule).2.addresses ∧
      ∀ final, (enc.ruleAllows rule).2.addresses <+: final →
        ((enc.ruleAllows rule).1.Holds m ↔ RuleHolds final m rule) := by
  obtain ⟨grown, args⟩ := argsHold_spec (m := m) enc (rule.args.getD [])
  refine ⟨grown, ?_⟩
  intro final later
  have functions : (∀ f ∈ functionsHold rule.functions, f.Holds m) ↔
      ∀ names, rule.functions = some names →
        m.bool .ctxContract = true ∧ ∃ name ∈ names, m.str .fnName = denoted name := by
    cases rule.functions with
    | none => simp [functionsHold]
    | some names =>
        simp only [functionsHold, List.forall_mem_cons, List.not_mem_nil, IsEmpty.forall_iff,
          implies_true, and_true, Smt.holds_disjunction, List.mem_map, exists_exists_and_eq_and,
          Smt.Formula.Holds, Smt.StrTerm.value, denoted, Option.some.injEq, forall_eq']
  simp only [Encoder.ruleAllows, Smt.holds_conjunction, List.forall_mem_cons,
    List.forall_mem_append]
  rw [args final later, functions]
  constructor
  · rintro ⟨signers, functions, args⟩
    refine ⟨signers, functions, ?_⟩
    intro constraints listed
    rw [listed] at args
    exact args
  · intro holds
    refine ⟨holds.signers, holds.functions, ?_⟩
    cases listed : rule.args with
    | none => simp
    | some constraints => exact holds.args constraints listed

end Encoding

/-! ### Invocations a rule allows -/

section Sample

def predOf (rule : Rule) (index : UInt32) : Option ArgPred :=
  ((rule.args.getD []).find? fun constraint => constraint.index = index).map ArgConstraint.pred

def typeTag : Option ArgPred → Int
  | some .isSelf => tAddr
  | some (.addressEq _) => tAddr
  | some (.u32Eq _) => tU32
  | some (.stringIn _) => tStr
  | some (.stringPrefix _) => tStr
  | none => tOther

theorem typeTag_none_ne (pred : ArgPred) : typeTag none ≠ typeTag (some pred) := by
  cases pred <;> simp [typeTag, tAddr, tU32, tStr, tOther]

/-- An invocation made to a rule's measure, but for the function's name and the
strings. -/
def tailored (addresses : List String) (rule : Rule) (fnName : Smt.Str)
    (strings : UInt32 → Smt.Str) : Assignment where
  bool _ := true
  int := fun
    | .signerCount => signerFloor rule.principals
    | .argCount => 4294967296
    | .argType index => typeTag (predOf rule index)
    | .argAddr index =>
        match predOf rule index with
        | some (.addressEq address) => (addresses.idxOf address + 1 : Nat)
        | _ => 0
    | .argU32 index =>
        match predOf rule index with
        | some (.u32Eq value) => value.toNat
        | _ => 0
  str := fun
    | .fnName => fnName
    | .argStr index => strings index

section

variable {addresses : List String} {rule : Rule} {fnName : Smt.Str} {strings : UInt32 → Smt.Str}

@[simp] theorem tailored_fnName : (tailored addresses rule fnName strings).str .fnName = fnName :=
  rfl

@[simp] theorem tailored_argStr (index : UInt32) :
    (tailored addresses rule fnName strings).str (.argStr index) = strings index := rfl

@[simp] theorem tailored_argType (index : UInt32) :
    (tailored addresses rule fnName strings).int (.argType index) = typeTag (predOf rule index) :=
  rfl

end

def FitsPred (string : Smt.Str) : ArgPred → Prop
  | .stringIn values => ∃ value ∈ values, Short value ∧ string = denoted value
  | .stringPrefix initial => Short initial ∧ denoted initial <+: string
  | _ => True

/-- A name and strings that a rule allows. -/
structure Fits (rule : Rule) (fnName : Smt.Str) (strings : UInt32 → Smt.Str) : Prop where
  functions : ∀ names, rule.functions = some names → ∃ name ∈ names, fnName = denoted name
  args : ∀ constraints, rule.args = some constraints → ∀ constraint ∈ constraints,
    FitsPred (strings constraint.index) constraint.pred

def DistinctArgs (rule : Rule) : Prop :=
  ∀ constraints, rule.args = some constraints → (constraints.map ArgConstraint.index).Nodup

theorem predOf_of_mem {rule : Rule} (distinct : DistinctArgs rule)
    {constraints : List ArgConstraint} (listed : rule.args = some constraints)
    {constraint : ArgConstraint} (member : constraint ∈ constraints) :
    predOf rule constraint.index = some constraint.pred := by
  unfold predOf
  rw [listed, Option.getD_some]
  cases found : constraints.find? fun other => other.index = constraint.index with
  | none => simpa using List.find?_eq_none.mp found constraint member
  | some other =>
      have same : other.index = constraint.index := by simpa using List.find?_some found
      rw [Option.map_some, List.inj_on_of_nodup_map (distinct constraints listed)
        (List.mem_of_find?_eq_some found) member same]

theorem mem_of_predOf {rule : Rule} {index : UInt32} {pred : ArgPred}
    (held : predOf rule index = some pred) :
    ∃ constraints, rule.args = some constraints ∧
      ∃ constraint ∈ constraints, constraint.index = index ∧ constraint.pred = pred := by
  obtain ⟨constraint, found, rfl⟩ := Option.map_eq_some_iff.mp held
  cases listed : rule.args with
  | none =>
      rw [listed] at found
      cases found
  | some constraints =>
      rw [listed, Option.getD_some] at found
      have same : constraint.index = index := by simpa using List.find?_some found
      exact ⟨constraints, rfl, constraint, List.mem_of_find?_eq_some found, same, rfl⟩

theorem denoted_length (s : String) : (denoted s).length ≤ (utf8 s).length := by
  have chars : s.toList.length ≤ (utf8 s).length := by
    have bytes := Document.utf8_ofList s.toList
    rw [String.ofList_toList] at bytes
    rw [bytes, List.length_flatMap]
    have widths := List.length_le_sum_of_one_le
      (s.toList.map fun c => (String.utf8EncodeChar c).length) (by
        intro width listed
        obtain ⟨c, _, rfl⟩ := List.mem_map.mp listed
        rw [String.length_utf8EncodeChar]
        exact c.utf8Size_pos)
    rwa [List.length_map] at widths
  have read := Smt.unescape_length s.toList.length s.toList
  rw [denoted, smtString, Smt.literal_quoted]
  omega

/-- A rule allows an invocation made to its measure. -/
theorem tailored_holds {rule : Rule} (distinct : DistinctArgs rule) (addresses : List String)
    {fnName : Smt.Str} {strings : UInt32 → Smt.Str} (fits : Fits rule fnName strings) :
    RuleHolds addresses (tailored addresses rule fnName strings) rule := by
  constructor
  · exact le_refl _
  · intro names listed
    exact ⟨rfl, fits.functions names listed⟩
  · intro constraints listed constraint member
    have held := predOf_of_mem distinct listed member
    have fit := fits.args constraints listed constraint member
    refine ⟨rfl, ?_, ?_⟩
    · have bound := constraint.index.toNat_lt
      change (constraint.index.toNat : Int) < 4294967296
      omega
    · cases kind : constraint.pred with
      | isSelf => simp [PredHolds, tailored, held, kind, typeTag]
      | addressEq address => simp [PredHolds, tailored, held, kind, typeTag]
      | u32Eq value => simp [PredHolds, tailored, held, kind, typeTag]
      | stringIn values =>
          rw [kind] at fit
          obtain ⟨value, listed, short, same⟩ := fit
          refine ⟨by simp [tailored, held, kind, typeTag], ?_, value, listed, short, same⟩
          rw [tailored_argStr, same]
          exact (denoted_length value).trans short
      | stringPrefix initial =>
          rw [kind] at fit
          exact ⟨fit.1, by simp [tailored, held, kind, typeTag], fit.2⟩

theorem declarations_hold (enc : Encoder) (addresses : List String) (rule : Rule)
    (fnName : Smt.Str) (strings : UInt32 → Smt.Str) :
    ∀ f ∈ enc.declarations, f.Holds (tailored addresses rule fnName strings) := by
  apply declarations_of_ranges (Int.natCast_nonneg _)
  · change (0 : Int) ≤ 4294967296
    decide
  · intro index
    change 0 ≤ typeTag (predOf rule index) ∧ typeTag (predOf rule index) ≤ tOther
    unfold typeTag
    split <;> decide
  · intro index
    simp only [tailored]
    split
    next value _ =>
      have bound := value.toNat_lt
      omega
    · decide

/-- What an `unsat` tells: whatever fits the child, the parent allows. -/
theorem parent_holds_of_unsat {runZ3 : Script → Smt.Verdict} (sound : Smt.Sound runZ3)
    {parent child : Rule} (distinct : DistinctArgs child)
    (unsat : runZ3 (wideningScript parent child) = .unsat) :
    ∃ addresses, (∀ fnName strings, Fits child fnName strings →
        RuleHolds addresses (tailored addresses child fnName strings) parent) ∧
      (∀ constraints, parent.args = some constraints → ∀ constraint ∈ constraints,
        ∀ address, constraint.pred = .addressEq address → address ∈ addresses) := by
  obtain ⟨childAllow, enc, encodes⟩ : ∃ childAllow enc,
      Encoder.new.ruleAllows child = (childAllow, enc) := ⟨_, _, rfl⟩
  obtain ⟨parentAllow, final, encodes'⟩ : ∃ parentAllow final,
      enc.ruleAllows parent = (parentAllow, final) := ⟨_, _, rfl⟩
  have script : wideningScript parent child =
      final.declarations ++ [childAllow, .not parentAllow] := by
    simp only [wideningScript, encodes, encodes']
  rw [script] at unsat
  refine ⟨final.addresses, ?_, ?_⟩
  · intro fnName strings fits
    let m := tailored final.addresses child fnName strings
    obtain ⟨_, childSays⟩ := ruleAllows_spec (m := m) Encoder.new child
    obtain ⟨grown, parentSays⟩ := ruleAllows_spec (m := m) enc parent
    rw [encodes] at childSays
    rw [encodes'] at grown parentSays
    have allowed : childAllow.Holds m :=
      (childSays final.addresses grown).mpr (tailored_holds distinct final.addresses fits)
    apply (parentSays final.addresses (List.prefix_refl _)).mp
    apply Classical.byContradiction
    intro refused
    refine sound _ unsat ⟨m, ?_⟩
    intro f listed
    rcases List.mem_append.mp listed with declared | asserted
    · exact declarations_hold final final.addresses child fnName strings f declared
    · simp only [List.mem_cons, List.not_mem_nil, or_false] at asserted
      rcases asserted with rfl | rfl
      · exact allowed
      · exact refused
  · intro constraints listed constraint member address named
    have interned := argsHold_interned enc member named
    have same : (enc.ruleAllows parent).2 = (enc.argsHold constraints).2 := by
      simp only [Encoder.ruleAllows, listed, Option.getD_some]
    rw [← same, encodes'] at interned
    exact interned

end Sample

/-! ### What `unsat` says of two rules -/

section Structure

/-- The strings a predicate names, candidates or a prefix. -/
def constants : ArgPred → List String
  | .stringIn values => values.filter fun value => Short value
  | .stringPrefix initial => [initial]
  | _ => []

/-- A string, under a reading of strings, is one a predicate looks for. -/
def Meets {α : Type} (read : String → List α) (string : String) : ArgPred → Prop
  | .stringIn values => ∃ value ∈ values, Short value ∧ read value = read string
  | .stringPrefix initial => read initial <+: read string
  | _ => True

/-- The second predicate holds where the first does, strings aside. -/
def Compatible : ArgPred → ArgPred → Prop
  | .isSelf, .isSelf => True
  | .addressEq first, .addressEq second => first = second
  | .u32Eq first, .u32Eq second => first = second
  | .stringIn _, .stringIn _ => True
  | .stringIn _, .stringPrefix _ => True
  | .stringPrefix _, .stringPrefix _ => True
  | _, _ => False

/-- The child's functions are the parent's, and where the parent looks at an
argument the child looks at it too. -/
structure Contained (parent child : Rule) : Prop where
  functions : ∀ names', parent.functions = some names' →
    ∃ names, child.functions = some names ∧ ∀ name ∈ names, name ∈ names'
  args : ∀ constraints', parent.args = some constraints' → ∀ constraint' ∈ constraints',
    ∃ constraints, child.args = some constraints ∧ ∃ constraint ∈ constraints,
      constraint.index = constraint'.index ∧ Compatible constraint.pred constraint'.pred ∧
        ∀ string ∈ constants constraint.pred, Meets denoted string constraint'.pred

variable {parent child : Rule}

theorem Fits.update (distinct : DistinctArgs child) {fnName : Smt.Str}
    {strings : UInt32 → Smt.Str} (fits : Fits child fnName strings)
    {constraints : List ArgConstraint} (listed : child.args = some constraints)
    {constraint : ArgConstraint} (member : constraint ∈ constraints) {string : Smt.Str}
    (fit : FitsPred string constraint.pred) :
    Fits child fnName (Function.update strings constraint.index string) := by
  refine ⟨fits.functions, ?_⟩
  intro others listed' other member'
  obtain rfl : constraints = others := Option.some.inj (listed.symm.trans listed')
  by_cases same : other.index = constraint.index
  · obtain rfl := List.inj_on_of_nodup_map (distinct constraints listed) member' member same
    rw [Function.update_self]
    exact fit
  · rw [Function.update_of_ne same]
    exact fits.args constraints listed other member'

theorem PredHolds.tag {addresses : List String} {m : Assignment} {index : UInt32} {pred : ArgPred}
    (holds : PredHolds addresses m index pred) : m.int (.argType index) = typeTag (some pred) := by
  cases pred with
  | stringPrefix initial => exact holds.2.1
  | _ => exact holds.1

theorem compatible_of_holds {addresses : List String} {index : UInt32} {pred pred' : ArgPred}
    (interned : ∀ address, pred' = .addressEq address → address ∈ addresses)
    {fnName : Smt.Str} {strings : UInt32 → Smt.Str} (held : predOf child index = some pred)
    (holds : PredHolds addresses (tailored addresses child fnName strings) index pred')
    (bounded : ∀ initial, pred = .stringPrefix initial → ∀ values, pred' ≠ .stringIn values) :
    Compatible pred pred' := by
  have tags : typeTag (some pred) = typeTag (some pred') := by
    have tag := holds.tag
    rwa [tailored_argType, held] at tag
  cases pred with
  | isSelf =>
      cases pred' with
      | isSelf => trivial
      | addressEq address =>
          have same := holds.2
          simp only [tailored, held] at same
          omega
      | _ => simp [typeTag, tAddr, tU32, tStr] at tags
  | addressEq address =>
      cases pred' with
      | isSelf =>
          have same := holds.2
          simp only [tailored, held] at same
          omega
      | addressEq other =>
          have same := holds.2
          simp only [tailored, held] at same
          have places : addresses.idxOf other = addresses.idxOf address := by omega
          exact ((List.idxOf_inj (interned other rfl)).mp places).symm
      | _ => simp [typeTag, tAddr, tU32, tStr] at tags
  | u32Eq value =>
      cases pred' with
      | u32Eq other =>
          have same := holds.2
          simp only [tailored, held, Nat.cast_inj] at same
          exact UInt32.toNat_inj.mp same
      | _ => simp [typeTag, tAddr, tU32, tStr] at tags
  | stringIn values =>
      cases pred' with
      | stringIn others => trivial
      | stringPrefix initial => trivial
      | _ => simp [typeTag, tAddr, tU32, tStr] at tags
  | stringPrefix initial =>
      cases pred' with
      | stringIn others => exact absurd rfl (bounded initial rfl others)
      | stringPrefix other => trivial
      | _ => simp [typeTag, tAddr, tU32, tStr] at tags

theorem denoted_symbol {name : String} (valid : isValidSymbol name = true) :
    denoted name = name.toList.map Char.toNat := by
  rw [denoted, smtString, Smt.literal_quoted]
  apply Smt.unescape_plain (Nat.le_refl _)
  intro backslash
  simp only [isValidSymbol, Bool.and_eq_true, List.all_eq_true] at valid
  have bytes := Document.utf8_ofList name.toList
  rw [String.ofList_toList] at bytes
  have listed : (92 : UInt8) ∈ utf8 name := by
    rw [bytes, List.mem_flatMap]
    exact ⟨'\\', backslash, by decide⟩
  have letter := valid.2 92 listed
  revert letter
  decide

theorem denoted_symbol_injective {first second : String} (valid : isValidSymbol first = true)
    (valid' : isValidSymbol second = true) (same : denoted first = denoted second) :
    first = second := by
  rw [denoted_symbol valid, denoted_symbol valid'] at same
  apply String.toList_inj.mp
  apply List.map_injective_iff.mpr _ same
  intro a b equal
  exact Char.toNat_inj.mp equal

structure Satisfiable (rule : Rule) : Prop where
  functions : ∀ names, rule.functions = some names → names ≠ []
  args : ∀ constraints, rule.args = some constraints → ∀ constraint ∈ constraints,
    ∃ string, FitsPred string constraint.pred

theorem Satisfiable.fits (distinct : DistinctArgs child) (satisfiable : Satisfiable child) :
    ∃ fnName strings, Fits child fnName strings := by
  have named : ∃ fnName, ∀ names, child.functions = some names →
      ∃ name ∈ names, fnName = denoted name := by
    cases listed : child.functions with
    | none => exact ⟨[], by simp⟩
    | some names =>
        obtain ⟨name, member⟩ := List.exists_mem_of_ne_nil _ (satisfiable.functions names listed)
        refine ⟨denoted name, ?_⟩
        intro others same
        rw [Option.some.injEq] at same
        exact ⟨name, same ▸ member, rfl⟩
  have each : ∀ index, ∃ string, ∀ pred, predOf child index = some pred →
      FitsPred string pred := by
    intro index
    cases held : predOf child index with
    | none => exact ⟨[], by simp⟩
    | some pred =>
        obtain ⟨constraints, listed, constraint, member, _, rfl⟩ := mem_of_predOf held
        obtain ⟨string, fit⟩ := satisfiable.args constraints listed constraint member
        refine ⟨string, ?_⟩
        intro other same
        rw [Option.some.injEq] at same
        exact same ▸ fit
  obtain ⟨fnName, functions⟩ := named
  choose strings args using each
  refine ⟨fnName, strings, functions, ?_⟩
  intro constraints listed constraint member
  exact args constraint.index constraint.pred (predOf_of_mem distinct listed member)

/-- The parent looks at no argument, and restricts no function, that a child
the solver found narrower does not. -/
theorem contained_of_unsat {runZ3 : Script → Smt.Verdict} (sound : Smt.Sound runZ3)
    (distinct : DistinctArgs child) (satisfiable : Satisfiable child)
    (symbols : ∀ names, child.functions = some names → ∀ name ∈ names, isValidSymbol name = true)
    (symbols' : ∀ names, parent.functions = some names → ∀ name ∈ names,
      isValidSymbol name = true)
    (unsat : runZ3 (wideningScript parent child) = .unsat) : Contained parent child := by
  obtain ⟨addresses, allows, interned⟩ := parent_holds_of_unsat sound distinct unsat
  obtain ⟨fnName, strings, fits⟩ := satisfiable.fits distinct
  constructor
  · intro names' restricted
    cases listed : child.functions with
    | none =>
        -- The empty name fits a child that restricts no function.
        have unnamed : Fits child [] strings := ⟨by simp [listed], fits.args⟩
        obtain ⟨_, name, member, same⟩ := (allows [] strings unnamed).functions names' restricted
        have valid := symbols' names' restricted name member
        rw [tailored_fnName, denoted_symbol valid] at same
        have empty : name = "" := String.toList_eq_nil_iff.mp (List.map_eq_nil_iff.mp same.symm)
        subst empty
        exact absurd valid (by decide)
    | some names =>
        refine ⟨names, rfl, ?_⟩
        intro name member
        have fit : Fits child (denoted name) strings := by
          refine ⟨?_, fits.args⟩
          intro others same
          rw [listed, Option.some.injEq] at same
          exact ⟨name, same ▸ member, rfl⟩
        obtain ⟨_, other, member', same⟩ := (allows _ strings fit).functions names' restricted
        rw [tailored_fnName] at same
        have equal : name = other := denoted_symbol_injective (symbols names listed name member)
          (symbols' names' restricted other member') same
        exact equal ▸ member'
  · intro constraints' listed' constraint' member'
    have holds := fun strings fits =>
      ((allows fnName strings fits).args constraints' listed' constraint' member').2.2
    cases held : predOf child constraint'.index with
    | none =>
        have tag := (holds strings fits).tag
        rw [tailored_argType, held] at tag
        exact absurd tag (typeTag_none_ne constraint'.pred)
    | some pred =>
        obtain ⟨constraints, listed, constraint, member, here, rfl⟩ := mem_of_predOf held
        refine ⟨constraints, listed, constraint, member, here, ?_, ?_⟩
        · refine compatible_of_holds (interned constraints' listed' constraint' member') held
            (holds strings fits) ?_
          -- A string longer than any candidate starts with the prefix.
          intro initial kind values kind'
          have short : Short initial := by
            have fit := fits.args constraints listed constraint member
            rw [kind] at fit
            exact fit.1
          obtain ⟨padding, size⟩ : ∃ padding : Smt.Str, maxStrArgLen < padding.length :=
            ⟨List.replicate (maxStrArgLen + 1) 0, by rw [List.length_replicate]; omega⟩
          have long : FitsPred (denoted initial ++ padding) constraint.pred := by
            rw [kind]
            exact ⟨short, List.prefix_append _ _⟩
          have bounded := holds _ (fits.update distinct listed member long)
          rw [kind'] at bounded
          have length := bounded.2.1
          rw [tailored_argStr, ← here, Function.update_self, List.length_append] at length
          omega
        · intro string named
          have fit : FitsPred (denoted string) constraint.pred := by
            cases kind : constraint.pred with
            | stringIn values =>
                rw [kind] at named
                obtain ⟨listed, short⟩ := List.mem_filter.mp named
                exact ⟨string, listed, of_decide_eq_true short, rfl⟩
            | stringPrefix initial =>
                have old := fits.args constraints listed constraint member
                rw [kind] at named old
                obtain rfl := List.mem_singleton.mp named
                exact ⟨old.1, List.prefix_refl _⟩
            | _ =>
                rw [kind] at named
                cases named
          have met := holds _ (fits.update distinct listed member fit)
          have given : (tailored addresses child fnName
              (Function.update strings constraint.index (denoted string))).str
                (.argStr constraint'.index) = denoted string := by
            rw [tailored_argStr, ← here, Function.update_self]
          cases kind' : constraint'.pred with
          | stringIn values =>
              rw [kind'] at met
              obtain ⟨_, _, value, listed, short, same⟩ := met
              exact ⟨value, listed, short, (given.symm.trans same).symm⟩
          | stringPrefix initial =>
              rw [kind'] at met
              have start := met.2.2
              rw [given] at start
              exact start
          | _ => trivial

end Structure

end Perch.Analyze
