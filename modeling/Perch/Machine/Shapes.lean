/-
The values schemas accept, and what changing their texts does.

A schema looks at a text only to tell whether it is one of its literals.  So
values whose texts are replaced by others, the literals by themselves, are
accepted alike, and what is accepted is made of texts, small numbers, lists
and objects.
-/

import Mathlib.Data.List.Find
import Perch.Machine.Lossy
import Perch.Machine.Zod

namespace Perch.Machine.Js

/-! ### Values -/

/-- A value a program can hold: no object has two members of one key. -/
inductive Proper : Value → Prop
  | undefined : Proper .undefined
  | null : Proper .null
  | bool (value : Bool) : Proper (.bool value)
  | number (value : Number) : Proper (.number value)
  | bigint (value : Int) : Proper (.bigint value)
  | string (text : Text) : Proper (.string text)
  | array {items : List Value} (each : ∀ item ∈ items, Proper item) : Proper (.array items)
  | object {members : List (Text × Value)} (distinct : (members.map Prod.fst).Nodup)
      (each : ∀ member ∈ members, Proper member.2) : Proper (.object members)

def Value.isUndefined : Value → Bool
  | .undefined => true
  | _ => false

def defined (members : List (Text × Value)) : List (Text × Value) :=
  members.filter fun member => !member.2.isUndefined

/-- Texts, 32-bit numbers, and lists and objects of them. -/
inductive Plain : Value → Prop
  | string (text : Text) : Plain (.string text)
  | number {n : Nat} (small : n < 2 ^ 32) : Plain (.number (.ofNat n))
  | array {items : List Value} (each : ∀ item ∈ items, Plain item) : Plain (.array items)
  | object {members : List (Text × Value)}
      (named : ∀ member ∈ members, ∃ name, member.1 = utf16 name)
      (each : ∀ member ∈ defined members, Plain member.2) : Plain (.object members)

mutual

def texts : Value → List Text
  | .string text => [text]
  | .array items => textsOfItems items
  | .object members => textsOfMembers members
  | _ => []

def textsOfItems : List Value → List Text
  | [] => []
  | item :: items => texts item ++ textsOfItems items

def textsOfMembers : List (Text × Value) → List Text
  | [] => []
  | (_, value) :: members => texts value ++ textsOfMembers members

end

mutual

/-- A value with its texts replaced, the keys of objects apart. -/
def mapText (f : Text → Text) : Value → Value
  | .string text => .string (f text)
  | .array items => .array (mapItems f items)
  | .object members => .object (mapMembers f members)
  | value => value

def mapItems (f : Text → Text) : List Value → List Value
  | [] => []
  | item :: items => mapText f item :: mapItems f items

def mapMembers (f : Text → Text) : List (Text × Value) → List (Text × Value)
  | [] => []
  | (key, value) :: members => (key, mapText f value) :: mapMembers f members

end

section Maps

variable {f : Text → Text}

theorem textsOfItems_eq (items : List Value) : textsOfItems items = items.flatMap texts := by
  induction items with
  | nil => rfl
  | cons item items ih => rw [textsOfItems, ih, List.flatMap_cons]

theorem textsOfMembers_eq (members : List (Text × Value)) :
    textsOfMembers members = members.flatMap fun member => texts member.2 := by
  induction members with
  | nil => rfl
  | cons member members ih => rw [textsOfMembers, ih, List.flatMap_cons]

theorem mapItems_eq (items : List Value) : mapItems f items = items.map (mapText f) := by
  induction items with
  | nil => rfl
  | cons item items ih => rw [mapItems, ih, List.map_cons]

theorem mapMembers_eq (members : List (Text × Value)) :
    mapMembers f members = members.map fun member => (member.1, mapText f member.2) := by
  induction members with
  | nil => rfl
  | cons member members ih => rw [mapMembers, ih, List.map_cons]

@[simp] theorem mapText_isUndefined (value : Value) :
    (mapText f value).isUndefined = value.isUndefined := by
  cases value <;> rfl

theorem defined_mapMembers (members : List (Text × Value)) :
    defined (mapMembers f members) =
      (defined members).map fun member => (member.1, mapText f member.2) := by
  rw [defined, mapMembers_eq, List.filter_map, defined]
  congr 1
  apply List.filter_congr
  intro member _
  exact congrArg (!·) (mapText_isUndefined member.2)

theorem mapMembers_keys (members : List (Text × Value)) :
    (mapMembers f members).map Prod.fst = members.map Prod.fst := by
  rw [mapMembers_eq, List.map_map]
  rfl

theorem lookup_mapMembers (members : List (Text × Value)) (key : Text) :
    lookup (mapMembers f members) key = mapText f (lookup members key) := by
  induction members with
  | nil => rfl
  | cons member members ih =>
      obtain ⟨name, value⟩ := member
      rw [lookup, mapMembers, List.lookup_cons, lookup, List.lookup_cons]
      cases key == name
      · exact ih
      · rfl

theorem Plain.mapText {value : Value} (plain : Plain value) : Plain (mapText f value) := by
  induction plain with
  | string text => exact .string (f text)
  | number small => exact .number small
  | @array items each ih =>
      rw [Js.mapText, mapItems_eq]
      apply Plain.array
      intro item member
      obtain ⟨original, present, rfl⟩ := List.mem_map.mp member
      exact ih original present
  | @object members named each ih =>
      rw [Js.mapText]
      apply Plain.object
      · intro member present
        rw [mapMembers_eq] at present
        obtain ⟨original, held, rfl⟩ := List.mem_map.mp present
        exact named original held
      · intro member present
        rw [defined_mapMembers] at present
        obtain ⟨original, held, rfl⟩ := List.mem_map.mp present
        exact ih original held

theorem Proper.mapText {value : Value} (proper : Proper value) : Proper (mapText f value) := by
  induction proper with
  | undefined => exact .undefined
  | null => exact .null
  | bool value => exact .bool value
  | number value => exact .number value
  | bigint value => exact .bigint value
  | string text => exact .string (f text)
  | @array items each ih =>
      rw [Js.mapText, mapItems_eq]
      apply Proper.array
      intro item member
      obtain ⟨original, present, rfl⟩ := List.mem_map.mp member
      exact ih original present
  | @object members distinct each ih =>
      rw [Js.mapText]
      apply Proper.object
      · rw [mapMembers_keys]
        exact distinct
      · intro member present
        rw [mapMembers_eq] at present
        obtain ⟨original, held, rfl⟩ := List.mem_map.mp present
        exact ih original held

theorem lookup_of_mem {members : List (Text × Value)} (distinct : (members.map Prod.fst).Nodup)
    {member : Text × Value} (present : member ∈ members) : lookup members member.1 = member.2 := by
  induction members with
  | nil => cases present
  | cons first rest ih =>
      obtain ⟨fresh, distinct⟩ := List.nodup_cons.mp distinct
      rw [lookup, List.lookup_cons]
      rcases List.mem_cons.mp present with rfl | later
      · rw [beq_self_eq_true]
        rfl
      · have other : (member.1 == first.1) = false := by
          rw [beq_eq_false_iff_ne]
          intro same
          exact fresh (same ▸ List.mem_map_of_mem later)
        rw [other]
        exact ih distinct later

end Maps

end Perch.Machine.Js

namespace Perch.Machine.Zod

open Js

/-! ### Schemas -/

/-- A replacement of texts that keeps the literals, and makes no others. -/
def Keeps (f : Text → Text) : Prop :=
  ∀ name : String, Determined (utf16 name) → ∀ text, f text = utf16 name ↔ text = utf16 name

/-- A schema that takes texts as they come, and accepts plain values. -/
structure Fits (f : Text → Text) (schema : Schema) : Prop where
  natural : ∀ value, schema (mapText f value) = (schema value).map (mapText f)
  plain : ∀ value read, Proper value → schema value = some read →
    value = .undefined ∨ Plain value

variable {f : Text → Text}

theorem Keeps.isText (keeps : Keeps f) {name : String} (literal : Determined (utf16 name))
    (value : Value) : (mapText f value).isText name = value.isText name := by
  cases value with
  | string text =>
      rw [mapText, Value.isText, Value.isText, Bool.eq_iff_iff, decide_eq_true_eq,
        decide_eq_true_eq]
      exact keeps name literal text
  | _ => rfl

theorem Fits.string : Fits f Zod.string := by
  constructor
  · intro value
    cases value <;> rfl
  · intro value read _ accepted
    cases value with
    | string text => exact Or.inr (.string text)
    | _ => cases accepted

theorem Fits.int : Fits f (int 0 0xFFFFFFFF) := by
  constructor
  · intro value
    cases value with
    | number n =>
        change Zod.int 0 0xFFFFFFFF (.number n) = _
        rw [Zod.int]
        split
        · rfl
        · rfl
    | _ => rfl
  · intro value read _ accepted
    cases value with
    | number n =>
        rw [Zod.int] at accepted
        split at accepted
        · rename_i checked
          rw [Bool.and_eq_true] at checked
          have bound : n.within 0 ((0xFFFFFFFF : Nat) : Int) = true := checked.2
          obtain ⟨k, small, same⟩ := Number.eq_ofNat checked.1 bound
          right
          rw [same]
          exact .number (by omega)
        · cases accepted
    | _ => cases accepted

theorem Fits.literalNumber {n : Nat} (small : n < 2 ^ 32) :
    Fits f (literalNumber (.ofNat n)) := by
  constructor
  · intro value
    cases value with
    | number held =>
        change Zod.literalNumber (.ofNat n) (.number held) = _
        rw [Zod.literalNumber]
        split
        · rfl
        · rfl
    | _ => rfl
  · intro value read _ accepted
    cases value with
    | number n =>
        rw [Zod.literalNumber] at accepted
        split at accepted
        · rename_i same
          right
          rw [same]
          exact .number small
        · cases accepted
    | _ => cases accepted

theorem Fits.oneOf (keeps : Keeps f) {names : List String}
    (literals : ∀ name ∈ names, Determined (utf16 name)) : Fits f (oneOf names) := by
  constructor
  · intro value
    have tested : names.any (mapText f value).isText = names.any value.isText := by
      rw [Bool.eq_iff_iff, List.any_eq_true, List.any_eq_true]
      constructor
      · intro found
        obtain ⟨name, member, tested⟩ := found
        rw [keeps.isText (literals name member)] at tested
        exact ⟨name, member, tested⟩
      · intro found
        obtain ⟨name, member, tested⟩ := found
        rw [← keeps.isText (literals name member)] at tested
        exact ⟨name, member, tested⟩
    rw [Zod.oneOf, Zod.oneOf, tested]
    split
    · rfl
    · rfl
  · intro value read _ accepted
    rw [Zod.oneOf] at accepted
    split at accepted
    · rename_i listed
      obtain ⟨name, _, tested⟩ := List.any_eq_true.mp listed
      cases value with
      | string text => exact Or.inr (.string text)
      | _ => cases tested
    · cases accepted

theorem Fits.literal (keeps : Keeps f) {name : String} (determined : Determined (utf16 name)) :
    Fits f (Zod.literal name) := by
  have same : Zod.literal name = Zod.oneOf [name] := by
    funext value
    rw [Zod.literal, Zod.oneOf, List.any_cons, List.any_nil, Bool.or_false]
  rw [same]
  apply Fits.oneOf keeps
  intro other member
  rw [List.mem_singleton.mp member]
  exact determined

theorem Fits.optional {schema : Schema} (fits : Fits f schema) : Fits f (optional schema) := by
  constructor
  · intro value
    cases value with
    | undefined => rfl
    | _ => exact fits.natural _
  · intro value read proper accepted
    cases value with
    | undefined => exact Or.inl rfl
    | _ => exact fits.plain _ read proper accepted

theorem mapM_natural {schema : Schema} (fits : Fits f schema) (items : List Value) :
    (mapItems f items).mapM schema = (items.mapM schema).map (mapItems f) := by
  induction items with
  | nil => rfl
  | cons item items ih =>
      rw [mapItems, List.mapM_cons, List.mapM_cons, fits.natural, ih]
      cases schema item with
      | none => rfl
      | some read =>
          cases items.mapM schema with
          | none => rfl
          | some more => rfl

theorem mapM_each {schema : Schema} {items reads : List Value}
    (accepted : items.mapM schema = some reads) :
    ∀ item ∈ items, ∃ read, schema item = some read := by
  induction items generalizing reads with
  | nil =>
      intro item member
      cases member
  | cons item items ih =>
      rw [List.mapM_cons] at accepted
      obtain ⟨read, first, accepted⟩ := Option.bind_eq_some_iff.mp accepted
      obtain ⟨more, rest, _⟩ := Option.bind_eq_some_iff.mp accepted
      rw [List.forall_mem_cons]
      exact ⟨⟨read, first⟩, ih rest⟩

theorem Fits.array {schema : Schema} (fits : Fits f schema)
    (required : schema .undefined = none) : Fits f (array schema) := by
  constructor
  · intro value
    cases value with
    | array items =>
        rw [mapText, Zod.array, mapM_natural fits, Zod.array]
        cases items.mapM schema with
        | none => rfl
        | some read => rfl
    | _ => rfl
  · intro value read proper accepted
    cases value with
    | array items =>
        right
        apply Plain.array
        intro item member
        rw [Zod.array, Option.map_eq_some_iff] at accepted
        obtain ⟨reads, accepted, _⟩ := accepted
        cases proper with
        | array each =>
            obtain ⟨read, accepted⟩ := mapM_each accepted item member
            rcases fits.plain item read (each item member) accepted with absent | plain
            · rw [absent, required] at accepted
              cases accepted
            · exact plain
    | _ => cases accepted

theorem Fits.union {options : List Schema} (each : ∀ option ∈ options, Fits f option) :
    Fits f (union options) := by
  constructor
  · intro value
    rw [Zod.union, Zod.union]
    induction options with
    | nil => rfl
    | cons option options ih =>
        obtain ⟨first, rest⟩ := List.forall_mem_cons.mp each
        rw [List.findSome?_cons, List.findSome?_cons, first.natural]
        cases option value with
        | none => exact ih rest
        | some read => rfl
  · intro value read proper accepted
    rw [Zod.union] at accepted
    obtain ⟨option, member, accepted⟩ := List.exists_of_findSome?_eq_some accepted
    exact (each option member).plain value read proper accepted

theorem fields_natural {shape : Shape} (each : ∀ field ∈ shape, Fits f field.2)
    (members : List (Text × Value)) :
    fields (mapMembers f members) shape = (fields members shape).map (mapMembers f) := by
  induction shape with
  | nil => rfl
  | cons field shape ih =>
      obtain ⟨key, schema⟩ := field
      obtain ⟨first, rest⟩ := List.forall_mem_cons.mp each
      have natural : ∀ value, schema (mapText f value) = (schema value).map (mapText f) :=
        first.natural
      rw [fields, fields, lookup_mapMembers, natural, ih rest, mapMembers_keys]
      cases schema (lookup members (utf16 key)) with
      | none => rfl
      | some held =>
          cases fields members shape with
          | none => rfl
          | some more =>
              cases held with
              | undefined =>
                  by_cases present : utf16 key ∈ members.map Prod.fst
                  · simp [mapText, present, mapMembers]
                  · simp [mapText, present]
              | _ => rfl

theorem fields_each {shape : Shape} {members read : List (Text × Value)}
    (accepted : fields members shape = some read) :
    ∀ field ∈ shape, ∃ held, field.2 (lookup members (utf16 field.1)) = some held := by
  induction shape generalizing read with
  | nil =>
      intro field member
      cases member
  | cons field shape ih =>
      rw [fields] at accepted
      obtain ⟨held, first, accepted⟩ := Option.bind_eq_some_iff.mp accepted
      obtain ⟨more, rest, _⟩ := Option.bind_eq_some_iff.mp accepted
      rw [List.forall_mem_cons]
      exact ⟨⟨held, first⟩, ih rest⟩

theorem Fits.object {shape : Shape} (each : ∀ field ∈ shape, Fits f field.2) :
    Fits f (object shape) := by
  constructor
  · intro value
    cases value with
    | object members =>
        have listed : ((mapMembers f members).all fun entry =>
              entry.1 ∈ shape.map fun field => utf16 field.1) =
            members.all fun entry => entry.1 ∈ shape.map fun field => utf16 field.1 := by
          rw [mapMembers_eq, List.all_map]
          rfl
        rw [mapText, Zod.object, Zod.object, listed, fields_natural each]
        split
        · cases fields members shape with
          | none => rfl
          | some read => rfl
        · rfl
    | _ => rfl
  · intro value read proper accepted
    cases value with
    | object members =>
        right
        rw [Zod.object] at accepted
        split at accepted
        · rename_i listed
          rw [List.all_eq_true] at listed
          obtain ⟨reads, accepted, _⟩ := Option.map_eq_some_iff.mp accepted
          cases proper with
          | object distinct properly =>
              have known : ∀ member ∈ members, ∃ field ∈ shape, utf16 field.1 = member.1 := by
                intro member present
                exact List.mem_map.mp (of_decide_eq_true (listed member present))
              apply Plain.object
              · intro member present
                obtain ⟨field, _, same⟩ := known member present
                exact ⟨field.1, same.symm⟩
              · intro member present
                obtain ⟨present, definite⟩ := List.mem_filter.mp present
                obtain ⟨field, held, same⟩ := known member present
                obtain ⟨read, accepted⟩ := fields_each accepted field held
                rw [same, lookup_of_mem distinct present] at accepted
                rcases (each field held).plain _ read (properly member present) accepted
                  with absent | plain
                · rw [absent] at definite
                  cases definite
                · exact plain
        · cases accepted
    | _ => cases accepted

theorem Fits.discriminatedUnion (keeps : Keeps f) {key : String}
    {variants : List (String × Schema)}
    (each : ∀ variant ∈ variants, Determined (utf16 variant.1) ∧ Fits f variant.2) :
    Fits f (discriminatedUnion key variants) := by
  constructor
  · intro value
    cases value with
    | object members =>
        have chosen : (variants.find? fun variant =>
              (lookup (mapMembers f members) (utf16 key)).isText variant.1) =
            variants.find? fun variant => (lookup members (utf16 key)).isText variant.1 := by
          rw [lookup_mapMembers]
          apply List.find?_congr
          intro variant member
          exact keeps.isText (each variant member).1 _
        rw [mapText, Zod.discriminatedUnion, Zod.discriminatedUnion, chosen]
        cases found : variants.find? fun variant =>
            (lookup members (utf16 key)).isText variant.1 with
        | none => rfl
        | some variant =>
            exact (each variant (List.mem_of_find?_eq_some found)).2.natural (.object members)
    | _ => rfl
  · intro value read proper accepted
    cases value with
    | object members =>
        rw [Zod.discriminatedUnion] at accepted
        split at accepted
        · rename_i variant found
          exact (each variant (List.mem_of_find?_eq_some found)).2.plain _ read proper accepted
        · cases accepted
    | _ => cases accepted

theorem Fits.variant (keeps : Keeps f) {key tag : String} {shape : Shape}
    (literal : Determined (utf16 tag)) (each : ∀ field ∈ shape, Fits f field.2) :
    Determined (utf16 (variant key tag shape).1) ∧ Fits f (variant key tag shape).2 := by
  constructor
  · exact literal
  · apply Fits.object
    rw [List.forall_mem_cons]
    exact ⟨Fits.literal keeps literal, each⟩

end Perch.Machine.Zod
