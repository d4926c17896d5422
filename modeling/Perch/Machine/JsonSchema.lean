/-
JSON Schema, as far as the description of a closed document format needs it.

A schema is the list of its keywords, and each keyword constrains the values
of its own kind and no others.  Numbers are compared by value, lengths count
code points, and objects are equal whatever the order of their members.  A
reference names a definition; what a schema validates is what it accepts
however much deeper its references are unfolded.
-/

import Mathlib.Algebra.Ring.Int.Defs
import Mathlib.Algebra.Ring.Nat
import Mathlib.Data.List.TakeWhile
import Perch.Machine.Regex

namespace Perch.Machine

/-! ### Numbers -/

def scaled (mantissa : Int) : Int → Rat
  | .ofNat exponent => (mantissa * 10 ^ exponent : Int)
  | .negSucc exponent => mkRat mantissa (10 ^ (exponent + 1))

/-- The exponent after a number's digits, zero where there is none. -/
def exponentOf : List Char → Option Int
  | [] => some 0
  | c :: rest =>
      let (sign, digits) : Int × List Char := match rest with
        | '-' :: digits => (-1, digits)
        | '+' :: digits => (1, digits)
        | digits => (1, digits)
      if (c = 'e' ∨ c = 'E') ∧ digits ≠ [] ∧ digits.all Char.isDigit = true then
        some (sign * Nat.ofDigitChars 10 digits 0)
      else none

/-- The number digits write, with an optional fraction and exponent. -/
def unsignedNumeral (sign : Int) (text : List Char) : Option Rat :=
  let whole := text.takeWhile Char.isDigit
  let (fraction, rest) := match text.dropWhile Char.isDigit with
    | '.' :: rest => (rest.takeWhile Char.isDigit, rest.dropWhile Char.isDigit)
    | rest => ([], rest)
  if whole = [] then none
  else (exponentOf rest).map fun exponent =>
    scaled (sign * Nat.ofDigitChars 10 (whole ++ fraction) 0) (exponent - fraction.length)

def numeral (text : String) : Option Rat :=
  match text.toList with
  | '-' :: rest => unsignedNumeral (-1) rest
  | '+' :: rest => unsignedNumeral 1 rest
  | rest => unsignedNumeral 1 rest

section Digits

variable {body : List Char} (nonempty : body ≠ []) (digits : ∀ c ∈ body, c.isDigit = true)

include nonempty digits

theorem unsignedNumeral_digits :
    unsignedNumeral 1 body = some ((Nat.ofDigitChars 10 body 0 : Int) : Rat) := by
  have taken : body.takeWhile Char.isDigit = body := List.takeWhile_eq_self_iff.mpr digits
  have dropped : body.dropWhile Char.isDigit = [] := List.dropWhile_eq_nil_iff.mpr digits
  simp [unsignedNumeral, taken, dropped, nonempty, exponentOf, scaled]

theorem numeral_digits {text : String}
    (written : text.toList = body ∨ text.toList = '+' :: body) :
    numeral text = some ((Nat.ofDigitChars 10 body 0 : Int) : Rat) := by
  have plain : ∀ {sign : Char} {rest : List Char}, body = sign :: rest → sign.isDigit = true := by
    intro sign rest same
    exact digits sign (same ▸ List.mem_cons_self)
  unfold numeral
  rcases written with unsigned | signed
  · rw [unsigned]
    split
    · exact absurd (plain rfl) (by decide)
    · exact absurd (plain rfl) (by decide)
    · exact unsignedNumeral_digits nonempty digits
  · rw [signed]
    exact unsignedNumeral_digits nonempty digits

end Digits

/-! ### Equality of values -/

inductive Same : Json → Json → Prop
  | null : Same .null .null
  | bool (value : Bool) : Same (.bool value) (.bool value)
  | number {digits digits' : String} {isInt isInt' : Bool} {value : Rat}
      (reads : numeral digits = some value) (reads' : numeral digits' = some value) :
      Same (.number digits isInt) (.number digits' isInt')
  | string (text : String) : Same (.string text) (.string text)
  | array {items items' : List Json} (each : List.Forall₂ Same items items') :
      Same (.array items) (.array items')
  | object {members reordered members' : List (String × Json)}
      (keys : members.map Prod.fst = reordered.map Prod.fst)
      (each : List.Forall₂ Same (members.map Prod.snd) (reordered.map Prod.snd))
      (order : reordered.Perm members') : Same (.object members) (.object members')

theorem same_string {text : String} {v : Json} : Same (.string text) v ↔ v = .string text := by
  constructor
  · intro same
    cases same
    rfl
  · rintro rfl
    exact .string text

namespace JsonSchema

/-! ### Schemas -/

inductive Kind
  | string
  | integer
  | array
  | object
deriving DecidableEq

inductive Keyword
  | type (kind : Kind)
  | const (value : Json)
  | enum (values : List Json)
  | pattern (regex : String)
  | minLength (least : Nat)
  | maxLength (most : Nat)
  | minimum (least : Int)
  | maximum (most : Int)
  | minItems (least : Nat)
  | maxItems (most : Nat)
  | uniqueItems
  | items (schema : List Keyword)
  | required (names : List String)
  /-- `properties`, with `additionalProperties`. -/
  | properties (listed : List (String × List Keyword)) (additional : Bool)
  | oneOf (branches : List (List Keyword))
  | allOf (branches : List (List Keyword))
  /-- `if` with its `then`. -/
  | ifThen (condition consequence : List Keyword)
  /-- `$ref` to a definition. -/
  | ref (name : String)

abbrev Schema := List Keyword

def Kind.Holds : Kind → Json → Prop
  | .string, .string _ => True
  | .integer, .number digits _ => ∃ n : Int, numeral digits = some (n : Rat)
  | .array, .array _ => True
  | .object, .object _ => True
  | _, _ => False

/-! ### What is accepted -/

mutual

/-- What a keyword accepts, `refs` being what the definitions accept. -/
def Keyword.Accepts (refs : String → Json → Prop) : Keyword → Json → Prop
  | .type kind, v => kind.Holds v
  | .const value, v => Same value v
  | .enum values, v => ∃ value ∈ values, Same value v
  | .pattern regex, v => ∀ text, v = .string text → Regex.Matches regex text
  | .minLength least, v => ∀ text, v = .string text → least ≤ text.length
  | .maxLength most, v => ∀ text, v = .string text → text.length ≤ most
  | .minimum least, v => ∀ digits isInt, v = .number digits isInt →
      ∃ n, numeral digits = some n ∧ (least : Rat) ≤ n
  | .maximum most, v => ∀ digits isInt, v = .number digits isInt →
      ∃ n, numeral digits = some n ∧ n ≤ (most : Rat)
  | .minItems least, v => ∀ items, v = .array items → least ≤ items.length
  | .maxItems most, v => ∀ items, v = .array items → items.length ≤ most
  | .uniqueItems, v => ∀ items, v = .array items → items.Pairwise fun a b => ¬Same a b
  | .items schema, v => ∀ items, v = .array items → ∀ item ∈ items, accepts refs schema item
  | .required names, v => ∀ members, v = .object members →
      ∀ name ∈ names, name ∈ members.map Prod.fst
  | .properties listed additional, v => ∀ members, v = .object members →
      acceptsMembers refs listed members ∧
        (additional = false → ∀ entry ∈ members, entry.1 ∈ listed.map Prod.fst)
  | .oneOf branches, v => acceptsOne refs branches v
  | .allOf branches, v => acceptsAll refs branches v
  | .ifThen condition consequence, v => accepts refs condition v → accepts refs consequence v
  | .ref name, v => refs name v

/-- A schema accepts what each of its keywords accepts. -/
def accepts (refs : String → Json → Prop) : List Keyword → Json → Prop
  | [], _ => True
  | keyword :: rest, v => keyword.Accepts refs v ∧ accepts refs rest v

def acceptsMembers (refs : String → Json → Prop) :
    List (String × List Keyword) → List (String × Json) → Prop
  | [], _ => True
  | (name, schema) :: rest, members =>
      (∀ v, (name, v) ∈ members → accepts refs schema v) ∧ acceptsMembers refs rest members

def acceptsAll (refs : String → Json → Prop) : List (List Keyword) → Json → Prop
  | [], _ => True
  | branch :: rest, v => accepts refs branch v ∧ acceptsAll refs rest v

def acceptsNone (refs : String → Json → Prop) : List (List Keyword) → Json → Prop
  | [], _ => True
  | branch :: rest, v => ¬accepts refs branch v ∧ acceptsNone refs rest v

def acceptsOne (refs : String → Json → Prop) : List (List Keyword) → Json → Prop
  | [], _ => False
  | branch :: rest, v =>
      (accepts refs branch v ∧ acceptsNone refs rest v) ∨
        (¬accepts refs branch v ∧ acceptsOne refs rest v)

end

/-- What a definition accepts, references unfolded so far. -/
def resolve (defs : List (String × Schema)) : Nat → String → Json → Prop
  | 0, _, _ => False
  | depth + 1, name, v =>
      ∃ schema, defs.lookup name = some schema ∧ accepts (resolve defs depth) schema v

/-- A schema validates a value that it accepts from some depth of unfolding
on. -/
def Validates (defs : List (String × Schema)) (schema : Schema) (v : Json) : Prop :=
  ∃ enough, ∀ depth, enough ≤ depth → accepts (resolve defs depth) schema v

/-! ### Rules -/

section Rules

variable {refs : String → Json → Prop}

/-- A closed object with its required members, each as listed. -/
def record (names : List String) (listed : List (String × Schema)) : Schema :=
  [.type .object, .required names, .properties listed false]

variable {names : List String} {listed fields : List (String × Schema)}
  {members : List (String × Json)}

theorem accepts_record (there : ∀ name ∈ names, name ∈ members.map Prod.fst)
    (each : acceptsMembers refs listed members)
    (known : ∀ entry ∈ members, entry.1 ∈ listed.map Prod.fst) :
    accepts refs (record names listed) (.object members) := by
  refine ⟨trivial, ?_, ?_, trivial⟩
  · intro other same
    obtain rfl := Json.object.inj same
    exact there
  · intro other same
    obtain rfl := Json.object.inj same
    exact ⟨each, fun _ => known⟩

theorem refuses_missing {name : String} (required : name ∈ names)
    (missing : name ∉ members.map Prod.fst) :
    ¬accepts refs (record names listed) (.object members) := by
  rintro ⟨-, there, -⟩
  exact missing (there members rfl name required)

theorem refuses_literal {name text other : String} {rest : List (String × Schema)}
    (held : (name, .string text) ∈ members) (different : text ≠ other) :
    ¬accepts refs (record names ((name, [.const (.string other)]) :: rest))
      (.object members) := by
  rintro ⟨-, -, each, -⟩
  obtain ⟨⟨literal, -⟩, -⟩ := each members rfl
  obtain ⟨same, -⟩ := literal (.string text) held
  exact different (Json.string.inj (same_string.mp same))

theorem acceptsMembers_append {more : List (String × Schema)} :
    acceptsMembers refs (listed ++ more) members ↔
      acceptsMembers refs listed members ∧ acceptsMembers refs more members := by
  induction listed with
  | nil => exact ⟨fun each => ⟨trivial, each⟩, And.right⟩
  | cons entry rest ih =>
      rw [List.cons_append, acceptsMembers, acceptsMembers, ih, and_assoc]

theorem acceptsAll_of {branches : List Schema} {v : Json}
    (each : ∀ branch ∈ branches, accepts refs branch v) : acceptsAll refs branches v := by
  induction branches with
  | nil => trivial
  | cons branch rest ih =>
      exact ⟨each branch List.mem_cons_self,
        ih fun other member => each other (List.mem_cons_of_mem _ member)⟩

/-- A record told apart by the literal one member holds, its required members,
and what is listed. -/
abbrev Variant := String × List String × List (String × Schema)

def tagged (name : String) (variants : List Variant) : List Schema :=
  variants.map fun variant =>
    record (name :: variant.2.1) ((name, [.const (.string variant.1)]) :: variant.2.2)

theorem acceptsNone_tagged {name text : String} {variants : List Variant}
    (held : (name, .string text) ∈ members) (other : text ∉ variants.map Prod.fst) :
    acceptsNone refs (tagged name variants) (.object members) := by
  induction variants with
  | nil => trivial
  | cons variant rest ih =>
      rw [List.map_cons, List.mem_cons, not_or] at other
      exact ⟨refuses_literal held other.1, ih other.2⟩

/-- Of records with different literals, only the one whose literal is held
accepts. -/
theorem acceptsOne_tagged {name text : String} {variants : List Variant}
    (held : (name, .string text) ∈ members) (distinct : (variants.map Prod.fst).Nodup)
    (listed : (text, names, fields) ∈ variants)
    (accepted : accepts refs (record (name :: names) ((name, [.const (.string text)]) :: fields))
      (.object members)) :
    acceptsOne refs (tagged name variants) (.object members) := by
  induction variants with
  | nil => cases listed
  | cons variant rest ih =>
      rw [List.map_cons, List.nodup_cons] at distinct
      rcases List.mem_cons.mp listed with rfl | later
      · exact .inl ⟨accepted, acceptsNone_tagged held distinct.1⟩
      · refine .inr ⟨refuses_literal held ?_, ih distinct.2 later⟩
        rintro rfl
        exact distinct.1 (List.mem_map.mpr ⟨_, later, rfl⟩)

end Rules

end JsonSchema

end Perch.Machine
