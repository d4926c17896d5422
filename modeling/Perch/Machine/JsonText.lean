/-
JSON texts, whole: insignificant whitespace, every number, and surrogate pairs
spelled as escapes; and what `JSON.parse` makes of them.

A member written twice keeps its first place and its last value.
-/

import Perch.Machine.Js
import Perch.Machine.Json

namespace Perch.Machine.JsonText

open Json

/-! ### Reading -/

def isSpace (c : Char) : Bool := c = ' ' || c = '\t' || c = '\n' || c = '\r'

def skipSpace (chars : List Char) : List Char := chars.dropWhile isSpace

def unitCode (a b c d : Char) : Option Nat := do
  pure (((← hexValue a) * 16 + (← hexValue b)) * 256 + (← hexValue c) * 16 + (← hexValue d))

def isHighCode (code : Nat) : Bool := 0xD800 ≤ code && code < 0xDC00

def isLowCode (code : Nat) : Bool := 0xDC00 ≤ code && code < 0xE000

/-- The rest of a string literal, after its opening quote.  A surrogate is
read only with its partner. -/
def textRest : List Char → Option (List Char × List Char)
  | [] => none
  | '"' :: rest => some ([], rest)
  | '\\' :: 'u' :: a :: b :: c :: d :: '\\' :: 'u' :: a' :: b' :: c' :: d' :: rest => do
      let high ← unitCode a b c d
      if isHighCode high then
        let low ← unitCode a' b' c' d'
        guard (isLowCode low)
        consRead (Char.ofNat (0x10000 + (high - 0xD800) * 0x400 + (low - 0xDC00))) (textRest rest)
      else
        let char ← readCode a b c d
        consRead char (textRest ('\\' :: 'u' :: a' :: b' :: c' :: d' :: rest))
  | '\\' :: 'u' :: a :: b :: c :: d :: rest => do
      let char ← readCode a b c d
      consRead char (textRest rest)
  | '\\' :: c :: rest => do
      let char ← readEscape c
      consRead char (textRest rest)
  | c :: rest => do
      guard (0x20 ≤ c.toNat)
      consRead c (textRest rest)

/-- Digits after a point or in an exponent: at least one. -/
def someDigits (chars : List Char) : Option (List Char × List Char) :=
  let digits := chars.takeWhile Char.isDigit
  if digits = [] then none else some (digits, chars.dropWhile Char.isDigit)

def fraction : List Char → Option (List Char × List Char)
  | '.' :: rest => (someDigits rest).map fun (digits, rest) => ('.' :: digits, rest)
  | chars => some ([], chars)

def exponent : List Char → Option (List Char × List Char)
  | c :: rest =>
      if c = 'e' ∨ c = 'E' then
        match rest with
        | sign :: more =>
            if sign = '+' ∨ sign = '-' then
              (someDigits more).map fun (digits, rest) => (c :: sign :: digits, rest)
            else (someDigits rest).map fun (digits, rest) => (c :: digits, rest)
        | [] => none
      else some ([], c :: rest)
  | [] => some ([], [])

/-- A number keeps its text; it is an integer when it has neither a fraction
nor an exponent. -/
def numberLiteral (chars : List Char) : Option (Json × List Char) := do
  let (sign, chars) := match chars with
    | '-' :: rest => (['-'], rest)
    | chars => ([], chars)
  let (digits, rest) ← someDigits chars
  guard (¬(digits.head? = some '0' ∧ 1 < digits.length))
  let (fraction, rest) ← fraction rest
  let (exponent, rest) ← exponent rest
  some (.number (String.ofList (sign ++ digits ++ fraction ++ exponent))
    (fraction = [] && exponent = []), rest)

/-- One or more items, separated by commas, up to a closing bracket. -/
def sequence {α : Type} (item : List Char → Option (α × List Char)) (close : Char) :
    Nat → List Char → Option (List α × List Char)
  | 0, _ => none
  | fuel + 1, chars => do
      let (first, rest) ← item chars
      match skipSpace rest with
      | ',' :: rest => do
          let (more, rest) ← sequence item close fuel rest
          some (first :: more, rest)
      | c :: rest => if c = close then some ([first], rest) else none
      | [] => none

def member (value : List Char → Option (Json × List Char)) (chars : List Char) :
    Option ((String × Json) × List Char) := do
  let '"' :: rest := skipSpace chars | none
  let (key, rest) ← textRest rest
  let ':' :: rest := skipSpace rest | none
  let (held, rest) ← value rest
  some ((String.ofList key, held), rest)

def value : Nat → List Char → Option (Json × List Char)
  | 0, _ => none
  | depth + 1, chars =>
      match skipSpace chars with
      | 'n' :: 'u' :: 'l' :: 'l' :: rest => some (.null, rest)
      | 't' :: 'r' :: 'u' :: 'e' :: rest => some (.bool true, rest)
      | 'f' :: 'a' :: 'l' :: 's' :: 'e' :: rest => some (.bool false, rest)
      | '"' :: rest => (textRest rest).map fun (text, rest) => (.string (String.ofList text), rest)
      | '[' :: rest =>
          match skipSpace rest with
          | ']' :: rest => some (.array [], rest)
          | rest => (sequence (value depth) ']' rest.length rest).map fun (items, rest) =>
              (.array items, rest)
      | '{' :: rest =>
          match skipSpace rest with
          | '}' :: rest => some (.object [], rest)
          | rest => (sequence (member (value depth)) '}' rest.length rest).map
              fun (members, rest) =>
              (.object members, rest)
      | chars => numberLiteral chars

/-- The tree a JSON text stands for: one value, and nothing after it. -/
def parse (chars : List Char) : Option Json :=
  match value (chars.length + 1) chars with
  | some (tree, rest) => if skipSpace rest = [] then some tree else none
  | none => none

/-! ### `JSON.parse` -/

open Js

def assign (members : List (Text × Value)) (key : Text) (held : Value) : List (Text × Value) :=
  if key ∈ members.map Prod.fst then
    members.map fun entry => if entry.1 = key then (key, held) else entry
  else members ++ [(key, held)]

/-- Members in the order they were first set, each with the value set last. -/
def collapse (members : List (Text × Value)) : List (Text × Value) :=
  members.foldl (fun built entry => assign built entry.1 entry.2) []

mutual

/-- The value a tree stands for, given how a number's text is read. -/
def toValue (number : String → Number) : Json → Value
  | .null => .null
  | .bool held => .bool held
  | .number digits _ => .number (number digits)
  | .string text => .string (utf16 text)
  | .array items => .array (toValues number items)
  | .object members => .object (collapse (toMembers number members))

def toValues (number : String → Number) : List Json → List Value
  | [] => []
  | item :: items => toValue number item :: toValues number items

def toMembers (number : String → Number) : List (String × Json) → List (Text × Value)
  | [] => []
  | (key, held) :: members => (utf16 key, toValue number held) :: toMembers number members

end

/-- Decimal digits, with or without a plus sign. -/
def Numeral (digits : String) (n : Nat) : Prop :=
  ∃ body, (digits.toList = body ∨ digits.toList = '+' :: body) ∧ body ≠ [] ∧
    (∀ c ∈ body, c.isDigit = true) ∧ Nat.ofDigitChars 10 body 0 = n

/-- Numerals that a number holds exactly are read exactly. -/
def ReadsNumerals (number : String → Number) : Prop :=
  ∀ digits n, Numeral digits n → n < 2 ^ 53 → number digits = .ofNat n

def Documented (jsonParse : Text → Except Text Value) : Prop :=
  ∃ number, ReadsNumerals number ∧
    ∀ text tree, parse text.toList = some tree → jsonParse (utf16 text) = .ok (toValue number tree)

theorem toValues_eq_map (number : String → Number) (items : List Json) :
    toValues number items = items.map (toValue number) := by
  induction items with
  | nil => rfl
  | cons item rest ih => rw [toValues, ih, List.map_cons]

theorem toMembers_eq_map (number : String → Number) (members : List (String × Json)) :
    toMembers number members =
      members.map fun entry => (utf16 entry.1, toValue number entry.2) := by
  induction members with
  | nil => rfl
  | cons entry rest ih => rw [toMembers, ih, List.map_cons]

theorem toMembers_keys (number : String → Number) (members : List (String × Json)) :
    (toMembers number members).map Prod.fst = (members.map Prod.fst).map utf16 := by
  simp only [toMembers_eq_map, List.map_map]
  rfl

theorem collapse_of_nodup {members : List (Text × Value)}
    (distinct : (members.map Prod.fst).Nodup) : collapse members = members := by
  suffices appended : ∀ (rest built : List (Text × Value)),
      ((built ++ rest).map Prod.fst).Nodup →
        rest.foldl (fun built entry => assign built entry.1 entry.2) built = built ++ rest from
    appended members [] distinct
  intro rest
  induction rest with
  | nil => intro built _; simp
  | cons entry rest ih =>
      intro built distinct
      have fresh : entry.1 ∉ built.map Prod.fst := by
        intro present
        rw [List.map_append, List.nodup_append] at distinct
        exact distinct.2.2 _ present _ List.mem_cons_self rfl
      rw [List.foldl_cons, assign, if_neg fresh, ih _ (by simpa using distinct)]
      simp

section Objects

variable {number : String → Number} {members : List (String × Json)}

theorem toValue_object (distinct : (members.map Prod.fst).Nodup) :
    toValue number (.object members) = .object (toMembers number members) := by
  rw [toValue, collapse_of_nodup]
  rw [toMembers_keys]
  exact distinct.map fun _ _ same => utf16_injective same

theorem lookup_toMembers_eq (key : String) :
    lookup (toMembers number members) (utf16 key) =
      ((List.lookup key members).map (toValue number)).getD .undefined := by
  have found : List.lookup (utf16 key) (toMembers number members) =
      (List.lookup key members).map (toValue number) := by
    induction members with
    | nil => rfl
    | cons entry rest ih =>
        obtain ⟨name, held⟩ := entry
        have tested : (utf16 key == utf16 name) = (key == name) := by
          rw [Bool.eq_iff_iff, beq_iff_eq, beq_iff_eq]
          exact ⟨utf16_injective, congrArg utf16⟩
        rw [toMembers, List.lookup_cons, List.lookup_cons, tested, ih]
        cases key == name <;> rfl
  rw [lookup, found]

theorem lookup_toMembers_of_mem (distinct : (members.map Prod.fst).Nodup) {key : String}
    {held : Json} (present : (key, held) ∈ members) :
    lookup (toMembers number members) (utf16 key) = toValue number held := by
  have found : List.lookup key members = some held := by
    induction members with
    | nil => cases present
    | cons entry rest ih =>
        obtain ⟨name, first⟩ := entry
        rw [List.map_cons, List.nodup_cons] at distinct
        rw [List.lookup_cons]
        rcases List.mem_cons.mp present with same | later
        · cases same
          rw [beq_self_eq_true]
        · have other : (key == name) = false := by
            rw [beq_eq_false_iff_ne]
            intro same
            exact distinct.1 (List.mem_map.mpr ⟨_, later, same⟩)
          rw [other]
          exact ih distinct.2 later
  rw [lookup_toMembers_eq, found]
  rfl

theorem lookup_toMembers_of_notMem {key : String} (absent : key ∉ members.map Prod.fst) :
    lookup (toMembers number members) (utf16 key) = .undefined := by
  have missing : List.lookup key members = none := by
    rw [List.lookup_eq_none_iff]
    intro entry present
    rw [bne_iff_ne]
    rintro rfl
    exact absent (List.mem_map_of_mem present)
  rw [lookup_toMembers_eq, missing]
  rfl

theorem mem_toMembers_keys {key : String} :
    utf16 key ∈ (toMembers number members).map Prod.fst ↔ key ∈ members.map Prod.fst := by
  rw [toMembers_keys, List.mem_map]
  constructor
  · rintro ⟨name, present, same⟩
    exact utf16_injective same ▸ present
  · intro present
    exact ⟨key, present, rfl⟩

end Objects

end Perch.Machine.JsonText
