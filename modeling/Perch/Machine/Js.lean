/-
The values of a JavaScript program.

A text is a list of UTF-16 code units, and iterating over it pairs surrogates
up; a surrogate with no partner stands alone, and encodes in UTF-8 as the
replacement character.  A number is a rational, an infinity, or not a number;
the two zeros are not told apart.
-/

import Mathlib.Algebra.Ring.Nat
import Mathlib.Data.Rat.Defs
import Mathlib.Data.List.Basic

namespace Perch.Machine.Js

/-! ### Texts -/

abbrev Text := List UInt16

instance : LawfulBEq Text := inferInstance

def charUnits (c : Char) : Text :=
  if c.toNat < 0x10000 then [UInt16.ofNat c.toNat]
  else [UInt16.ofNat (0xD800 + (c.toNat - 0x10000) / 0x400),
    UInt16.ofNat (0xDC00 + (c.toNat - 0x10000) % 0x400)]

def chars (characters : List Char) : Text := characters.flatMap charUnits

def utf16 (s : String) : Text := chars s.toList

/-- Bytes below 128, as the text they spell. -/
def ascii (bytes : List UInt8) : Text := bytes.map UInt8.toUInt16

inductive Point
  | scalar (c : Char)
  | lone (surrogate : UInt16)
deriving DecidableEq

def isHigh (unit : UInt16) : Bool := 0xD800 ≤ unit && unit < 0xDC00

def isLow (unit : UInt16) : Bool := 0xDC00 ≤ unit && unit < 0xE000

def point (unit : UInt16) : Point :=
  if isHigh unit || isLow unit then .lone unit else .scalar (Char.ofNat unit.toNat)

def paired (high low : UInt16) : Char :=
  Char.ofNat (0x10000 + (high.toNat - 0xD800) * 0x400 + (low.toNat - 0xDC00))

def points : Text → List Point
  | [] => []
  | [unit] => [point unit]
  | unit :: next :: rest =>
      if isHigh unit && isLow next then .scalar (paired unit next) :: points rest
      else point unit :: points (next :: rest)

def Point.units : Point → Text
  | .scalar c => charUnits c
  | .lone surrogate => [surrogate]

def Point.encoded : Point → Char
  | .scalar c => c
  | .lone _ => Char.ofNat 0xFFFD

def encodeText (text : Text) : List UInt8 :=
  (String.ofList ((points text).map Point.encoded)).toUTF8.data.toList

theorem toNat_of_bmp {c : Char} (small : c.toNat < 0x10000) :
    (UInt16.ofNat c.toNat).toNat = c.toNat := by
  rw [UInt16.toNat_ofNat', Nat.mod_eq_of_lt small]

theorem charUnits_of_lt {c : Char} (small : c.toNat < 0x10000) :
    charUnits c = [UInt16.ofNat c.toNat] := if_pos small

theorem Char.not_surrogate (c : Char) : c.toNat < 0xD800 ∨ 0xDFFF < c.toNat := by
  rcases c.valid with low | ⟨high, _⟩
  · exact .inl low
  · exact .inr high

theorem point_of_bmp {c : Char} (small : c.toNat < 0x10000) :
    point (UInt16.ofNat c.toNat) = .scalar c ∧ isHigh (UInt16.ofNat c.toNat) = false := by
  have value := toNat_of_bmp small
  have outside := Char.not_surrogate c
  have notHigh : isHigh (UInt16.ofNat c.toNat) = false := by
    simp only [isHigh, Bool.and_eq_false_iff, decide_eq_false_iff_not, UInt16.le_iff_toNat_le,
      UInt16.lt_iff_toNat_lt, value, UInt16.reduceToNat]
    omega
  have notLow : isLow (UInt16.ofNat c.toNat) = false := by
    simp only [isLow, Bool.and_eq_false_iff, decide_eq_false_iff_not, UInt16.le_iff_toNat_le,
      UInt16.lt_iff_toNat_lt, value, UInt16.reduceToNat]
    omega
  refine ⟨?_, notHigh⟩
  rw [point, notHigh, notLow, value, Char.ofNat_toNat]
  rfl

/-- The surrogates of a character past the basic plane pair up to it. -/
theorem paired_surrogates {c : Char} (large : ¬c.toNat < 0x10000) :
    isHigh (UInt16.ofNat (0xD800 + (c.toNat - 0x10000) / 0x400)) = true ∧
      isLow (UInt16.ofNat (0xDC00 + (c.toNat - 0x10000) % 0x400)) = true ∧
      paired (UInt16.ofNat (0xD800 + (c.toNat - 0x10000) / 0x400))
        (UInt16.ofNat (0xDC00 + (c.toNat - 0x10000) % 0x400)) = c := by
  have bound : c.toNat < 0x110000 := by
    rcases c.valid with low | ⟨_, high⟩
    · exact Nat.lt_trans low (by decide)
    · exact high
  have high : (UInt16.ofNat (0xD800 + (c.toNat - 0x10000) / 0x400)).toNat =
      0xD800 + (c.toNat - 0x10000) / 0x400 := by
    rw [UInt16.toNat_ofNat', Nat.mod_eq_of_lt (by omega)]
  have low : (UInt16.ofNat (0xDC00 + (c.toNat - 0x10000) % 0x400)).toNat =
      0xDC00 + (c.toNat - 0x10000) % 0x400 := by
    rw [UInt16.toNat_ofNat', Nat.mod_eq_of_lt (by omega)]
  refine ⟨?_, ?_, ?_⟩
  · simp only [isHigh, Bool.and_eq_true, decide_eq_true_eq, UInt16.le_iff_toNat_le,
      UInt16.lt_iff_toNat_lt, high, UInt16.reduceToNat]
    omega
  · simp only [isLow, Bool.and_eq_true, decide_eq_true_eq, UInt16.le_iff_toNat_le,
      UInt16.lt_iff_toNat_lt, low, UInt16.reduceToNat]
    omega
  · have whole : 0x10000 + (0xD800 + (c.toNat - 0x10000) / 0x400 - 0xD800) * 0x400 +
        (0xDC00 + (c.toNat - 0x10000) % 0x400 - 0xDC00) = c.toNat := by omega
    rw [paired, high, low, whole, Char.ofNat_toNat]

theorem points_char (c : Char) (rest : Text) :
    points (charUnits c ++ rest) = .scalar c :: points rest := by
  unfold charUnits
  split
  next small =>
    obtain ⟨own, notHigh⟩ := point_of_bmp small
    cases rest with
    | nil => simp [points, own]
    | cons next rest => simp [points, own, notHigh]
  next large =>
    obtain ⟨high, low, whole⟩ := paired_surrogates large
    simp only [List.cons_append, List.nil_append, points, high, low, whole, Bool.and_self,
      if_true]

theorem points_chars (characters : List Char) :
    points (chars characters) = characters.map .scalar := by
  induction characters with
  | nil => rfl
  | cons c rest ih =>
      rw [chars, List.flatMap_cons, points_char, List.map_cons]
      exact congrArg _ ih

theorem chars_injective {left right : List Char} (same : chars left = chars right) :
    left = right := by
  have scalars := congrArg points same
  rw [points_chars, points_chars] at scalars
  exact List.map_injective_iff.mpr (fun _ _ h => Point.scalar.inj h) scalars

theorem utf16_injective {left right : String} (same : utf16 left = utf16 right) :
    left = right :=
  String.toList_injective (chars_injective same)

/-- `TextEncoder` writes a text's UTF-8. -/
theorem encodeText_utf16 (s : String) : encodeText (utf16 s) = s.toUTF8.data.toList := by
  rw [encodeText, utf16, points_chars, List.map_map]
  have same : (Point.encoded ∘ Point.scalar) = id := rfl
  rw [same, List.map_id, String.ofList_toList]

def isBlank (unit : UInt16) : Bool :=
  (9 ≤ unit && unit ≤ 13) || unit = 32 || unit = 0xA0 || unit = 0x1680 ||
    (0x2000 ≤ unit && unit ≤ 0x200A) || unit = 0x2028 || unit = 0x2029 || unit = 0x202F ||
    unit = 0x205F || unit = 0x3000 || unit = 0xFEFF

def trim (text : Text) : Text :=
  ((text.dropWhile isBlank).reverse.dropWhile isBlank).reverse

/-! ### Numbers -/

inductive Number
  | finite (value : ℚ)
  | infinite (negative : Bool)
  | nan
deriving DecidableEq

namespace Number

def ofNat (n : Nat) : Number := .finite n

def isInteger : Number → Bool
  | .finite value => value.den = 1
  | _ => false

def isSafeInteger : Number → Bool
  | .finite value => value.den = 1 && value.num.natAbs < 2 ^ 53
  | _ => false

/-- The integer part, zero for what is not finite. -/
def truncated : Number → Int
  | .finite value => value.num.tdiv value.den
  | _ => 0

/-- Whether the number lies between two integers, inclusive. -/
def within (low high : Int) : Number → Bool
  | .finite value => low ≤ value && value ≤ high
  | _ => false

@[simp] theorem isInteger_ofNat (n : Nat) : (ofNat n).isInteger = true := by
  simp [ofNat, isInteger]

@[simp] theorem truncated_ofNat (n : Nat) : (ofNat n).truncated = n := by
  simp [ofNat, truncated]

theorem within_ofNat {n high : Nat} (small : n ≤ high) : (ofNat n).within 0 high = true := by
  have lower : ((0 : Int) : ℚ) ≤ (n : ℚ) := by exact_mod_cast Nat.zero_le n
  have upper : (n : ℚ) ≤ ((high : Int) : ℚ) := by exact_mod_cast small
  simp only [ofNat, within, lower, upper, decide_true, Bool.and_self]

theorem eq_ofNat {number : Number} {high : Nat} (whole : number.isInteger = true)
    (inside : number.within 0 high = true) : ∃ n ≤ high, number = ofNat n := by
  match number, whole, inside with
  | .finite value, whole, inside =>
      simp only [isInteger, decide_eq_true_eq] at whole
      simp only [within, Bool.and_eq_true, decide_eq_true_eq] at inside
      have same : (value.num : ℚ) = value := Rat.coe_int_num_of_den_eq_one whole
      rw [← same] at inside
      have lower : 0 ≤ value.num := by exact_mod_cast inside.1
      have upper : value.num ≤ high := by exact_mod_cast inside.2
      have natural : (value.num.toNat : Int) = value.num := Int.toNat_of_nonneg lower
      refine ⟨value.num.toNat, by omega, ?_⟩
      have value_eq : value = (value.num.toNat : ℚ) := by
        rw [← same]
        exact_mod_cast natural.symm
      rw [ofNat, ← value_eq]

end Number

/-- The low `width` bytes of an integer in two's complement, as a number:
what `setUint32` and `setBigUint64` store. -/
def wrapped (width : Nat) (value : Int) : Nat := (value % (256 ^ width : Nat)).toNat

theorem wrapped_of_lt {width n : Nat} (fits : n < 256 ^ width) : wrapped width n = n := by
  rw [wrapped, Int.emod_eq_of_lt (Int.natCast_nonneg n) (Int.ofNat_lt.mpr fits), Int.toNat_natCast]

/-! ### Values -/

/-- The values a JSON tree is made of, with `undefined` and `bigint`s.  An
object's members have different keys. -/
inductive Value
  | undefined
  | null
  | bool (value : Bool)
  | number (value : Number)
  | bigint (value : Int)
  | string (text : Text)
  | array (items : List Value)
  | object (members : List (Text × Value))

/-- The member of that name, `undefined` where there is none. -/
def lookup (members : List (Text × Value)) (key : Text) : Value :=
  (List.lookup key members).getD .undefined

def Value.get (value : Value) (key : String) : Value :=
  match value with
  | .object members => lookup members (utf16 key)
  | _ => .undefined

def record (members : List (String × Value)) : Value :=
  .object (members.map fun (key, value) => (utf16 key, value))

def Value.isObject : Value → Bool
  | .object _ | .array _ => true
  | _ => false

def Value.isText (value : Value) (text : String) : Bool :=
  match value with
  | .string found => found = utf16 text
  | _ => false

theorem get_record (members : List (String × Value)) (key : String) :
    (record members).get key = (List.lookup key members).getD .undefined := by
  have found : List.lookup (utf16 key) (members.map fun (key, value) => (utf16 key, value)) =
      List.lookup key members := by
    induction members with
    | nil => rfl
    | cons member rest ih =>
        obtain ⟨name, value⟩ := member
        have tested : (utf16 key == utf16 name) = (key == name) := by
          rw [Bool.eq_iff_iff, beq_iff_eq, beq_iff_eq]
          exact ⟨utf16_injective, congrArg utf16⟩
        rw [List.map_cons, List.lookup_cons, List.lookup_cons, tested, ih]
  rw [record, Value.get, lookup, found]

theorem isText_utf16 (text other : String) :
    (Value.string (utf16 text)).isText other = (text == other) := by
  rw [Value.isText, Bool.eq_iff_iff, decide_eq_true_eq, beq_iff_eq]
  exact ⟨utf16_injective, congrArg utf16⟩

/-! ### Decimal and hexadecimal texts -/

def isDecimal (unit : UInt16) : Bool := 48 ≤ unit && unit ≤ 57

/-- `BigInt` of decimal digits. -/
def decimalValue (text : Text) : Nat :=
  text.foldl (fun value unit => value * 10 + (unit.toNat - 48)) 0

def decimalText (value : Int) : Text :=
  (if value < 0 then [45] else []) ++ chars (Nat.toDigits 10 value.natAbs)

theorem digit_units {c : Char} (digit : c.isDigit = true) :
    charUnits c = [UInt16.ofNat c.toNat] ∧ isDecimal (UInt16.ofNat c.toNat) = true ∧
      (UInt16.ofNat c.toNat).toNat = c.toNat := by
  have range : 48 ≤ c.toNat ∧ c.toNat ≤ 57 := by
    simp only [Char.isDigit, Bool.and_eq_true, decide_eq_true_eq, ge_iff_le,
      UInt32.le_iff_toNat_le] at digit
    exact digit
  have value := toNat_of_bmp (c := c) (by omega)
  refine ⟨charUnits_of_lt (by omega), ?_, value⟩
  simp only [isDecimal, Bool.and_eq_true, decide_eq_true_eq, UInt16.le_iff_toNat_le, value,
    UInt16.reduceToNat]
  exact range

theorem decimal_chars {digits : List Char} (valid : ∀ c ∈ digits, c.isDigit = true) :
    (chars digits).all isDecimal = true ∧ (chars digits).length = digits.length ∧
      ∀ start, (chars digits).foldl (fun value unit => value * 10 + (unit.toNat - 48)) start =
        Nat.ofDigitChars 10 digits start := by
  induction digits with
  | nil => exact ⟨rfl, rfl, fun _ => rfl⟩
  | cons c rest ih =>
      obtain ⟨units, decimal, value⟩ := digit_units (valid c List.mem_cons_self)
      obtain ⟨decimals, sizes, values⟩ := ih fun c member => valid c (List.mem_cons_of_mem _ member)
      have split : chars (c :: rest) = UInt16.ofNat c.toNat :: chars rest := by
        rw [chars, List.flatMap_cons, units]
        rfl
      refine ⟨?_, ?_, ?_⟩
      · rw [split, List.all_cons, decimal, decimals, Bool.and_self]
      · rw [split, List.length_cons, sizes, List.length_cons]
      · intro start
        rw [split, List.foldl_cons, values, value, Nat.ofDigitChars_cons, Nat.mul_comm]
        rfl

/-- A natural number's decimal text is digits, and reads back. -/
theorem decimalText_natCast (n : Nat) :
    (decimalText n).all isDecimal = true ∧ decimalText n ≠ [] ∧
      decimalValue (decimalText n) = n := by
  have plain : decimalText n = chars (Nat.toDigits 10 n) := by
    simp [decimalText]
  have valid : ∀ c ∈ Nat.toDigits 10 n, c.isDigit = true := fun c member =>
    Nat.isDigit_of_mem_toDigits (by decide) (by decide) member
  obtain ⟨decimals, sizes, values⟩ := decimal_chars valid
  refine ⟨by rw [plain, decimals], ?_, ?_⟩
  · rw [plain]
    intro empty
    rw [empty] at sizes
    exact Nat.toDigits_ne_nil (List.length_eq_zero_iff.mp sizes.symm)
  · rw [plain, decimalValue, values, Nat.ofDigitChars_ten_toDigits]

def hexUnit (nibble : UInt8) : UInt16 :=
  if nibble < 10 then nibble.toUInt16 + 48 else nibble.toUInt16 + 87

def isLowerHex (unit : UInt16) : Bool :=
  (48 ≤ unit && unit ≤ 57) || (97 ≤ unit && unit ≤ 102)

/-- `Buffer.toString` in `hex`. -/
def hexText (bytes : List UInt8) : Text :=
  bytes.flatMap fun (byte : UInt8) => [hexUnit (byte >>> 4), hexUnit (byte &&& 15)]

def nibble (unit : UInt16) : Option UInt8 :=
  if 48 ≤ unit ∧ unit ≤ 57 then some (unit - 48).toUInt8
  else if 97 ≤ unit ∧ unit ≤ 102 then some (unit - 87).toUInt8
  else if 65 ≤ unit ∧ unit ≤ 70 then some (unit - 55).toUInt8
  else none

/-- `Buffer.from` in `hex`: pairs of digits, up to the first that is none. -/
def hexBytes : Text → List UInt8
  | high :: low :: rest =>
      match nibble high, nibble low with
      | some high, some low => (high <<< 4 ||| low) :: hexBytes rest
      | _, _ => []
  | _ => []

theorem nibble_hexUnit (byte : UInt8) :
    nibble (hexUnit (byte >>> 4)) = some (byte >>> 4) ∧
      nibble (hexUnit (byte &&& 15)) = some (byte &&& 15) ∧
      isLowerHex (hexUnit (byte >>> 4)) = true ∧ isLowerHex (hexUnit (byte &&& 15)) = true ∧
      (byte >>> 4) <<< 4 ||| (byte &&& 15) = byte := by
  suffices every : ∀ n < 256, nibble (hexUnit (UInt8.ofNat n >>> 4)) = some (UInt8.ofNat n >>> 4) ∧
      nibble (hexUnit (UInt8.ofNat n &&& 15)) = some (UInt8.ofNat n &&& 15) ∧
      isLowerHex (hexUnit (UInt8.ofNat n >>> 4)) = true ∧
      isLowerHex (hexUnit (UInt8.ofNat n &&& 15)) = true ∧
      (UInt8.ofNat n >>> 4) <<< 4 ||| (UInt8.ofNat n &&& 15) = UInt8.ofNat n by
    simpa using every byte.toNat byte.toNat_lt
  decide +kernel

@[simp] theorem hexText_length (bytes : List UInt8) :
    (hexText bytes).length = 2 * bytes.length := by
  induction bytes with
  | nil => rfl
  | cons byte rest ih =>
      simp only [hexText, List.flatMap_cons, List.length_append, List.length_cons,
        List.length_nil] at ih ⊢
      omega

theorem hexText_lower (bytes : List UInt8) : (hexText bytes).all isLowerHex = true := by
  simp only [hexText, List.all_flatMap, List.all_eq_true, List.mem_cons, List.not_mem_nil,
    or_false, forall_eq_or_imp, forall_eq]
  intro byte _
  exact ⟨(nibble_hexUnit byte).2.2.1, (nibble_hexUnit byte).2.2.2.1⟩

theorem hexBytes_hexText (bytes : List UInt8) : hexBytes (hexText bytes) = bytes := by
  induction bytes with
  | nil => rfl
  | cons byte rest ih =>
      obtain ⟨high, low, _, _, whole⟩ := nibble_hexUnit byte
      have split : hexText (byte :: rest) =
          hexUnit (byte >>> 4) :: hexUnit (byte &&& 15) :: hexText rest := rfl
      rw [split, hexBytes, high, low, ih]
      simp only [whole]

theorem nibble_isSome {unit : UInt16} (lower : isLowerHex unit = true) :
    ∃ value, nibble unit = some value := by
  simp only [isLowerHex, Bool.or_eq_true, Bool.and_eq_true, decide_eq_true_eq] at lower
  rw [nibble]
  split
  · exact ⟨_, rfl⟩
  · rw [if_pos (lower.resolve_left ‹_›)]
    exact ⟨_, rfl⟩

theorem hexBytes_length {n : Nat} {text : Text} (size : text.length = 2 * n)
    (lower : text.all isLowerHex = true) : (hexBytes text).length = n := by
  induction n generalizing text with
  | zero =>
      rw [List.length_eq_zero_iff.mp size]
      rfl
  | succ n ih =>
      match text, size, lower with
      | high :: low :: rest, size, lower =>
          simp only [List.all_cons, Bool.and_eq_true] at lower
          obtain ⟨_, highRead⟩ := nibble_isSome lower.1
          obtain ⟨_, lowRead⟩ := nibble_isSome lower.2.1
          simp only [List.length_cons] at size
          have tail : (hexBytes rest).length = n := ih (by omega) lower.2.2
          rw [hexBytes, highRead, lowRead]
          simp only [List.length_cons, tail]

theorem hexText_injective {left right : List UInt8} (same : hexText left = hexText right) :
    left = right := by
  rw [← hexBytes_hexText left, same, hexBytes_hexText]

end Perch.Machine.Js
