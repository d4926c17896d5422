/-
What the patterns match.

Each pattern states a check of the validator: every text that passes the check
matches.  The checks read bytes, and the patterns characters; a text whose
bytes are ASCII has the same of both.
-/

import Perch.Document.Spelling
import Perch.PerchSchema.Policy

namespace Perch.PerchSchema

open Machine Machine.Regex Document

/-! ### Characters and bytes -/

theorem toList_of_ascii {text : String} (ascii : ∀ byte ∈ Ir.utf8 text, byte < 128) :
    text.toList = (Ir.utf8 text).map fun byte => Char.ofNat byte.toNat := by
  have whole : Utf8.lossy (Ir.utf8 text) = text := Utf8.lossy_encode text
  rw [← Utf8.lossyChars_ascii ascii]
  conv_lhs => rw [← whole]
  rw [Utf8.lossy, String.toList_ofList]

theorem length_le_utf8 (text : String) : text.length ≤ (Ir.utf8 text).length := by
  obtain ⟨chars, rfl⟩ : ∃ chars, text = String.ofList chars :=
    ⟨text.toList, String.ofList_toList.symm⟩
  rw [utf8_ofList, String.length_ofList]
  induction chars with
  | nil => exact Nat.le_refl 0
  | cons c rest ih =>
      rw [List.flatMap_cons, List.length_append, List.length_cons, String.length_utf8EncodeChar]
      have wide := c.utf8Size_pos
      omega

/-- Bytes that pass a check are ASCII characters of a class. -/
structure Classified (check : UInt8 → Bool) (ranges : List (Char × Char)) : Prop where
  ascii : ∀ n < 256, check (UInt8.ofNat n) = true → n < 128
  inside : ∀ n < 256, check (UInt8.ofNat n) = true → inRanges ranges (Char.ofNat n) = true

section Classified

variable {check : UInt8 → Bool} {ranges : List (Char × Char)} {text : String}
  (classified : Classified check ranges) (passes : ∀ byte ∈ Ir.utf8 text, check byte = true)

include classified passes

theorem Classified.toList :
    text.toList = (Ir.utf8 text).map fun byte => Char.ofNat byte.toNat := by
  apply toList_of_ascii
  intro byte member
  have small := classified.ascii byte.toNat byte.toNat_lt
  rw [UInt8.ofNat_toNat] at small
  exact UInt8.lt_iff_toNat_lt.mpr (small (passes byte member))

theorem Classified.length : text.toList.length = (Ir.utf8 text).length := by
  rw [classified.toList passes, List.length_map]

theorem Classified.each : ∀ c ∈ text.toList, inRanges ranges c = true := by
  rw [classified.toList passes]
  intro c member
  obtain ⟨byte, held, rfl⟩ := List.mem_map.mp member
  have inside := classified.inside byte.toNat byte.toNat_lt
  rw [UInt8.ofNat_toNat] at inside
  exact inside (passes byte held)

end Classified

def isDigestLetter (byte : UInt8) : Bool :=
  (48 ≤ byte && byte ≤ 57) || (97 ≤ byte && byte ≤ 102)

/-! The classes of the letters the validator lets through. -/

set_option maxRecDepth 4000 in
theorem base32_classified : Classified Ir.isBase32 [('A', 'Z'), ('2', '7')] := by
  constructor <;> decide

set_option maxRecDepth 4000 in
theorem hexDigit_classified :
    Classified (fun byte => (hexNibble byte).isSome) [('0', '9'), ('a', 'f'), ('A', 'F')] := by
  constructor <;> decide

set_option maxRecDepth 4000 in
theorem digestLetter_classified : Classified isDigestLetter [('0', '9'), ('a', 'f')] := by
  constructor <;> decide

def hexPair : Regex :=
  .seq (.times (.chars [('0', '9'), ('a', 'f'), ('A', 'F')]) 2 (some 2)) .empty

structure Readings : Prop where
  contract : ofPattern contractStrkeyPattern = some (anchored
    [.chars [('C', 'C')], .times (.chars [('A', 'Z'), ('2', '7')]) 55 (some 55)])
  address : ofPattern addressStrkeyPattern = some (anchored
    [.chars [('C', 'C'), ('G', 'G')], .times (.chars [('A', 'Z'), ('2', '7')]) 55 (some 55)])
  sha256Hex : ofPattern sha256HexPattern = some (anchored
    [.times (.chars [('0', '9'), ('a', 'f')]) 64 (some 64)])
  signerKey : ofPattern signerKeyPattern = some (anchored
    [.times hexPair 1 (some Ir.maxSignerKeyLen)])
  installParam : ofPattern installParamPattern = some (anchored [.times hexPair 0 none])
  ruleName : ofPattern ruleNamePattern = some (anchored [.times (.chars [('\x00', '\x7f')]) 0 none])
  limit : ofPattern limitPattern = some (anchored
    [.times (.chars [('+', '+')]) 0 (some 1), .times (.chars [('0', '0')]) 0 none,
      .chars [('1', '9')], .times (.chars [('0', '9')]) 0 (some 38)])

theorem readings : Readings := by
  constructor <;> decide

/-! ### Addresses and digests -/

/-- A strkey shape is one of its leads, then 55 letters. -/
theorem matches_strkey {pattern text : String} {leads : List UInt8}
    {ranges : List (Char × Char)}
    (read : ofPattern pattern =
      some (anchored [.chars ranges, .times (.chars [('A', 'Z'), ('2', '7')]) 55 (some 55)]))
    (led : ∀ lead ∈ leads, inRanges ranges (Char.ofNat lead.toNat) = true)
    (shape : Ir.isStrkeyShape text leads = true) : Matches pattern text := by
  simp only [Ir.isStrkeyShape, Bool.and_eq_true, decide_eq_true_eq] at shape
  obtain ⟨⟨⟨size, lead⟩, letters⟩, -⟩ := shape
  have passes := List.all_eq_true.mp letters
  have spelled := Classified.toList base32_classified passes
  have inside := Classified.each base32_classified passes
  cases bytes : Ir.utf8 text with
  | nil =>
      rw [bytes] at size
      cases size
  | cons first rest =>
      rw [bytes, List.headD_cons] at lead
      rw [bytes, List.map_cons] at spelled
      rw [bytes, List.length_cons] at size
      rw [spelled] at inside
      have long : (rest.map fun byte => Char.ofNat byte.toNat).length = 55 := by
        rw [List.length_map]
        omega
      have cut : text.toList = [[Char.ofNat first.toNat],
          rest.map fun byte => Char.ofNat byte.toNat].flatten := spelled.trans (by simp)
      refine matches_anchored read cut (.cons (covers_char (led _ lead))
        (.cons (covers_chars ?_ ?_ ?_) .nil))
      · intro c member
        exact inside c (List.mem_cons_of_mem _ member)
      · omega
      · intro bound same
        obtain rfl := Option.some.inj same
        omega

theorem matches_contract {text : String} (shape : Ir.isContractAddressShape text = true) :
    Matches contractStrkeyPattern text := by
  exact matches_strkey (Readings.contract readings) (by simp [inRanges]) shape

theorem matches_address {text : String} (shape : Ir.isAddressShape text = true) :
    Matches addressStrkeyPattern text := by
  exact matches_strkey (Readings.address readings) (by simp [inRanges]) shape

theorem matches_sha256Hex {text : String} (hex : Ir.isSha256Hex text = true) :
    Matches sha256HexPattern text := by
  simp only [Ir.isSha256Hex, Bool.and_eq_true, decide_eq_true_eq] at hex
  have passes := List.all_eq_true.mp hex.2
  have size := (Classified.length digestLetter_classified passes).trans hex.1
  have whole : text.toList = [text.toList].flatten := by simp
  refine matches_anchored (Readings.sha256Hex readings) whole (.cons (covers_chars ?_ ?_ ?_) .nil)
  · exact Classified.each digestLetter_classified passes
  · omega
  · intro bound same
    obtain rfl := Option.some.inj same
    omega

/-! ### Hex -/

theorem hexPairs_digits {text bytes : Bytes} (decoded : hexPairs text = some bytes) :
    ∀ byte ∈ text, (hexNibble byte).isSome = true := by
  induction text using hexPairs.induct generalizing bytes with
  | case1 => simp
  | case2 => cases decoded
  | case3 first second rest ih =>
      obtain ⟨high, low, tail, readHigh, readLow, decodedTail, -⟩ :=
        hexPairs_cons_eq_some.mp decoded
      intro byte member
      rcases List.mem_cons.mp member with rfl | member
      · rw [readHigh, Option.isSome_some]
      · rcases List.mem_cons.mp member with rfl | member
        · rw [readLow, Option.isSome_some]
        · exact ih decodedTail byte member

theorem covers_hex {text : String} {bytes : Bytes} {least : Nat} {most : Option Nat}
    (decoded : hexPairs (Ir.utf8 text) = some bytes) (enough : least ≤ bytes.length)
    (few : ∀ bound ∈ most, bytes.length ≤ bound) :
    (Regex.times hexPair least most).Covers text.toList := by
  have passes := hexPairs_digits decoded
  refine covers_groups (Classified.each hexDigit_classified passes) ?_ enough few
  rw [Classified.length hexDigit_classified passes]
  exact length_of_hexPairs decoded

/-- A signer key's pattern matches every hex text of one to `maxSignerKeyLen`
bytes. -/
theorem matches_signerKey {text : String} {bytes : Bytes}
    (decoded : hexPairs (Ir.utf8 text) = some bytes) (nonempty : bytes ≠ [])
    (few : bytes.length ≤ Ir.maxSignerKeyLen) : Matches signerKeyPattern text := by
  refine matches_anchored (Readings.signerKey readings) (by simp)
    (.cons (covers_hex decoded ?_ ?_) .nil)
  · exact List.length_pos_iff.mpr nonempty
  · intro bound same
    obtain rfl := Option.some.inj same
    exact few

theorem matches_installParam {text : String} {bytes : Bytes}
    (decoded : hexPairs (Ir.utf8 text) = some bytes) : Matches installParamPattern text := by
  refine matches_anchored (Readings.installParam readings) (by simp)
    (.cons (covers_hex decoded ?_ ?_) .nil)
  · exact Nat.zero_le _
  · intro bound same
    cases same

/-! ### Names and limits -/

theorem matches_ruleName {text : String} (ascii : ∀ c ∈ text.toList, c.toNat < 128) :
    Matches ruleNamePattern text := by
  have whole : text.toList = [text.toList].flatten := by simp
  refine matches_anchored (Readings.ruleName readings) whole (.cons (covers_chars ?_ ?_ ?_) .nil)
  · intro c member
    exact inRanges_single.mpr ⟨Nat.zero_le _, Nat.le_of_lt_succ (ascii c member)⟩
  · exact Nat.zero_le _
  · intro bound same
    cases same

theorem exists_zeros (digits : List Char) :
    ∃ zeros rest, digits = List.replicate zeros '0' ++ rest ∧ rest.head? ≠ some '0' := by
  induction digits with
  | nil => exact ⟨0, [], rfl, by simp⟩
  | cons first rest ih =>
      by_cases zero : first = '0'
      · obtain ⟨zeros, significant, rfl, led⟩ := ih
        exact ⟨zeros + 1, significant, by rw [zero, List.replicate_succ, List.cons_append], led⟩
      · refine ⟨0, first :: rest, rfl, ?_⟩
        rw [List.head?_cons]
        exact fun same => zero (Option.some.inj same)

/-- Digits that spell a positive number below a power of ten are zeros, a
digit that is none, and at most so many more. -/
theorem significant_digits {digits : List Char} {places : Nat}
    (decimal : ∀ c ∈ digits, c.isDigit = true) (positive : 0 < Nat.ofDigitChars 10 digits 0)
    (small : Nat.ofDigitChars 10 digits 0 < 10 ^ (places + 1)) :
    ∃ zeros first rest, digits = List.replicate zeros '0' ++ first :: rest ∧
      (49 ≤ first.toNat ∧ first.toNat ≤ 57) ∧ rest.length ≤ places := by
  obtain ⟨zeros, significant, rfl, led⟩ := exists_zeros digits
  rw [Nat.ofDigitChars_append, Nat.ofDigitChars_replicate_zero, Nat.mul_zero] at positive small
  cases significant with
  | nil => simp at positive
  | cons first rest =>
      have range : 48 ≤ first.toNat ∧ first.toNat ≤ 57 := Char.isDigit_iff_toNat.mp
        (decimal first (List.mem_append_right _ List.mem_cons_self))
      have nonzero : first.toNat ≠ 48 := by
        intro zero
        apply led
        rw [List.head?_cons, ← Char.ofNat_toNat first, zero]
      refine ⟨zeros, first, rest, rfl, by omega, ?_⟩
      rw [Nat.ofDigitChars_cons, Nat.ofDigitChars_eq_ofDigitChars_zero] at small
      change 10 ^ rest.length * (10 * 0 + (first.toNat - 48)) + _ < _ at small
      have scaled : 10 ^ rest.length * 1 ≤ 10 ^ rest.length * (10 * 0 + (first.toNat - 48)) :=
        Nat.mul_le_mul_left _ (by omega)
      have below : 10 ^ rest.length < 10 ^ (places + 1) := by omega
      have fewer := (Nat.pow_lt_pow_iff_right (by decide)).mp below
      omega

/-- What `parse::<i128>` reads as a positive number. -/
theorem parseI128_positive {text : String} {value : Int} (parsed : Ir.parseI128 text = some value)
    (positive : 0 < value) : ∃ sign digits, text.toList = sign ++ digits ∧
      (sign = [] ∨ sign = ['+']) ∧ (∀ c ∈ digits, c.isDigit = true) ∧
      (Nat.ofDigitChars 10 digits 0 : Int) = value ∧ value ≤ maxI128 := by
  unfold Ir.parseI128 at parsed
  split at parsed
  rename_i negative body cut
  simp only [Option.ite_none_right_eq_some, Option.some.injEq, List.all_eq_true] at parsed
  obtain ⟨⟨-, digits, -, most⟩, same⟩ := parsed
  rw [same] at most
  split at cut
  · cases cut
    rw [if_pos rfl] at same
    omega
  · rename_i spelled
    cases cut
    exact ⟨['+'], body, spelled, .inr rfl, digits, same, most⟩
  · cases cut
    exact ⟨[], text.toList, rfl, .inl rfl, digits, same, most⟩

/-- A limit's pattern matches every text that `parse::<i128>` reads as a
positive number. -/
theorem matches_limit {text : String} {value : Int} (parsed : Ir.parseI128 text = some value)
    (positive : 0 < value) : Matches limitPattern text := by
  obtain ⟨sign, digits, spelled, signed, decimal, same, bounded⟩ :=
    parseI128_positive parsed positive
  have small : Nat.ofDigitChars 10 digits 0 < 10 ^ (38 + 1) := by
    have wide : maxI128 < 10 ^ (38 + 1) := by decide
    omega
  obtain ⟨zeros, first, rest, rfl, led, few⟩ :=
    significant_digits decimal (by omega) small
  have cut : text.toList = [sign, List.replicate zeros '0', [first], rest].flatten := by
    simp [spelled]
  refine matches_anchored (Readings.limit readings) cut
    (.cons ?_ (.cons ?_ (.cons ?_ (.cons ?_ .nil))))
  · rcases signed with rfl | rfl
    · exact covers_chars (by simp) (by simp) (by simp)
    · exact covers_chars (by simp [inRanges_single]) (by simp) (by simp)
  · apply covers_chars
    · intro c member
      rw [List.eq_of_mem_replicate member]
      exact inRanges_single.mpr ⟨Nat.le_refl _, Nat.le_refl _⟩
    · exact Nat.zero_le _
    · simp
  · exact covers_char (inRanges_single.mpr led)
  · apply covers_chars
    · intro c member
      exact inRanges_single.mpr (Char.isDigit_iff_toNat.mp
        (decimal c (List.mem_append_right _ (List.mem_cons_of_mem _ member))))
    · exact Nat.zero_le _
    · intro bound same
      obtain rfl := Option.some.inj same
      exact few

end Perch.PerchSchema
