/-
UTF-8 decoding: strict, as a text or not at all, and lossy, with one
replacement character for each maximal ill-formed part.
-/

import Mathlib.Data.List.Basic

namespace Perch.Machine.Utf8

def decode (bytes : List UInt8) : Option String := String.fromUTF8? ⟨bytes.toArray⟩

theorem decode_encode (s : String) : decode s.toUTF8.data.toList = some s := by
  simp only [decode, String.fromUTF8?, Array.toArray_toList]
  exact dif_pos s.isValidUTF8

theorem encode_decode {bytes : List UInt8} {s : String} (decoded : decode bytes = some s) :
    s.toUTF8.data.toList = bytes := by
  unfold decode String.fromUTF8? at decoded
  split at decoded
  · obtain rfl := Option.some.inj decoded
    simp [String.fromUTF8, String.toUTF8]
  · cases decoded

/-! ### Lossy decoding -/

def isContinuation (b : UInt8) : Bool := 0x80 ≤ b && b ≤ 0xBF

def width (b : UInt8) : Nat :=
  if b < 0x80 then 1
  else if 0xC2 ≤ b ∧ b ≤ 0xDF then 2
  else if 0xE0 ≤ b ∧ b ≤ 0xEF then 3
  else if 0xF0 ≤ b ∧ b ≤ 0xF4 then 4
  else 0

/-- Second bytes are narrower after some first bytes: no overlong forms, no
surrogates, nothing past the last code point. -/
def secondOk (first second : UInt8) : Bool :=
  if first = 0xE0 then 0xA0 ≤ second && second ≤ 0xBF
  else if first = 0xED then 0x80 ≤ second && second ≤ 0x9F
  else if first = 0xF0 then 0x90 ≤ second && second ≤ 0xBF
  else if first = 0xF4 then 0x80 ≤ second && second ≤ 0x8F
  else isContinuation second

def payload (b : UInt8) : Nat := b.toNat % 0x40

def replacementCharacter : Char := Char.ofNat 0xFFFD

def lossyChars : List UInt8 → List Char
  | [] => []
  | a :: rest =>
      if width a = 1 then Char.ofNat a.toNat :: lossyChars rest
      else if width a = 0 then replacementCharacter :: lossyChars rest
      else match rest with
        | [] => [replacementCharacter]
        | b :: rest' =>
            if secondOk a b = false then replacementCharacter :: lossyChars (b :: rest')
            else if width a = 2 then
              Char.ofNat (a.toNat % 0x20 * 0x40 + payload b) :: lossyChars rest'
            else match rest' with
              | [] => [replacementCharacter]
              | c :: rest'' =>
                  if isContinuation c = false then replacementCharacter :: lossyChars (c :: rest'')
                  else if width a = 3 then
                    Char.ofNat (a.toNat % 0x10 * 0x1000 + payload b * 0x40 + payload c) ::
                      lossyChars rest''
                  else match rest'' with
                    | [] => [replacementCharacter]
                    | d :: rest''' =>
                        if isContinuation d = false then
                          replacementCharacter :: lossyChars (d :: rest''')
                        else
                          Char.ofNat (a.toNat % 0x08 * 0x40000 + payload b * 0x1000 +
                            payload c * 0x40 + payload d) :: lossyChars rest'''

/-- The text of a byte string, ill-formed parts replaced. -/
def lossy (bytes : List UInt8) : String := String.ofList (lossyChars bytes)

example : lossy [0x41, 0xE2, 0x82, 0xAC, 0xE2, 0x82, 0x42, 0xFF] =
    String.ofList ['A', Char.ofNat 0x20AC, replacementCharacter, 'B', replacementCharacter] := by
  decide

/-! ### What lossy decoding keeps -/

theorem width_eq_one {a : UInt8} : width a = 1 ↔ a.toNat < 0x80 := by
  unfold width
  simp only [UInt8.lt_iff_toNat_lt, UInt8.le_iff_toNat_le, UInt8.reduceToNat]
  split_ifs
  all_goals simp_all

theorem width_eq_two {a : UInt8} : width a = 2 ↔ 0xC2 ≤ a.toNat ∧ a.toNat ≤ 0xDF := by
  unfold width
  simp only [UInt8.lt_iff_toNat_lt, UInt8.le_iff_toNat_le, UInt8.reduceToNat]
  split_ifs
  all_goals simp_all
  all_goals omega

theorem width_eq_three {a : UInt8} : width a = 3 ↔ 0xE0 ≤ a.toNat ∧ a.toNat ≤ 0xEF := by
  unfold width
  simp only [UInt8.lt_iff_toNat_lt, UInt8.le_iff_toNat_le, UInt8.reduceToNat]
  split_ifs
  all_goals simp_all
  all_goals omega

theorem width_eq_four {a : UInt8} : width a = 4 ↔ 0xF0 ≤ a.toNat ∧ a.toNat ≤ 0xF4 := by
  unfold width
  simp only [UInt8.lt_iff_toNat_lt, UInt8.le_iff_toNat_le, UInt8.reduceToNat]
  split_ifs
  all_goals simp_all
  all_goals omega

theorem isContinuation_iff {b : UInt8} :
    isContinuation b = true ↔ 0x80 ≤ b.toNat ∧ b.toNat ≤ 0xBF := by
  simp [isContinuation, UInt8.le_iff_toNat_le]

theorem secondOk_iff {a b : UInt8} :
    secondOk a b = true ↔ 0x80 ≤ b.toNat ∧ b.toNat ≤ 0xBF ∧
      (a.toNat = 0xE0 → 0xA0 ≤ b.toNat) ∧ (a.toNat = 0xED → b.toNat ≤ 0x9F) ∧
      (a.toNat = 0xF0 → 0x90 ≤ b.toNat) ∧ (a.toNat = 0xF4 → b.toNat ≤ 0x8F) := by
  unfold secondOk
  simp only [← UInt8.toNat_inj, UInt8.reduceToNat]
  split_ifs
  all_goals simp [isContinuation_iff, UInt8.le_iff_toNat_le, *]
  all_goals omega

section Sequences

variable {a b c d : UInt8} {rest : List UInt8}

theorem lossyChars_cons : lossyChars (a :: rest) =
    if width a = 1 then Char.ofNat a.toNat :: lossyChars rest
    else if width a = 0 then replacementCharacter :: lossyChars rest
    else match rest with
      | [] => [replacementCharacter]
      | b :: rest' =>
          if secondOk a b = false then replacementCharacter :: lossyChars (b :: rest')
          else if width a = 2 then
            Char.ofNat (a.toNat % 0x20 * 0x40 + payload b) :: lossyChars rest'
          else match rest' with
            | [] => [replacementCharacter]
            | c :: rest'' =>
                if isContinuation c = false then replacementCharacter :: lossyChars (c :: rest'')
                else if width a = 3 then
                  Char.ofNat (a.toNat % 0x10 * 0x1000 + payload b * 0x40 + payload c) ::
                    lossyChars rest''
                else match rest'' with
                  | [] => [replacementCharacter]
                  | d :: rest''' =>
                      if isContinuation d = false then
                        replacementCharacter :: lossyChars (d :: rest''')
                      else
                        Char.ofNat (a.toNat % 0x08 * 0x40000 + payload b * 0x1000 +
                          payload c * 0x40 + payload d) :: lossyChars rest''' := by
  rw [lossyChars.eq_def]

theorem lossyChars_one (wide : width a = 1) :
    lossyChars (a :: rest) = Char.ofNat a.toNat :: lossyChars rest := by
  rw [lossyChars_cons, if_pos wide]

theorem lossyChars_two (wide : width a = 2) (second : secondOk a b = true) :
    lossyChars (a :: b :: rest) =
      Char.ofNat (a.toNat % 0x20 * 0x40 + payload b) :: lossyChars rest := by
  rw [lossyChars_cons]
  simp [wide, second]

theorem lossyChars_three (wide : width a = 3) (second : secondOk a b = true)
    (third : isContinuation c = true) :
    lossyChars (a :: b :: c :: rest) =
      Char.ofNat (a.toNat % 0x10 * 0x1000 + payload b * 0x40 + payload c) :: lossyChars rest := by
  rw [lossyChars_cons]
  simp [wide, second, third]

theorem lossyChars_four (wide : width a = 4) (second : secondOk a b = true)
    (third : isContinuation c = true) (fourth : isContinuation d = true) :
    lossyChars (a :: b :: c :: d :: rest) =
      Char.ofNat (a.toNat % 0x08 * 0x40000 + payload b * 0x1000 + payload c * 0x40 +
        payload d) :: lossyChars rest := by
  rw [lossyChars_cons]
  simp [wide, second, third, fourth]

end Sequences

theorem toNat_ofNat {n : Nat} (valid : n.isValidChar) : (Char.ofNat n).toNat = n := by
  rw [Char.ofNat, dif_pos valid]
  rfl

/-- Decoding reads a character's encoding as the character. -/
theorem lossyChars_encode (c : Char) (rest : List UInt8) :
    lossyChars (String.utf8EncodeChar c ++ rest) = c :: lossyChars rest := by
  have valid : c.val.toNat < 0xD800 ∨ 0xDFFF < c.val.toNat ∧ c.val.toNat < 0x110000 := c.valid
  have same {n : Nat} (value : n = c.val.toNat) : Char.ofNat n = c := by
    rw [value]
    exact Char.ofNat_toNat c
  have byte {n : Nat} (small : n < 256) : (UInt8.ofNat n).toNat = n :=
    UInt8.toNat_ofNat_of_lt' small
  unfold String.utf8EncodeChar
  dsimp only
  split_ifs with one two three
  · have first := byte (n := c.val.toNat) (by omega)
    refine (lossyChars_one (Iff.mpr width_eq_one (by omega))).trans ?_
    rw [first, same rfl]
    rfl
  · have first := byte (n := c.val.toNat / 64 % 0x20 + 0xc0) (by omega)
    have second := byte (n := c.val.toNat % 0x40 + 0x80) (by omega)
    refine (lossyChars_two (Iff.mpr width_eq_two (by omega))
      (Iff.mpr secondOk_iff (by omega))).trans ?_
    rw [payload, first, second, same (by omega)]
    rfl
  · have first := byte (n := c.val.toNat / 4096 % 0x10 + 0xe0) (by omega)
    have second := byte (n := c.val.toNat / 64 % 0x40 + 0x80) (by omega)
    have third := byte (n := c.val.toNat % 0x40 + 0x80) (by omega)
    refine (lossyChars_three (Iff.mpr width_eq_three (by omega)) (Iff.mpr secondOk_iff (by omega))
      (Iff.mpr isContinuation_iff (by omega))).trans ?_
    rw [payload, payload, first, second, third, same (by omega)]
    rfl
  · have first := byte (n := c.val.toNat / 262144 % 0x08 + 0xf0) (by omega)
    have second := byte (n := c.val.toNat / 4096 % 0x40 + 0x80) (by omega)
    have third := byte (n := c.val.toNat / 64 % 0x40 + 0x80) (by omega)
    have fourth := byte (n := c.val.toNat % 0x40 + 0x80) (by omega)
    refine (lossyChars_four (Iff.mpr width_eq_four (by omega)) (Iff.mpr secondOk_iff (by omega))
      (Iff.mpr isContinuation_iff (by omega)) (Iff.mpr isContinuation_iff (by omega))).trans ?_
    rw [payload, payload, payload, first, second, third, fourth, same (by omega)]
    rfl

theorem lossyChars_ascii {bytes : List UInt8} (ascii : ∀ byte ∈ bytes, byte < 128) :
    lossyChars bytes = bytes.map fun byte => Char.ofNat byte.toNat := by
  induction bytes with
  | nil => rfl
  | cons byte rest ih =>
      rw [List.forall_mem_cons] at ascii
      have small : byte.toNat < 128 := UInt8.lt_iff_toNat_lt.mp ascii.1
      rw [lossyChars_one (Iff.mpr width_eq_one small), ih ascii.2, List.map_cons]

theorem lossyChars_flatMap (text : List Char) :
    lossyChars (text.flatMap String.utf8EncodeChar) = text := by
  induction text with
  | nil => rfl
  | cons c rest ih => rw [List.flatMap_cons, lossyChars_encode, ih]

theorem lossy_encode (s : String) : lossy s.toUTF8.data.toList = s := by
  obtain ⟨text, rfl⟩ : ∃ text, s = String.ofList text := ⟨s.toList, String.ofList_toList.symm⟩
  have bytes : (String.ofList text).toUTF8.data.toList = text.flatMap String.utf8EncodeChar := by
    simp [String.toUTF8, List.utf8Encode]
  rw [lossy, bytes, lossyChars_flatMap]

section Sequences

variable {a b c d : UInt8}

theorem encode_one (wide : width a = 1) : String.utf8EncodeChar (Char.ofNat a.toNat) = [a] := by
  have small := Iff.mp width_eq_one wide
  have value := toNat_ofNat (n := a.toNat) (.inl (by omega))
  unfold String.utf8EncodeChar
  change (Char.ofNat a.toNat).val.toNat = _ at value
  rw [value]
  dsimp only
  rw [if_pos (by omega), UInt8.ofNat_toNat]

theorem byte_eq {n : Nat} (byte : UInt8) (value : n = byte.toNat) : UInt8.ofNat n = byte := by
  rw [value, UInt8.ofNat_toNat]

theorem encode_two (wide : width a = 2) (second : secondOk a b = true) :
    String.utf8EncodeChar (Char.ofNat (a.toNat % 0x20 * 0x40 + payload b)) = [a, b] := by
  have first := Iff.mp width_eq_two wide
  have second := Iff.mp secondOk_iff second
  unfold payload
  have value := toNat_ofNat (n := a.toNat % 0x20 * 0x40 + b.toNat % 0x40) (.inl (by omega))
  change (Char.ofNat _).val.toNat = _ at value
  unfold String.utf8EncodeChar
  rw [value]
  dsimp only
  rw [if_neg (by omega), if_pos (by omega), byte_eq a (by omega),
    byte_eq b (by omega)]

theorem encode_three (wide : width a = 3) (second : secondOk a b = true)
    (third : isContinuation c = true) :
    String.utf8EncodeChar
      (Char.ofNat (a.toNat % 0x10 * 0x1000 + payload b * 0x40 + payload c)) = [a, b, c] := by
  have first := Iff.mp width_eq_three wide
  have second := Iff.mp secondOk_iff second
  have third := Iff.mp isContinuation_iff third
  unfold payload
  have valid : (a.toNat % 0x10 * 0x1000 + b.toNat % 0x40 * 0x40 + c.toNat % 0x40).isValidChar := by
    unfold Nat.isValidChar
    omega
  have value := toNat_ofNat valid
  change (Char.ofNat _).val.toNat = _ at value
  unfold String.utf8EncodeChar
  rw [value]
  dsimp only
  rw [if_neg (by omega), if_neg (by omega), if_pos (by omega), byte_eq a (by omega),
    byte_eq b (by omega), byte_eq c (by omega)]

theorem encode_four (wide : width a = 4) (second : secondOk a b = true)
    (third : isContinuation c = true) (fourth : isContinuation d = true) :
    String.utf8EncodeChar
      (Char.ofNat (a.toNat % 0x08 * 0x40000 + payload b * 0x1000 + payload c * 0x40 +
        payload d)) = [a, b, c, d] := by
  have first := Iff.mp width_eq_four wide
  have second := Iff.mp secondOk_iff second
  have third := Iff.mp isContinuation_iff third
  have fourth := Iff.mp isContinuation_iff fourth
  unfold payload
  have valid : (a.toNat % 0x08 * 0x40000 + b.toNat % 0x40 * 0x1000 + c.toNat % 0x40 * 0x40 +
      d.toNat % 0x40).isValidChar := by
    unfold Nat.isValidChar
    omega
  have value := toNat_ofNat valid
  change (Char.ofNat _).val.toNat = _ at value
  unfold String.utf8EncodeChar
  rw [value]
  dsimp only
  rw [if_neg (by omega), if_neg (by omega), if_neg (by omega), byte_eq a (by omega),
    byte_eq b (by omega), byte_eq c (by omega), byte_eq d (by omega)]

end Sequences

theorem width_le_four (a : UInt8) : width a ≤ 4 := by
  unfold width
  split_ifs
  all_goals omega

/-- Bytes that decode without a replacement character are an encoding. -/
theorem encode_lossyChars {bytes : List UInt8} (clean : replacementCharacter ∉ lossyChars bytes) :
    (lossyChars bytes).flatMap String.utf8EncodeChar = bytes := by
  fun_induction lossyChars bytes with
  | case1 => rfl
  | case2 a rest one ih =>
      rw [List.flatMap_cons, encode_one one, ih (fun later => clean (List.mem_cons_of_mem _ later))]
      rfl
  | case6 a one zero b rest second two ih =>
      rw [Bool.not_eq_false] at second
      rw [List.flatMap_cons, encode_two two second,
        ih (fun later => clean (List.mem_cons_of_mem _ later))]
      rfl
  | case9 a one zero b second two c rest third three ih =>
      rw [Bool.not_eq_false] at second third
      rw [List.flatMap_cons, encode_three three second third,
        ih (fun later => clean (List.mem_cons_of_mem _ later))]
      rfl
  | case12 a one zero b second two c third three d rest fourth ih =>
      rw [Bool.not_eq_false] at second third fourth
      have four : width a = 4 := by
        have most := width_le_four a
        omega
      rw [List.flatMap_cons, encode_four four second third fourth,
        ih (fun later => clean (List.mem_cons_of_mem _ later))]
      rfl
  | _ => exact absurd List.mem_cons_self clean

end Perch.Machine.Utf8
