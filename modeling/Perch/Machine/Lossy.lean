/-
What a text's UTF-8 keeps of it.

`TextEncoder` writes one character for each point of a text, the replacement
character for a lone surrogate.  A text of characters other than that one is
determined by what is written; every other text shares it with a twin.
-/

import Perch.Machine.Js
import Perch.Machine.Utf8

namespace Perch.Machine.Js

open Utf8 (replacementCharacter)

/-! ### Points and code units -/

def Opens (text : Text) : Prop := ∀ unit ∈ text.head?, isLow unit = false

theorem point_units (unit : UInt16) : (point unit).units = [unit] := by
  rw [point]
  split
  · rfl
  · rename_i own
    have range : (UInt16.toNat unit) < 0xD800 ∨ 0xDFFF < unit.toNat := by
      simp only [isHigh, isLow, Bool.or_eq_true, Bool.and_eq_true, decide_eq_true_eq, not_or,
        not_and_or, UInt16.le_iff_toNat_le, UInt16.lt_iff_toNat_lt, UInt16.reduceToNat] at own
      omega
    have small := unit.toNat_lt
    have valid : unit.toNat.isValidChar := by
      rcases range with low | high
      · exact Or.inl low
      · exact Or.inr ⟨high, by omega⟩
    have value : (Char.ofNat unit.toNat).toNat = unit.toNat := Utf8.toNat_ofNat valid
    rw [Point.units, charUnits_of_lt (by omega), value, UInt16.ofNat_toNat]

theorem charUnits_paired {high low : UInt16} (isPair : (isHigh high && isLow low) = true) :
    charUnits (paired high low) = [high, low] := by
  simp only [isHigh, isLow, Bool.and_eq_true, decide_eq_true_eq, UInt16.le_iff_toNat_le,
    UInt16.lt_iff_toNat_lt, UInt16.reduceToNat] at isPair
  have valid : (0x10000 + (high.toNat - 0xD800) * 0x400 + (low.toNat - 0xDC00)).isValidChar :=
    Or.inr ⟨by omega, by omega⟩
  have value : (paired high low).toNat =
      0x10000 + (high.toNat - 0xD800) * 0x400 + (low.toNat - 0xDC00) := Utf8.toNat_ofNat valid
  have first : 0xD800 + ((paired high low).toNat - 0x10000) / 0x400 = high.toNat := by omega
  have second : 0xDC00 + ((paired high low).toNat - 0x10000) % 0x400 = low.toNat := by omega
  rw [charUnits, if_neg (by omega), first, second, UInt16.ofNat_toNat, UInt16.ofNat_toNat]

theorem units_points (text : Text) : (points text).flatMap Point.units = text := by
  fun_induction points text with
  | case1 => rfl
  | case2 unit => rw [List.flatMap_singleton, point_units]
  | case3 unit next rest isPair ih =>
      rw [List.flatMap_cons, ih, Point.units, charUnits_paired isPair]
      rfl
  | case4 unit next rest isPair ih =>
      rw [List.flatMap_cons, ih, point_units]
      rfl

theorem points_injective {left right : Text} (same : points left = points right) :
    left = right := by
  rw [← units_points left, same, units_points]

/-- A unit that does not pair up with what follows it stands alone. -/
theorem points_cons {unit : UInt16} {rest : Text} (alone : isHigh unit = true → Opens rest) :
    points (unit :: rest) = point unit :: points rest := by
  cases rest with
  | nil => rfl
  | cons next rest =>
      rw [points, if_neg]
      intro isPair
      rw [Bool.and_eq_true] at isPair
      have opens := alone isPair.1 next rfl
      rw [isPair.2] at opens
      cases opens

theorem opens_charUnits (c : Char) (rest : Text) : Opens (charUnits c ++ rest) := by
  intro unit member
  have outside := Char.not_surrogate c
  by_cases small : c.toNat < 0x10000
  · have value := toNat_of_bmp small
    rw [charUnits_of_lt small, List.singleton_append, List.head?_cons] at member
    obtain rfl := Option.mem_some.mp member
    simp only [isLow, Bool.and_eq_false_iff, decide_eq_false_iff_not, UInt16.le_iff_toNat_le,
      UInt16.lt_iff_toNat_lt, value, UInt16.reduceToNat]
    omega
  · obtain ⟨high, _, _⟩ := paired_surrogates small
    rw [charUnits, if_neg small, List.cons_append, List.head?_cons] at member
    obtain rfl := Option.mem_some.mp member
    simp only [isHigh, isLow, Bool.and_eq_true, Bool.and_eq_false_iff, decide_eq_true_eq,
      decide_eq_false_iff_not, UInt16.le_iff_toNat_le, UInt16.lt_iff_toNat_lt,
      UInt16.reduceToNat] at high ⊢
    omega

/-- The points on both sides of a character. -/
theorem points_between (before : Text) (c : Char) (after : Text) :
    points (before ++ (charUnits c ++ after)) = points before ++ .scalar c :: points after := by
  fun_induction points before with
  | case1 => exact points_char c after
  | case2 unit =>
      rw [List.singleton_append, points_cons fun _ => opens_charUnits c after, points_char]
      rfl
  | case3 unit next rest isPair ih =>
      rw [List.cons_append, List.cons_append, points, if_pos isPair, ih]
      rfl
  | case4 unit next rest isPair ih =>
      rw [List.cons_append, List.cons_append, points, if_neg isPair, ← List.cons_append, ih]
      rfl

/-! ### What is written -/

def decoded (text : Text) : List Char := (points text).map Point.encoded

theorem encodeText_decoded (text : Text) :
    encodeText text = (String.ofList (decoded text)).toUTF8.data.toList := rfl

@[simp] theorem decoded_nil : decoded [] = [] := rfl

theorem decoded_chars_append (characters : List Char) (rest : Text) :
    decoded (chars characters ++ rest) = characters ++ decoded rest := by
  induction characters with
  | nil => rfl
  | cons c more ih =>
      have split : chars (c :: more) ++ rest = charUnits c ++ (chars more ++ rest) := by
        rw [chars, List.flatMap_cons, List.append_assoc]
        rfl
      rw [split, decoded, points_char, List.map_cons, List.cons_append]
      exact congrArg (c :: ·) ih

theorem decoded_chars (characters : List Char) : decoded (chars characters) = characters := by
  have whole := decoded_chars_append characters []
  rwa [List.append_nil, decoded_nil, List.append_nil] at whole

theorem decoded_utf16 (s : String) : decoded (utf16 s) = s.toList := decoded_chars s.toList

theorem decoded_between (before : Text) (c : Char) (after : Text) :
    decoded (before ++ (charUnits c ++ after)) = decoded before ++ c :: decoded after := by
  rw [decoded, points_between, List.map_append]
  rfl

/-! ### Texts that are determined -/

/-- Characters only, and none the replacement character. -/
def Determined (text : Text) : Prop :=
  ∀ p ∈ points text, ∃ c, p = .scalar c ∧ c ≠ replacementCharacter

theorem determined_iff {text : Text} : Determined text ↔ replacementCharacter ∉ decoded text := by
  constructor
  · intro determined member
    obtain ⟨p, present, encoded⟩ := List.mem_map.mp member
    obtain ⟨c, rfl, other⟩ := determined p present
    exact other encoded
  · intro absent p present
    have written : p.encoded ∈ decoded text := List.mem_map_of_mem present
    cases p with
    | scalar c =>
        refine ⟨c, rfl, ?_⟩
        intro same
        exact absent (same ▸ written)
    | lone unit => exact absurd written absent

instance instDecidableDetermined (text : Text) : Decidable (Determined text) :=
  decidable_of_iff _ determined_iff.symm

theorem Determined.points {text : Text} (determined : Determined text) :
    points text = (decoded text).map .scalar := by
  have each : ∀ p ∈ Js.points text, p = (Point.scalar ∘ Point.encoded) p := by
    intro p present
    obtain ⟨c, same, _⟩ := determined p present
    rw [same]
    rfl
  rw [decoded, List.map_map, ← List.map_congr_left each, List.map_id']

/-- Such a text is the only one written like it. -/
theorem Determined.unique {text other : Text} (determined : Determined text)
    (same : decoded other = decoded text) : other = text := by
  have also : Determined other := by
    rw [determined_iff, same, ← determined_iff]
    exact determined
  apply points_injective
  rw [also.points, determined.points, same]

theorem determined_utf16 {s : String} (clean : replacementCharacter ∉ s.toList) :
    Determined (utf16 s) := by
  rw [determined_iff, decoded_utf16]
  exact clean

/-! ### Twins -/

def scrubbed (text : Text) : Text := chars (decoded text)

def unscrubbed (text : Text) : Text :=
  text.map fun unit => if unit = 0xFFFD then 0xD800 else unit

/-- Another text that is written alike, where there is one. -/
def twin (text : Text) : Text :=
  if scrubbed text = text then unscrubbed text else scrubbed text

theorem decoded_unscrubbed (characters : List Char) :
    decoded (unscrubbed (chars characters)) = characters := by
  have shape : ∀ c : Char, unscrubbed (charUnits c) =
      if c = replacementCharacter then [0xD800] else charUnits c := by
    intro c
    split
    · rename_i same
      rw [same]
      decide
    · rename_i other
      have each : ∀ unit ∈ charUnits c, unit ≠ 0xFFFD := by
        intro unit member same
        subst same
        by_cases small : c.toNat < 0x10000
        · rw [charUnits_of_lt small, List.mem_singleton] at member
          have value := congrArg UInt16.toNat member
          rw [toNat_of_bmp small] at value
          apply other
          rw [← Char.ofNat_toNat c, ← value]
          rfl
        · rw [charUnits, if_neg small] at member
          have bound : c.toNat < 0x110000 := by
            rcases c.valid with low | ⟨_, high⟩
            · exact Nat.lt_trans low (by decide)
            · exact high
          rcases List.mem_cons.mp member with first | second
          · have value := congrArg UInt16.toNat first
            rw [UInt16.toNat_ofNat', Nat.mod_eq_of_lt (by omega)] at value
            change 0xFFFD = _ at value
            omega
          · have value := congrArg UInt16.toNat (List.mem_singleton.mp second)
            rw [UInt16.toNat_ofNat', Nat.mod_eq_of_lt (by omega)] at value
            change 0xFFFD = _ at value
            omega
      exact (List.map_congr_left fun unit member => if_neg (each unit member)).trans
        (List.map_id' _)
  induction characters with
  | nil => rfl
  | cons c rest ih =>
      have split : unscrubbed (chars (c :: rest)) =
          unscrubbed (charUnits c) ++ unscrubbed (chars rest) := List.map_append
      rw [split, shape c]
      split
      · rename_i same
        have opens : Opens (unscrubbed (chars rest)) := by
          intro unit member
          rw [unscrubbed, List.head?_map] at member
          obtain ⟨first, held, rfl⟩ := Option.map_eq_some_iff.mp member
          split
          · decide
          · cases rest with
            | nil => cases held
            | cons next more =>
                rw [chars, List.flatMap_cons] at held
                exact opens_charUnits next _ first held
        rw [List.singleton_append, decoded, points_cons fun _ => opens, List.map_cons, same]
        exact congrArg (replacementCharacter :: ·) ih
      · have single := decoded_chars_append [c] (unscrubbed (chars rest))
        rw [chars, List.flatMap_singleton, ih] at single
        exact single

theorem decoded_twin (text : Text) : decoded (twin text) = decoded text := by
  rw [twin]
  split
  · rename_i clean
    rw [← clean, scrubbed, decoded_unscrubbed, decoded_chars]
  · exact decoded_chars _

/-- Only a text that is determined is its own twin. -/
theorem determined_of_twin {text : Text} (same : twin text = text) : Determined text := by
  rw [twin] at same
  split at same
  · rename_i clean
    rw [determined_iff]
    intro member
    have present : (0xFFFD : UInt16) ∈ text := by
      rw [← clean, scrubbed, chars]
      exact List.mem_flatMap.mpr ⟨replacementCharacter, member, by decide⟩
    rw [← same, unscrubbed] at present
    obtain ⟨unit, _, mapped⟩ := List.mem_map.mp present
    split at mapped
    · cases mapped
    · rename_i other
      exact other mapped
  · rename_i unclean
    exact absurd same unclean

end Perch.Machine.Js
