/-
Codes whose words can be told off the front of a longer text.

A code relates values to words, so a value may have no word at all.  Codes of
one length, length-framed bytes, and what is put together from them are
prefix-free.
-/

import Mathlib.Data.List.Forall2
import Perch.Machine.BigEndian

namespace Perch.Machine

section Codes

variable {α β σ : Type}

/-- The word at the front of a text is the only one there. -/
def PrefixFree (code : α → List σ → Prop) : Prop :=
  ∀ ⦃x y : α⦄ ⦃a b s t : List σ⦄, code x a → code y b → a ++ s = b ++ t → x = y ∧ a = b ∧ s = t

variable {code : α → List σ → Prop}

theorem PrefixFree.injective (free : PrefixFree code) {x y : α} {a : List σ} (first : code x a)
    (second : code y a) : x = y :=
  (free (s := []) first second rfl).1

theorem PrefixFree.of_isPrefix (free : PrefixFree code) {x y : α} {a b : List σ}
    (first : code x a) (second : code y b) (initial : a <+: b) : x = y ∧ a = b := by
  obtain ⟨rest, rfl⟩ := initial
  obtain ⟨same, words, -⟩ := free first second (s := rest) (t := []) (List.append_nil _).symm
  exact ⟨same, words⟩

theorem PrefixFree.of_length (width : Nat) (sizes : ∀ x a, code x a → a.length = width)
    (injective : ∀ x y a, code x a → code y a → x = y) : PrefixFree code := by
  intro x y a b s t first second same
  obtain ⟨words, rest⟩ := List.append_inj same ((sizes x a first).trans (sizes y b second).symm)
  subst words
  exact ⟨injective x y a first second, rfl, rest⟩

def Repeated (code : α → List σ → Prop) (items : List α) (a : List σ) : Prop :=
  ∃ words, List.Forall₂ code items words ∧ a = words.flatten

theorem exists_repeated {items : List α} :
    (∃ a, Repeated code items a) ↔ ∀ item ∈ items, ∃ word, code item word := by
  induction items with
  | nil => exact ⟨fun _ item member => absurd member List.not_mem_nil, fun _ => ⟨_, [], .nil, rfl⟩⟩
  | cons item rest ih =>
      rw [List.forall_mem_cons, ← ih]
      constructor
      · rintro ⟨_, words, aligned, -⟩
        cases aligned with
        | @cons _ word _ words head tail => exact ⟨⟨word, head⟩, _, words, tail, rfl⟩
      · rintro ⟨⟨word, head⟩, _, words, tail, -⟩
        exact ⟨_, word :: words, .cons head tail, rfl⟩

theorem repeated_nil {a : List σ} : Repeated code [] a ↔ a = [] := by
  constructor
  · rintro ⟨words, aligned, rfl⟩
    cases aligned
    rfl
  · rintro rfl
    exact ⟨[], .nil, rfl⟩

theorem repeated_cons {item : α} {rest : List α} {a : List σ} :
    Repeated code (item :: rest) a ↔
      ∃ word body, code item word ∧ Repeated code rest body ∧ a = word ++ body := by
  constructor
  · rintro ⟨_, aligned, rfl⟩
    cases aligned with
    | @cons _ word _ words head tail =>
        exact ⟨word, words.flatten, head, ⟨words, tail, rfl⟩, List.flatten_cons⟩
  · rintro ⟨word, _, head, ⟨words, tail, rfl⟩, rfl⟩
    exact ⟨word :: words, .cons head tail, List.flatten_cons.symm⟩

/-- The words of a list whose items each have their own. -/
theorem repeated_flatMap {word : α → List σ} {items : List α}
    (coded : ∀ item ∈ items, code item (word item)) :
    Repeated code items (items.flatMap word) := by
  induction items with
  | nil => exact repeated_nil.mpr rfl
  | cons item rest ih =>
      exact repeated_cons.mpr ⟨word item, rest.flatMap word, coded item List.mem_cons_self,
        ih fun other member => coded other (List.mem_cons_of_mem _ member), rfl⟩

/-- Lists of one length are told apart although their words are not framed. -/
theorem PrefixFree.repeated (free : PrefixFree code) {left right : List α} {a b s t : List σ}
    (first : Repeated code left a) (second : Repeated code right b)
    (sizes : left.length = right.length) (same : a ++ s = b ++ t) :
    left = right ∧ a = b ∧ s = t := by
  obtain ⟨words, aligned, rfl⟩ := first
  obtain ⟨words', aligned', rfl⟩ := second
  induction aligned generalizing right words' with
  | nil =>
      obtain rfl := List.length_eq_zero_iff.mp sizes.symm
      cases aligned'
      exact ⟨rfl, rfl, same⟩
  | @cons x word items words head _ ih =>
      cases aligned' with
      | nil => cases sizes
      | @cons y word' items' words' head' tail' =>
          rw [List.flatten_cons, List.flatten_cons, List.append_assoc, List.append_assoc] at same
          obtain ⟨sameItem, sameWord, same⟩ := free head head' same
          have shorter : items.length = items'.length := by simpa using sizes
          obtain ⟨sameItems, sameWords, rest⟩ := ih shorter _ tail' same
          subst sameItem sameWord sameItems
          rw [List.flatten_cons, List.flatten_cons, sameWords]
          exact ⟨rfl, rfl, rest⟩

end Codes

/-! ### Frames of bytes -/

section Frames

variable {α : Type} (width : Nat)

def Framed (payload a : List UInt8) : Prop :=
  payload.length < 256 ^ width ∧ a = beBytes width payload.length ++ payload

theorem framed_prefixFree : PrefixFree (Framed width) := by
  rintro x y a b s t ⟨fits, rfl⟩ ⟨fits', rfl⟩ same
  rw [List.append_assoc, List.append_assoc] at same
  obtain ⟨lengths, same⟩ := List.append_inj same (by simp)
  obtain ⟨payloads, rest⟩ := List.append_inj same (beBytes_injective fits fits' lengths)
  subst payloads
  exact ⟨rfl, rfl, rest⟩

def Counted (code : α → List UInt8 → Prop) (items : List α) (a : List UInt8) : Prop :=
  items.length < 256 ^ width ∧ ∃ body, Repeated code items body ∧
    a = beBytes width items.length ++ body

theorem PrefixFree.counted {code : α → List UInt8 → Prop} (free : PrefixFree code) :
    PrefixFree (Counted width code) := by
  rintro x y a b s t ⟨fits, body, listed, rfl⟩ ⟨fits', body', listed', rfl⟩ same
  rw [List.append_assoc, List.append_assoc] at same
  obtain ⟨counts, same⟩ := List.append_inj same (by simp)
  have sizes := beBytes_injective fits fits' counts
  obtain ⟨items, bodies, rest⟩ := free.repeated listed listed' sizes same
  subst items bodies
  exact ⟨rfl, rfl, rest⟩

end Frames

end Perch.Machine
