/-
Facts about lists the developments above need and the library lacks.
-/

import Mathlib.Data.List.Forall2
import Mathlib.Data.List.GetD
import Mathlib.Data.List.Nodup
import Mathlib.Data.Set.Function

namespace Perch.Machine

variable {α β : Type}

theorem exists_of_mem_left {related : α → β → Prop} {left : List α} {right : List β}
    (aligned : List.Forall₂ related left right) {a : α} (member : a ∈ left) :
    ∃ b ∈ right, related a b := by
  induction aligned with
  | nil => cases member
  | @cons first second left right head _ ih =>
      rcases List.mem_cons.mp member with rfl | member
      · exact ⟨second, List.mem_cons_self, head⟩
      · obtain ⟨b, present, holds⟩ := ih member
        exact ⟨b, List.mem_cons_of_mem _ present, holds⟩

theorem exists_aligned {related : α → β → Prop} {right : List β}
    (each : ∀ b ∈ right, ∃ a, related a b) : ∃ left, List.Forall₂ related left right := by
  induction right with
  | nil => exact ⟨[], .nil⟩
  | cons b rest ih =>
      rw [List.forall_mem_cons] at each
      obtain ⟨⟨a, head⟩, each⟩ := each
      obtain ⟨left, tail⟩ := ih each
      exact ⟨a :: left, .cons head tail⟩

theorem map_eq_of_forall₂ {γ : Type} {first : α → γ} {second : β → γ} {left : List α}
    {right : List β} (aligned : List.Forall₂ (fun a b => first a = second b) left right) :
    left.map first = right.map second := by
  induction aligned with
  | nil => rfl
  | cons head _ ih => rw [List.map_cons, List.map_cons, head, ih]

theorem one_lt_length_of_mem {items : List α} {a b : α} (first : a ∈ items)
    (second : b ∈ items) (different : a ≠ b) : 1 < items.length := by
  cases items with
  | nil => cases first
  | cons head rest =>
      cases rest with
      | nil =>
          rw [List.mem_singleton] at first second
          exact absurd (first.trans second.symm) different
      | cons next rest => simp

/-- Two lists of distinct labels in one order give a relabelling. -/
theorem exists_bijOn_of_nodup [DecidableEq α] {left : List α} {right : List β} (unused : β)
    (distinct : left.Nodup) (distinct' : right.Nodup) (same : left.length = right.length) :
    ∃ relabel : α → β, Set.BijOn relabel {label | label ∈ left} {label | label ∈ right} ∧
      ∀ index (h : index < left.length), relabel left[index] = right[index] := by
  refine ⟨fun label => right.getD (left.idxOf label) unused, ⟨?_, ?_, ?_⟩, ?_⟩
  · intro label member
    have within := List.idxOf_lt_length_of_mem member
    rw [same] at within
    change right.getD (left.idxOf label) unused ∈ right
    rw [List.getD_eq_getElem _ _ within]
    exact List.getElem_mem within
  · intro a memberA b memberB equal
    have withinA := List.idxOf_lt_length_of_mem memberA
    have withinB := List.idxOf_lt_length_of_mem memberB
    rw [same] at withinA withinB
    simp only [List.getD_eq_getElem _ _ withinA, List.getD_eq_getElem _ _ withinB] at equal
    exact (List.idxOf_inj memberA).mp ((List.Nodup.getElem_inj_iff distinct').mp equal)
  · intro b member
    obtain ⟨index, within, rfl⟩ := List.getElem_of_mem member
    have withinLeft : index < left.length := same ▸ within
    refine ⟨left[index], List.getElem_mem withinLeft, ?_⟩
    simp only [List.Nodup.idxOf_getElem distinct, List.getD_eq_getElem _ _ within]
  · intro index within
    simp only [List.Nodup.idxOf_getElem distinct]
    exact List.getD_eq_getElem _ _ (same ▸ within)

end Perch.Machine
