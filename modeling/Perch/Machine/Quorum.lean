/-
Quorums of finite sets.

A quorum `n` of `K` is met by a set that holds at least `n` of `K`'s members.
One quorum makes another sure exactly when it outnumbers it even after losing
every member the other does not count.
-/

import Mathlib.Data.Finset.Card

namespace Perch.Machine

variable {α : Type} [DecidableEq α] {K K' : Finset α} {n n' : Nat}

theorem quorum_of_surplus (surplus : n' + (K \ K').card ≤ n) {present : α → Prop}
    [DecidablePred present] (met : n ≤ (K.filter present).card) :
    n' ≤ (K'.filter present).card := by
  have split : K.filter present ⊆ (K \ K') ∪ K'.filter present := by
    intro a member
    obtain ⟨inK, here⟩ := Finset.mem_filter.mp member
    by_cases counted : a ∈ K'
    · exact Finset.mem_union_right _ (Finset.mem_filter.mpr ⟨counted, here⟩)
    · exact Finset.mem_union_left _ (Finset.mem_sdiff.mpr ⟨inK, counted⟩)
  have bound := (Finset.card_le_card split).trans (Finset.card_union_le _ _)
  omega

/-- Without the surplus, some set meets the one quorum and not the other. -/
theorem exists_quorum_without (possible : n ≤ K.card) (asks : 1 ≤ n')
    (short : n < n' + (K \ K').card) :
    ∃ met ⊆ K, met.card = n ∧ (K'.filter (· ∈ met)).card < n' := by
  by_cases few : n ≤ (K \ K').card
  · obtain ⟨met, within, size⟩ := Finset.exists_subset_card_eq few
    refine ⟨met, within.trans Finset.sdiff_subset, size, ?_⟩
    have none : K'.filter (· ∈ met) = ∅ := by
      rw [Finset.filter_eq_empty_iff]
      intro a counted chosen
      exact (Finset.mem_sdiff.mp (within chosen)).2 counted
    rw [none, Finset.card_empty]
    exact asks
  · have partition := Finset.card_sdiff_add_card_inter K K'
    have room : n - (K \ K').card ≤ (K ∩ K').card := by omega
    obtain ⟨more, within, size⟩ := Finset.exists_subset_card_eq room
    have apart : Disjoint (K \ K') more := by
      rw [Finset.disjoint_left]
      intro a outside chosen
      exact (Finset.mem_sdiff.mp outside).2 (Finset.mem_inter.mp (within chosen)).2
    refine ⟨(K \ K') ∪ more, ?_, ?_, ?_⟩
    · exact Finset.union_subset Finset.sdiff_subset (within.trans Finset.inter_subset_left)
    · rw [Finset.card_union_of_disjoint apart, size]
      omega
    · have counted : K'.filter (· ∈ (K \ K') ∪ more) ⊆ more := by
        intro a member
        obtain ⟨inK', chosen⟩ := Finset.mem_filter.mp member
        rcases Finset.mem_union.mp chosen with outside | chosen
        · exact absurd inK' (Finset.mem_sdiff.mp outside).2
        · exact chosen
      have bound := Finset.card_le_card counted
      omega

end Perch.Machine
