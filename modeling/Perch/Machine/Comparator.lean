/-
Sorting by a comparator that answers with a sign, and may throw.

A comparator fits a linear order when its answers have the sign of how two
values stand there.  What is then sorted comes out in that order, and for
distinct values in one arrangement, whatever the arrangement it went in with.
-/

import Mathlib.Data.List.Sort
import Mathlib.Data.Prod.Lex
import Perch.Machine.Fallible

namespace Perch.Machine

/-! ### Signs -/

section Signs

variable {κ κ' : Type}

/-- The sign of a number tells how two values of an order stand. -/
inductive Signs [LT κ] (x y : κ) (n : Int) : Prop
  | below (negative : n < 0) (before : x < y)
  | same (zero : n = 0) (equal : x = y)
  | above (positive : 0 < n) (after : y < x)

variable [LinearOrder κ] [LinearOrder κ'] {x y : κ} {x' y' : κ'} {n m : Int}

theorem Signs.neg_iff (signs : Signs x y n) : n < 0 ↔ x < y := by
  cases signs with
  | below negative before => exact iff_of_true negative before
  | same zero equal => exact iff_of_false (by omega) (equal ▸ lt_irrefl _)
  | above positive after => exact iff_of_false (by omega) after.not_gt

theorem Signs.zero_iff (signs : Signs x y n) : n = 0 ↔ x = y := by
  cases signs with
  | below negative before => exact iff_of_false (by omega) before.ne
  | same zero equal => exact iff_of_true zero equal
  | above positive after => exact iff_of_false (by omega) after.ne'

theorem Signs.pos_iff (signs : Signs x y n) : 0 < n ↔ y < x := by
  cases signs with
  | below negative before => exact iff_of_false (by omega) before.not_gt
  | same zero equal => exact iff_of_false (by omega) (equal ▸ lt_irrefl _)
  | above positive after => exact iff_of_true positive after

theorem Signs.nonpos_iff (signs : Signs x y n) : n ≤ 0 ↔ x ≤ y := by
  rw [← not_lt, signs.pos_iff, not_lt]

/-- Where the first comparison does not decide, the second does. -/
theorem Signs.orElse (first : Signs x y n) (second : Signs x' y' m) :
    Signs (toLex (x, x')) (toLex (y, y')) (if n = 0 then m else n) := by
  cases first with
  | below negative before =>
      rw [if_neg (by omega)]
      exact .below negative (Prod.Lex.toLex_lt_toLex.mpr (.inl before))
  | above positive after =>
      rw [if_neg (by omega)]
      exact .above positive (Prod.Lex.toLex_lt_toLex.mpr (.inl after))
  | same zero equal =>
      rw [if_pos zero]
      subst equal
      cases second with
      | below negative before =>
          exact .below negative (Prod.Lex.toLex_lt_toLex.mpr (.inr ⟨rfl, before⟩))
      | same zero' equal => exact .same zero' (congrArg (fun z => toLex (x, z)) equal)
      | above positive after =>
          exact .above positive (Prod.Lex.toLex_lt_toLex.mpr (.inr ⟨rfl, after⟩))

theorem Signs.outer (signs : Signs x y n) (z : κ') : Signs (toLex (x, z)) (toLex (y, z)) n := by
  have paired := signs.orElse (.same rfl rfl : Signs z z 0)
  split at paired
  · rename_i zero
    rwa [zero]
  · exact paired

theorem Signs.inner (signs : Signs x' y' n) (z : κ) : Signs (toLex (z, x')) (toLex (z, y')) n := by
  have paired := (.same rfl rfl : Signs z z 0).orElse signs
  rwa [if_pos rfl] at paired

theorem signs_sub (a b : Nat) : Signs a b ((a : Int) - b) := by
  rcases lt_trichotomy a b with before | equal | after
  · exact .below (by omega) before
  · exact .same (by omega) equal
  · exact .above (by omega) after

end Signs

/-! ### Sorting -/

section Sorting

variable {ε α κ : Type}

def insertWith (compare : α → α → Except ε Int) (item : α) : List α → Except ε (List α)
  | [] => .ok [item]
  | next :: rest => do
      let order ← compare item next
      if order ≤ 0 then pure (item :: next :: rest)
      else pure (next :: (← insertWith compare item rest))

/-- A stable sort.  What the comparator throws is thrown. -/
def sortWith (compare : α → α → Except ε Int) : List α → Except ε (List α)
  | [] => .ok []
  | item :: rest => do insertWith compare item (← sortWith compare rest)

variable [LinearOrder κ] {key : α → κ} {compare : α → α → Except ε Int}

def Fits (key : α → κ) (compare : α → α → Except ε Int) (a b : α) : Prop :=
  ∃ n, compare a b = .ok n ∧ Signs (key a) (key b) n

theorem insertWith_eq {item : α} {items : List α}
    (fits : ∀ next ∈ items, Fits key compare item next) :
    insertWith compare item items =
      .ok (items.orderedInsert (fun a b => key a ≤ key b) item) := by
  induction items with
  | nil => rfl
  | cons next rest ih =>
      obtain ⟨n, answered, signs⟩ := fits next List.mem_cons_self
      have tail := ih fun other member => fits other (List.mem_cons_of_mem _ member)
      rw [insertWith, answered, ok_bind, List.orderedInsert_cons]
      by_cases before : key item ≤ key next
      · rw [if_pos (signs.nonpos_iff.mpr before), if_pos before]
        rfl
      · rw [if_neg (mt signs.nonpos_iff.mp before), if_neg before, tail]
        rfl

theorem sortWith_eq {items : List α} (fits : ∀ a ∈ items, ∀ b ∈ items, Fits key compare a b) :
    sortWith compare items = .ok (items.insertionSort fun a b => key a ≤ key b) := by
  induction items with
  | nil => rfl
  | cons item rest ih =>
      have tail := ih fun a member b member' =>
        fits a (List.mem_cons_of_mem _ member) b (List.mem_cons_of_mem _ member')
      rw [sortWith, tail, ok_bind, List.insertionSort_cons]
      apply insertWith_eq
      intro next member
      have kept := (List.perm_insertionSort _ rest).mem_iff.mp member
      exact fits item List.mem_cons_self next (List.mem_cons_of_mem _ kept)

/-- Distinct keys come out in strictly ascending order. -/
theorem insertionSort_ascends {items : List α} (distinct : (items.map key).Nodup) :
    (items.insertionSort fun a b => key a ≤ key b).Pairwise fun a b => key a < key b := by
  have : Std.Total fun a b : α => key a ≤ key b := ⟨fun a b => le_total (key a) (key b)⟩
  have : IsTrans α fun a b => key a ≤ key b := ⟨fun _ _ _ => le_trans⟩
  have sorted := List.pairwise_insertionSort (fun a b : α => key a ≤ key b) items
  have shuffled := (List.perm_insertionSort (fun a b : α => key a ≤ key b) items).map key
  have different := List.pairwise_map.mp (shuffled.nodup_iff.mpr distinct)
  exact sorted.imp₂ (fun _ _ below apart => lt_of_le_of_ne below apart) different

theorem ascending_unique {left right : List α} (same : left.Perm right)
    (ascends : left.Pairwise fun a b => key a < key b)
    (ascends' : right.Pairwise fun a b => key a < key b) : left = right :=
  List.Perm.eq_of_pairwise (fun _ _ _ _ before after => absurd after before.not_gt) ascends
    ascends' same

end Sorting

end Perch.Machine
