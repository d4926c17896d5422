/-
Append-only binary hash trees, and the frontier that stands for one.

A tree of a given depth is a function from positions to leaves.  Its nodes are
hashed bottom up, and an incremental tree keeps of them only the frontier: at
each level whose bit is set in the number of leaves, the last complete node
that has no right sibling yet.
-/

import Mathlib.Data.List.GetD
import Mathlib.Data.Set.Function
import Mathlib.Tactic.Ring

namespace Perch.Machine.Merkle

variable {α : Type} (node : α → α → α)

/-- The node at a level and an index, over the leaves below it. -/
def subtree (leaves : Nat → α) : Nat → Nat → α
  | 0, index => leaves index
  | level + 1, index =>
      node (subtree leaves level (2 * index)) (subtree leaves level (2 * index + 1))

def padded (empty : α) (leaves : List α) (position : Nat) : α := leaves.getD position empty

/-- The root over the leaves, padded to the tree's width. -/
def root (empty : α) (depth : Nat) (leaves : List α) : α :=
  subtree node (padded empty leaves) depth 0

variable {node}

theorem subtree_congr {leaves leaves' : Nat → α} {level index : Nat}
    (same : ∀ position, index * 2 ^ level ≤ position → position < (index + 1) * 2 ^ level →
      leaves position = leaves' position) :
    subtree node leaves level index = subtree node leaves' level index := by
  induction level generalizing index with
  | zero => exact same index (by simp) (by simp)
  | succ level ih =>
      have width : 2 ^ (level + 1) = 2 * 2 ^ level := by ring
      rw [width] at same
      rw [subtree, subtree]
      congr 1
      · apply ih
        intro position above below
        apply same position
        · calc
            index * (2 * 2 ^ level) = 2 * index * 2 ^ level := by ring
            _ ≤ position := above
        · calc
            position < (2 * index + 1) * 2 ^ level := below
            _ ≤ (2 * index + 1 + 1) * 2 ^ level := Nat.mul_le_mul_right _ (Nat.le_succ _)
            _ = (index + 1) * (2 * 2 ^ level) := by ring
      · apply ih
        intro position above below
        apply same position
        · calc
            index * (2 * 2 ^ level) = 2 * index * 2 ^ level := by ring
            _ ≤ (2 * index + 1) * 2 ^ level := Nat.mul_le_mul_right _ (Nat.le_succ _)
            _ ≤ position := above
        · calc
            position < (2 * index + 1 + 1) * 2 ^ level := below
            _ = (index + 1) * (2 * 2 ^ level) := by ring

def ZeroChain (node : α → α → α) (zero : Nat → α) (depth : Nat) : Prop :=
  ∀ level < depth, zero (level + 1) = node (zero level) (zero level)

theorem subtree_empty {zero : Nat → α} {depth : Nat} (chain : ZeroChain node zero depth)
    {leaves : Nat → α} {level index : Nat} (within : level ≤ depth)
    (empty : ∀ position, index * 2 ^ level ≤ position → leaves position = zero 0) :
    subtree node leaves level index = zero level := by
  induction level generalizing index with
  | zero => exact empty index (by simp)
  | succ level ih =>
      have below (position : Nat) (above : 2 * index * 2 ^ level ≤ position) :
          leaves position = zero 0 := by
        apply empty
        calc
          index * 2 ^ (level + 1) = 2 * index * 2 ^ level := by ring
          _ ≤ position := above
      have left := ih (Nat.le_of_succ_le within) below
      have right : subtree node leaves level (2 * index + 1) = zero level := by
        apply ih (Nat.le_of_succ_le within)
        intro position above
        apply below
        exact (Nat.mul_le_mul_right _ (Nat.le_succ _)).trans above
      rw [subtree, left, right, chain level within]

theorem subtree_shift {leaves : Nat → α} {level height chunk index : Nat} (low : level ≤ height) :
    subtree node (fun position => leaves (chunk * 2 ^ height + position)) level index =
      subtree node leaves level (chunk * 2 ^ (height - level) + index) := by
  induction level generalizing index with
  | zero => rfl
  | succ level ih =>
      have doubled : 2 ^ (height - level) = 2 * 2 ^ (height - (level + 1)) := by
        rw [← pow_succ']
        congr 1
        omega
      have left : chunk * 2 ^ (height - level) + 2 * index =
          2 * (chunk * 2 ^ (height - (level + 1)) + index) := by
        rw [doubled]
        ring
      rw [subtree, ih (Nat.le_of_succ_le low), ih (Nat.le_of_succ_le low), subtree, ← left]
      rfl

theorem subtree_agree {node' : α → α → α} {holds : α → Prop}
    (agree : ∀ left right, holds left → holds right →
      node left right = node' left right ∧ holds (node left right))
    {leaves : Nat → α} (each : ∀ position, holds (leaves position)) (level index : Nat) :
    subtree node leaves level index = subtree node' leaves level index ∧
      holds (subtree node leaves level index) := by
  induction level generalizing index with
  | zero => exact ⟨rfl, each index⟩
  | succ level ih =>
      obtain ⟨left, leftHolds⟩ := ih (2 * index)
      obtain ⟨right, rightHolds⟩ := ih (2 * index + 1)
      obtain ⟨same, kept⟩ := agree _ _ leftHolds rightHolds
      constructor
      · rw [subtree, same, left, right, subtree]
      · exact kept

/-! ### Paths -/

/-- Up from a node, hashing with a sibling at each level. -/
def climbPath (node : α → α → α) (index : Nat) : (level : Nat) → α → List α → α
  | _, current, [] => current
  | level, current, sibling :: rest =>
      climbPath node index (level + 1)
        (if (index >>> level) &&& 1 = 1 then node sibling current else node current sibling) rest

/-- The root a leaf, its index and its siblings lead to. -/
def rootFromPath (node : α → α → α) (leaf : α) (index : Nat) (siblings : List α) : α :=
  climbPath node index 0 leaf siblings

def siblingIndex (index : Nat) : Nat := if index % 2 = 0 then index + 1 else index - 1

/-- Siblings that are nodes of a tree lead to a node of it. -/
theorem climbPath_subtree {leaves : Nat → α} {index level : Nat} {siblings : List α}
    (sound : ∀ offset sibling, siblings[offset]? = some sibling → sibling =
      subtree node leaves (level + offset) (siblingIndex (index / 2 ^ (level + offset)))) :
    climbPath node index level (subtree node leaves level (index / 2 ^ level)) siblings =
      subtree node leaves (level + siblings.length) (index / 2 ^ (level + siblings.length)) := by
  induction siblings generalizing level with
  | nil => rfl
  | cons sibling rest ih =>
      have here := sound 0 sibling rfl
      have parent : index / 2 ^ (level + 1) = index / 2 ^ level / 2 := by
        rw [Nat.div_div_eq_div_mul, pow_succ]
      have next : (if (index >>> level) &&& 1 = 1
          then node sibling (subtree node leaves level (index / 2 ^ level))
          else node (subtree node leaves level (index / 2 ^ level)) sibling) =
          subtree node leaves (level + 1) (index / 2 ^ (level + 1)) := by
        rw [here, Nat.add_zero, siblingIndex, Nat.shiftRight_eq_div_pow, Nat.and_one_is_mod,
          subtree, parent]
        split
        · rename_i odd
          rw [if_neg (by omega)]
          congr 2 <;> omega
        · rename_i even
          rw [if_pos (by omega)]
          congr 2 <;> omega
      rw [climbPath, next, ih]
      · rw [List.length_cons, Nat.add_assoc, Nat.add_comm 1]
      · intro offset other found
        rw [Nat.add_assoc, Nat.add_comm 1]
        exact sound (offset + 1) other found

theorem climbPath_foldl (index level : Nat) (current : α) (siblings : List α) :
    climbPath node index level current siblings =
      ((List.range' level siblings.length).zip siblings).foldl
        (fun current step =>
          if (index >>> step.1) &&& 1 = 1 then node step.2 current else node current step.2)
        current := by
  induction siblings generalizing level current with
  | nil => rfl
  | cons sibling rest ih =>
      rw [climbPath, ih, List.length_cons, List.range'_succ, List.zip_cons_cons, List.foldl_cons]

theorem climbPath_map {β : Type} {node' : β → β → β} {f : α → β}
    (hashes : ∀ left right, f (node left right) = node' (f left) (f right))
    (index level : Nat) (current : α) (siblings : List α) :
    f (climbPath node index level current siblings) =
      climbPath node' index level (f current) (siblings.map f) := by
  induction siblings generalizing level current with
  | nil => rfl
  | cons sibling rest ih =>
      rw [climbPath, ih, List.map_cons, climbPath]
      congr 1
      split
      · exact hashes sibling current
      · exact hashes current sibling

theorem climbPath_agree {node' : α → α → α} {holds : α → Prop}
    (agree : ∀ left right, holds left → holds right →
      node left right = node' left right ∧ holds (node left right))
    {index level : Nat} {current : α} {siblings : List α} (start : holds current)
    (each : ∀ sibling ∈ siblings, holds sibling) :
    climbPath node index level current siblings = climbPath node' index level current siblings ∧
      holds (climbPath node index level current siblings) := by
  induction siblings generalizing level current with
  | nil => exact ⟨rfl, start⟩
  | cons sibling rest ih =>
      obtain ⟨here, later⟩ := List.forall_mem_cons.mp each
      rw [climbPath, climbPath]
      split
      · obtain ⟨same, kept⟩ := agree _ _ here start
        rw [← same]
        exact ih kept later
      · obtain ⟨same, kept⟩ := agree _ _ start here
        rw [← same]
        exact ih kept later

def pathPairs (node : α → α → α) (index : Nat) : (level : Nat) → α → List α → List (α × α)
  | _, _, [] => []
  | level, current, sibling :: rest =>
      let pair := if (index >>> level) &&& 1 = 1 then (sibling, current) else (current, sibling)
      pair :: pathPairs node index (level + 1) (node pair.1 pair.2) rest

def children (node : α → α → α) (leaves : Nat → α) (level index : Nat) : α × α :=
  (subtree node leaves level (2 * index), subtree node leaves level (2 * index + 1))

/-- A path that leads to a node of a tree starts at a node of it, unless two of
the pairs hashed collide. -/
theorem climbPath_sound {leaves : Nat → α} {index level : Nat} {current : α} {siblings : List α}
    {pairs : Set (α × α)} (free : Set.InjOn (fun pair : α × α => node pair.1 pair.2) pairs)
    (hashed : ∀ pair ∈ pathPairs node index level current siblings, pair ∈ pairs)
    (inTree : ∀ offset < siblings.length,
      children node leaves (level + offset) (index / 2 ^ (level + offset + 1)) ∈ pairs)
    (same : climbPath node index level current siblings =
      subtree node leaves (level + siblings.length) (index / 2 ^ (level + siblings.length))) :
    current = subtree node leaves level (index / 2 ^ level) := by
  induction siblings generalizing level current with
  | nil => exact same
  | cons sibling rest ih =>
      have parent : index / 2 ^ (level + 1) = index / 2 ^ level / 2 := by
        rw [Nat.div_div_eq_div_mul, pow_succ]
      have next := ih (fun pair member => hashed pair (List.mem_cons_of_mem _ member))
        (by
          intro offset below
          have above := inTree (offset + 1) (Nat.succ_lt_succ below)
          rwa [← Nat.add_assoc, Nat.add_right_comm level offset 1] at above)
        (by
          have long : level + (sibling :: rest).length = level + 1 + rest.length := by
            rw [List.length_cons]
            omega
          rw [climbPath, long] at same
          rw [← same]
          congr 1
          split <;> rfl)
      have matched := free (hashed _ List.mem_cons_self) (inTree 0 (Nat.succ_pos _)) next
      rw [children, Nat.add_zero, parent] at matched
      rw [Nat.shiftRight_eq_div_pow, Nat.and_one_is_mod] at matched
      split at matched
      next odd =>
        have right := congrArg Prod.snd matched
        dsimp only at right
        rw [right]
        congr 1
        omega
      next even =>
        have left := congrArg Prod.fst matched
        dsimp only at left
        rw [left]
        congr 1
        omega

/-! ### Frontiers -/

/-- At each level whose bit is set in the number of leaves, the last node. -/
structure IsFrontier (node : α → α → α) (empty : α) (depth : Nat) (leaves : List α)
    (frontier : List α) : Prop where
  length : frontier.length = depth
  held : ∀ level < depth, leaves.length / 2 ^ level % 2 = 1 →
    frontier[level]? =
      some (subtree node (padded empty leaves) level (leaves.length / 2 ^ level - 1))

/-- Part of the way up from a new leaf: the node above it at a level, and the
frontier with the levels below brought up to date. -/
structure Climbing (node : α → α → α) (empty : α) (depth : Nat) (leaves : List α) (leaf : α)
    (level : Nat) (frontier : List α) (current : α) : Prop where
  length : frontier.length = depth
  current : current =
    subtree node (padded empty (leaves ++ [leaf])) level (leaves.length / 2 ^ level)
  done : ∀ lower < level, (leaves.length + 1) / 2 ^ lower % 2 = 1 →
    frontier[lower]? = some (subtree node (padded empty (leaves ++ [leaf])) lower
      ((leaves.length + 1) / 2 ^ lower - 1))
  ahead : ∀ higher, level ≤ higher → higher < depth → leaves.length / 2 ^ higher % 2 = 1 →
    frontier[higher]? =
      some (subtree node (padded empty leaves) higher (leaves.length / 2 ^ higher - 1))

variable {empty leaf current : α} {depth level : Nat} {leaves frontier : List α}

/-- A new leaf changes no node that was complete before it. -/
theorem subtree_append (leaf : α) {index : Nat}
    (complete : (index + 1) * 2 ^ level ≤ leaves.length) :
    subtree node (padded empty (leaves ++ [leaf])) level index =
      subtree node (padded empty leaves) level index := by
  apply subtree_congr
  intro position _ below
  exact List.getD_append _ _ _ _ (below.trans_le complete)

theorem succ_div_pow (count level : Nat) :
    (count + 1) / 2 ^ level = count / 2 ^ level ∨
      (count + 1) / 2 ^ level = count / 2 ^ level + 1 := by
  rw [Nat.succ_div]
  split
  · exact Or.inr rfl
  · exact Or.inl rfl

theorem Climbing.start (kept : IsFrontier node empty depth leaves frontier) :
    Climbing node empty depth leaves leaf 0 frontier leaf := by
  constructor
  · exact kept.length
  · simp [subtree, padded]
  · intro lower below
    exact absurd below (Nat.not_lt_zero lower)
  · intro higher _ within bit
    exact kept.held higher within bit

theorem div_pow_succ (count level : Nat) : count / 2 ^ (level + 1) = count / 2 ^ level / 2 := by
  rw [Nat.div_div_eq_div_mul, pow_succ]

theorem Climbing.left {zero : Nat → α} (chain : ZeroChain node zero depth)
    (climbing : Climbing node (zero 0) depth leaves leaf level frontier current)
    (within : level < depth) (even : leaves.length / 2 ^ level % 2 = 0) :
    Climbing node (zero 0) depth leaves leaf (level + 1) (frontier.set level current)
      (node current (zero level)) := by
  constructor
  · rw [List.length_set, climbing.length]
  · have index : 2 * (leaves.length / 2 ^ (level + 1)) = leaves.length / 2 ^ level := by
      rw [div_pow_succ]
      omega
    have sibling : subtree node (padded (zero 0) (leaves ++ [leaf])) level
        (leaves.length / 2 ^ level + 1) = zero level := by
      apply subtree_empty chain within.le
      intro position above
      apply List.getD_eq_default
      have beyond := Nat.lt_mul_div_succ leaves.length (Nat.two_pow_pos level)
      rw [Nat.mul_comm] at beyond
      rw [List.length_append, List.length_singleton]
      omega
    rw [subtree, index, sibling, ← climbing.current]
  · intro lower below bit
    rcases Nat.lt_succ_iff_lt_or_eq.mp below with earlier | rfl
    · rw [List.getElem?_set_ne earlier.ne']
      exact climbing.done lower earlier bit
    · rw [List.getElem?_set_self (climbing.length ▸ within), climbing.current]
      rcases succ_div_pow leaves.length lower with same | next
      · omega
      · rw [next, Nat.add_sub_cancel]
  · intro higher above inside bit
    rw [List.getElem?_set_ne (Nat.lt_of_succ_le above).ne]
    exact climbing.ahead higher (Nat.le_of_succ_le above) inside bit

theorem Climbing.right {sibling : α}
    (climbing : Climbing node empty depth leaves leaf level frontier current)
    (within : level < depth) (odd : leaves.length / 2 ^ level % 2 = 1)
    (held : frontier[level]? = some sibling) :
    Climbing node empty depth leaves leaf (level + 1) frontier (node sibling current) := by
  have positive : 1 ≤ leaves.length / 2 ^ level := by
    rw [Nat.one_le_iff_ne_zero]
    intro zero
    rw [zero] at odd
    cases odd
  have complete : (leaves.length / 2 ^ level - 1 + 1) * 2 ^ level ≤ leaves.length := by
    rw [Nat.sub_add_cancel positive]
    exact Nat.div_mul_le_self _ _
  have known := climbing.ahead level (Nat.le_refl level) within odd
  rw [← subtree_append leaf complete] at known
  have value := Option.some.inj (held.symm.trans known)
  constructor
  · exact climbing.length
  · have index : 2 * (leaves.length / 2 ^ (level + 1)) = leaves.length / 2 ^ level - 1 := by
      rw [div_pow_succ]
      omega
    rw [subtree, index, Nat.sub_add_cancel positive, ← value, ← climbing.current]
  · intro lower below bit
    rcases Nat.lt_succ_iff_lt_or_eq.mp below with earlier | rfl
    · exact climbing.done lower earlier bit
    · rcases succ_div_pow leaves.length lower with same | next
      · rw [same]
        exact known
      · omega
  · intro higher above inside bit
    exact climbing.ahead higher (Nat.le_of_succ_le above) inside bit

/-- At the top stands the root over the leaves with the new one. -/
theorem Climbing.finish (climbing : Climbing node empty depth leaves leaf depth frontier current)
    (room : leaves.length < 2 ^ depth) :
    IsFrontier node empty depth (leaves ++ [leaf]) frontier ∧
      current = root node empty depth (leaves ++ [leaf]) := by
  constructor
  · constructor
    · exact climbing.length
    · intro lower within bit
      rw [List.length_append, List.length_singleton] at bit ⊢
      exact climbing.done lower within bit
  · rw [climbing.current, Nat.div_eq_of_lt room]
    rfl

end Perch.Machine.Merkle
