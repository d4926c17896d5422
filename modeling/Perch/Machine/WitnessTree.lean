/-
Append-only trees that give witnesses without being kept whole.

Such a tree keeps its frontier and the roots of completed subtrees at or above
a chunk level.  Its leaves stay with the caller, who is asked for one chunk of
them at a time: a node is empty, or stored, or hashed from a chunk, or hashed
from its two children.
-/

import Perch.Machine.Asking
import Perch.Machine.Merkle

namespace Perch.Machine.WitnessTree

open Merkle

/-! ### Trees -/

/-- How nodes are hashed, and how the index of a sibling is computed. -/
structure Hashing (α : Type) where
  node : α → α → α
  zero : Nat → α
  sibling : Nat → Nat

/-- Completed subtree roots, by level and index at that level. -/
abbrev NodeStore (α : Type) := Nat × Nat → Option α

structure TreeState (α : Type) where
  size : Nat
  /-- At each level, the most recent node that was a left child. -/
  frontier : List α
deriving DecidableEq

structure MerklePath (α : Type) where
  root : α
  siblings : List α
deriving DecidableEq

structure Tree (α : Type) where
  depth : Nat
  chunkLevel : Nat
  nodes : NodeStore α
  state : TreeState α

inductive Failure
  | full
  | noFrontier (level : Nat)
  | noNode (level index : Nat)
  | noLeaf (index : Nat)
  | emptyChunk
deriving DecidableEq

/-- Leaves `start..start + count` are asked for, as a start and a count. -/
abbrev Reading (α β : Type) := Asking (Nat × Nat) (List α) Failure β

variable {α : Type} (h : Hashing α)

def Tree.capacity (t : Tree α) : Nat := 1 <<< t.depth

/-! ### Appending -/

/-- Up from a new leaf to the first left child, storing what is completed on
the way. -/
def climb (chunkLevel index : Nat) : (remaining level : Nat) → NodeStore α → List α → α →
    Except Failure (NodeStore α × List α)
  | 0, _, nodes, frontier, _ => .ok (nodes, frontier)
  | remaining + 1, level, nodes, frontier, current =>
      if (index >>> level) &&& 1 = 0 then .ok (nodes, frontier.set level current)
      else do
        let left ← orFail frontier[level]? (.noFrontier level)
        let current := h.node left current
        let nodes := if chunkLevel ≤ level + 1 then
            Function.update nodes (level + 1, index >>> (level + 1)) (some current)
          else nodes
        climb chunkLevel index remaining (level + 1) nodes frontier current

def Tree.append (t : Tree α) (leaf : α) : Except Failure (Tree α) := do
  require (t.state.size ≠ t.capacity) .full
  let index := t.state.size
  let nodes := if t.chunkLevel = 0 then Function.update t.nodes (0, index) (some leaf) else t.nodes
  let (nodes, frontier) ← climb h t.chunkLevel index t.depth 0 nodes t.state.frontier leaf
  pure { t with nodes := nodes, state := { size := index + 1, frontier := frontier } }

def Tree.appendAll (t : Tree α) (leaves : List α) : Except Failure (Tree α) :=
  leaves.foldlM (Tree.append h) t

/-! ### Reading -/

/-- The level above one of a subtree, padded with empty nodes. -/
def parents (level : Nat) (nodes : List α) : List α :=
  (List.range ((max nodes.length 1 + 1) / 2)).map fun i =>
    h.node (nodes.getD (2 * i) (h.zero level)) (nodes.getD (2 * i + 1) (h.zero level))

def subtreeLevel (leaves : List α) : Nat → List α
  | 0 => leaves
  | level + 1 => parents h level (subtreeLevel leaves level)

def subtreeLevels (leaves : List α) (height : Nat) : List (List α) :=
  (List.range (height + 1)).map (subtreeLevel h leaves)

/-- The value of a node, with those of the level below it. -/
def Tree.valueFrom (t : Tree α) (level : Nat) (below : Nat → Reading α α) (index : Nat) :
    Reading α α :=
  let start := index <<< level
  let span := 1 <<< level
  if t.state.size ≤ start then pure (h.zero level)
  else
    let complete := start + span ≤ t.state.size
    if complete ∧ t.chunkLevel ≤ level then
      .lift (orFail (t.nodes (level, index)) (.noNode level index))
    else if level ≤ t.chunkLevel then do
      let stop := if complete then start + span else t.state.size
      let leaves ← .question (start, stop - start)
      .lift (orFail ((subtreeLevels h leaves level).getD level [])[0]? .emptyChunk)
    else do
      let left ← below (index * 2)
      let right ← below (index * 2 + 1)
      pure (h.node left right)

/-- The value of a node for the current size.  No node is above the chunk
level at level zero. -/
def Tree.value (t : Tree α) : (level index : Nat) → Reading α α
  | 0 => t.valueFrom h 0 fun _ => .failed .emptyChunk
  | level + 1 => t.valueFrom h (level + 1) (t.value level)

def Tree.root (t : Tree α) : Reading α α := t.value h t.depth 0

/-- The witness for the leaf at an index, against the current root. -/
def Tree.witness (t : Tree α) (index : Nat) : Reading α (MerklePath α) := do
  .lift (require (index < t.state.size) (.noLeaf index))
  let height := t.chunkLevel
  let chunkStart := (index >>> height) <<< height
  let chunkEnd := min (chunkStart + (1 <<< height)) t.state.size
  let leaves ← .question (chunkStart, chunkEnd - chunkStart)
  let levels := subtreeLevels h leaves height
  let within := (List.range height).map fun level =>
    (levels.getD level []).getD (h.sibling ((index - chunkStart) >>> level)) (h.zero level)
  let above ← (List.range' height (t.depth - height)).mapM fun level =>
    t.value h level (h.sibling (index >>> level))
  let root ← t.value h t.depth 0
  pure { root := root, siblings := within ++ above }

/-! ### What a tree keeps -/

variable {h : Hashing α} {depth chunkLevel level : Nat} {leaves frontier : List α} {leaf : α}
  {nodes : NodeStore α}

/-- From the chunk level up, every node complete over the leaves is stored. -/
def Stores (h : Hashing α) (depth chunkLevel : Nat) (leaves : List α) (nodes : NodeStore α) :
    Prop :=
  ∀ level index, chunkLevel ≤ level → level ≤ depth → (index + 1) * 2 ^ level ≤ leaves.length →
    nodes (level, index) = some (subtree h.node (padded (h.zero 0) leaves) level index)

structure Holds (h : Hashing α) (depth chunkLevel : Nat) (leaves : List α) (t : Tree α) :
    Prop where
  tall : t.depth = depth
  chunked : t.chunkLevel = chunkLevel
  size : t.state.size = leaves.length
  fits : leaves.length ≤ 2 ^ depth
  frontier : IsFrontier h.node (h.zero 0) depth leaves t.state.frontier
  stores : Stores h depth chunkLevel leaves t.nodes

/-- Part of the way up from a new leaf: all nodes below were right children,
and those that ended with the leaf are stored. -/
structure Carrying (h : Hashing α) (depth chunkLevel : Nat) (leaves : List α) (leaf : α)
    (level : Nat) (nodes : NodeStore α) (current : α) : Prop where
  carry : (leaves.length / 2 ^ level + 1) * 2 ^ level = leaves.length + 1
  current : current =
    subtree h.node (padded (h.zero 0) (leaves ++ [leaf])) level (leaves.length / 2 ^ level)
  stored : ∀ lower index, chunkLevel ≤ lower → lower ≤ depth →
    (index + 1) * 2 ^ lower ≤ leaves.length + 1 →
    lower ≤ level ∨ (index + 1) * 2 ^ lower ≤ leaves.length →
    nodes (lower, index) =
      some (subtree h.node (padded (h.zero 0) (leaves ++ [leaf])) lower index)

theorem Carrying.start (stores : Stores h depth chunkLevel leaves nodes) :
    Carrying h depth chunkLevel leaves leaf 0
      (if chunkLevel = 0 then Function.update nodes (0, leaves.length) (some leaf) else nodes)
      leaf := by
  constructor
  · simp
  · simp [subtree, padded]
  · intro lower index above within complete reached
    have earlier (before : (index + 1) * 2 ^ lower ≤ leaves.length) :
        nodes (lower, index) =
          some (subtree h.node (padded (h.zero 0) (leaves ++ [leaf])) lower index) := by
      rw [subtree_append leaf before]
      exact stores lower index above within before
    split
    · by_cases newest : (lower, index) = (0, leaves.length)
      · obtain ⟨rfl, rfl⟩ := Prod.mk.inj newest
        simp [subtree, padded]
      · rw [Function.update_of_ne newest]
        apply earlier
        rcases reached with bottom | before
        · obtain rfl := Nat.le_zero.mp bottom
          have different : index ≠ leaves.length := fun same => newest (by rw [same])
          rw [pow_zero, Nat.mul_one] at complete ⊢
          omega
        · exact before
    · rename_i positive
      apply earlier
      rcases reached with bottom | before
      · omega
      · exact before

/-- A right child completes its parent. -/
theorem Carrying.right {current left : α}
    (carrying : Carrying h depth chunkLevel leaves leaf level nodes current)
    (odd : leaves.length / 2 ^ level % 2 = 1)
    (held : left = subtree h.node (padded (h.zero 0) leaves) level
      (leaves.length / 2 ^ level - 1)) :
    Carrying h depth chunkLevel leaves leaf (level + 1)
      (if chunkLevel ≤ level + 1 then
        Function.update nodes (level + 1, leaves.length / 2 ^ (level + 1))
          (some (h.node left current))
      else nodes) (h.node left current) := by
  have parent := div_pow_succ leaves.length level
  have carry : (leaves.length / 2 ^ (level + 1) + 1) * 2 ^ (level + 1) = leaves.length + 1 := by
    have twice : (leaves.length / 2 ^ (level + 1) + 1) * 2 = leaves.length / 2 ^ level + 1 := by
      omega
    rw [← carrying.carry, ← twice, Nat.mul_assoc, ← pow_succ']
  have hashed : h.node left current = subtree h.node (padded (h.zero 0) (leaves ++ [leaf]))
      (level + 1) (leaves.length / 2 ^ (level + 1)) := by
    have complete : (leaves.length / 2 ^ level - 1 + 1) * 2 ^ level ≤ leaves.length := by
      rw [Nat.sub_add_cancel (Nat.pos_of_ne_zero fun none => by simp [none] at odd)]
      exact Nat.div_mul_le_self _ _
    have indices : 2 * (leaves.length / 2 ^ (level + 1)) = leaves.length / 2 ^ level - 1 ∧
        leaves.length / 2 ^ level - 1 + 1 = leaves.length / 2 ^ level := by
      rw [parent]
      generalize leaves.length / 2 ^ level = count at odd
      omega
    rw [subtree, indices.1, indices.2, subtree_append leaf complete, ← held, ← carrying.current]
  constructor
  · exact carry
  · exact hashed
  · intro lower index above within complete reached
    -- What was stored before the parent was.
    have earlier (before : lower ≤ level ∨ (index + 1) * 2 ^ lower ≤ leaves.length) :=
      carrying.stored lower index above within complete before
    by_cases newest : (lower, index) = (level + 1, leaves.length / 2 ^ (level + 1))
    · obtain ⟨rfl, rfl⟩ := Prod.mk.inj newest
      rw [if_pos above, Function.update_self, hashed]
    · have before : lower ≤ level ∨ (index + 1) * 2 ^ lower ≤ leaves.length := by
        rcases reached with low | before
        · rcases Nat.le_succ_iff.mp low with lower | rfl
          · exact Or.inl lower
          · right
            have different : index ≠ leaves.length / 2 ^ (level + 1) :=
              fun same => newest (by rw [same])
            rw [← carry] at complete
            have bounded := Nat.le_of_mul_le_mul_right complete (Nat.two_pow_pos _)
            have below : index + 1 ≤ leaves.length / 2 ^ (level + 1) := by omega
            exact (Nat.mul_le_mul_right _ below).trans (Nat.div_mul_le_self _ _)
        · exact Or.inr before
      split
      · rw [Function.update_of_ne newest]
        exact earlier before
      · exact earlier before

theorem Carrying.cleared {current : α}
    (carrying : Carrying h depth chunkLevel leaves leaf level nodes current) {lower : Nat}
    (below : lower < level) : (leaves.length + 1) / 2 ^ lower % 2 = 0 := by
  obtain ⟨gap, rfl⟩ := Nat.exists_eq_add_of_lt below
  rw [← carrying.carry, show lower + gap + 1 = lower + (gap + 1) by omega, pow_add _ lower,
    Nat.mul_left_comm, Nat.mul_div_cancel_left _ (Nat.two_pow_pos _), pow_succ, ← Nat.mul_assoc]
  exact Nat.mul_mod_left _ _

/-- A left child ends the climb, and is the frontier's. -/
theorem Carrying.left {current : α}
    (carrying : Carrying h depth chunkLevel leaves leaf level nodes current)
    (kept : IsFrontier h.node (h.zero 0) depth leaves frontier) (within : level < depth)
    (even : leaves.length / 2 ^ level % 2 = 0) :
    Stores h depth chunkLevel (leaves ++ [leaf]) nodes ∧
      IsFrontier h.node (h.zero 0) depth (leaves ++ [leaf]) (frontier.set level current) := by
  have grown : (leaves ++ [leaf]).length = leaves.length + 1 := by simp
  have here : (leaves.length + 1) / 2 ^ level = leaves.length / 2 ^ level + 1 := by
    rw [← carrying.carry, Nat.mul_div_cancel _ (Nat.two_pow_pos _)]
  have above (higher : Nat) (beyond : level < higher) :
      (leaves.length + 1) / 2 ^ higher = leaves.length / 2 ^ higher := by
    obtain ⟨gap, rfl⟩ := Nat.exists_eq_add_of_lt beyond
    rw [show level + gap + 1 = level + 1 + gap by omega, pow_add, pow_succ,
      ← Nat.div_div_eq_div_mul, ← Nat.div_div_eq_div_mul, here, ← Nat.div_div_eq_div_mul,
      ← Nat.div_div_eq_div_mul]
    congr 1
    omega
  constructor
  · intro lower index chunk inside complete
    rw [grown] at complete
    apply carrying.stored lower index chunk inside complete
    rcases Nat.lt_or_ge level lower with beyond | low
    · right
      -- A node above ends with the new leaf only if its level's count has grown.
      have counted := (Nat.le_div_iff_mul_le (Nat.two_pow_pos lower)).mpr complete
      rw [above lower beyond] at counted
      exact (Nat.le_div_iff_mul_le (Nat.two_pow_pos lower)).mp counted
    · exact Or.inl low
  · constructor
    · rw [List.length_set, kept.length]
    · intro lower inside bit
      rw [grown] at bit ⊢
      rcases Nat.lt_trichotomy lower level with below | rfl | beyond
      · rw [carrying.cleared below] at bit
        cases bit
      · rw [List.getElem?_set_self (kept.length ▸ within), here, Nat.add_sub_cancel,
          carrying.current]
      · rw [above lower beyond] at bit ⊢
        have positive : 1 ≤ leaves.length / 2 ^ lower :=
          Nat.pos_of_ne_zero fun none => by simp [none] at bit
        have complete : (leaves.length / 2 ^ lower - 1 + 1) * 2 ^ lower ≤ leaves.length := by
          rw [Nat.sub_add_cancel positive]
          exact Nat.div_mul_le_self _ _
        rw [List.getElem?_set_ne beyond.ne, kept.held lower inside bit, subtree_append leaf complete]

/-- At the top, everything is complete. -/
theorem Carrying.top {current : α}
    (carrying : Carrying h depth chunkLevel leaves leaf depth nodes current)
    (kept : IsFrontier h.node (h.zero 0) depth leaves frontier) :
    Stores h depth chunkLevel (leaves ++ [leaf]) nodes ∧
      IsFrontier h.node (h.zero 0) depth (leaves ++ [leaf]) frontier := by
  have grown : (leaves ++ [leaf]).length = leaves.length + 1 := by simp
  constructor
  · intro lower index chunk inside complete
    rw [grown] at complete
    exact carrying.stored lower index chunk inside complete (Or.inl inside)
  · constructor
    · exact kept.length
    · intro lower inside bit
      rw [grown, carrying.cleared inside] at bit
      cases bit

theorem climb_spec {remaining : Nat} {current : α}
    (carrying : Carrying h depth chunkLevel leaves leaf level nodes current)
    (kept : IsFrontier h.node (h.zero 0) depth leaves frontier) (ends : level + remaining = depth) :
    ∃ nodes' frontier', climb h chunkLevel leaves.length remaining level nodes frontier current =
        .ok (nodes', frontier') ∧
      Stores h depth chunkLevel (leaves ++ [leaf]) nodes' ∧
      IsFrontier h.node (h.zero 0) depth (leaves ++ [leaf]) frontier' := by
  induction remaining generalizing level nodes current with
  | zero =>
      obtain rfl : level = depth := ends
      exact ⟨nodes, frontier, rfl, carrying.top kept⟩
  | succ remaining ih =>
      have within : level < depth := by omega
      rw [climb, Nat.shiftRight_eq_div_pow, Nat.and_one_is_mod]
      split
      · rename_i even
        exact ⟨nodes, _, rfl, carrying.left kept within even⟩
      · rename_i bit
        have odd : leaves.length / 2 ^ level % 2 = 1 := Nat.mod_two_ne_zero.mp bit
        rw [kept.held level within odd, Nat.shiftRight_eq_div_pow]
        exact ih (carrying.right odd rfl) (by omega)

theorem Holds.append {t : Tree α} (holds : Holds h depth chunkLevel leaves t)
    (room : leaves.length < 2 ^ depth) (leaf : α) :
    ∃ t', t.append h leaf = .ok t' ∧ Holds h depth chunkLevel (leaves ++ [leaf]) t' := by
  have start := @Carrying.start _ h depth chunkLevel leaves leaf t.nodes holds.stores
  obtain ⟨nodes, frontier, climbed, stores, kept⟩ :=
    climb_spec start holds.frontier (Nat.zero_add depth)
  have unsealed : t.state.size ≠ t.capacity := by
    rw [Tree.capacity, holds.size, holds.tall, Nat.one_shiftLeft]
    exact room.ne
  refine ⟨{ t with nodes := nodes, state := ⟨t.state.size + 1, frontier⟩ }, ?_, ?_⟩
  · rw [← holds.chunked, ← holds.size, ← holds.tall] at climbed
    simp only [Tree.append, bind_eq_ok, require_eq_ok, pure_eq_ok]
    exact ⟨(), unsealed, (nodes, frontier), climbed, rfl⟩
  · constructor
    · exact holds.tall
    · exact holds.chunked
    · change t.state.size + 1 = _
      rw [holds.size, List.length_append, List.length_singleton]
    · rw [List.length_append, List.length_singleton]
      exact room
    · exact kept
    · exact stores

theorem Holds.appendAll {t : Tree α} {rest : List α} (holds : Holds h depth chunkLevel leaves t)
    (fits : (leaves ++ rest).length ≤ 2 ^ depth) :
    ∃ t', t.appendAll h rest = .ok t' ∧ Holds h depth chunkLevel (leaves ++ rest) t' := by
  induction rest generalizing leaves t with
  | nil =>
      rw [List.append_nil]
      exact ⟨t, rfl, holds⟩
  | cons leaf rest ih =>
      rw [List.append_cons] at fits ⊢
      have room : leaves.length < 2 ^ depth := by
        simp only [List.length_append, List.length_singleton] at fits
        omega
      obtain ⟨next, appended, after⟩ := holds.append room leaf
      obtain ⟨t', reached, final⟩ := ih after fits
      refine ⟨t', ?_, final⟩
      rw [Tree.appendAll, List.foldlM_cons, appended]
      exact reached

/-! ### What a tree reads -/

variable {index : Nat}

/-- A level of a subtree has its nodes, and empty ones after them. -/
theorem subtreeLevel_getD (chain : ZeroChain h.node h.zero depth) (within : level ≤ depth)
    (leaves : List α) (index : Nat) :
    (subtreeLevel h leaves level).getD index (h.zero level) =
      subtree h.node (padded (h.zero 0) leaves) level index := by
  induction level generalizing index with
  | zero => rfl
  | succ level ih =>
      have below := ih (Nat.le_of_succ_le within)
      rw [subtree, ← below, ← below, subtreeLevel, parents, List.getD_eq_getElem?_getD,
        List.getElem?_map]
      generalize subtreeLevel h leaves level = nodes
      rcases Nat.lt_or_ge index ((max nodes.length 1 + 1) / 2) with inside | beyond
      · rw [List.getElem?_range inside]
        rfl
      · rw [List.getElem?_eq_none (by rwa [List.length_range]), List.getD_eq_default _ _ (by omega),
          List.getD_eq_default _ _ (by omega)]
        exact chain level within

theorem subtreeLevels_getD {height : Nat} (within : level ≤ height) (leaves : List α) :
    (subtreeLevels h leaves height).getD level [] = subtreeLevel h leaves level := by
  rw [subtreeLevels, List.getD_eq_getElem?_getD, List.getElem?_map,
    List.getElem?_range (Nat.lt_succ_of_le within)]
  rfl

theorem subtreeLevel_nonempty (present : leaves ≠ []) :
    0 < (subtreeLevel h leaves level).length := by
  induction level with
  | zero => exact List.length_pos_iff.mpr present
  | succ level ih =>
      rw [subtreeLevel, parents, List.length_map, List.length_range]
      omega

theorem subtreeLevels_root (chain : ZeroChain h.node h.zero depth) (within : level ≤ depth)
    (present : leaves ≠ []) :
    ((subtreeLevels h leaves level).getD level [])[0]? =
      some (subtree h.node (padded (h.zero 0) leaves) level 0) := by
  have top := @subtreeLevel_nonempty _ h level leaves present
  rw [subtreeLevels_getD (Nat.le_refl level), ← subtreeLevel_getD chain within,
    List.getD_eq_getElem _ _ top, List.getElem?_eq_getElem top]

def slice (leaves : List α) (asked : Nat × Nat) : List α := (leaves.drop asked.1).take asked.2

/-- A chunk of the leaves hashes to the nodes over it. -/
theorem subtree_slice {empty : α} {node : α → α → α} {height chunk : Nat} (low : level ≤ height)
    (inside : (index + 1) * 2 ^ level ≤ 2 ^ height) :
    subtree node (padded empty (slice leaves (chunk * 2 ^ height,
      min (chunk * 2 ^ height + 2 ^ height) leaves.length - chunk * 2 ^ height))) level index =
      subtree node (padded empty leaves) level (chunk * 2 ^ (height - level) + index) := by
  rw [← subtree_shift low]
  apply subtree_congr
  intro position _ below
  have bounded : position < 2 ^ height := below.trans_le inside
  rw [padded, padded, slice, List.getD_eq_getElem?_getD, List.getD_eq_getElem?_getD,
    List.getElem?_take, List.getElem?_drop]
  split
  · rfl
  · rw [List.getElem?_eq_none (by omega)]

def Within (leaves : List α) (asked : Nat × Nat) : Prop := asked.1 + asked.2 ≤ leaves.length

/-- A reader that returns the appended leaves, where it is asked for them. -/
def Serves (leaves : List α) (read : Nat × Nat → List α) : Prop :=
  ∀ asked, Within leaves asked → read asked = slice leaves asked

variable {t : Tree α} {read : Nat × Nat → List α}

theorem gives_chunk (serves : Serves leaves read) (start : index * 2 ^ level < leaves.length) :
    Asking.Gives read (Within leaves)
      (.question (index * 2 ^ level,
        min (index * 2 ^ level + 2 ^ level) leaves.length - index * 2 ^ level) : Reading α (List α))
      (slice leaves (index * 2 ^ level,
        min (index * 2 ^ level + 2 ^ level) leaves.length - index * 2 ^ level)) := by
  have within : Within leaves (index * 2 ^ level,
      min (index * 2 ^ level + 2 ^ level) leaves.length - index * 2 ^ level) := by
    rw [Within]
    omega
  rw [← serves _ within]
  exact Asking.Gives.question within

/-- A node is empty, stored, hashed from a chunk, or hashed from its children. -/
theorem Holds.valueFrom (holds : Holds h depth chunkLevel leaves t)
    (chain : ZeroChain h.node h.zero depth) (serves : Serves leaves read)
    (within : level ≤ depth) {below : Nat → Reading α α}
    (children : chunkLevel < level → ∀ lower, level = lower + 1 → ∀ child,
      Asking.Gives read (Within leaves) (below child)
        (subtree h.node (padded (h.zero 0) leaves) lower child)) (index : Nat) :
    Asking.Gives read (Within leaves) (t.valueFrom h level below index)
      (subtree h.node (padded (h.zero 0) leaves) level index) := by
  have succ : (index + 1) * 2 ^ level = index * 2 ^ level + 2 ^ level := by ring
  rw [Tree.valueFrom, Nat.shiftLeft_eq, Nat.one_shiftLeft, holds.size, holds.chunked]
  split
  · rename_i empty
    rw [subtree_empty chain within]
    · exact Asking.Gives.pure _
    · intro position above
      exact List.getD_eq_default _ _ (empty.trans above)
  · rename_i started
    have start : index * 2 ^ level < leaves.length := Nat.lt_of_not_le started
    dsimp only
    split
    · rename_i stored
      apply Asking.Gives.lift
      rw [holds.stores level index stored.2 within (succ ▸ stored.1)]
      rfl
    · split
      · rename_i partly low
        have stop : (if index * 2 ^ level + 2 ^ level ≤ leaves.length
            then index * 2 ^ level + 2 ^ level else leaves.length) =
            min (index * 2 ^ level + 2 ^ level) leaves.length := by
          rw [Nat.min_def]
        rw [stop]
        apply (gives_chunk serves start).bind
        apply Asking.Gives.lift
        have present : slice leaves (index * 2 ^ level,
            min (index * 2 ^ level + 2 ^ level) leaves.length - index * 2 ^ level) ≠ [] := by
          have positive := Nat.two_pow_pos level
          apply List.ne_nil_of_length_pos
          rw [slice, List.length_take, List.length_drop]
          omega
        rw [subtreeLevels_root chain within present, subtree_slice (Nat.le_refl level) (by simp)]
        simp [Machine.orFail]
      · rename_i partly high
        have above : chunkLevel < level := Nat.lt_of_not_le high
        cases level with
        | zero => exact absurd above (Nat.not_lt_zero _)
        | succ lower =>
            have child := children above lower rfl
            rw [Nat.mul_comm index 2]
            exact (child _).bind ((child _).bind (Asking.Gives.pure _))

theorem Holds.value (holds : Holds h depth chunkLevel leaves t)
    (chain : ZeroChain h.node h.zero depth) (serves : Serves leaves read)
    (within : level ≤ depth) (index : Nat) :
    Asking.Gives read (Within leaves) (t.value h level index)
      (subtree h.node (padded (h.zero 0) leaves) level index) := by
  induction level generalizing index with
  | zero =>
      apply holds.valueFrom chain serves within
      intro above
      exact absurd above (Nat.not_lt_zero _)
  | succ level ih =>
      apply holds.valueFrom chain serves within
      intro _ lower same child
      obtain rfl := Nat.succ.inj same
      exact ih (Nat.le_of_succ_le within) child

theorem Holds.root (holds : Holds h depth chunkLevel leaves t)
    (chain : ZeroChain h.node h.zero depth) (serves : Serves leaves read) :
    Asking.Gives read (Within leaves) (t.root h) (Merkle.root h.node (h.zero 0) depth leaves) := by
  rw [Tree.root, holds.tall]
  exact holds.value chain serves (Nat.le_refl depth) 0

/-! ### Witnesses -/

/-- The siblings of a leaf's ancestors, from the leaf level up. -/
def siblings (h : Hashing α) (depth : Nat) (leaves : List α) (index : Nat) : List α :=
  (List.range depth).map fun level =>
    subtree h.node (padded (h.zero 0) leaves) level (siblingIndex (index / 2 ^ level))

theorem rootFromPath_siblings (leaves : List α) (fits : leaves.length ≤ 2 ^ depth)
    (bound : index < leaves.length) :
    rootFromPath h.node leaves[index] index (siblings h depth leaves index) =
      Merkle.root h.node (h.zero 0) depth leaves := by
  have bottom : leaves[index] = subtree h.node (padded (h.zero 0) leaves) 0 (index / 2 ^ 0) := by
    rw [pow_zero, Nat.div_one, subtree, padded, List.getD_eq_getElem _ _ bound]
  have long : (siblings h depth leaves index).length = depth := by simp [siblings]
  rw [rootFromPath, bottom, climbPath_subtree, long, Nat.zero_add,
    Nat.div_eq_of_lt (bound.trans_le fits)]
  · rfl
  · intro offset sibling found
    rw [siblings, List.getElem?_map] at found
    obtain ⟨level, ranged, rfl⟩ := Option.map_eq_some_iff.mp found
    obtain ⟨_, rfl⟩ := List.getElem?_eq_some_iff.mp ranged
    rw [List.getElem_range, Nat.zero_add]

/-- Within its chunk, a node's index and its sibling's are offset alike. -/
theorem siblingIndex_offset {height : Nat} (low : level < height) (chunk position : Nat) :
    chunk * 2 ^ (height - level) + siblingIndex position =
      siblingIndex (chunk * 2 ^ (height - level) + position) := by
  have even : chunk * 2 ^ (height - level) = 2 * (chunk * 2 ^ (height - level - 1)) := by
    rw [Nat.mul_left_comm, ← pow_succ']
    congr 2
    omega
  rw [even, siblingIndex, siblingIndex]
  split
  · rename_i left
    rw [if_pos (by omega)]
    omega
  · rename_i right
    rw [if_neg (by omega)]
    omega

theorem siblingIndex_lt {position width : Nat} (inside : position < width)
    (even : width % 2 = 0) : siblingIndex position < width := by
  rw [siblingIndex]
  split
  · omega
  · omega

theorem subtree_sibling {empty : α} {node : α → α → α} {height : Nat} (low : level < height)
    (index : Nat) :
    subtree node (padded empty (slice leaves (index / 2 ^ height * 2 ^ height,
        min (index / 2 ^ height * 2 ^ height + 2 ^ height) leaves.length -
          index / 2 ^ height * 2 ^ height))) level
        (siblingIndex ((index - index / 2 ^ height * 2 ^ height) / 2 ^ level)) =
      subtree node (padded empty leaves) level (siblingIndex (index / 2 ^ level)) := by
  have width : 2 ^ height = 2 ^ (height - level) * 2 ^ level := by
    rw [← pow_add]
    congr 1
    omega
  have local' : (index - index / 2 ^ height * 2 ^ height) / 2 ^ level < 2 ^ (height - level) := by
    rw [Nat.div_lt_iff_lt_mul (Nat.two_pow_pos level), ← width, Nat.mul_comm, ← Nat.mod_eq_sub]
    exact Nat.mod_lt _ (Nat.two_pow_pos height)
  have even : 2 ^ (height - level) % 2 = 0 := by
    rw [show height - level = height - level - 1 + 1 by omega, pow_succ]
    exact Nat.mul_mod_left _ _
  have inside : (siblingIndex ((index - index / 2 ^ height * 2 ^ height) / 2 ^ level) + 1) *
      2 ^ level ≤ 2 ^ height := by
    rw [width] at local' ⊢
    exact Nat.mul_le_mul_right _ (siblingIndex_lt local' even)
  have whole : index / 2 ^ height * 2 ^ (height - level) +
      (index - index / 2 ^ height * 2 ^ height) / 2 ^ level = index / 2 ^ level := by
    have covers := Nat.div_mul_le_self index (2 ^ height)
    rw [Nat.add_comm, ← Nat.add_mul_div_right _ _ (Nat.two_pow_pos level), Nat.mul_assoc, ← width,
      Nat.sub_add_cancel covers]
  rw [subtree_slice low.le inside, siblingIndex_offset low, whole]

/-- The witness of a leaf, from its chunk and the nodes above it. -/
theorem Holds.witness (holds : Holds h depth chunkLevel leaves t)
    (chain : ZeroChain h.node h.zero depth)
    (sibling : ∀ index, h.sibling index = siblingIndex index)
    (serves : Serves leaves read) (chunked : chunkLevel ≤ depth) (bound : index < leaves.length) :
    Asking.Gives read (Within leaves) (t.witness h index)
      { root := Merkle.root h.node (h.zero 0) depth leaves
        siblings := siblings h depth leaves index } := by
  have split : siblings h depth leaves index =
      (List.range chunkLevel).map (fun level =>
        subtree h.node (padded (h.zero 0) leaves) level (siblingIndex (index / 2 ^ level))) ++
      (List.range' chunkLevel (depth - chunkLevel)).map (fun level =>
        subtree h.node (padded (h.zero 0) leaves) level (siblingIndex (index / 2 ^ level))) := by
    rw [siblings, ← List.map_append]
    congr 1
    have joined := @List.range'_append 0 chunkLevel (depth - chunkLevel) 1
    rw [Nat.one_mul, Nat.zero_add, Nat.add_sub_cancel' chunked] at joined
    rw [List.range_eq_range', List.range_eq_range', joined]
  have start : index / 2 ^ chunkLevel * 2 ^ chunkLevel < leaves.length :=
    (Nat.div_mul_le_self _ _).trans_lt bound
  have root := holds.root chain serves
  rw [Tree.root] at root
  rw [Tree.witness, split, holds.size, holds.chunked]
  dsimp only
  rw [Nat.shiftRight_eq_div_pow, Nat.shiftLeft_eq, Nat.one_shiftLeft]
  have admitted : require (index < leaves.length) (Failure.noLeaf index) = .ok () :=
    require_eq_ok.mpr bound
  apply (Asking.Gives.lift admitted).bind
  apply (gives_chunk serves start).bind
  rw [holds.tall] at root ⊢
  have within : (List.range chunkLevel).map (fun level =>
        ((subtreeLevels h (slice leaves (index / 2 ^ chunkLevel * 2 ^ chunkLevel,
          min (index / 2 ^ chunkLevel * 2 ^ chunkLevel + 2 ^ chunkLevel) leaves.length -
            index / 2 ^ chunkLevel * 2 ^ chunkLevel)) chunkLevel).getD level []).getD
          (h.sibling ((index - index / 2 ^ chunkLevel * 2 ^ chunkLevel) >>> level))
          (h.zero level)) =
      (List.range chunkLevel).map fun level =>
        subtree h.node (padded (h.zero 0) leaves) level (siblingIndex (index / 2 ^ level)) := by
    apply List.map_congr_left
    intro level member
    have low := List.mem_range.mp member
    rw [subtreeLevels_getD low.le, subtreeLevel_getD chain (low.le.trans chunked), sibling,
      Nat.shiftRight_eq_div_pow, subtree_sibling low]
  rw [← within]
  have above : Asking.Gives read (Within leaves)
      ((List.range' chunkLevel (depth - chunkLevel)).mapM fun level =>
        t.value h level (h.sibling (index >>> level)))
      ((List.range' chunkLevel (depth - chunkLevel)).map fun level =>
        subtree h.node (padded (h.zero 0) leaves) level (siblingIndex (index / 2 ^ level))) := by
    apply Asking.Gives.mapM
    intro level member
    have inside := List.mem_range'_1.mp member
    rw [sibling, Nat.shiftRight_eq_div_pow]
    exact holds.value chain serves (by omega) _
  exact above.bind (root.bind (Asking.Gives.pure _))

theorem Holds.witness_none (holds : Holds h depth chunkLevel leaves t)
    (beyond : leaves.length ≤ index) : t.witness h index = .failed (.noLeaf index) := by
  have refused : require (index < t.state.size) (Failure.noLeaf index) =
      .error (Failure.noLeaf index) := by
    rw [holds.size]
    exact require_eq_error.mpr ⟨Nat.not_lt_of_le beyond, rfl⟩
  rw [Tree.witness, refused]
  rfl

/-! ### Stopping and going on -/

/-- A store serves every earlier tree over the same leaves too. -/
theorem Stores.earlier {rest : List α} (stores : Stores h depth chunkLevel (leaves ++ rest) nodes) :
    Stores h depth chunkLevel leaves nodes := by
  intro level index above within complete
  rw [stores level index above within
    (complete.trans (List.length_append ▸ Nat.le_add_right _ _))]
  congr 1
  apply subtree_congr
  intro position _ below
  exact List.getD_append _ _ _ _ (below.trans_le complete)

/-- A tree put together from a state and the node store of a later one. -/
theorem Holds.resumed {rest : List α} {t' : Tree α}
    (holds : Holds h depth chunkLevel leaves t)
    (later : Holds h depth chunkLevel (leaves ++ rest) t') :
    Holds h depth chunkLevel leaves { t' with state := t.state } := by
  constructor
  · exact later.tall
  · exact later.chunked
  · exact holds.size
  · exact holds.fits
  · exact holds.frontier
  · exact later.stores.earlier

end Perch.Machine.WitnessTree
