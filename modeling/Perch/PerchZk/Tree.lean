/-
The trees witnesses are made with off the chain.

`perch-zk` and the prover each keep such a tree per tree of a pool.  The one
hashes with Barretenberg and computes its empty nodes, the other hashes as the
host does and has them as constants.  Fed with the leaves of a pool's tree,
both have its root, and give every leaf a witness for it.
-/

import Mathlib.Data.List.Induction
import Perch.Machine.WitnessTree
import Perch.Zk.Trees

namespace Perch.PerchZk

open Machine Zk
open Machine.WitnessTree hiding siblings Tree

/-! ### perch-zk's tree -/

section Web

variable (barretenberg : Poseidon2)

def node (left right : Bytes32) : Bytes32 :=
  be32 (barretenberg.hash [value left, value right])

def zeroHash : Nat → Bytes32
  | 0 => BytesN.fill 0
  | level + 1 => node barretenberg (zeroHash level) (zeroHash level)

def zeroHashes (depth : Nat) : List Bytes32 :=
  (List.range (depth + 1)).map (zeroHash barretenberg)

def rootFromPath (leafValue : Bytes32) (index : Nat) (siblings : List Bytes32) : Bytes32 :=
  Merkle.rootFromPath (node barretenberg) leafValue index siblings

def hashing : Hashing Bytes32 where
  node := node barretenberg
  zero := zeroHash barretenberg
  sibling position := if position % 2 = 0 then position + 1 else position - 1

structure TreeOptions where
  depth : Option Nat
  chunkLevel : Option Nat
  nodes : Option (NodeStore Bytes32)
  state : Option (TreeState Bytes32)

def incrementalTree (options : TreeOptions) : WitnessTree.Tree Bytes32 :=
  let depth := options.depth.getD 32
  { depth := depth
    chunkLevel := min (options.chunkLevel.getD 16) depth
    nodes := options.nodes.getD fun _ => none
    state := options.state.getD
      { size := 0, frontier := (zeroHashes barretenberg depth).take depth } }

end Web

/-! ### The prover's tree -/

namespace Prover

variable (poseidon2 : Poseidon2)

def hashing : Hashing Bytes32 where
  node := poseidon2.node
  zero := Zk.zeroHash
  sibling index := index ^^^ 1

def maxTreeDepth : Nat := 32

/-- A tree over a node store, resuming from a state when given.  A deeper tree
than the circuits have is a panic. -/
def withStore (depth chunkLevel : Nat) (nodes : NodeStore Bytes32)
    (state : Option (TreeState Bytes32)) : Option (WitnessTree.Tree Bytes32) :=
  if depth ≤ maxTreeDepth then
    some
      { depth := depth
        chunkLevel := min chunkLevel depth
        nodes := nodes
        state := state.getD { size := 0, frontier := Zk.zeroHashes.take depth } }
  else none

end Prover

/-! ### Trees over one hash -/

section Over

variable {h : Hashing Bytes32} {depth chunkLevel : Nat} {leaves : List Bytes32}
  {read : Nat × Nat → List Bytes32}

/-- A tree gives a root, and every leaf a full witness for it.  It asks only
for leaves that were appended. -/
structure Witnesses (barretenberg : Poseidon2) (h : Hashing Bytes32) (depth : Nat)
    (leaves : List Bytes32) (read : Nat × Nat → List Bytes32) (root : Bytes32)
    (t : WitnessTree.Tree Bytes32) : Prop where
  rooted : Asking.Gives read (Within leaves) (t.root h) root
  witness : ∀ index, ∀ bound : index < leaves.length, ∃ path,
    Asking.Gives read (Within leaves) (t.witness h index) path ∧ path.root = root ∧
      path.siblings.length = depth ∧
      rootFromPath barretenberg leaves[index] index path.siblings = root

def Alike (h : Hashing Bytes32) (read : Nat × Nat → List Bytes32)
    (t t' : WitnessTree.Tree Bytes32) : Prop :=
  (t'.root h).run read = (t.root h).run read ∧
    ∀ index, (t'.witness h index).run read = (t.witness h index).run read

/-- From a state of the tree and its node store then or later, appending the
rest gives a tree like one that never stopped. -/
def Resumes (h : Hashing Bytes32)
    (opens : NodeStore Bytes32 → Option (TreeState Bytes32) → Option (WitnessTree.Tree Bytes32))
    (leaves : List Bytes32) (read : Nat × Nat → List Bytes32)
    (start t : WitnessTree.Tree Bytes32) : Prop :=
  ∀ stop later, stop ≤ later → later ≤ leaves.length → ∃ stopped kept resumed t',
    start.appendAll h (leaves.take stop) = .ok stopped ∧
      start.appendAll h (leaves.take later) = .ok kept ∧
      opens kept.nodes (some stopped.state) = some resumed ∧
      resumed.appendAll h (leaves.drop stop) = .ok t' ∧ Alike h read t t'

/-- Fed with leaves from nothing, a tree gives their root and witnesses, and
can be stopped at any point. -/
def Follows (barretenberg : Poseidon2) (h : Hashing Bytes32)
    (opens : NodeStore Bytes32 → Option (TreeState Bytes32) → Option (WitnessTree.Tree Bytes32))
    (depth : Nat)
    (leaves : List Bytes32) (read : Nat × Nat → List Bytes32) (root : Bytes32) : Prop :=
  ∃ start t, opens (fun _ => none) none = some start ∧ start.appendAll h leaves = .ok t ∧
    Witnesses barretenberg h depth leaves read root t ∧ Resumes h opens leaves read start t

theorem holds_start {frontier : List Bytes32} (long : frontier.length = depth) :
    Holds h depth (min chunkLevel depth) []
      { depth := depth
        chunkLevel := min chunkLevel depth
        nodes := fun _ => none
        state := { size := 0, frontier := frontier } } := by
  constructor
  · rfl
  · rfl
  · rfl
  · exact Nat.zero_le _
  · constructor
    · exact long
    · intro level _ bit
      simp at bit
  · intro level index _ _ complete
    have positive : 0 < (index + 1) * 2 ^ level :=
      Nat.mul_pos (Nat.succ_pos _) (Nat.two_pow_pos _)
    rw [List.length_nil] at complete
    omega

theorem alike_of_holds {t t' : WitnessTree.Tree Bytes32} (chain : Merkle.ZeroChain h.node h.zero depth)
    (sibling : ∀ index, h.sibling index = Merkle.siblingIndex index) (serves : Serves leaves read)
    (chunked : chunkLevel ≤ depth) (holds : Holds h depth chunkLevel leaves t)
    (holds' : Holds h depth chunkLevel leaves t') : Alike h read t t' := by
  constructor
  · rw [(holds.root chain serves).returns, (holds'.root chain serves).returns]
  · intro index
    rcases Nat.lt_or_ge index leaves.length with bound | beyond
    · rw [(holds.witness chain sibling serves chunked bound).returns,
        (holds'.witness chain sibling serves chunked bound).returns]
    · rw [holds.witness_none beyond, holds'.witness_none beyond]

/-- A tree follows the leaves when its hashes are those of the node `hash`,
with which the paths are checked. -/
theorem follows (barretenberg : Poseidon2) (chunkLevel : Nat) (frontier : List Bytes32)
    {root : Bytes32}
    {opens : NodeStore Bytes32 → Option (TreeState Bytes32) → Option (WitnessTree.Tree Bytes32)}
    (opened : ∀ nodes state, opens nodes state = some
      { depth := depth
        chunkLevel := min chunkLevel depth
        nodes := nodes
        state := state.getD { size := 0, frontier := frontier } })
    (long : frontier.length = depth) (chain : Merkle.ZeroChain h.node h.zero depth)
    (sibling : ∀ index, h.sibling index = Merkle.siblingIndex index)
    (fits : leaves.length ≤ 2 ^ depth) (serves : Serves leaves read)
    (rooted : Merkle.root h.node (h.zero 0) depth leaves = root)
    (climbs : ∀ index, ∀ bound : index < leaves.length,
      rootFromPath barretenberg leaves[index] index
        (WitnessTree.siblings h depth leaves index) = root) :
    Follows barretenberg h opens depth leaves read root := by
  have chunked : min chunkLevel depth ≤ depth := Nat.min_le_right _ _
  have start := @holds_start h depth chunkLevel frontier long
  have prefixFits (stop : Nat) : ([] ++ leaves.take stop).length ≤ 2 ^ depth := by
    rw [List.nil_append, List.length_take]
    exact (Nat.min_le_right _ _).trans fits
  obtain ⟨t, fed, holds⟩ := @Holds.appendAll _ h depth _ [] _ leaves start fits
  refine ⟨_, t, opened _ _, fed, ?_, ?_⟩
  · constructor
    · rw [← rooted]
      exact holds.root chain serves
    · intro index bound
      refine ⟨_, holds.witness chain sibling serves chunked bound, rooted, ?_, climbs index bound⟩
      rw [WitnessTree.siblings, List.length_map, List.length_range]
  · intro stop later before _
    obtain ⟨stopped, fed', holdsStop⟩ := start.appendAll (prefixFits stop)
    obtain ⟨kept, fed'', holdsLater⟩ := start.appendAll (prefixFits later)
    have between : [] ++ leaves.take later =
        [] ++ leaves.take stop ++ (leaves.take later).drop stop := by
      rw [List.append_assoc, ← List.take_append_drop stop (leaves.take later), List.take_take,
        Nat.min_eq_left before, List.drop_left' (by simp; omega)]
    rw [between] at holdsLater
    have resumed := holdsStop.resumed holdsLater
    have whole : [] ++ leaves.take stop ++ leaves.drop stop = leaves := by
      rw [List.nil_append, List.take_append_drop]
    obtain ⟨t', reached, holds'⟩ := resumed.appendAll (whole ▸ fits)
    rw [whole] at holds'
    refine ⟨stopped, kept, _, t', fed', fed'', opened _ _, ?_, ?_⟩
    · have same : ({ kept with state := stopped.state } : WitnessTree.Tree Bytes32) =
          { depth := depth
            chunkLevel := min chunkLevel depth
            nodes := kept.nodes
            state := stopped.state } := by
        rw [← holdsLater.chunked, ← holdsLater.tall]
      rw [same] at reached
      exact reached
    · exact alike_of_holds chain sibling serves chunked holds holds'

end Over

/-! ### The pool's tree -/

section Pool

variable {poseidon2 barretenberg : Poseidon2} {depth : Nat} {leaves : List Bytes32}

def insertAll (poseidon2 : Poseidon2) (depth : Nat) (leaves : List Bytes32) :
    Except PoolRefusal PoolStorage :=
  leaves.foldlM (fun s leaf => (Zk.append poseidon2 depth s leaf).map Prod.snd) .empty

/-- A pool whose first tree has these leaves, and is current while it has room. -/
structure FirstTree (poseidon2 : Poseidon2) (depth : Nat) (leaves : List Bytes32)
    (s : PoolStorage) : Prop where
  current : leaves.length < 2 ^ depth → currentTreeOf s = 0
  stands : Stands poseidon2 depth leaves (s.tree 0)

theorem append_total (poseidon2 : Poseidon2) {s : PoolStorage} (leaf : Bytes32)
    (counted : (openState depth s (currentTreeOf s)).size.toNat + 1 < 2 ^ 64)
    (early : (currentTreeOf s).toNat + 1 < 2 ^ 32) :
    ∃ insertion s', Zk.append poseidon2 depth s leaf = .ok (insertion, s') := by
  have size : checkedSucc ((s.tree (currentTreeOf s)).getD (.fresh depth)).size =
      some (((s.tree (currentTreeOf s)).getD (.fresh depth)).size + 1) := if_pos counted
  have next : checkedSucc32 (currentTreeOf s) = some (currentTreeOf s + 1) := if_pos early
  simp only [Zk.append, size, next, Machine.orFail, ok_bind]
  split
  · exact ⟨_, _, rfl⟩
  · exact ⟨_, _, rfl⟩

theorem FirstTree.append (shallow : depth ≤ 32) (chain : EmptyHashes poseidon2 depth)
    {s : PoolStorage} (first : FirstTree poseidon2 depth leaves s)
    (room : leaves.length < 2 ^ depth) (leaf : Bytes32) :
    ∃ insertion s', Zk.append poseidon2 depth s leaf = .ok (insertion, s') ∧
      FirstTree poseidon2 depth (leaves ++ [leaf]) s' := by
  have current := first.current room
  have opened : (openState depth s 0).size.toNat = leaves.length ∧
      Merkle.IsFrontier poseidon2.node (Zk.zeroHash 0) depth leaves
        (openState depth s 0).frontier := by
    have stands := first.stands
    rw [openState]
    cases held : s.tree 0 with
    | none =>
        rw [held] at stands
        obtain rfl : leaves = [] := stands
        exact ⟨rfl, isFrontier_fresh⟩
    | some state =>
        rw [held] at stands
        exact ⟨stands.2.1, stands.2.2.2⟩
  have small : leaves.length < 2 ^ 32 :=
    room.trans_le (Nat.pow_le_pow_right (by decide) shallow)
  obtain ⟨insertion, s', appended⟩ := append_total poseidon2 leaf
    (by rw [current, opened.1]; omega) (by rw [current]; decide)
  refine ⟨insertion, s', appended, ?_⟩
  have parts := append_eq_ok appended
  obtain ⟨size, grown, tree, _, rolled⟩ := parts.tree
  have placed := parts.treeId
  have index := parts.index
  have root := parts.root
  rw [current] at placed index root tree
  have count : insertion.index.toNat = leaves.length := by rw [index, opened.1]
  have climbed := climb_spec chain shallow count room opened.2 leaf
  have long : (leaves ++ [leaf]).length = leaves.length + 1 := by simp
  constructor
  · intro still
    have partly : size ≠ capacity depth := by
      intro full
      have width := toNat_capacity shallow
      rw [← full, grown, count] at width
      omega
    rcases rolled with ⟨_, same⟩ | ⟨full, _⟩
    · rw [currentTreeOf, same]
      exact current
    · exact absurd full partly
  · rw [tree, placed, Function.update_self]
    refine ⟨by simp, ?_, ?_, climbed.1⟩
    · rw [long, grown, count]
    · exact root.trans climbed.2

theorem insertAll_spec (shallow : depth ≤ 32) (chain : EmptyHashes poseidon2 depth)
    (fits : leaves.length ≤ 2 ^ depth) :
    ∃ s, insertAll poseidon2 depth leaves = .ok s ∧ FirstTree poseidon2 depth leaves s := by
  induction leaves using List.reverseRecOn with
  | nil =>
      refine ⟨.empty, rfl, ?_⟩
      constructor
      · intro _
        rfl
      · rfl
  | append_singleton leaves leaf ih =>
      rw [List.length_append, List.length_singleton] at fits
      obtain ⟨s, inserted, first⟩ := ih (Nat.le_of_succ_le fits)
      obtain ⟨insertion, s', appended, next⟩ := first.append shallow chain fits leaf
      refine ⟨s', ?_, next⟩
      rw [insertAll] at inserted ⊢
      rw [List.foldlM_append, inserted, ok_bind, List.foldlM_cons, appended]
      rfl

/-- A pool's root is that over the leaves, padded. -/
theorem FirstTree.treeRoot {s : PoolStorage} (chain : EmptyHashes poseidon2 depth)
    (first : FirstTree poseidon2 depth leaves s) :
    Zk.treeRoot depth s 0 = merkleRoot poseidon2 depth leaves := by
  have stands := first.stands
  rw [Zk.treeRoot]
  cases held : s.tree 0 with
  | none =>
      rw [held] at stands
      obtain rfl : leaves = [] := stands
      exact (Merkle.subtree_empty chain (Nat.le_refl depth) fun _ _ => rfl).symm
  | some state =>
      rw [held] at stands
      exact stands.2.2.1

/-! ### The two trees and the pool's -/

/-- Barretenberg's hash of two field elements is the host's. -/
def SameHash (barretenberg poseidon2 : Poseidon2) : Prop :=
  ∀ left right, left < fieldModulus → right < fieldModulus →
    barretenberg.hash [left, right] = poseidon2.hash [left, right]

theorem zeroHash_zero : zeroHash barretenberg 0 = Zk.zeroHash 0 := by
  rw [zeroHash]
  decide

/-- Over field elements, both hashes make the same nodes. -/
theorem subtree_same (same : SameHash barretenberg poseidon2)
    (canonical : ∀ leaf ∈ leaves, isCanonicalField leaf = true) (level index : Nat) :
    Merkle.subtree (node barretenberg) (Merkle.padded (zeroHash barretenberg 0) leaves) level
        index =
      Merkle.subtree poseidon2.node (Merkle.padded (Zk.zeroHash 0) leaves) level index := by
  rw [zeroHash_zero]
  have agree : ∀ left right, isCanonicalField left = true → isCanonicalField right = true →
      node barretenberg left right = poseidon2.node left right ∧
        isCanonicalField (node barretenberg left right) = true := by
    intro left right leftFits rightFits
    rw [isCanonicalField_iff] at leftFits rightFits
    constructor
    · rw [node, same _ _ leftFits rightFits]
      rfl
    · rw [isCanonicalField_iff, node, value_be32 (barretenberg.reduced _)]
      exact barretenberg.reduced _
  have each : ∀ position,
      isCanonicalField (Merkle.padded (Zk.zeroHash 0) leaves position) = true := by
    intro position
    rw [Merkle.padded, List.getD_eq_getElem?_getD]
    cases held : leaves[position]? with
    | none => decide
    | some leaf => exact canonical leaf (List.mem_of_getElem? held)
  exact (Merkle.subtree_agree agree each level index).1

structure TreesMatch (barretenberg poseidon2 : Poseidon2) (depth chunkLevel : Nat)
    (leaves : List Bytes32) (read : Nat × Nat → List Bytes32) : Prop where
  pool : ∃ s, insertAll poseidon2 depth leaves = .ok s ∧
    treeRoot depth s 0 = merkleRoot poseidon2 depth leaves ∧
    (leaves = [] → treeRoot depth s 0 = Zk.zeroHash depth)
  web : Follows barretenberg (hashing barretenberg)
    (fun nodes state => some (incrementalTree barretenberg
      ⟨some depth, some chunkLevel, some nodes, state⟩))
    depth leaves read (merkleRoot poseidon2 depth leaves)
  prover : Follows barretenberg (Prover.hashing poseidon2) (Prover.withStore depth chunkLevel)
    depth leaves read (merkleRoot poseidon2 depth leaves)

theorem zeroChain (barretenberg : Poseidon2) (depth : Nat) :
    Merkle.ZeroChain (hashing barretenberg).node (hashing barretenberg).zero depth := by
  intro level _
  rfl

theorem sibling_xor (index : Nat) : index ^^^ 1 = Merkle.siblingIndex index := by
  have bit : (index ^^^ 1) % 2 = 1 ↔ ¬(index % 2 = 1 ↔ 1 % 2 = 1) := Nat.xor_mod_two_eq_one
  have rest : (index ^^^ 1) / 2 = index / 2 := by
    rw [Nat.xor_div_two]
    exact Nat.xor_zero _
  rw [Merkle.siblingIndex]
  split
  · omega
  · omega

/-- A path of the siblings in a tree leads to the pool's root. -/
theorem rootFromPath_root (same : SameHash barretenberg poseidon2)
    (fits : leaves.length ≤ 2 ^ depth)
    (canonical : ∀ leaf ∈ leaves, isCanonicalField leaf = true) (index : Nat)
    (bound : index < leaves.length) :
    rootFromPath barretenberg leaves[index] index
      (WitnessTree.siblings (hashing barretenberg) depth leaves index) =
      merkleRoot poseidon2 depth leaves := by
  have climbed := @rootFromPath_siblings _ (hashing barretenberg) depth index leaves fits bound
  exact climbed.trans (subtree_same same canonical depth 0)

section Follows

variable {read : Nat × Nat → List Bytes32} (same : SameHash barretenberg poseidon2)
  (chunkLevel : Nat) (fits : leaves.length ≤ 2 ^ depth)
  (canonical : ∀ leaf ∈ leaves, isCanonicalField leaf = true) (serves : Serves leaves read)

include same fits canonical serves

theorem web_follows : Follows barretenberg (hashing barretenberg)
    (fun nodes state => some (incrementalTree barretenberg
      ⟨some depth, some chunkLevel, some nodes, state⟩))
    depth leaves read (merkleRoot poseidon2 depth leaves) := by
  apply follows barretenberg chunkLevel ((zeroHashes barretenberg depth).take depth)
  · intro nodes state
    rfl
  · rw [zeroHashes, List.length_take, List.length_map, List.length_range]
    omega
  · exact zeroChain barretenberg depth
  · intro index
    rfl
  · exact fits
  · exact serves
  · exact subtree_same same canonical depth 0
  · exact rootFromPath_root same fits canonical

theorem prover_follows (shallow : depth ≤ 32) (chain : EmptyHashes poseidon2 depth) :
    Follows barretenberg (Prover.hashing poseidon2) (Prover.withStore depth chunkLevel)
      depth leaves read (merkleRoot poseidon2 depth leaves) := by
  apply follows barretenberg chunkLevel (Zk.zeroHashes.take depth)
  · intro nodes state
    exact if_pos shallow
  · have long : Zk.zeroHashes.length = 33 := rfl
    rw [List.length_take, long]
    omega
  · exact chain
  · exact sibling_xor
  · exact fits
  · exact serves
  · rfl
  · intro index bound
    have siblings : WitnessTree.siblings (Prover.hashing poseidon2) depth leaves index =
        WitnessTree.siblings (hashing barretenberg) depth leaves index := by
      apply List.map_congr_left
      intro level _
      exact (subtree_same same canonical level _).symm
    rw [siblings]
    exact rootFromPath_root same fits canonical index bound

end Follows

/-- For field elements that fit one tree, both trees have the root of a pool
they are inserted into, give each a witness for it, and can be stopped and
resumed. -/
theorem witnessTrees_match {barretenberg poseidon2 : Poseidon2} {depth : Nat}
    (shallow : depth ≤ 32) (chain : EmptyHashes poseidon2 depth)
    (same : SameHash barretenberg poseidon2) (chunkLevel : Nat) {leaves : List Bytes32}
    (fits : leaves.length ≤ 2 ^ depth)
    (canonical : ∀ leaf ∈ leaves, isCanonicalField leaf = true)
    {read : Nat × Nat → List Bytes32} (serves : Serves leaves read) :
    TreesMatch barretenberg poseidon2 depth chunkLevel leaves read := by
  constructor
  · obtain ⟨s, inserted, first⟩ := insertAll_spec shallow chain fits
    refine ⟨s, inserted, first.treeRoot chain, ?_⟩
    intro none
    subst none
    rw [first.treeRoot chain]
    exact Merkle.subtree_empty chain (Nat.le_refl depth) fun _ _ => rfl
  · exact web_follows same chunkLevel fits canonical serves
  · exact prover_follows same chunkLevel fits canonical serves shallow chain

/-! ### A tree of depth one -/

def sampleLeaves : List Bytes32 := [be32 8, be32 9]

theorem sample_chain : ∀ level < 1, Zk.zeroHash (level + 1) =
    Filled.poseidon2.node (Zk.zeroHash level) (Zk.zeroHash level) := by
  decide

theorem witnessTrees_match_full :
    TreesMatch Filled.poseidon2 Filled.poseidon2 1 0 sampleLeaves (slice sampleLeaves) :=
  witnessTrees_match (by decide) sample_chain (fun _ _ _ _ => rfl) 0 (by decide)
    (by decide) (fun _ _ => rfl)

end Pool

/-! ### Every tree of a pool -/

section Runs

variable {poseidon2 barretenberg : Poseidon2} {depth : Nat} {history : List PoolStep}
  {now : UInt32} {s : PoolStorage}

theorem leavesOf_canonical (run : Execution (pool poseidon2 depth) 0 .empty history now s)
    (treeId : UInt32) : ∀ leaf ∈ leavesOf history treeId, isCanonicalField leaf = true := by
  induction run with
  | refl =>
      intro leaf member
      cases member
  | wait _ _ ih => exact ih
  | @call history now s call _ _ ih =>
      intro leaf member
      rw [leavesOf_cons] at member
      rcases List.mem_append.mp member with earlier | newest
      · exact ih leaf earlier
      · cases called : rcvInsert poseidon2 depth s call.account call.enrollmentId
            call.commitment with
        | error refusal =>
            rw [insertedLeaf, (step_refused called).1] at newest
            cases newest
        | ok result =>
            obtain ⟨insertion, s'⟩ := result
            obtain ⟨accountId, _, hashed⟩ := (rcvInsert_inserts called).bound
            rw [insertedLeaf, (step_inserted called).1] at newest
            dsimp only at newest
            split at newest
            · rw [List.mem_singleton.mp newest, hashed]
              exact hashBytes_canonical _
            · cases newest

/-- After any run of a pool, trees fed with the leaves of one of its trees
follow it. -/
theorem pool_followed (shallow : depth ≤ 32) (chain : EmptyHashes poseidon2 depth)
    (same : SameHash barretenberg poseidon2) (chunkLevel : Nat)
    (run : Execution (pool poseidon2 depth) 0 .empty history now s) (treeId : UInt32)
    {read : Nat × Nat → List Bytes32} (serves : Serves (leavesOf history treeId) read) :
    Follows barretenberg (hashing barretenberg)
        (fun nodes state => some (incrementalTree barretenberg
          ⟨some depth, some chunkLevel, some nodes, state⟩))
        depth (leavesOf history treeId) read (treeRoot depth s treeId) ∧
      Follows barretenberg (Prover.hashing poseidon2) (Prover.withStore depth chunkLevel)
        depth (leavesOf history treeId) read (treeRoot depth s treeId) := by
  have trees := (poolSound chain shallow run).trees
  have fits : (leavesOf history treeId).length ≤ 2 ^ depth := by
    rcases Nat.lt_trichotomy treeId.toNat (currentTreeOf s).toNat with full | here | unopened
    · exact (trees.full treeId (UInt32.lt_iff_toNat_lt.mpr full)).le
    · rw [UInt32.toNat_inj.mp here]
      exact trees.room.le
    · rw [trees.unopened treeId (UInt32.lt_iff_toNat_lt.mpr unopened)]
      exact Nat.zero_le _
  have canonical := leavesOf_canonical run treeId
  rw [trees.treeRoot chain treeId]
  constructor
  · exact web_follows same chunkLevel fits canonical serves
  · exact prover_follows same chunkLevel fits canonical serves shallow chain

end Runs

end Perch.PerchZk
