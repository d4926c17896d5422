/-
The history of a membership pool, read off its storage.

A pool keeps each tree as a frontier and fills them one after another.  Every
insertion climbs from its leaf to the root over the frontier, so that what is
stored stands, at any moment, for the leaves inserted so far in their order.
-/

import Perch.Machine.Merkle
import Perch.Zk.Pool

namespace Perch.Zk

open Machine Recovery

/-! ### Climbing -/

section Climb

variable {poseidon2 : Poseidon2} {depth : Nat}

theorem toNat_capacity (shallow : depth ≤ 32) : (capacity depth).toNat = 2 ^ depth := by
  have power : 2 ^ depth ≤ 2 ^ 32 := Nat.pow_le_pow_right (by decide) shallow
  rw [capacity, UInt64.toNat_shiftLeft]
  have small : depth.toUInt64.toNat % 64 = depth := by
    rw [Nat.toUInt64, UInt64.toNat_ofNat']
    omega
  rw [small, UInt64.toNat_one, Nat.one_shiftLeft]
  exact Nat.mod_eq_of_lt (by omega)

theorem bit_eq_zero_iff (index : UInt64) {level : Nat} (low : level < 64) :
    (index >>> level.toUInt64) &&& 1 = 0 ↔ index.toNat / 2 ^ level % 2 = 0 := by
  have small : level.toUInt64.toNat % 64 = level := by
    rw [Nat.toUInt64, UInt64.toNat_ofNat']
    omega
  rw [← UInt64.toNat_inj, UInt64.toNat_and, UInt64.toNat_shiftRight, small,
    Nat.shiftRight_eq_div_pow, UInt64.toNat_one, Nat.and_one_is_mod]
  rfl

/-- The empty leaf is the hash at level zero, and each empty node the hash of
two empty children. -/
abbrev EmptyHashes (poseidon2 : Poseidon2) (depth : Nat) : Prop :=
  Merkle.ZeroChain poseidon2.node zeroHash depth

def merkleRoot (poseidon2 : Poseidon2) (depth : Nat) (leaves : List Bytes32) : Bytes32 :=
  Merkle.root poseidon2.node (zeroHash 0) depth leaves

theorem climb_climbing (chain : EmptyHashes poseidon2 depth) (shallow : depth ≤ 32)
    {index : UInt64} {frontier inserted : List Bytes32} {leaf : Bytes32}
    (count : index.toNat = inserted.length)
    (kept : Merkle.IsFrontier poseidon2.node (zeroHash 0) depth inserted frontier)
    {level : Nat} (within : level ≤ depth) :
    Merkle.Climbing poseidon2.node (zeroHash 0) depth inserted leaf level
      (climb poseidon2 level index frontier leaf).1
      (climb poseidon2 level index frontier leaf).2 := by
  induction level with
  | zero => exact Merkle.Climbing.start kept
  | succ level ih =>
      have below := ih (Nat.le_of_succ_le within)
      have unrolled : climb poseidon2 (level + 1) index frontier leaf =
          climbLevel poseidon2 index level (climb poseidon2 level index frontier leaf) := by
        simp [climb, List.range_succ]
      rw [unrolled, climbLevel]
      have low : level < 64 := by omega
      have bit := bit_eq_zero_iff index low
      rw [count] at bit
      split
      next left => exact below.left chain within (bit.mp left)
      next right =>
        have odd : inserted.length / 2 ^ level % 2 = 1 :=
          Nat.mod_two_ne_zero.mp fun even => right (bit.mpr even)
        have held := below.ahead level (Nat.le_refl level) within odd
        have read := List.getD_eq_getElem?_getD (l := (climb poseidon2 level index frontier leaf).1)
          (i := level) (a := BytesN.fill 0)
        rw [held, Option.getD_some] at read
        rw [read]
        exact below.right within odd held

/-- An insertion into a tree with room moves its frontier and its root to the
leaves with the new one. -/
theorem climb_spec (chain : EmptyHashes poseidon2 depth) (shallow : depth ≤ 32)
    {index : UInt64} {frontier inserted : List Bytes32}
    (count : index.toNat = inserted.length) (room : inserted.length < 2 ^ depth)
    (kept : Merkle.IsFrontier poseidon2.node (zeroHash 0) depth inserted frontier)
    (leaf : Bytes32) :
    Merkle.IsFrontier poseidon2.node (zeroHash 0) depth (inserted ++ [leaf])
        (climb poseidon2 depth index frontier leaf).1 ∧
      (climb poseidon2 depth index frontier leaf).2 =
        merkleRoot poseidon2 depth (inserted ++ [leaf]) :=
  (climb_climbing chain shallow count kept (Nat.le_refl depth)).finish room

end Climb

/-! ### What an insertion writes -/

section Inserts

variable {poseidon2 : Poseidon2} {depth : Nat} {s s' : PoolStorage}

def openState (depth : Nat) (s : PoolStorage) (treeId : UInt32) : TreeState :=
  (s.tree treeId).getD (TreeState.fresh depth)

structure Appends (poseidon2 : Poseidon2) (depth : Nat) (s : PoolStorage) (added : Bytes32)
    (insertion : Insertion) (s' : PoolStorage) : Prop where
  treeId : insertion.treeId = currentTreeOf s
  index : insertion.index = (openState depth s (currentTreeOf s)).size
  leaf : insertion.leaf = added
  root : insertion.root = (climb poseidon2 depth insertion.index
    (openState depth s (currentTreeOf s)).frontier added).2
  tree : ∃ size, size.toNat = insertion.index.toNat + 1 ∧
    s'.tree = Function.update s.tree insertion.treeId (some
      { size := size
        root := insertion.root
        frontier := (climb poseidon2 depth insertion.index
          (openState depth s (currentTreeOf s)).frontier added).1 }) ∧
    s'.root = Function.update s.root (insertion.treeId, insertion.root) (some size) ∧
    ((size ≠ capacity depth ∧ s'.currentTree = s.currentTree) ∨
      (size = capacity depth ∧ ∃ next, next.toNat = insertion.treeId.toNat + 1 ∧
        s'.currentTree = some next))
  leaves : s'.leaf = Function.update s.leaf (insertion.treeId, insertion.index) (some added)
  enrollment : s'.enrollment = s.enrollment

theorem append_eq_ok {leaf : Bytes32} {insertion : Insertion}
    (appended : append poseidon2 depth s leaf = .ok (insertion, s')) :
    Appends poseidon2 depth s leaf insertion s' := by
  simp only [append, bind_eq_ok, orFail_eq_ok, pure_eq_ok, Prod.mk.injEq] at appended
  obtain ⟨size, grown, after, rolled, rfl, rfl⟩ := appended
  have counted := checkedSucc_eq_some.mp grown
  split at rolled
  next full =>
    simp only [bind_eq_ok, orFail_eq_ok, pure_eq_ok] at rolled
    obtain ⟨next, opened, rfl⟩ := rolled
    exact
      { treeId := rfl
        index := rfl
        leaf := rfl
        root := rfl
        tree := ⟨size, counted, rfl, rfl, Or.inr ⟨full, next, checkedSucc32_eq_some.mp opened, rfl⟩⟩
        leaves := rfl
        enrollment := rfl }
  next partly =>
    rw [pure_eq_ok] at rolled
    subst rolled
    exact
      { treeId := rfl
        index := rfl
        leaf := rfl
        root := rfl
        tree := ⟨size, counted, rfl, rfl, Or.inl ⟨partly, rfl⟩⟩
        leaves := rfl
        enrollment := rfl }

structure Inserts (poseidon2 : Poseidon2) (depth : Nat) (s : PoolStorage) (call : InsertCall)
    (insertion : Insertion) (s' : PoolStorage) : Prop where
  free : s.enrollment (call.account, call.enrollmentId) = none
  canonical : isCanonicalField call.commitment = true
  bound : ∃ accountId, contractId call.account = some accountId ∧
    insertion.leaf = poseidon2.leafHash accountId call.enrollmentId call.commitment
  appends : ∃ middle, Appends poseidon2 depth s insertion.leaf insertion middle ∧
    s' = { middle with
      enrollment := Function.update s.enrollment (call.account, call.enrollmentId)
        (some { treeId := insertion.treeId, index := insertion.index }) }

theorem rcvInsert_inserts {call : InsertCall} {insertion : Insertion}
    (inserted : rcvInsert poseidon2 depth s call.account call.enrollmentId call.commitment =
      .ok (insertion, s')) :
    Inserts poseidon2 depth s call insertion s' := by
  simp only [rcvInsert, bind_eq_ok, orFail_eq_ok, require_eq_ok, pure_eq_ok, Prod.mk.injEq,
    Prod.exists] at inserted
  obtain ⟨accountId, account, _, canonical, _, free, inner, middle, appended, rfl, rfl⟩ := inserted
  have parts := append_eq_ok appended
  refine
    { free := free
      canonical := canonical
      bound := ⟨accountId, account, parts.leaf⟩
      appends := ⟨middle, ?_, ?_⟩ }
  · rw [parts.leaf]
    exact parts
  · rw [parts.enrollment]

end Inserts

/-! ### What a pool's storage stands for -/

def insertedLeaf (treeId : UInt32) (taken : PoolStep) : Option Bytes32 :=
  match taken.reply with
  | .ok insertion => if insertion.treeId = treeId then some insertion.leaf else none
  | .error _ => none

def leavesOf (history : List PoolStep) (treeId : UInt32) : List Bytes32 :=
  history.reverse.filterMap (insertedLeaf treeId)

theorem leavesOf_cons (taken : PoolStep) (history : List PoolStep) (treeId : UInt32) :
    leavesOf (taken :: history) treeId =
      leavesOf history treeId ++ (insertedLeaf treeId taken).toList := by
  simp only [leavesOf, List.reverse_cons, List.filterMap_append]
  cases inserted : insertedLeaf treeId taken <;> simp [inserted]

/-- What is stored of a tree with these leaves: nothing before the first. -/
def Stands (poseidon2 : Poseidon2) (depth : Nat) (inserted : List Bytes32) :
    Option TreeState → Prop
  | none => inserted = []
  | some state => inserted ≠ [] ∧ state.size.toNat = inserted.length ∧
      state.root = merkleRoot poseidon2 depth inserted ∧
      Merkle.IsFrontier poseidon2.node (zeroHash 0) depth inserted state.frontier

/-- The trees of a pool: full ones, the current one, and none after it. -/
structure TreesSound (poseidon2 : Poseidon2) (depth : Nat) (history : List PoolStep)
    (s : PoolStorage) : Prop where
  full : ∀ treeId < currentTreeOf s, (leavesOf history treeId).length = 2 ^ depth
  room : (leavesOf history (currentTreeOf s)).length < 2 ^ depth
  unopened : ∀ treeId, currentTreeOf s < treeId → leavesOf history treeId = []
  stands : ∀ treeId, Stands poseidon2 depth (leavesOf history treeId) (s.tree treeId)
  leaf : ∀ treeId index, s.leaf (treeId, index) = (leavesOf history treeId)[index.toNat]?
  root : ∀ treeId root, (s.root (treeId, root)).isSome = true ↔
    ∃ count, 0 < count ∧ count ≤ (leavesOf history treeId).length ∧
      root = merkleRoot poseidon2 depth ((leavesOf history treeId).take count)

section Sound

variable {poseidon2 : Poseidon2} {depth : Nat} {history : List PoolStep} {s s' : PoolStorage}

theorem treesSound_empty : TreesSound poseidon2 depth [] .empty := by
  constructor
  · intro treeId below
    simp [currentTreeOf, PoolStorage.empty] at below
  · simp [leavesOf]
  · intro treeId _
    rfl
  · intro treeId
    rfl
  · intro treeId index
    simp [PoolStorage.empty, leavesOf]
  · intro treeId root
    simp only [PoolStorage.empty, Option.isSome_none, Bool.false_eq_true, false_iff, not_exists]
    rintro count ⟨positive, within, _⟩
    simp [leavesOf] at within
    omega

theorem isFrontier_fresh :
    Merkle.IsFrontier poseidon2.node (zeroHash 0) depth [] (TreeState.fresh depth).frontier := by
  constructor
  · simp [TreeState.fresh]
  · intro level _ bit
    simp at bit

/-- The state an insertion starts from stands for the current tree. -/
theorem TreesSound.openState (sound : TreesSound poseidon2 depth history s) :
    (Zk.openState depth s (currentTreeOf s)).size.toNat =
        (leavesOf history (currentTreeOf s)).length ∧
      Merkle.IsFrontier poseidon2.node (zeroHash 0) depth (leavesOf history (currentTreeOf s))
        (Zk.openState depth s (currentTreeOf s)).frontier := by
  have stands := sound.stands (currentTreeOf s)
  unfold Zk.openState
  cases held : s.tree (currentTreeOf s) with
  | none =>
      rw [held] at stands
      have none : leavesOf history (currentTreeOf s) = [] := stands
      rw [none]
      exact ⟨rfl, isFrontier_fresh⟩
  | some state =>
      rw [held] at stands
      exact ⟨stands.2.1, stands.2.2.2⟩

theorem leavesOf_inserted (history : List PoolStep) {taken : PoolStep} {insertion : Insertion}
    (replied : taken.reply = .ok insertion) :
    leavesOf (taken :: history) insertion.treeId =
      leavesOf history insertion.treeId ++ [insertion.leaf] := by
  simp [leavesOf_cons, insertedLeaf, replied]

theorem leavesOf_other (history : List PoolStep) {taken : PoolStep} {insertion : Insertion}
    (replied : taken.reply = .ok insertion) {treeId : UInt32} (other : treeId ≠ insertion.treeId) :
    leavesOf (taken :: history) treeId = leavesOf history treeId := by
  simp [leavesOf_cons, insertedLeaf, replied, Ne.symm other]

/-- The prefixes of a list with one more item: the old ones and the whole. -/
theorem exists_take_append {α : Type} (items : List α) (item : α) (holds : List α → Prop) :
    (∃ count, 0 < count ∧ count ≤ (items ++ [item]).length ∧ holds ((items ++ [item]).take count)) ↔
      holds (items ++ [item]) ∨
        ∃ count, 0 < count ∧ count ≤ items.length ∧ holds (items.take count) := by
  rw [List.length_append, List.length_singleton]
  constructor
  · rintro ⟨count, positive, within, meets⟩
    rcases Nat.lt_or_eq_of_le within with earlier | rfl
    · rw [List.take_append_of_le_length (by omega)] at meets
      exact Or.inr ⟨count, positive, by omega, meets⟩
    · rw [List.take_of_length_le (by simp)] at meets
      exact Or.inl meets
  · rintro (meets | ⟨count, positive, within, meets⟩)
    · refine ⟨items.length + 1, by omega, Nat.le_refl _, ?_⟩
      rwa [List.take_of_length_le (by simp)]
    · refine ⟨count, positive, by omega, ?_⟩
      rwa [List.take_append_of_le_length within]

theorem TreesSound.append (chain : EmptyHashes poseidon2 depth) (shallow : depth ≤ 32)
    (sound : TreesSound poseidon2 depth history s) {taken : PoolStep} {insertion : Insertion}
    (replied : taken.reply = .ok insertion)
    (appends : Appends poseidon2 depth s insertion.leaf insertion s') :
    TreesSound poseidon2 depth (taken :: history) s' := by
  obtain ⟨size, grown, tree, roots, rolled⟩ := appends.tree
  obtain ⟨counted, kept⟩ := sound.openState
  have room := sound.room
  rw [← appends.treeId] at counted kept room
  have count : insertion.index.toNat = (leavesOf history insertion.treeId).length := by
    rw [appends.index, ← appends.treeId]
    exact counted
  have climbed := climb_spec chain shallow count room kept insertion.leaf
  have rootEq := appends.root
  rw [← appends.treeId] at rootEq tree
  have here := leavesOf_inserted history replied
  have there {treeId : UInt32} (other : treeId ≠ insertion.treeId) :=
    leavesOf_other history replied other
  have width := toNat_capacity shallow
  -- The current tree after the insertion: the same one with room, or the next.
  have next : (currentTreeOf s' = insertion.treeId ∧
        (leavesOf history insertion.treeId).length + 1 < 2 ^ depth) ∨
      ((currentTreeOf s').toNat = insertion.treeId.toNat + 1 ∧
        (leavesOf history insertion.treeId).length + 1 = 2 ^ depth) := by
    rcases rolled with ⟨partly, same⟩ | ⟨rfl, next, opened, moved⟩
    · left
      refine ⟨?_, ?_⟩
      · rw [currentTreeOf, same]
        exact appends.treeId.symm
      · have different : size.toNat ≠ (capacity depth).toNat :=
          fun equal => partly (UInt64.toNat_inj.mp equal)
        omega
    · right
      rw [currentTreeOf, moved]
      exact ⟨opened, by omega⟩
  constructor
  · intro treeId below
    by_cases same : treeId = insertion.treeId
    · subst same
      rw [here, List.length_append, List.length_singleton]
      rcases next with ⟨current, _⟩ | ⟨_, full⟩
      · rw [current] at below
        exact absurd below (UInt32.lt_irrefl _)
      · exact full
    · rw [there same]
      apply sound.full
      rw [← appends.treeId]
      rcases next with ⟨current, _⟩ | ⟨opened, _⟩
      · exact current ▸ below
      · rw [UInt32.lt_iff_toNat_lt] at below ⊢
        have different : treeId.toNat ≠ insertion.treeId.toNat :=
          fun equal => same (UInt32.toNat_inj.mp equal)
        omega
  · rcases next with ⟨current, free⟩ | ⟨opened, _⟩
    · rw [current, here, List.length_append, List.length_singleton]
      exact free
    · have beyond : currentTreeOf s < currentTreeOf s' := by
        rw [← appends.treeId, UInt32.lt_iff_toNat_lt]
        omega
      have other : currentTreeOf s' ≠ insertion.treeId := by
        intro equal
        rw [equal] at opened
        omega
      rw [there other, sound.unopened _ beyond]
      exact Nat.two_pow_pos depth
  · intro treeId beyond
    have later : currentTreeOf s < treeId := by
      rw [← appends.treeId]
      rcases next with ⟨current, _⟩ | ⟨opened, _⟩
      · exact current ▸ beyond
      · rw [UInt32.lt_iff_toNat_lt] at beyond ⊢
        omega
    have other : treeId ≠ insertion.treeId := by
      intro equal
      rw [equal, ← appends.treeId] at later
      exact UInt32.lt_irrefl _ later
    rw [there other, sound.unopened treeId later]
  · intro treeId
    rw [tree]
    by_cases same : treeId = insertion.treeId
    · subst same
      rw [here, Function.update_self]
      refine ⟨by simp, ?_, ?_, climbed.1⟩
      · rw [List.length_append, List.length_singleton, grown, count]
      · exact rootEq.trans climbed.2
    · rw [there same, Function.update_of_ne same]
      exact sound.stands treeId
  · intro treeId index
    rw [appends.leaves]
    by_cases same : treeId = insertion.treeId
    · subst same
      rw [here]
      by_cases atEnd : index = insertion.index
      · subst atEnd
        rw [Function.update_self, count, List.getElem?_concat_length]
      · have different : index.toNat ≠ (leavesOf history insertion.treeId).length :=
          fun equal => atEnd (UInt64.toNat_inj.mp (equal.trans count.symm))
        rw [Function.update_of_ne (fun equal => atEnd (Prod.mk.inj equal).2), sound.leaf]
        rcases Nat.lt_or_gt_of_ne different with below | above
        · rw [List.getElem?_append_left below]
        · rw [List.getElem?_eq_none (by omega), List.getElem?_eq_none (by simp; omega)]
    · rw [Function.update_of_ne (fun equal => same (Prod.mk.inj equal).1), there same, sound.leaf]
  · intro treeId root
    rw [roots]
    by_cases same : treeId = insertion.treeId
    · subst same
      have prefixes := exists_take_append (leavesOf history insertion.treeId) insertion.leaf
        fun part => root = merkleRoot poseidon2 depth part
      rw [here, prefixes, ← climbed.2, ← rootEq, ← sound.root]
      by_cases newest : root = insertion.root
      · simp [newest]
      · rw [Function.update_of_ne (fun equal => newest (Prod.mk.inj equal).2)]
        simp [newest]
    · rw [Function.update_of_ne (fun equal => same (Prod.mk.inj equal).1), there same, sound.root]

/-! ### Enrollments -/

/-- The insertion a step made for an account's enrollment. -/
def enrolledBy (account : Address) (enrollmentId : Bytes32) (taken : PoolStep) :
    Option Insertion :=
  match taken.reply with
  | .ok insertion =>
      if taken.action.account = account ∧ taken.action.enrollmentId = enrollmentId then
        some insertion
      else none
  | .error _ => none

def enrollmentsOf (history : List PoolStep) (account : Address) (enrollmentId : Bytes32) :
    List Insertion :=
  history.filterMap (enrolledBy account enrollmentId)

/-- An enrollment has no insertion and no record, or one insertion, whose
position its record names and whose leaf is bound to it. -/
def Enrolled (poseidon2 : Poseidon2) (history : List PoolStep) (account : Address)
    (enrollmentId : Bytes32) (record : Option LeafPosition) : Prop :=
  (enrollmentsOf history account enrollmentId = [] ∧ record = none) ∨
    ∃ insertion accountId commitment,
      enrollmentsOf history account enrollmentId = [insertion] ∧
        record = some { treeId := insertion.treeId, index := insertion.index } ∧
        contractId account = some accountId ∧
        insertion.leaf = poseidon2.leafHash accountId enrollmentId commitment ∧
        (leavesOf history insertion.treeId)[insertion.index.toNat]? = some insertion.leaf

theorem leavesOf_kept {taken : PoolStep} {treeId : UInt32} {position : Nat} {leaf : Bytes32}
    (held : (leavesOf history treeId)[position]? = some leaf) :
    (leavesOf (taken :: history) treeId)[position]? = some leaf := by
  have within := List.getElem?_eq_some_iff.mp held
  rw [leavesOf_cons, List.getElem?_append_left within.1]
  exact held

theorem Enrolled.kept {taken : PoolStep} {account : Address} {enrollmentId : Bytes32}
    {record : Option LeafPosition}
    (enrolled : Enrolled poseidon2 history account enrollmentId record)
    (silent : enrolledBy account enrollmentId taken = none) :
    Enrolled poseidon2 (taken :: history) account enrollmentId record := by
  have same : enrollmentsOf (taken :: history) account enrollmentId =
      enrollmentsOf history account enrollmentId := by
    simp [enrollmentsOf, silent]
  rcases enrolled with
    ⟨none, record⟩ | ⟨insertion, accountId, commitment, one, record, id, bound, held⟩
  · exact Or.inl ⟨same.trans none, record⟩
  · exact Or.inr ⟨insertion, accountId, commitment, same.trans one, record, id, bound,
      leavesOf_kept held⟩

end Sound

/-! ### Runs -/

structure PoolSound (poseidon2 : Poseidon2) (depth : Nat) (history : List PoolStep)
    (s : PoolStorage) : Prop where
  trees : TreesSound poseidon2 depth history s
  enrolled : ∀ account enrollmentId,
    Enrolled poseidon2 history account enrollmentId (s.enrollment (account, enrollmentId))

section Runs

variable {poseidon2 : Poseidon2} {depth : Nat} {history : List PoolStep} {s s' : PoolStorage}

theorem step_inserted {call : InsertCall} {insertion : Insertion}
    (called : rcvInsert poseidon2 depth s call.account call.enrollmentId call.commitment =
      .ok (insertion, s')) :
    ((pool poseidon2 depth).step s call).reply = .ok insertion ∧
      ((pool poseidon2 depth).step s call).after = s' := by
  simp [System.step, pool, called]

theorem step_refused {call : InsertCall} {refusal : PoolRefusal}
    (called : rcvInsert poseidon2 depth s call.account call.enrollmentId call.commitment =
      .error refusal) :
    ((pool poseidon2 depth).step s call).reply = .error refusal ∧
      ((pool poseidon2 depth).step s call).after = s := by
  simp [System.step, pool, called]

theorem PoolSound.refused (sound : PoolSound poseidon2 depth history s) {taken : PoolStep}
    {refusal : PoolRefusal} (replied : taken.reply = .error refusal) :
    PoolSound poseidon2 depth (taken :: history) s := by
  have same (treeId : UInt32) : leavesOf (taken :: history) treeId = leavesOf history treeId := by
    simp [leavesOf_cons, insertedLeaf, replied]
  constructor
  · constructor
    · simpa only [same] using sound.trees.full
    · simpa only [same] using sound.trees.room
    · simpa only [same] using sound.trees.unopened
    · simpa only [same] using sound.trees.stands
    · simpa only [same] using sound.trees.leaf
    · simpa only [same] using sound.trees.root
  · intro account enrollmentId
    apply (sound.enrolled account enrollmentId).kept
    simp [enrolledBy, replied]

theorem PoolSound.inserted (chain : EmptyHashes poseidon2 depth) (shallow : depth ≤ 32)
    (sound : PoolSound poseidon2 depth history s) {taken : PoolStep} {insertion : Insertion}
    (replied : taken.reply = .ok insertion)
    (inserts : Inserts poseidon2 depth s taken.action insertion s') :
    PoolSound poseidon2 depth (taken :: history) s' := by
  obtain ⟨middle, appends, rfl⟩ := inserts.appends
  have trees := sound.trees.append chain shallow replied appends
  constructor
  · exact
      { full := trees.full
        room := trees.room
        unopened := trees.unopened
        stands := trees.stands
        leaf := trees.leaf
        root := trees.root }
  · intro account enrollmentId
    by_cases same : (account, enrollmentId) = (taken.action.account, taken.action.enrollmentId)
    · obtain ⟨rfl, rfl⟩ := Prod.mk.inj same
      obtain ⟨accountId, known, bound⟩ := inserts.bound
      have fresh : enrollmentsOf history taken.action.account taken.action.enrollmentId = [] := by
        rcases sound.enrolled taken.action.account taken.action.enrollmentId with
          ⟨none, _⟩ | ⟨_, _, _, _, record, _⟩
        · exact none
        · rw [inserts.free] at record
          cases record
      have stored := trees.leaf insertion.treeId insertion.index
      rw [appends.leaves, Function.update_self] at stored
      refine Or.inr ⟨insertion, accountId, taken.action.commitment, ?_, ?_, known, bound,
        stored.symm⟩
      · have here : enrolledBy taken.action.account taken.action.enrollmentId taken =
            some insertion := by
          simp [enrolledBy, replied]
        rw [enrollmentsOf, List.filterMap_cons_some here, ← enrollmentsOf, fresh]
      · simp only [Function.update_self]
    · have others := sound.enrolled account enrollmentId
      simp only [Function.update_of_ne same]
      apply others.kept
      have unequal : ¬(taken.action.account = account ∧
          taken.action.enrollmentId = enrollmentId) := by
        rintro ⟨rfl, rfl⟩
        exact same rfl
      simp [enrolledBy, replied, unequal]

/-- The invariant of every run of a pool. -/
theorem poolSound (chain : EmptyHashes poseidon2 depth) (shallow : depth ≤ 32) {now : UInt32}
    (run : Execution (pool poseidon2 depth) 0 .empty history now s) :
    PoolSound poseidon2 depth history s := by
  induction run with
  | refl => exact ⟨treesSound_empty, fun _ _ => Or.inl ⟨rfl, rfl⟩⟩
  | wait _ _ ih => exact ih
  | @call history now s call _ _ ih =>
      cases called : rcvInsert poseidon2 depth s call.account call.enrollmentId call.commitment with
      | error refusal =>
          obtain ⟨replied, after⟩ := step_refused called
          rw [after]
          exact ih.refused replied
      | ok result =>
          obtain ⟨insertion, s'⟩ := result
          obtain ⟨replied, after⟩ := step_inserted called
          rw [after]
          exact ih.inserted chain shallow replied (rcvInsert_inserts called)

/-! ### Pages -/

theorem TreesSound.treeSize (trees : TreesSound poseidon2 depth history s) (treeId : UInt32) :
    (Zk.treeSize s treeId).toNat = (leavesOf history treeId).length := by
  have stands := trees.stands treeId
  unfold Zk.treeSize
  cases held : s.tree treeId with
  | none =>
      rw [held] at stands
      have none : leavesOf history treeId = [] := stands
      rw [none]
      rfl
  | some state =>
      rw [held] at stands
      exact stands.2.1

theorem page_within {treeId : UInt32} {start first : UInt64} {count n : UInt32}
    (paged : page s treeId start count = .ok (first, n)) :
    first.toNat + n.toNat ≤ (treeSize s treeId).toNat := by
  simp only [page, bind_eq_ok, pure_eq_ok, Prod.mk.injEq] at paged
  obtain ⟨_, _, _, _, rfl, rfl⟩ := paged
  generalize bounded : min (saturatingAdd64 start count.toUInt64) (treeSize s treeId) = stop
  have stopLe : stop ≤ treeSize s treeId := by
    rw [← bounded, UInt64.min_def]
    split
    · assumption
    · exact UInt64.le_refl _
  have startLe : min start stop ≤ stop := by
    rw [UInt64.min_def]
    split
    · assumption
    · exact UInt64.le_refl _
  have width : (stop - min start stop).toUInt32.toNat ≤ stop.toNat - (min start stop).toNat := by
    rw [UInt64.toNat_toUInt32, UInt64.toNat_sub_of_le _ _ startLe]
    exact Nat.mod_le _ _
  rw [UInt64.le_iff_toNat_le] at stopLe startLe
  omega

theorem TreesSound.paged (trees : TreesSound poseidon2 depth history s) {treeId : UInt32}
    {start first : UInt64} {count n : UInt32}
    (paged : page s treeId start count = .ok (first, n)) {i : Nat} (member : i < n.toNat) :
    s.leaf (treeId, first + UInt64.ofNat i) ≠ none := by
  have within := page_within paged
  rw [trees.treeSize] at within
  have fits := (Zk.treeSize s treeId).toNat_lt
  rw [trees.treeSize] at fits
  have position : (first + UInt64.ofNat i).toNat = first.toNat + i := by
    rw [UInt64.toNat_add, UInt64.toNat_ofNat']
    omega
  rw [trees.leaf, position, ne_eq, List.getElem?_eq_none_iff]
  omega

theorem page_avoids (s : PoolStorage) (treeId : UInt32) (start : UInt64) (count : UInt32) :
    Avoids (· = none) (page s treeId start count) := by
  apply Avoids.bind
  · exact Avoids.require fun _ raised => by cases raised
  · intro _ _
    apply Avoids.bind
    · exact Avoids.require fun _ raised => by cases raised
    · intro _ _
      exact Avoids.pure _

theorem TreesSound.leaves_avoids (trees : TreesSound poseidon2 depth history s) (treeId : UInt32)
    (start : UInt64) (count : UInt32) : Avoids (· = none) (leaves s treeId start count) := by
  apply Avoids.bind (page_avoids s treeId start count)
  rintro ⟨first, n⟩ paged
  apply Avoids.mapM
  intro i member
  apply Avoids.orFail
  intro missing
  exact absurd missing (trees.paged paged (List.mem_range.mp member))

theorem TreesSound.renewLeaves_avoids (trees : TreesSound poseidon2 depth history s)
    (treeId : UInt32) (start : UInt64) (count : UInt32) :
    Avoids (· = none) (renewLeaves s treeId start count) := by
  apply Avoids.bind (page_avoids s treeId start count)
  rintro ⟨first, n⟩ paged
  apply Avoids.forM
  intro i member
  apply Avoids.require
  intro missing
  rw [Option.isSome_iff_ne_none, not_not] at missing
  exact absurd missing (trees.paged paged (List.mem_range.mp member))

/-! ### What later steps leave alone -/

/-- Trees before the current one are not written again, and no root is lost. -/
structure Sealed (s s' : PoolStorage) : Prop where
  forward : currentTreeOf s ≤ currentTreeOf s'
  tree : ∀ treeId < currentTreeOf s, s'.tree treeId = s.tree treeId
  leaf : ∀ treeId < currentTreeOf s, ∀ index, s'.leaf (treeId, index) = s.leaf (treeId, index)
  root : ∀ treeId < currentTreeOf s, ∀ root, s'.root (treeId, root) = s.root (treeId, root)
  known : ∀ treeId root, isKnownRoot s treeId root = true → isKnownRoot s' treeId root = true

theorem Sealed.refl (s : PoolStorage) : Sealed s s := by
  constructor
  · exact UInt32.le_refl _
  · intro treeId _
    rfl
  · intro treeId _ index
    rfl
  · intro treeId _ root
    rfl
  · intro treeId root known
    exact known

theorem Sealed.trans {first second third : PoolStorage} (head : Sealed first second)
    (tail : Sealed second third) : Sealed first third := by
  have within {treeId : UInt32} (earlier : treeId < currentTreeOf first) :
      treeId < currentTreeOf second :=
    UInt32.lt_of_lt_of_le earlier head.forward
  constructor
  · exact UInt32.le_trans head.forward tail.forward
  · intro treeId earlier
    rw [tail.tree treeId (within earlier), head.tree treeId earlier]
  · intro treeId earlier index
    rw [tail.leaf treeId (within earlier), head.leaf treeId earlier]
  · intro treeId earlier root
    rw [tail.root treeId (within earlier), head.root treeId earlier]
  · intro treeId root known
    exact tail.known treeId root (head.known treeId root known)

theorem Inserts.sealed {call : InsertCall} {insertion : Insertion}
    (inserts : Inserts poseidon2 depth s call insertion s') : Sealed s s' := by
  obtain ⟨middle, appends, rfl⟩ := inserts.appends
  obtain ⟨size, _, tree, roots, rolled⟩ := appends.tree
  have other {treeId : UInt32} (earlier : treeId < currentTreeOf s) :
      treeId ≠ insertion.treeId := by
    rintro rfl
    rw [appends.treeId] at earlier
    exact UInt32.lt_irrefl _ earlier
  constructor
  · rcases rolled with ⟨_, same⟩ | ⟨_, next, opened, moved⟩
    · change currentTreeOf s ≤ middle.currentTree.getD 0
      rw [same]
      exact UInt32.le_refl _
    · change currentTreeOf s ≤ middle.currentTree.getD 0
      rw [moved, ← appends.treeId, UInt32.le_iff_toNat_le, Option.getD_some]
      omega
  · intro treeId earlier
    simp only [tree, Function.update_of_ne (other earlier)]
  · intro treeId earlier index
    have different : (treeId, index) ≠ (insertion.treeId, insertion.index) :=
      fun equal => other earlier (Prod.mk.inj equal).1
    simp only [appends.leaves, Function.update_of_ne different]
  · intro treeId earlier root
    have different : (treeId, root) ≠ (insertion.treeId, insertion.root) :=
      fun equal => other earlier (Prod.mk.inj equal).1
    simp only [roots, Function.update_of_ne different]
  · intro treeId root known
    simp only [isKnownRoot, roots, Function.update_apply] at known ⊢
    split
    · rfl
    · exact known

theorem step_sealed (s : PoolStorage) (call : InsertCall) :
    Sealed s ((pool poseidon2 depth).step s call).after := by
  cases called : rcvInsert poseidon2 depth s call.account call.enrollmentId call.commitment with
  | error refusal =>
      rw [(step_refused called).2]
      exact Sealed.refl s
  | ok result =>
      obtain ⟨insertion, s'⟩ := result
      rw [(step_inserted called).2]
      exact (rcvInsert_inserts called).sealed

end Runs

/-! ### The history of a pool -/

structure PoolHistory (poseidon2 : Poseidon2) (depth : Nat) (history : List PoolStep)
    (s : PoolStorage) : Prop where
  current : (treeSize s (currentTreeOf s)).toNat < 2 ^ depth
  full : ∀ treeId < currentTreeOf s, (treeSize s treeId).toNat = 2 ^ depth
  absent : ∀ treeId, currentTreeOf s < treeId → s.tree treeId = none ∧
    (∀ index, s.leaf (treeId, index) = none) ∧ ∀ root, s.root (treeId, root) = none
  root : ∀ treeId, treeRoot depth s treeId = merkleRoot poseidon2 depth (leavesOf history treeId)
  size : ∀ treeId, (treeSize s treeId).toNat = (leavesOf history treeId).length
  /-- The leaf at an index below the size, and none from it on. -/
  leaf : ∀ treeId index, s.leaf (treeId, index) = (leavesOf history treeId)[index.toNat]?
  /-- The roots right after each of a tree's insertions. -/
  known : ∀ treeId root, isKnownRoot s treeId root = true ↔
    ∃ count, 0 < count ∧ count ≤ (leavesOf history treeId).length ∧
      root = merkleRoot poseidon2 depth ((leavesOf history treeId).take count)
  enrolled : ∀ account enrollmentId,
    Enrolled poseidon2 history account enrollmentId (s.enrollment (account, enrollmentId))
  pages : ∀ treeId start count, leaves s treeId start count ≠ .error none ∧
    renewLeaves s treeId start count ≠ .error none

section History

variable {poseidon2 : Poseidon2} {depth : Nat} {history : List PoolStep} {s : PoolStorage}

theorem TreesSound.treeRoot (chain : EmptyHashes poseidon2 depth)
    (trees : TreesSound poseidon2 depth history s) (treeId : UInt32) :
    Zk.treeRoot depth s treeId = merkleRoot poseidon2 depth (leavesOf history treeId) := by
  have stands := trees.stands treeId
  unfold Zk.treeRoot
  cases held : s.tree treeId with
  | none =>
      rw [held] at stands
      have none : leavesOf history treeId = [] := stands
      rw [none]
      have empty : merkleRoot poseidon2 depth [] = zeroHash depth :=
        Merkle.subtree_empty chain (Nat.le_refl depth) fun _ _ => rfl
      exact empty.symm
  | some state =>
      rw [held] at stands
      exact stands.2.2.1

theorem TreesSound.absent (trees : TreesSound poseidon2 depth history s) {treeId : UInt32}
    (beyond : currentTreeOf s < treeId) :
    s.tree treeId = none ∧ (∀ index, s.leaf (treeId, index) = none) ∧
      ∀ root, s.root (treeId, root) = none := by
  have none := trees.unopened treeId beyond
  refine ⟨?_, ?_, ?_⟩
  · have stands := trees.stands treeId
    rw [none] at stands
    cases held : s.tree treeId with
    | none => rfl
    | some state =>
        rw [held] at stands
        exact absurd rfl stands.1
  · intro index
    rw [trees.leaf, none, List.getElem?_nil]
  · intro root
    rw [← Option.not_isSome_iff_eq_none, trees.root, none]
    rintro ⟨count, positive, within, _⟩
    rw [List.length_nil] at within
    omega

end History

/-- Every state of every run of a pool stands for the leaves inserted so far,
tree by tree, and what is full stays as it is. -/
theorem pool_history (poseidon2 : Poseidon2) (depth : Nat) (shallow : depth ≤ 32)
    (chain : ∀ level < depth,
      zeroHash (level + 1) = poseidon2.node (zeroHash level) (zeroHash level))
    {history : List PoolStep} {now : UInt32} {s : PoolStorage}
    (run : Execution (pool poseidon2 depth) 0 .empty history now s) :
    PoolHistory poseidon2 depth history s ∧
      ∀ later now' s', Execution (pool poseidon2 depth) now s later now' s' → Sealed s s' := by
  have sound := poolSound chain shallow run
  constructor
  · constructor
    · rw [sound.trees.treeSize]
      exact sound.trees.room
    · intro treeId earlier
      rw [sound.trees.treeSize]
      exact sound.trees.full treeId earlier
    · intro treeId beyond
      exact sound.trees.absent beyond
    · exact sound.trees.treeRoot chain
    · exact sound.trees.treeSize
    · exact sound.trees.leaf
    · exact sound.trees.root
    · exact sound.enrolled
    · intro treeId start count
      constructor
      · intro trapped
        exact sound.trees.leaves_avoids treeId start count none trapped rfl
      · intro trapped
        exact sound.trees.renewLeaves_avoids treeId start count none trapped rfl
  · intro later now' s' continued
    exact continued.related Sealed Sealed.refl Sealed.trans step_sealed

/-! ### Leaves once stored -/

/-- Leaves are stored below the size of the current tree, or in earlier trees. -/
def Slotted (s : PoolStorage) : Prop :=
  ∀ treeId index, s.leaf (treeId, index) ≠ none →
    treeId < currentTreeOf s ∨ (treeId = currentTreeOf s ∧ index < treeSize s treeId)

section Slots

variable {poseidon2 : Poseidon2} {depth : Nat} {s s' : PoolStorage} {call : InsertCall}
  {insertion : Insertion}

theorem openState_size (depth : Nat) (s : PoolStorage) (treeId : UInt32) :
    (openState depth s treeId).size = treeSize s treeId := by
  unfold openState treeSize
  cases s.tree treeId <;> rfl

theorem Inserts.vacant (inserts : Inserts poseidon2 depth s call insertion s')
    (slotted : Slotted s) : s.leaf (insertion.treeId, insertion.index) = none := by
  obtain ⟨middle, appends, _⟩ := inserts.appends
  by_contra taken
  rcases slotted _ _ taken with earlier | ⟨_, below⟩
  · rw [appends.treeId] at earlier
    exact UInt32.lt_irrefl _ earlier
  · rw [appends.index, openState_size, appends.treeId] at below
    exact UInt64.lt_irrefl _ below

theorem Inserts.slotted (inserts : Inserts poseidon2 depth s call insertion s')
    (slotted : Slotted s) : Slotted s' := by
  have forward := inserts.sealed.forward
  obtain ⟨middle, appends, rfl⟩ := inserts.appends
  obtain ⟨size, grown, tree, _, rolled⟩ := appends.tree
  have here : treeSize middle insertion.treeId = size := by
    simp [treeSize, tree]
  have covered : ∀ index : UInt64, index.toNat ≤ insertion.index.toNat →
      insertion.treeId < currentTreeOf middle ∨
        (insertion.treeId = currentTreeOf middle ∧ index < treeSize middle insertion.treeId) := by
    intro index below
    rcases rolled with ⟨_, same⟩ | ⟨_, next, opened, moved⟩
    · right
      constructor
      · rw [appends.treeId, currentTreeOf, currentTreeOf, same]
      · rw [here, UInt64.lt_iff_toNat_lt]
        omega
    · left
      rw [currentTreeOf, moved, UInt32.lt_iff_toNat_lt, Option.getD_some]
      omega
  intro treeId index held
  by_cases same : (treeId, index) = (insertion.treeId, insertion.index)
  · obtain ⟨rfl, rfl⟩ := Prod.mk.inj same
    exact covered insertion.index (Nat.le_refl _)
  · simp only [appends.leaves, Function.update_of_ne same] at held
    rcases slotted treeId index held with earlier | ⟨rfl, below⟩
    · exact Or.inl (UInt32.lt_of_lt_of_le earlier forward)
    · rw [← openState_size depth, ← appends.index, UInt64.lt_iff_toNat_lt] at below
      rw [← appends.treeId]
      exact covered index below.le

theorem Inserts.leaf_kept (inserts : Inserts poseidon2 depth s call insertion s')
    (slotted : Slotted s) {key : UInt32 × UInt64} {leaf : Bytes32}
    (held : s.leaf key = some leaf) : s'.leaf key = some leaf := by
  have vacant := inserts.vacant slotted
  obtain ⟨middle, appends, rfl⟩ := inserts.appends
  have other : key ≠ (insertion.treeId, insertion.index) := by
    rintro rfl
    rw [vacant] at held
    cases held
  simp only [appends.leaves, Function.update_of_ne other]
  exact held

theorem Inserts.enrollment_eq (inserts : Inserts poseidon2 depth s call insertion s') :
    s'.enrollment = Function.update s.enrollment (call.account, call.enrollmentId)
      (some { treeId := insertion.treeId, index := insertion.index }) := by
  obtain ⟨middle, _, rfl⟩ := inserts.appends
  rfl

theorem Inserts.enrollment_kept (inserts : Inserts poseidon2 depth s call insertion s')
    {key : Address × Bytes32} {position : LeafPosition}
    (held : s.enrollment key = some position) : s'.enrollment key = some position := by
  have other : key ≠ (call.account, call.enrollmentId) := by
    rintro rfl
    rw [inserts.free] at held
    cases held
  rw [inserts.enrollment_eq, Function.update_of_ne other]
  exact held

theorem Inserts.leaf_stored (inserts : Inserts poseidon2 depth s call insertion s') :
    s'.leaf (insertion.treeId, insertion.index) = some insertion.leaf := by
  obtain ⟨middle, appends, rfl⟩ := inserts.appends
  simp only [appends.leaves, Function.update_self]

/-- In every run of a pool its leaves have their places. -/
theorem slotted_of_run {history : List PoolStep} {now : UInt32}
    (run : Execution (pool poseidon2 depth) 0 .empty history now s) : Slotted s := by
  induction run with
  | refl =>
      intro treeId index held
      exact absurd rfl held
  | wait _ _ ih => exact ih
  | @call history now s call _ _ ih =>
      cases called : rcvInsert poseidon2 depth s call.account call.enrollmentId call.commitment with
      | error refusal =>
          rw [(step_refused called).2]
          exact ih
      | ok result =>
          obtain ⟨insertion, s'⟩ := result
          rw [(step_inserted called).2]
          exact (rcvInsert_inserts called).slotted ih

end Slots

/-! ### A tree filled -/

namespace Filled

/-- A number whose big-endian halves are the two given. -/
def halves (high low : Nat) : Bytes32 := be32 (high * 2 ^ 128 + low)

/-- The hash at the first empty node and at the leaf the host and the circuit
are checked against each other on, a mixture elsewhere. -/
def poseidon2 : Poseidon2 where
  hash inputs :=
    if inputs = [0, 0] then 0x0b63a53787021a4a962a452c2921b3663aff1ffd8d5510540f8e659e782956f1
    else if inputs = [value domBind, 4, 5, 6, 7, 8] then
      0x241225f632b43077765a98b79d36e32782272c95b46b8a2c9275bfd0ac551d1c
    else inputs.foldl (fun mixed input => mixed * 5 + input) 1 % fieldModulus
  reduced inputs := by
    split
    · decide
    · split
      · decide
      · exact Nat.mod_lt _ (by decide)

def account : Address := .contract (halves 4 5)

def calls : List InsertCall :=
  [{ sequence := 10, account := account, enrollmentId := halves 6 7, commitment := be32 8 },
   { sequence := 10, account := account, enrollmentId := halves 6 8, commitment := be32 9 },
   { sequence := 12, account := account, enrollmentId := halves 6 9, commitment := be32 10 }]

def reached : List PoolStep × PoolStorage := (pool poseidon2 1).play [] .empty calls

theorem run : Execution (pool poseidon2 1) 0 .empty reached.1 12 reached.2 :=
  Execution.refl.play (by decide)

set_option maxRecDepth 16384 in
/-- The first tree of depth one is full after two insertions, and the third
went into the next. -/
theorem pool_history_filled :
    currentTreeOf reached.2 = 1 ∧ (treeSize reached.2 0).toNat = 2 ^ 1 ∧
      (treeSize reached.2 1).toNat < 2 ^ 1 ∧
      treeRoot 1 reached.2 0 = merkleRoot poseidon2 1 (leavesOf reached.1 0) ∧
      leavesOf reached.1 0 ≠ [] := by
  have holds := (pool_history poseidon2 1 (by decide) (by decide) run).1
  have current : currentTreeOf reached.2 = 1 := by decide
  refine ⟨current, holds.full 0 (by rw [current]; decide), ?_, holds.root 0, by decide⟩
  have room := holds.current
  rwa [current] at room

end Filled

end Perch.Zk
