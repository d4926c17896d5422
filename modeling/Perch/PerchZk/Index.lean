/-
What an indexer keeps of a pool: the insertions it was told of, and witnesses.

A store holds each insertion at its place for good, and refuses a record that
contradicts one it has.  The witness index takes the insertions in the pool's
own order, one tree after another, and keeps an append-only tree for each.
After any number of them it holds exactly their leaves.
-/

import Perch.Machine.Js
import Perch.PerchZk.Tree

namespace Perch.PerchZk

open Machine Machine.Js Zk
open Machine.WitnessTree hiding siblings Tree

/-! ### The store -/

structure LeafRecord where
  treeId : Nat
  index : Nat
  leaf : Bytes32
  root : Bytes32
  account : Text
  enrollmentId : Bytes32
  /-- When the source knows it. -/
  ledger : Option Nat
deriving DecidableEq

def LeafRecord.place (record : LeafRecord) : Nat × Nat := (record.treeId, record.index)

inductive PutResult
  | inserted
  | duplicate
  | conflict
deriving DecidableEq

def hex (b : Bytes32) : Text := utf16 "0x" ++ hexText b.bytes

/-- Whether two records agree.  The ledger is not compared. -/
def same (a b : LeafRecord) : Bool :=
  a.treeId = b.treeId ∧ a.index = b.index ∧ hex a.leaf = hex b.leaf ∧ hex a.root = hex b.root ∧
    a.account = b.account ∧ hex a.enrollmentId = hex b.enrollmentId

def enrollmentKey (account : Text) (enrollmentId : Bytes32) : Text :=
  account ++ utf16 "/" ++ hex enrollmentId

structure MemoryStore where
  byTree : Nat × Nat → Option LeafRecord
  byEnrollment : Text → Option LeafRecord
  cursor : Option Text

namespace MemoryStore

def empty : MemoryStore where
  byTree _ := none
  byEnrollment _ := none
  cursor := none

def insert (store : MemoryStore) (record : LeafRecord) : MemoryStore :=
  { store with
    byTree := Function.update store.byTree record.place (some record)
    byEnrollment := Function.update store.byEnrollment
      (enrollmentKey record.account record.enrollmentId) (some record) }

/-- Append a record.  One that disagrees with what is stored changes nothing. -/
def put (store : MemoryStore) (record : LeafRecord) : PutResult × MemoryStore :=
  match store.byTree record.place with
  | some existing => (if same existing record then .duplicate else .conflict, store)
  | none => (.inserted, store.insert record)

def get (store : MemoryStore) (treeId index : Nat) : Option LeafRecord :=
  store.byTree (treeId, index)

def find (store : MemoryStore) (account : Text) (enrollmentId : Bytes32) : Option LeafRecord :=
  store.byEnrollment (enrollmentKey account enrollmentId)

def setCursor (store : MemoryStore) (cursor : Text) : MemoryStore :=
  { store with cursor := some cursor }

end MemoryStore

theorem hex_injective {left right : Bytes32} (equal : hex left = hex right) : left = right :=
  BytesN.ext_bytes (hexText_injective (List.append_cancel_left equal))

theorem hex_length (b : Bytes32) : (hex b).length = 66 := by
  rw [hex, List.length_append, hexText_length, b.size]
  rfl

/-- Ids all have one length, so that a key names one account and one id. -/
theorem enrollmentKey_injective {account account' : Text} {enrollmentId enrollmentId' : Bytes32}
    (equal : enrollmentKey account enrollmentId = enrollmentKey account' enrollmentId') :
    account = account' ∧ enrollmentId = enrollmentId' := by
  have ends : (hex enrollmentId).length = (hex enrollmentId').length := by
    rw [hex_length, hex_length]
  obtain ⟨front, ids⟩ := List.append_inj' equal ends
  exact ⟨List.append_cancel_right front, hex_injective ids⟩

theorem same_iff {a b : LeafRecord} : same a b = true ↔ { a with ledger := b.ledger } = b := by
  obtain ⟨treeId, index, leaf, root, account, enrollmentId, ledger⟩ := a
  obtain ⟨treeId', index', leaf', root', account', enrollmentId', ledger'⟩ := b
  simp only [same, decide_eq_true_eq, LeafRecord.mk.injEq, and_true]
  constructor
  · intro ⟨trees, indices, leaves, roots, accounts, ids⟩
    exact ⟨trees, indices, hex_injective leaves, hex_injective roots, accounts,
      hex_injective ids⟩
  · intro ⟨trees, indices, leaves, roots, accounts, ids⟩
    exact ⟨trees, indices, congrArg hex leaves, congrArg hex roots, accounts, congrArg hex ids⟩

/-! ### What a store keeps -/

/-- Records are stored where they say, and found under their enrollment. -/
structure MemoryStore.Kept (store : MemoryStore) : Prop where
  placed : ∀ place record, store.byTree place = some record → record.place = place
  named : ∀ key record, store.byEnrollment key = some record →
    key = enrollmentKey record.account record.enrollmentId ∧
      store.byTree record.place = some record
  findable : ∀ place record, store.byTree place = some record →
    (store.find record.account record.enrollmentId).isSome = true

def MemoryStore.Grown (store store' : MemoryStore) : Prop :=
  ∀ place record, store.byTree place = some record → store'.byTree place = some record

theorem MemoryStore.Grown.refl (store : MemoryStore) : store.Grown store :=
  fun _ _ stored => stored

theorem MemoryStore.Grown.trans {first second third : MemoryStore} (head : first.Grown second)
    (tail : second.Grown third) : first.Grown third :=
  fun place record stored => tail place record (head place record stored)

theorem MemoryStore.kept_empty : MemoryStore.empty.Kept := by
  constructor
  · intro place record stored
    cases stored
  · intro key record stored
    cases stored
  · intro place record stored
    cases stored

section Put

variable {store : MemoryStore} {record : LeafRecord}

@[simp] theorem MemoryStore.insert_byTree : (store.insert record).byTree =
    Function.update store.byTree record.place (some record) := rfl

@[simp] theorem MemoryStore.insert_byEnrollment : (store.insert record).byEnrollment =
    Function.update store.byEnrollment (enrollmentKey record.account record.enrollmentId)
      (some record) := rfl

/-- A record is inserted where nothing is, and otherwise nothing changes. -/
theorem MemoryStore.put_cases (store : MemoryStore) (record : LeafRecord) :
    (store.byTree record.place = none ∧ store.put record = (.inserted, store.insert record)) ∨
      ∃ existing, store.byTree record.place = some existing ∧ (store.put record).2 = store ∧
        ((same existing record = true ∧ (store.put record).1 = .duplicate) ∨
          same existing record = false ∧ (store.put record).1 = .conflict) := by
  cases held : store.byTree record.place with
  | none =>
      left
      rw [MemoryStore.put, held]
      exact ⟨rfl, rfl⟩
  | some existing =>
      right
      have put : store.put record =
          (if same existing record then .duplicate else .conflict, store) := by
        rw [MemoryStore.put, held]
      refine ⟨existing, rfl, ?_⟩
      rw [put]
      cases same existing record with
      | true => exact ⟨rfl, Or.inl ⟨rfl, rfl⟩⟩
      | false => exact ⟨rfl, Or.inr ⟨rfl, rfl⟩⟩

theorem MemoryStore.insert_grown (vacant : store.byTree record.place = none) :
    store.Grown (store.insert record) := by
  intro place held stored
  have other : place ≠ record.place := by
    intro equal
    rw [equal, vacant] at stored
    cases stored
  rw [insert_byTree, Function.update_of_ne other]
  exact stored

theorem MemoryStore.put_grown (store : MemoryStore) (record : LeafRecord) :
    store.Grown (store.put record).2 := by
  rcases store.put_cases record with ⟨vacant, put⟩ | ⟨_, _, unchanged, _⟩
  · rw [put]
    exact insert_grown vacant
  · rw [unchanged]
    exact .refl store

theorem MemoryStore.Kept.insert (kept : store.Kept) (vacant : store.byTree record.place = none) :
    (store.insert record).Kept := by
  have grown := insert_grown vacant
  have here : (store.insert record).byTree record.place = some record := Function.update_self ..
  constructor
  · intro place held stored
    rw [insert_byTree, Function.update_apply] at stored
    split at stored
    · cases stored
      exact Eq.symm ‹_›
    · exact kept.placed place held stored
  · intro key held stored
    rw [insert_byEnrollment, Function.update_apply] at stored
    split at stored
    · cases stored
      exact ⟨‹_›, here⟩
    · obtain ⟨name, placed⟩ := kept.named key held stored
      exact ⟨name, grown _ _ placed⟩
  · intro place held stored
    rw [insert_byTree, Function.update_apply] at stored
    rw [MemoryStore.find, insert_byEnrollment, Function.update_apply]
    split
    · rfl
    · split at stored
      · cases stored
        exact absurd rfl ‹¬_›
      · exact kept.findable place held stored

theorem MemoryStore.Kept.put (kept : store.Kept) (record : LeafRecord) :
    (store.put record).2.Kept := by
  rcases store.put_cases record with ⟨vacant, put⟩ | ⟨_, _, unchanged, _⟩
  · rw [put]
    exact kept.insert vacant
  · rw [unchanged]
    exact kept

theorem MemoryStore.Kept.found (kept : store.Kept) {account : Text} {enrollmentId : Bytes32}
    (found : store.find account enrollmentId = some record) :
    record.account = account ∧ record.enrollmentId = enrollmentId ∧
      store.byTree record.place = some record := by
  obtain ⟨name, placed⟩ := kept.named _ _ found
  obtain ⟨accounts, ids⟩ := enrollmentKey_injective name
  exact ⟨accounts.symm, ids.symm, placed⟩

end Put

/-! ### The witness index -/

structure IndexOptions where
  depth : Option Nat
  chunkLevel : Option Nat

def IndexOptions.height (options : IndexOptions) : Nat := options.depth.getD 32

inductive IngestFailure
  | outOfOrder (expected received : Nat × Nat)
  | tree (failure : Failure)
deriving DecidableEq

structure PoolWitnessIndex where
  trees : Nat → Option (WitnessTree.Tree Bytes32)
  current : Nat

namespace PoolWitnessIndex

def empty : PoolWitnessIndex where
  trees _ := none
  current := 0

variable (barretenberg : Poseidon2) (options : IndexOptions)

def tree (index : PoolWitnessIndex) (treeId : Nat) : WitnessTree.Tree Bytes32 :=
  (index.trees treeId).getD
    (incrementalTree barretenberg ⟨options.depth, options.chunkLevel, none, none⟩)

def opened (index : PoolWitnessIndex) (treeId : Nat) : PoolWitnessIndex :=
  { index with
    trees := Function.update index.trees treeId (some (index.tree barretenberg options treeId)) }

def size (index : PoolWitnessIndex) (treeId : Nat) : Nat :=
  ((index.trees treeId).map fun t => t.state.size).getD 0

/-- Apply the next insertion, which has to come in pool order. -/
def ingest (index : PoolWitnessIndex) (treeId position : Nat) (leaf : Bytes32) :
    Except IngestFailure PoolWitnessIndex := do
  let t := index.tree barretenberg options index.current
  require (treeId = index.current ∧ position = t.state.size)
    (.outOfOrder (index.current, t.state.size) (treeId, position))
  let t ← (t.append (hashing barretenberg) leaf).mapError .tree
  pure
    { trees := Function.update index.trees index.current (some t)
      current := if t.state.size = t.capacity then index.current + 1 else index.current }

end PoolWitnessIndex

/-! ### Pool order -/

def placeOf (depth n : Nat) : Nat × Nat := (n / 2 ^ depth, n % 2 ^ depth)

/-- The leaves of one tree, among the first insertions of a pool. -/
def treeLeaves (depth : Nat) (ingested : List LeafRecord) (treeId : Nat) : List Bytes32 :=
  ((ingested.drop (treeId * 2 ^ depth)).take (2 ^ depth)).map (·.leaf)

section Order

variable {depth treeId : Nat} {ingested : List LeafRecord} {record : LeafRecord}

theorem treeLeaves_length : (treeLeaves depth ingested treeId).length =
    min (2 ^ depth) (ingested.length - treeId * 2 ^ depth) := by
  rw [treeLeaves, List.length_map, List.length_take, List.length_drop]

theorem treeLeaves_fits : (treeLeaves depth ingested treeId).length ≤ 2 ^ depth := by
  rw [treeLeaves_length]
  exact Nat.min_le_left _ _

/-- The tree insertions go into has the leaves since the last full one. -/
theorem treeLeaves_current :
    (treeLeaves depth ingested (ingested.length / 2 ^ depth)).length =
      ingested.length % 2 ^ depth := by
  have split := Nat.div_add_mod' ingested.length (2 ^ depth)
  have below := Nat.mod_lt ingested.length (Nat.two_pow_pos depth)
  rw [treeLeaves_length]
  omega

theorem treeLeaves_append_current : treeLeaves depth (ingested ++ [record])
      (ingested.length / 2 ^ depth) =
    treeLeaves depth ingested (ingested.length / 2 ^ depth) ++ [record.leaf] := by
  have split := Nat.div_add_mod' ingested.length (2 ^ depth)
  have below := Nat.mod_lt ingested.length (Nat.two_pow_pos depth)
  rw [treeLeaves, treeLeaves, List.drop_append_of_le_length (by omega), List.take_of_length_le,
    List.take_of_length_le, List.map_append]
  · rfl
  · rw [List.length_drop]
    omega
  · rw [List.length_append, List.length_drop, List.length_singleton]
    omega

theorem treeLeaves_append_other (other : treeId ≠ ingested.length / 2 ^ depth) :
    treeLeaves depth (ingested ++ [record]) treeId = treeLeaves depth ingested treeId := by
  rcases Nat.lt_or_gt_of_ne other with full | unopened
  · have enough : treeId * 2 ^ depth + 2 ^ depth ≤ ingested.length := by
      rw [← Nat.succ_mul]
      exact (Nat.le_div_iff_mul_le (Nat.two_pow_pos depth)).mp full
    have dropped : treeId * 2 ^ depth ≤ ingested.length :=
      (Nat.le_add_right _ _).trans enough
    rw [treeLeaves, treeLeaves, List.drop_append_of_le_length dropped,
      List.take_append_of_le_length]
    rw [List.length_drop]
    exact Nat.le_sub_of_add_le' enough
  · have beyond : ingested.length < treeId * 2 ^ depth :=
      (Nat.div_lt_iff_lt_mul (Nat.two_pow_pos depth)).mp unopened
    rw [treeLeaves, treeLeaves, List.drop_of_length_le, List.drop_of_length_le beyond.le]
    rw [List.length_append, List.length_singleton]
    exact beyond

theorem treeLeaves_getElem? (within : treeId * 2 ^ depth + index < ingested.length)
    (below : index < 2 ^ depth) :
    (treeLeaves depth ingested treeId)[index]? =
      some (ingested[treeId * 2 ^ depth + index]).leaf := by
  rw [treeLeaves, List.getElem?_map, List.getElem?_take_of_lt below, List.getElem?_drop,
    List.getElem?_eq_getElem within]
  rfl

theorem placeOf_mul_add {index : Nat} (below : index < 2 ^ depth) :
    placeOf depth (treeId * 2 ^ depth + index) = (treeId, index) := by
  rw [placeOf, Nat.add_comm, Nat.add_mul_div_right _ _ (Nat.two_pow_pos depth),
    Nat.div_eq_of_lt below, Nat.zero_add, Nat.add_mul_mod_self_right, Nat.mod_eq_of_lt below]

theorem placeOf_injective {n m : Nat} (same : placeOf depth n = placeOf depth m) : n = m := by
  obtain ⟨trees, positions⟩ := Prod.mk.inj same
  rw [← Nat.div_add_mod n (2 ^ depth), trees, positions, Nat.div_add_mod]

/-- After an insertion the tree is the same, or full and left. -/
theorem tree_after (n : Nat) :
    (if n % 2 ^ depth + 1 = 2 ^ depth then n / 2 ^ depth + 1 else n / 2 ^ depth) =
      (n + 1) / 2 ^ depth := by
  have split := Nat.div_add_mod' n (2 ^ depth)
  have below := Nat.mod_lt n (Nat.two_pow_pos depth)
  have next := Nat.add_one_mul (n / 2 ^ depth) (2 ^ depth)
  split
  · have whole : n + 1 = (n / 2 ^ depth + 1) * 2 ^ depth := by omega
    rw [whole, Nat.mul_div_cancel _ (Nat.two_pow_pos _)]
  · symm
    apply Nat.div_eq_of_lt_le
    · omega
    · omega

end Order

/-! ### What the index holds -/

/-- The index over a pool's first insertions: every tree holds its leaves. -/
structure Ingested (barretenberg : Poseidon2) (options : IndexOptions)
    (ingested : List LeafRecord) (index : PoolWitnessIndex) : Prop where
  current : index.current = ingested.length / 2 ^ options.height
  trees : ∀ treeId, Holds (hashing barretenberg) options.height
    (min (options.chunkLevel.getD 16) options.height)
    (treeLeaves options.height ingested treeId) (index.tree barretenberg options treeId)

section Index

variable {barretenberg : Poseidon2} {options : IndexOptions} {ingested : List LeafRecord}
  {index : PoolWitnessIndex}

theorem ingested_empty : Ingested barretenberg options [] .empty := by
  constructor
  · exact (Nat.zero_div _).symm
  · intro treeId
    have long : ((zeroHashes barretenberg options.height).take options.height).length =
        options.height := by
      rw [zeroHashes, List.length_take, List.length_map, List.length_range]
      omega
    have start := @holds_start (hashing barretenberg) options.height
      (options.chunkLevel.getD 16) _ long
    rw [treeLeaves, List.drop_nil, List.take_nil, List.map_nil]
    exact start

theorem Ingested.size (holds : Ingested barretenberg options ingested index) (treeId : Nat) :
    index.size treeId = (treeLeaves options.height ingested treeId).length := by
  have sized := (holds.trees treeId).size
  rw [PoolWitnessIndex.tree] at sized
  rw [← sized, PoolWitnessIndex.size]
  cases index.trees treeId with
  | none => rfl
  | some t => rfl

theorem Ingested.next (holds : Ingested barretenberg options ingested index) :
    (index.current, index.size index.current) = placeOf options.height ingested.length := by
  rw [holds.size, holds.current, treeLeaves_current]
  rfl

theorem PoolWitnessIndex.opened_tree (index : PoolWitnessIndex) (treeId other : Nat) :
    (index.opened barretenberg options treeId).tree barretenberg options other =
      index.tree barretenberg options other := by
  have trees : (index.opened barretenberg options treeId).trees =
      Function.update index.trees treeId (some (index.tree barretenberg options treeId)) := rfl
  rw [PoolWitnessIndex.tree, trees, Function.update_apply]
  split
  · rename_i equal
    rw [equal]
    rfl
  · rfl

theorem Ingested.opened (holds : Ingested barretenberg options ingested index) (treeId : Nat) :
    Ingested barretenberg options ingested (index.opened barretenberg options treeId) := by
  constructor
  · exact holds.current
  · intro other
    rw [PoolWitnessIndex.opened_tree]
    exact holds.trees other

theorem Ingested.ingest (holds : Ingested barretenberg options ingested index)
    (record : LeafRecord) :
    ∃ index', index.ingest barretenberg options index.current (index.size index.current)
        record.leaf = .ok index' ∧ Ingested barretenberg options (ingested ++ [record]) index' := by
  have current := holds.trees index.current
  have room : (treeLeaves options.height ingested index.current).length < 2 ^ options.height := by
    rw [holds.current, treeLeaves_current]
    exact Nat.mod_lt _ (Nat.two_pow_pos _)
  obtain ⟨t, appended, after⟩ := current.append room record.leaf
  have position : index.size index.current =
      (index.tree barretenberg options index.current).state.size := by
    rw [holds.size, current.size]
  refine ⟨⟨Function.update index.trees index.current (some t),
    if t.state.size = t.capacity then index.current + 1 else index.current⟩, ?_, ?_, ?_⟩
  · simp only [PoolWitnessIndex.ingest, bind_eq_ok, require_eq_ok, mapError_eq_ok, pure_eq_ok]
    exact ⟨(), ⟨trivial, position⟩, t, appended, rfl⟩
  · change (if t.state.size = t.capacity then index.current + 1 else index.current) = _
    rw [WitnessTree.Tree.capacity, after.size, after.tall, Nat.one_shiftLeft,
      List.length_append, List.length_singleton, holds.current, treeLeaves_current,
      List.length_append, List.length_singleton]
    exact tree_after ingested.length
  · intro treeId
    change Holds _ _ _ _ ((Function.update index.trees index.current (some t) treeId).getD _)
    rw [Function.update_apply]
    split
    · rename_i here
      rw [here, holds.current, treeLeaves_append_current, ← holds.current]
      exact after
    · rename_i other
      rw [holds.current] at other
      rw [treeLeaves_append_other other]
      exact holds.trees treeId

end Index

end Perch.PerchZk
