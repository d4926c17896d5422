/-
The membership pool: rolling append-only Merkle trees of account-bound leaves.

Every definition takes the depth of the trees, as the contract's own do.  A
root is known to a pool exactly when one of its insertions produced it.
-/

import Perch.Account.Storage
import Perch.Machine.Run
import Perch.Zk.Field

namespace Perch.Zk

open Machine Recovery

def domBind : Bytes32 :=
  be32 0x20ae6172af8bed19c921e91e21641198661035616a6a4d733346853501fd07c5

def zeroHashes : List Bytes32 :=
  [be32 0x0000000000000000000000000000000000000000000000000000000000000000,
   be32 0x0b63a53787021a4a962a452c2921b3663aff1ffd8d5510540f8e659e782956f1,
   be32 0x0e34ac2c09f45a503d2908bcb12f1cbae5fa4065759c88d501c097506a8b2290,
   be32 0x21f9172d72fdcdafc312eee05cf5092980dda821da5b760a9fb8dbdf607c8a20,
   be32 0x2373ea368857ec7af97e7b470d705848e2bf93ed7bef142a490f2119bcf82d8e,
   be32 0x120157cfaaa49ce3da30f8b47879114977c24b266d58b0ac18b325d878aafddf,
   be32 0x01c28fe1059ae0237b72334700697bdf465e03df03986fe05200cadeda66bd76,
   be32 0x2d78ed82f93b61ba718b17c2dfe5b52375b4d37cbbed6f1fc98b47614b0cf21b,
   be32 0x067243231eddf4222f3911defbba7705aff06ed45960b27f6f91319196ef97e1,
   be32 0x1849b85f3c693693e732dfc4577217acc18295193bede09ce8b97ad910310972,
   be32 0x2a775ea761d20435b31fa2c33ff07663e24542ffb9e7b293dfce3042eb104686,
   be32 0x0f320b0703439a8114f81593de99cd0b8f3b9bf854601abb5b2ea0e8a3dda4a7,
   be32 0x0d07f6e7a8a0e9199d6d92801fff867002ff5b4808962f9da2ba5ce1bdd26a73,
   be32 0x1c4954081e324939350febc2b918a293ebcdaead01be95ec02fcbe8d2c1635d1,
   be32 0x0197f2171ef99c2d053ee1fb5ff5ab288d56b9b41b4716c9214a4d97facc4c4a,
   be32 0x2b9cdd484c5ba1e4d6efcc3f18734b5ac4c4a0b9102e2aeb48521a661d3feee9,
   be32 0x14f44d672eb357739e42463497f9fdac46623af863eea4d947ca00a497dcdeb3,
   be32 0x071d7627ae3b2eabda8a810227bf04206370ac78dbf6c372380182dbd3711fe3,
   be32 0x2fdc08d9fe075ac58cb8c00f98697861a13b3ab6f9d41a4e768f75e477475bf5,
   be32 0x20165fe405652104dceaeeca92950aa5adc571b8cafe192878cba58ff1be49c5,
   be32 0x1c8c3ca0b3a3d75850fcd4dc7bf1e3445cd0cfff3ca510630fd90b47e8a24755,
   be32 0x1f0c1a8fb16b0d2ac9a146d7ae20d8d179695a92a79ed66fc45d9da4532459b3,
   be32 0x038146ec5a2573e1c30d2fb32c66c8440f426fbd108082df41c7bebd1d521c30,
   be32 0x17d3d12b17fe762de4b835b2180b012e808816a7f2ff69ecb9d65188235d8fd4,
   be32 0x0e1a6b7d63a6e5a9e54e8f391dd4e9d49cdfedcbc87f02cd34d4641d2eb30491,
   be32 0x09244eec34977ff795fc41036996ce974136377f521ac8eb9e04642d204783d2,
   be32 0x1646d6f544ec36df9dc41f778a7ef1690a53c730b501471b6acd202194a7e8e9,
   be32 0x064769603ba3f6c41f664d266ecb9a3a0f6567cd3e48b40f34d4894ee4c361b3,
   be32 0x1595bb3cd19f84619dc2e368175a88d8627a7439eda9397202cdb1167531fd3f,
   be32 0x2a529be462b81ca30265b558763b1498289c9d88277ab14f0838cb1fce4b472c,
   be32 0x0c08da612363088ad0bbc78abd233e8ace4c05a56fdabdd5e5e9b05e428bdaee,
   be32 0x14748d0241710ef47f54b931ac5a58082b1d56b0f0c30d55fb71a6e8c9a6be14,
   be32 0x0b59baa35b9dc267744f0ccb4e3b0255c1fc512460d91130c6bc19fb2668568d]

/-! ### Storage -/

structure TreeState where
  size : UInt64
  root : Bytes32
  frontier : List Bytes32
deriving DecidableEq

structure LeafPosition where
  treeId : UInt32
  index : UInt64
deriving DecidableEq

structure PoolStorage where
  currentTree : Option UInt32
  tree : UInt32 → Option TreeState
  root : UInt32 × Bytes32 → Option UInt64
  leaf : UInt32 × UInt64 → Option Bytes32
  enrollment : Address × Bytes32 → Option LeafPosition

def PoolStorage.empty : PoolStorage where
  currentTree := none
  tree _ := none
  root _ := none
  leaf _ := none
  enrollment _ := none

/-- Why an insertion leaves nothing: the pool's refusal, or a trap. -/
abbrev PoolRefusal := Option Account.PoolError

structure Insertion where
  treeId : UInt32
  index : UInt64
  leaf : Bytes32
  root : Bytes32
deriving DecidableEq

/-! ### Insertion -/

section Insert

variable (poseidon2 : Poseidon2) (depth : Nat)

def zeroHash (level : Nat) : Bytes32 := zeroHashes.getD level (BytesN.fill 0)

def capacity (depth : Nat) : UInt64 := 1 <<< depth.toUInt64

def currentTreeOf (s : PoolStorage) : UInt32 := s.currentTree.getD 0

def TreeState.fresh (depth : Nat) : TreeState where
  size := 0
  root := zeroHash depth
  frontier := (List.range depth).map zeroHash

def Poseidon2.node (left right : Bytes32) : Bytes32 :=
  poseidon2.hashBytes [left, right]

/-- The stored leaf, bound to the account and the enrollment id. -/
def Poseidon2.leafHash (accountId enrollmentId inner : Bytes32) : Bytes32 :=
  poseidon2.hashBytes [domBind, (splitHiLo accountId).1, (splitHiLo accountId).2,
    (splitHiLo enrollmentId).1, (splitHiLo enrollmentId).2, inner]

/-- One level of an insertion: a left child becomes the frontier, a right one
hashes with it. -/
def climbLevel (index : UInt64) (level : Nat) (path : List Bytes32 × Bytes32) :
    List Bytes32 × Bytes32 :=
  if (index >>> level.toUInt64) &&& 1 = 0 then
    (path.1.set level path.2, poseidon2.node path.2 (zeroHash level))
  else
    (path.1, poseidon2.node (path.1.getD level (BytesN.fill 0)) path.2)

/-- Climb from a leaf to the root, through the levels from the bottom. -/
def climb (index : UInt64) (frontier : List Bytes32) (leaf : Bytes32) :
    List Bytes32 × Bytes32 :=
  (List.range depth).foldl (fun path level => climbLevel poseidon2 index level path)
    (frontier, leaf)

def append (s : PoolStorage) (leaf : Bytes32) : Except PoolRefusal (Insertion × PoolStorage) := do
  let treeId := currentTreeOf s
  let state := (s.tree treeId).getD (TreeState.fresh depth)
  let index := state.size
  let (frontier, root) := climb poseidon2 depth index state.frontier leaf
  let size ← orFail (checkedSucc state.size) none
  let s :=
    { s with
      tree := Function.update s.tree treeId
          (some { size := size, root := root, frontier := frontier })
      leaf := Function.update s.leaf (treeId, index) (some leaf)
      root := Function.update s.root (treeId, root) (some size) }
  let s ← (if size = capacity depth then do
      let next ← orFail (checkedSucc32 treeId) (some .treeIdOverflow)
      pure { s with currentTree := some next }
    else pure s)
  pure ({ treeId := treeId, index := index, leaf := leaf, root := root }, s)

/-- `rcv_insert`, for an account that is its direct invoker. -/
def rcvInsert (s : PoolStorage) (account : Address) (enrollmentId commitment : Bytes32) :
    Except PoolRefusal (Insertion × PoolStorage) := do
  let accountId ← orFail (contractId account) (some .accountNotContract)
  require (isCanonicalField commitment = true) (some .nonCanonicalCommitment)
  require (s.enrollment (account, enrollmentId) = none) (some .enrollmentIdTaken)
  let leaf := poseidon2.leafHash accountId enrollmentId commitment
  let (insertion, s) ← append poseidon2 depth s leaf
  pure (insertion,
    { s with
      enrollment := Function.update s.enrollment (account, enrollmentId)
        (some { treeId := insertion.treeId, index := insertion.index }) })

def isKnownRoot (s : PoolStorage) (treeId : UInt32) (root : Bytes32) : Bool :=
  (s.root (treeId, root)).isSome

/-! ### Pages -/

def maxPage : UInt32 := 64

def requireOpened (s : PoolStorage) (treeId : UInt32) : Except PoolRefusal Unit :=
  require (¬currentTreeOf s < treeId) (some .unknownTree)

def treeSize (s : PoolStorage) (treeId : UInt32) : UInt64 :=
  ((s.tree treeId).map TreeState.size).getD 0

/-- The root of a tree; that of the empty tree before its first leaf. -/
def treeRoot (depth : Nat) (s : PoolStorage) (treeId : UInt32) : Bytes32 :=
  ((s.tree treeId).map TreeState.root).getD (zeroHash depth)

/-- The part of `start..start + count` a tree has, as a start and a count. -/
def page (s : PoolStorage) (treeId : UInt32) (start : UInt64) (count : UInt32) :
    Except PoolRefusal (UInt64 × UInt32) := do
  requireOpened s treeId
  require (¬maxPage < count) (some .pageTooLarge)
  let stop := min (saturatingAdd64 start count.toUInt64) (treeSize s treeId)
  let start := min start stop
  pure (start, (stop - start).toUInt32)

def leaves (s : PoolStorage) (treeId : UInt32) (start : UInt64) (count : UInt32) :
    Except PoolRefusal (List Bytes32) := do
  let (start, n) ← page s treeId start count
  (List.range n.toNat).mapM fun i => orFail (s.leaf (treeId, start + UInt64.ofNat i)) none

/-- Extending the lifetime of a missing entry traps too; lifetimes are not
otherwise modelled. -/
def renewLeaves (s : PoolStorage) (treeId : UInt32) (start : UInt64) (count : UInt32) :
    Except PoolRefusal Unit := do
  let (start, n) ← page s treeId start count
  (List.range n.toNat).forM fun i =>
    require ((s.leaf (treeId, start + UInt64.ofNat i)).isSome = true) none

/-! ### What an insertion does -/

variable {poseidon2 depth} {s s' : PoolStorage}

/-- An insertion records its root, and the account's enrollment, and nothing
else of either kind. -/
theorem rcvInsert_eq_ok {account : Address} {enrollmentId commitment : Bytes32}
    {insertion : Insertion}
    (inserted : rcvInsert poseidon2 depth s account enrollmentId commitment =
      .ok (insertion, s')) :
    isCanonicalField commitment = true ∧ s.enrollment (account, enrollmentId) = none ∧
      (∃ size, s'.root = Function.update s.root (insertion.treeId, insertion.root) (some size)) ∧
      ∃ position, s'.enrollment =
        Function.update s.enrollment (account, enrollmentId) (some position) := by
  simp only [rcvInsert, append, bind_eq_ok, orFail_eq_ok, require_eq_ok, pure_eq_ok,
    Prod.mk.injEq, Prod.exists] at inserted
  obtain ⟨_, _, _, canonical, _, free, _, after, ⟨size, _, grown, rolled, rfl, rfl⟩, rfl, rfl⟩ :=
    inserted
  refine ⟨canonical, free, ?_⟩
  split at rolled
  · simp only [bind_eq_ok, orFail_eq_ok, pure_eq_ok] at rolled
    obtain ⟨_, _, rfl⟩ := rolled
    exact ⟨⟨size, rfl⟩, _, rfl⟩
  · rw [pure_eq_ok] at rolled
    subst rolled
    exact ⟨⟨size, rfl⟩, _, rfl⟩

end Insert

/-! ### Runs of a pool -/

structure InsertCall where
  sequence : UInt32
  account : Address
  enrollmentId : Bytes32
  commitment : Bytes32

abbrev PoolStep := Step PoolStorage InsertCall (Except PoolRefusal Insertion)

def pool (poseidon2 : Poseidon2) (depth : Nat) :
    System UInt32 PoolStorage InsertCall (Except PoolRefusal Insertion) where
  clock call := call.sequence
  respond s call :=
    match rcvInsert poseidon2 depth s call.account call.enrollmentId call.commitment with
    | .ok (insertion, s') => (.ok insertion, s')
    | .error refusal => (.error refusal, s)

def Recorded (treeId : UInt32) (root : Bytes32) (taken : PoolStep) : Prop :=
  ∃ insertion, taken.reply = .ok insertion ∧ insertion.treeId = treeId ∧ insertion.root = root

/-- The roots a pool knows are the ones its insertions produced. -/
theorem known_root_recorded {poseidon2 : Poseidon2} {depth : Nat} {history : List PoolStep}
    {now : UInt32} {s : PoolStorage}
    (run : Execution (pool poseidon2 depth) 0 .empty history now s) (treeId : UInt32)
    (root : Bytes32) :
    isKnownRoot s treeId root = true ↔ ∃ taken ∈ history, Recorded treeId root taken := by
  induction run with
  | refl => simp [isKnownRoot, PoolStorage.empty]
  | wait _ _ ih => exact ih
  | @call history now s call _ _ ih =>
      cases called : rcvInsert poseidon2 depth s call.account call.enrollmentId call.commitment with
      | error refusal =>
          have silent : ¬Recorded treeId root ((pool poseidon2 depth).step s call) := by
            simp [Recorded, System.step, pool, called]
          have kept : ((pool poseidon2 depth).step s call).after = s := by
            simp [System.step, pool, called]
          rw [kept, ih]
          simp [silent]
      | ok result =>
          obtain ⟨insertion, s'⟩ := result
          obtain ⟨_, _, ⟨size, roots⟩, _⟩ := rcvInsert_eq_ok called
          have replied : ((pool poseidon2 depth).step s call).reply = .ok insertion := by
            simp [System.step, pool, called]
          have after : ((pool poseidon2 depth).step s call).after = s' := by
            simp [System.step, pool, called]
          rw [after, isKnownRoot, roots, Function.update_apply]
          simp only [List.mem_cons, exists_eq_or_imp, ← ih]
          simp only [Recorded, replied]
          split
          · rename_i same
            simp only [Prod.mk.injEq] at same
            simp [same.1, same.2]
          · rename_i other
            simp only [Prod.mk.injEq, not_and] at other
            constructor
            · intro known
              exact .inr known
            · rintro (⟨_, replied, sameTree, sameRoot⟩ | known)
              · cases replied
                exact absurd sameRoot.symm (other sameTree.symm)
              · exact known

end Perch.Zk
