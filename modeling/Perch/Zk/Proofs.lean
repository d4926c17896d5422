/-
What an accepted proof says of the pool, and of recoveries.

A sound proof was made from a witness.  Its path starts at a leaf the pool
stored, the leaf is bound to the account and the enrollment the statement hash
names, and its commitment fixes the secret the nullifier is made of.  So the
nullifier stands for the enrollment, and an enrollment recovers its account at
most once.
-/

import Perch.Zk.Circuit

namespace Perch.Zk

open Machine Recovery

/-! ### What is hashed -/

def Circuit.PublicInputs.read (inputs : Bytes) : Circuit.PublicInputs where
  root := ⟨(residues inputs).1, Nat.mod_lt _ (by decide)⟩
  nullifier := ⟨(residues inputs).2.1, Nat.mod_lt _ (by decide)⟩
  statementHash := ⟨(residues inputs).2.2, Nat.mod_lt _ (by decide)⟩

theorem read_publicInputs (root nullifier statementHash : Bytes32) :
    Circuit.PublicInputs.read (publicInputs root nullifier statementHash) =
      { root := element root
        nullifier := element nullifier
        statementHash := element statementHash } := by
  simp only [Circuit.PublicInputs.read, residues_publicInputs, element]

def bindPreimage (accountId enrollmentId inner : Bytes32) : List Bytes32 :=
  [domBind, (splitHiLo accountId).1, (splitHiLo accountId).2, (splitHiLo enrollmentId).1,
    (splitHiLo enrollmentId).2, inner]

def nullifierPreimage (accountId enrollmentId secret : Bytes32) : List Bytes32 :=
  [domNullifier, (splitHiLo accountId).1, (splitHiLo accountId).2, (splitHiLo enrollmentId).1,
    (splitHiLo enrollmentId).2, secret]

section Hashed

variable {depth : Nat}

def Circuit.Witness.preimages (poseidon2 : Poseidon2) (w : Circuit.Witness depth) :
    List (List Bytes32) :=
  [[Zk.domLeaf, encoding w.secret],
    [Zk.domBind, encoding w.acctHi, encoding w.acctLo, encoding w.enrHi, encoding w.enrLo,
      encoding (Circuit.commitment poseidon2 w.secret)],
    [Zk.domNullifier, encoding w.acctHi, encoding w.acctLo, encoding w.enrHi, encoding w.enrLo,
      encoding w.secret],
    [Zk.domAuth, encoding w.acctHi, encoding w.acctLo, encoding w.enrHi, encoding w.enrLo,
      encoding w.digestHi, encoding w.digestLo]] ++
  (Merkle.pathPairs poseidon2.node w.leafIndex.val 0 (encoding (w.stored poseidon2))
    (w.siblings.map encoding)).map fun pair => [pair.1, pair.2]

/-- The children of a node of a tree, when it had its first leaves. -/
def treePair (poseidon2 : Poseidon2) (history : List PoolStep) (treeId : UInt32)
    (count level index : Nat) : Bytes32 × Bytes32 :=
  Merkle.children poseidon2.node
    (Merkle.padded (zeroHash 0) ((leavesOf history treeId).take count)) level index

/-- What is hashed when a pool runs and proofs are made and checked. -/
inductive InPlay (adapter : Adapter) (history : List PoolStep) (calls : Set AdapterCall)
    (extract : AdapterCall → Circuit.Witness depth) : Set (List Bytes32)
  | bound {taken : PoolStep} {insertion : Insertion} {accountId : Bytes32}
      (member : taken ∈ history) (replied : taken.reply = .ok insertion)
      (account : contractId taken.action.account = some accountId) :
      InPlay adapter history calls extract
        (bindPreimage accountId taken.action.enrollmentId taken.action.commitment)
  | node {treeId : UInt32} {count level index : Nat}
      (stored : count ≤ (leavesOf history treeId).length) (below : level < depth)
      (within : index < 2 ^ (depth - (level + 1))) :
      InPlay adapter history calls extract
        [(treePair adapter.poseidon2 history treeId count level index).1,
          (treePair adapter.poseidon2 history treeId count level index).2]
  | proved {call : AdapterCall} {preimage : List Bytes32} (listed : call ∈ calls)
      (member : preimage ∈ (extract call).preimages adapter.poseidon2) :
      InPlay adapter history calls extract preimage
  | stated {call : AdapterCall} {fields : ZkStatementFields} (listed : call ∈ calls)
      (projected : zkStatementFields adapter.sha256 call.statement call.binding.enrollmentId =
        .ok fields) :
      InPlay adapter history calls extract fields.authPreimage

end Hashed

/-! ### Sound proofs, and roots a pool gave -/

/-- A proof the verifier accepts in a call was made from a witness of what the
call hands it. -/
def Extracts {depth : Nat} (adapter : Adapter) (calls : Set AdapterCall)
    (extract : AdapterCall → Circuit.Witness depth) : Prop :=
  ∀ call ∈ calls, ∀ verifier inputs, adapter.verifier = some verifier →
    call.inputs adapter = .ok inputs → verifier call.evidence.proof inputs = true →
      Circuit.check adapter.poseidon2 (.read inputs) (extract call) = true

/-- The pool a call names answered it at some moment of the run. -/
def Answered (poseidon2 : Poseidon2) (depth : Nat) (history : List PoolStep)
    (call : AdapterCall) : Prop :=
  ∃ later earlier now s, history = later ++ earlier ∧
    Execution (pool poseidon2 depth) 0 .empty earlier now s ∧
    call.knownRoots call.binding.pool call.evidence.treeId call.evidence.root =
      some (isKnownRoot s call.evidence.treeId call.evidence.root)

theorem leavesOf_append (later earlier : List PoolStep) (treeId : UInt32) :
    leavesOf (later ++ earlier) treeId = leavesOf earlier treeId ++ leavesOf later treeId := by
  simp [leavesOf]

/-- A root the pool answered for stands over the first leaves of its tree. -/
theorem Answered.root {poseidon2 : Poseidon2} {depth : Nat} {history : List PoolStep}
    {call : AdapterCall} (shallow : depth ≤ 32) (chain : EmptyHashes poseidon2 depth)
    (answered : Answered poseidon2 depth history call)
    (known : call.knownRoots call.binding.pool call.evidence.treeId call.evidence.root =
      some true) :
    ∃ count, count ≤ (leavesOf history call.evidence.treeId).length ∧
      call.evidence.root = merkleRoot poseidon2 depth
        ((leavesOf history call.evidence.treeId).take count) := by
  obtain ⟨later, earlier, now, s, rfl, run, reply⟩ := answered
  rw [reply, Option.some.injEq] at known
  obtain ⟨count, _, within, same⟩ :=
    ((poolSound chain shallow run).trees.root _ _).mp known
  rw [leavesOf_append]
  refine ⟨count, ?_, ?_⟩
  · rw [List.length_append]
    exact Nat.le_add_right_of_le within
  · rw [List.take_append_of_le_length within]
    exact same

/-! ### From a proof to an enrollment -/

section Enrollment

variable {adapter : Adapter} {depth : Nat} {history : List PoolStep} {calls : Set AdapterCall}
  {extract : AdapterCall → Circuit.Witness depth} {call : AdapterCall}

structure Witnessed (adapter : Adapter) (call : AdapterCall) (w : Circuit.Witness depth)
    (accountId : Bytes32) : Prop where
  account : contractId call.statement.account = some accountId
  index : w.leafIndex.val < 2 ^ depth
  root : Merkle.climbPath adapter.poseidon2.node w.leafIndex.val 0
    (encoding (w.stored adapter.poseidon2)) (w.siblings.map encoding) = call.evidence.root
  stored : encoding (w.stored adapter.poseidon2) =
    adapter.poseidon2.leafHash accountId call.binding.enrollmentId
      (adapter.poseidon2.commitment (encoding w.secret))
  nullifier : call.evidence.nullifier =
    adapter.poseidon2.nullifier accountId call.binding.enrollmentId (encoding w.secret)
  committed : [domLeaf, encoding w.secret] ∈ w.preimages adapter.poseidon2
  bound : bindPreimage accountId call.binding.enrollmentId
    (adapter.poseidon2.commitment (encoding w.secret)) ∈ w.preimages adapter.poseidon2
  nullified : nullifierPreimage accountId call.binding.enrollmentId (encoding w.secret) ∈
    w.preimages adapter.poseidon2

theorem zkStatementFields_parts {sha256 : Sha256} {statement : RecoveryStatement}
    {enrollmentId : Bytes32} {fields : ZkStatementFields}
    (projected : zkStatementFields sha256 statement enrollmentId = .ok fields) :
    ∃ accountId digest, contractId statement.account = some accountId ∧ fields =
      { accountHi := (splitHiLo accountId).1
        accountLo := (splitHiLo accountId).2
        enrollmentHi := (splitHiLo enrollmentId).1
        enrollmentLo := (splitHiLo enrollmentId).2
        digestHi := (splitHiLo digest).1
        digestLo := (splitHiLo digest).2 } := by
  simp only [zkStatementFields, bind_eq_ok, orFail_eq_ok, pure_eq_ok] at projected
  obtain ⟨accountId, named, digest, _, rfl⟩ := projected
  exact ⟨accountId, digest, named, rfl⟩

theorem encoding_commitment {poseidon2 : Poseidon2} (secret : Element) :
    encoding (Circuit.commitment poseidon2 secret) = poseidon2.commitment (encoding secret) :=
  encoding_hash [Circuit.domLeaf, secret]

/-- The witness of an accepted call is of the account and the enrollment the
call is about: the statement hash binds them. -/
theorem AdapterCall.witnessed (sound : Extracts adapter calls extract)
    (free : Set.InjOn adapter.poseidon2.hashBytes (InPlay adapter history calls extract))
    (listed : call ∈ calls) (accepted : call.accepted adapter) :
    ∃ accountId, Witnessed adapter call (extract call) accountId := by
  obtain ⟨_, ⟨fields, projected, verifier, available, verified⟩, root, nullifier, _, _⟩ :=
    AdapterCall.accepted_iff.mp accepted
  have handed : call.inputs adapter = .ok (publicInputs call.evidence.root
      call.evidence.nullifier (adapter.statementHash fields)) := by
    rw [AdapterCall.inputs, projected]
    rfl
  have shown := check_iff.mp (sound call listed verifier _ available handed verified)
  rw [read_publicInputs] at shown
  generalize held : extract call = w at shown
  have preimages : ∀ preimage ∈ w.preimages adapter.poseidon2,
      preimage ∈ InPlay adapter history calls extract := by
    rw [← held]
    intro preimage member
    exact .proved listed member
  have stated : adapter.poseidon2.hashBytes [domAuth, encoding w.acctHi, encoding w.acctLo,
      encoding w.enrHi, encoding w.enrLo, encoding w.digestHi, encoding w.digestLo] =
      adapter.poseidon2.hashBytes fields.authPreimage := by
    have hashed := @encoding_hash adapter.poseidon2 [Circuit.domAuth, w.acctHi, w.acctLo,
      w.enrHi, w.enrLo, w.digestHi, w.digestLo]
    exact hashed.symm.trans ((congrArg encoding shown.statementHash).trans
      (encoding_element (hashBytes_canonical fields.authPreimage)))
  have bound := free (preimages _ (by simp [Circuit.Witness.preimages]))
    (.stated listed projected) stated
  obtain ⟨accountId, digest, named, rfl⟩ := zkStatementFields_parts projected
  simp only [ZkStatementFields.authPreimage, List.cons.injEq, and_true, true_and] at bound
  obtain ⟨acctHi, acctLo, enrHi, enrLo, _, _⟩ := bound
  have path := shown.root.trans (encoding_element root)
  refine ⟨accountId, ?_⟩
  constructor
  · exact named
  · exact shown.index
  · exact path
  · rw [Poseidon2.leafHash, ← encoding_commitment, ← acctHi, ← acctLo, ← enrHi, ← enrLo]
    exact encoding_hash [Circuit.domBind, w.acctHi, w.acctLo, w.enrHi, w.enrLo,
      Circuit.commitment adapter.poseidon2 w.secret]
  · have same := (congrArg encoding shown.nullifier).trans (encoding_element nullifier)
    rw [← same, Poseidon2.nullifier, ← acctHi, ← acctLo, ← enrHi, ← enrLo]
    exact encoding_hash [Circuit.domNullifier, w.acctHi, w.acctLo, w.enrHi, w.enrLo, w.secret]
  · simp [Circuit.Witness.preimages]
  · simp [Circuit.Witness.preimages, bindPreimage, encoding_commitment, acctHi, acctLo, enrHi,
      enrLo]
  · simp [Circuit.Witness.preimages, nullifierPreimage, acctHi, acctLo, enrHi, enrLo]

theorem leaf_inserted {poseidon2 : Poseidon2} {now : UInt32} {s : PoolStorage}
    (run : Execution (pool poseidon2 depth) 0 .empty history now s) {treeId : UInt32}
    {leaf : Bytes32} (member : leaf ∈ leavesOf history treeId) :
    ∃ taken ∈ history, ∃ insertion accountId, taken.reply = .ok insertion ∧
      insertion.treeId = treeId ∧ insertion.leaf = leaf ∧
      contractId taken.action.account = some accountId ∧
      leaf = poseidon2.leafHash accountId taken.action.enrollmentId taken.action.commitment := by
  obtain ⟨taken, past, inserted⟩ := List.mem_filterMap.mp member
  rw [List.mem_reverse] at past
  have executed := run.executed past
  cases called : rcvInsert poseidon2 depth taken.before taken.action.account
      taken.action.enrollmentId taken.action.commitment with
  | error refusal =>
      rw [executed, insertedLeaf, (step_refused called).1] at inserted
      cases inserted
  | ok result =>
      obtain ⟨insertion, after⟩ := result
      have replied := (step_inserted called).1
      rw [← executed] at replied
      obtain ⟨accountId, named, bound⟩ := (rcvInsert_inserts called).bound
      rw [insertedLeaf, replied] at inserted
      dsimp only at inserted
      split at inserted
      next same =>
        cases inserted
        exact ⟨taken, past, insertion, accountId, replied, same, rfl, named, bound⟩
      next => cases inserted

structure EnrolledWith (poseidon2 : Poseidon2) (history : List PoolStep) (s : PoolStorage)
    (call : AdapterCall) (accountId secret : Bytes32) (insertion : Insertion) : Prop where
  once : enrollmentsOf history call.statement.account call.binding.enrollmentId = [insertion]
  tree : insertion.treeId = call.evidence.treeId
  leaf : insertion.leaf = poseidon2.leafHash accountId call.binding.enrollmentId
    (poseidon2.commitment secret)
  recorded : s.enrollment (call.statement.account, call.binding.enrollmentId) =
    some { treeId := insertion.treeId, index := insertion.index }
  stored : s.leaf (insertion.treeId, insertion.index) = some insertion.leaf

def NoZero {depth : Nat} (adapter : Adapter) (history : List PoolStep) (calls : Set AdapterCall)
    (extract : AdapterCall → Circuit.Witness depth) : Prop :=
  ∀ preimage ∈ InPlay adapter history calls extract,
    adapter.poseidon2.hashBytes preimage ≠ zeroHash 0

/-- The path of an accepted call's witness starts at a leaf of the tree named. -/
theorem Witnessed.leaf_stored {accountId : Bytes32}
    (witnessed : Witnessed adapter call (extract call) accountId)
    (free : Set.InjOn adapter.poseidon2.hashBytes (InPlay adapter history calls extract))
    (nonzero : NoZero adapter history calls extract) (listed : call ∈ calls) {count : Nat}
    (within : count ≤ (leavesOf history call.evidence.treeId).length)
    (root : call.evidence.root = merkleRoot adapter.poseidon2 depth
      ((leavesOf history call.evidence.treeId).take count)) :
    encoding ((extract call).stored adapter.poseidon2) ∈
      leavesOf history call.evidence.treeId := by
  have hashed : ∀ preimage ∈ (extract call).preimages adapter.poseidon2,
      preimage ∈ InPlay adapter history calls extract := by
    intro preimage member
    exact .proved listed member
  have long : ((extract call).siblings.map encoding).length = depth := by
    rw [List.length_map, (extract call).sized]
  have climbed := witnessed.root
  have top : (extract call).leafIndex.val / 2 ^ depth = 0 := Nat.div_eq_of_lt witnessed.index
  rw [root, merkleRoot, Merkle.root] at climbed
  have pairs : Set.InjOn (fun pair : Bytes32 × Bytes32 => adapter.poseidon2.node pair.1 pair.2)
      {pair | [pair.1, pair.2] ∈ InPlay adapter history calls extract} := by
    intro pair member pair' member' same
    have lists := free member member' same
    simp only [List.cons.injEq, and_true] at lists
    exact Prod.ext lists.1 lists.2
  have start := Merkle.climbPath_sound pairs
    (by
      intro pair member
      apply hashed
      rw [Circuit.Witness.preimages, List.mem_append, List.mem_map]
      exact .inr ⟨pair, member, rfl⟩)
    (by
      intro offset below
      rw [long] at below
      rw [Nat.zero_add]
      apply InPlay.node within below
      apply Nat.div_lt_of_lt_mul
      rw [← pow_add, Nat.add_sub_cancel' below]
      exact witnessed.index)
    (by
      rw [long, Nat.zero_add, top]
      exact climbed)
  simp only [pow_zero, Nat.div_one, Merkle.subtree, Merkle.padded,
    List.getD_eq_getElem?_getD] at start
  cases held : ((leavesOf history call.evidence.treeId).take count)[
      (extract call).leafIndex.val]? with
  | none =>
      rw [held, Option.getD_none, witnessed.stored] at start
      exact absurd start (nonzero _ (hashed _ witnessed.bound))
  | some leaf =>
      rw [held, Option.getD_some] at start
      rw [start]
      exact List.mem_of_mem_take (List.mem_of_getElem? held)

/-- What proofs are trusted for: a proof accepted has a witness, and the hash
has no collision, and no empty place, among what is hashed.  The pool asked is
the one of the run. -/
structure SoundProofs (adapter : Adapter) (history : List PoolStep) (calls : Set AdapterCall)
    (extract : AdapterCall → Circuit.Witness depth) : Prop where
  extracts : Extracts adapter calls extract
  free : Set.InjOn adapter.poseidon2.hashBytes (InPlay adapter history calls extract)
  nonzero : NoZero adapter history calls extract
  answered : ∀ call ∈ calls, Answered adapter.poseidon2 depth history call

/-- An accepted call is about an enrollment the pool recorded. -/
theorem SoundProofs.enrolled (trusted : SoundProofs adapter history calls extract)
    (shallow : depth ≤ 32) (chain : EmptyHashes adapter.poseidon2 depth) {now : UInt32}
    {s : PoolStorage} (run : Execution (pool adapter.poseidon2 depth) 0 .empty history now s)
    (listed : call ∈ calls) (accepted : call.accepted adapter) :
    ∃ accountId insertion, Witnessed adapter call (extract call) accountId ∧
      EnrolledWith adapter.poseidon2 history s call accountId
        (encoding (extract call).secret) insertion := by
  obtain ⟨accountId, witnessed⟩ := AdapterCall.witnessed trusted.extracts trusted.free listed
    accepted
  obtain ⟨_, _, _, _, _, known⟩ := AdapterCall.accepted_iff.mp accepted
  obtain ⟨count, within, root⟩ := (trusted.answered call listed).root shallow chain known
  have member := witnessed.leaf_stored trusted.free trusted.nonzero listed within root
  obtain ⟨taken, past, insertion, accountId', replied, tree, leaf, named, bound⟩ :=
    leaf_inserted run member
  -- One leaf, so one account, one enrollment and one commitment.
  have preimages := trusted.free (.proved listed witnessed.bound) (.bound past replied named)
    (witnessed.stored.symm.trans bound)
  simp only [bindPreimage, List.cons.injEq, and_true, true_and] at preimages
  obtain ⟨accountHi, accountLo, enrollmentHi, enrollmentLo, commitment⟩ := preimages
  obtain rfl := splitHiLo_injective (Prod.ext accountHi accountLo)
  have enrollment := splitHiLo_injective (Prod.ext enrollmentHi enrollmentLo)
  have account : taken.action.account = call.statement.account :=
    (contractId_eq_some.mp named).trans (contractId_eq_some.mp witnessed.account).symm
  have mine : insertion ∈ enrollmentsOf history call.statement.account
      call.binding.enrollmentId := by
    apply List.mem_filterMap.mpr ⟨taken, past, ?_⟩
    rw [enrolledBy, replied]
    exact if_pos ⟨account, enrollment.symm⟩
  have sound := poolSound chain shallow run
  rcases sound.enrolled call.statement.account call.binding.enrollmentId with
    ⟨none, _⟩ | ⟨only, _, _, once, record, _, _, held⟩
  · rw [none] at mine
    cases mine
  · rw [once] at mine
    obtain rfl := List.mem_singleton.mp mine
    refine ⟨accountId, insertion, witnessed, ?_⟩
    constructor
    · exact once
    · exact tree
    · rw [leaf]
      exact witnessed.stored
    · exact record
    · rw [sound.trees.leaf]
      exact held

/-- A proof the adapter accepts is of an enrollment: the pool recorded one for
the account and the enrollment id, in the tree named, of the commitment of a
secret, and the nullifier is the one of that secret. -/
theorem accepted_enrolled (trusted : SoundProofs adapter history calls extract)
    (shallow : depth ≤ 32) (chain : EmptyHashes adapter.poseidon2 depth) {now : UInt32}
    {s : PoolStorage} (run : Execution (pool adapter.poseidon2 depth) 0 .empty history now s)
    (listed : call ∈ calls) (accepted : call.accepted adapter) :
    ∃ accountId position secret, contractId call.statement.account = some accountId ∧
      s.enrollment (call.statement.account, call.binding.enrollmentId) = some position ∧
      position.treeId = call.evidence.treeId ∧
      s.leaf (position.treeId, position.index) = some (adapter.poseidon2.leafHash accountId
        call.binding.enrollmentId (adapter.poseidon2.commitment secret)) ∧
      call.evidence.nullifier =
        adapter.poseidon2.nullifier accountId call.binding.enrollmentId secret := by
  obtain ⟨accountId, insertion, witnessed, enrolled⟩ :=
    trusted.enrolled shallow chain run listed accepted
  refine ⟨accountId, _, _, witnessed.account, enrolled.recorded, enrolled.tree, ?_,
    witnessed.nullifier⟩
  rw [← enrolled.leaf]
  exact enrolled.stored

/-! ### One nullifier for each enrollment -/

theorem Witnessed.same_enrollment (trusted : SoundProofs adapter history calls extract)
    {other : AdapterCall} {accountId accountId' : Bytes32}
    (listed : call ∈ calls) (listed' : other ∈ calls)
    (witnessed : Witnessed adapter call (extract call) accountId)
    (witnessed' : Witnessed adapter other (extract other) accountId')
    (same : call.evidence.nullifier = other.evidence.nullifier) :
    call.statement.account = other.statement.account ∧
      call.binding.enrollmentId = other.binding.enrollmentId := by
  rw [witnessed.nullifier, witnessed'.nullifier] at same
  have preimages := trusted.free (.proved listed witnessed.nullified)
    (.proved listed' witnessed'.nullified) same
  simp only [nullifierPreimage, List.cons.injEq, and_true, true_and] at preimages
  obtain ⟨accountHi, accountLo, enrollmentHi, enrollmentLo, _⟩ := preimages
  obtain rfl := splitHiLo_injective (Prod.ext accountHi accountLo)
  constructor
  · exact (contractId_eq_some.mp witnessed.account).trans
      (contractId_eq_some.mp witnessed'.account).symm
  · exact splitHiLo_injective (Prod.ext enrollmentHi enrollmentLo)

/-- Proofs of one enrollment have one nullifier: the pool took one commitment
for it, and a commitment is of one secret. -/
theorem EnrolledWith.same_nullifier (trusted : SoundProofs adapter history calls extract)
    {s : PoolStorage} {other : AdapterCall} {accountId accountId' : Bytes32}
    {insertion insertion' : Insertion} (listed : call ∈ calls) (listed' : other ∈ calls)
    (witnessed : Witnessed adapter call (extract call) accountId)
    (witnessed' : Witnessed adapter other (extract other) accountId')
    (enrolled : EnrolledWith adapter.poseidon2 history s call accountId
      (encoding (extract call).secret) insertion)
    (enrolled' : EnrolledWith adapter.poseidon2 history s other accountId'
      (encoding (extract other).secret) insertion')
    (account : call.statement.account = other.statement.account)
    (enrollment : call.binding.enrollmentId = other.binding.enrollmentId) :
    call.evidence.nullifier = other.evidence.nullifier := by
  have ids : some accountId = some accountId' := by
    rw [← witnessed.account, ← witnessed'.account, account]
  obtain rfl := Option.some.inj ids
  have once := enrolled.once
  rw [account, enrollment, enrolled'.once] at once
  obtain rfl := List.singleton_inj.mp once
  have leaves := trusted.free (.proved listed witnessed.bound) (.proved listed' witnessed'.bound)
    (enrolled.leaf.symm.trans enrolled'.leaf)
  simp only [bindPreimage, List.cons.injEq, and_true, true_and] at leaves
  have secrets := trusted.free (.proved listed witnessed.committed)
    (.proved listed' witnessed'.committed) leaves.2.2
  simp only [List.cons.injEq, and_true, true_and] at secrets
  rw [witnessed.nullifier, witnessed'.nullifier, enrollment, secrets]

section Pool

variable (trusted : SoundProofs adapter history calls extract) (shallow : depth ≤ 32)
  (chain : EmptyHashes adapter.poseidon2 depth) {now : UInt32} {s : PoolStorage}
  (run : Execution (pool adapter.poseidon2 depth) 0 .empty history now s) {other : AdapterCall}
  (listed : call ∈ calls) (listed' : other ∈ calls) (accepted : call.accepted adapter)
  (accepted' : other.accepted adapter)

include trusted shallow chain run listed listed' accepted accepted'

theorem SoundProofs.one_nullifier (account : call.statement.account = other.statement.account)
    (enrollment : call.binding.enrollmentId = other.binding.enrollmentId) :
    call.evidence.nullifier = other.evidence.nullifier := by
  obtain ⟨accountId, insertion, witnessed, enrolled⟩ :=
    trusted.enrolled shallow chain run listed accepted
  obtain ⟨accountId', insertion', witnessed', enrolled'⟩ :=
    trusted.enrolled shallow chain run listed' accepted'
  exact EnrolledWith.same_nullifier trusted listed listed' witnessed witnessed' enrolled enrolled'
    account enrollment

/-- Accepted proofs have one nullifier exactly when they are of one enrollment. -/
theorem nullifier_iff_enrollment :
    call.evidence.nullifier = other.evidence.nullifier ↔
      call.statement.account = other.statement.account ∧
        call.binding.enrollmentId = other.binding.enrollmentId := by
  constructor
  · intro same
    obtain ⟨_, _, witnessed, _⟩ := trusted.enrolled shallow chain run listed accepted
    obtain ⟨_, _, witnessed', _⟩ := trusted.enrolled shallow chain run listed' accepted'
    exact Witnessed.same_enrollment trusted listed listed' witnessed witnessed' same
  · rintro ⟨account, enrollment⟩
    exact trusted.one_nullifier shallow chain run listed listed' accepted accepted' account
      enrollment

end Pool

end Enrollment

/-! ### One recovery for each enrollment -/

section Recoveries

variable {adapter : Adapter} {depth : Nat} {poolHistory : List PoolStep}
  {calls : Set AdapterCall} {extract : AdapterCall → Circuit.Witness depth}

/-- Every proof the account's adapters accepted was accepted in one of the calls. -/
def Relied (adapter : Adapter) (calls : Set AdapterCall) (account : Address)
    (history : History) : Prop :=
  ∀ taken ∈ history, taken.action.call.account = account →
    ∀ address statement binding evidence,
      (taken.action.env.zkAdapter address).verify statement binding evidence = true →
      ∃ knownRoots, { knownRoots, statement, binding, evidence : AdapterCall } ∈ calls ∧
        adapter.verify knownRoots statement binding evidence = .ok ()

/-- A step completed a recovery of an account with a proof of an enrollment. -/
def CompletedWith (adapter : Adapter) (calls : Set AdapterCall) (account : Address)
    (enrollmentId : Bytes32) (taken : ControllerStep) : Prop :=
  ∃ call ∈ calls, call.accepted adapter ∧ call.statement.account = account ∧
    call.binding.enrollmentId = enrollmentId ∧ spends account call.evidence.nullifier taken = true

/-- A nullifier an attempt holds came with an accepted call about its account. -/
theorem nullifier_proved {d : Deployment} {history : History} {now : UInt32} {s : Storage}
    (run : Run d history now s) {account : Address} (relied : Relied adapter calls account history)
    {id : UInt64} {a : Attempt} (stored : s.attempt (account, id) = some a) {n : Bytes32}
    (recorded : a.zkNullifier = some n) :
    ∃ call ∈ calls, call.accepted adapter ∧ call.statement.account = account ∧
      call.evidence.nullifier = n := by
  obtain ⟨-, -, config, -, evidence⟩ := run.founded account id a (.inl stored)
  obtain ⟨factor, -, taken, member, proved, -⟩ := evidence.proved n recorded
  obtain ⟨given, called, rfl, verified⟩ := proved.call
  have named : taken.action.call.account = account := by
    rw [called]
    rfl
  obtain ⟨knownRoots, listed, accepted⟩ := relied taken member named _ _ _ _ verified
  exact ⟨_, listed, accepted, rfl, rfl⟩

/-- Every recovery completed with a proof was proved by an enrollment the pool
recorded for the account, and no enrollment completes two of them. -/
theorem enrollment_recovers_once (trusted : SoundProofs adapter poolHistory calls extract)
    (shallow : depth ≤ 32) (chain : EmptyHashes adapter.poseidon2 depth) {poolNow : UInt32}
    {p : PoolStorage}
    (pooled : Execution (pool adapter.poseidon2 depth) 0 .empty poolHistory poolNow p)
    {d : Deployment} {history : History} {now : UInt32} {s : Storage} (run : Run d history now s)
    {account : Address} (relied : Relied adapter calls account history) :
    (∀ taken ∈ history, ∀ n, spends account n taken = true →
      ∃ enrollmentId, (p.enrollment (account, enrollmentId)).isSome = true ∧
        CompletedWith adapter calls account enrollmentId taken) ∧
    ∀ enrollmentId, history.Pairwise fun newer older =>
      ¬(CompletedWith adapter calls account enrollmentId newer ∧
        CompletedWith adapter calls account enrollmentId older) := by
  constructor
  · intro taken member n spent
    obtain ⟨later, earlier, rfl⟩ := List.append_of_mem member
    obtain ⟨_, before, _⟩ := Execution.split later run
    have before : Run d earlier taken.action.env.sequence taken.before := before
    obtain ⟨id, a, stored, recorded⟩ := spends_stored spent
    have past : Relied adapter calls account earlier := by
      intro step known
      apply relied
      simp [known]
    obtain ⟨call, listed, accepted, named, rfl⟩ := nullifier_proved before past stored recorded
    obtain ⟨_, _, _, enrolled⟩ := trusted.enrolled shallow chain pooled listed accepted
    refine ⟨call.binding.enrollmentId, ?_, call, listed, accepted, named, rfl, spent⟩
    rw [← named, enrolled.recorded]
    rfl
  · intro enrollmentId
    rw [List.pairwise_iff_forall_sublist]
    rintro newer older sublist ⟨⟨call, listed, accepted, named, bound, spent⟩,
      ⟨other, listed', accepted', named', bound', spent'⟩⟩
    have same := trusted.one_nullifier shallow chain pooled listed listed' accepted accepted'
      (named.trans named'.symm) (bound.trans bound'.symm)
    rw [← same] at spent'
    have twice := sublist.countP_le (p := spends account call.evidence.nullifier)
    rw [List.countP_cons_of_pos spent, List.countP_cons_of_pos spent', List.countP_nil] at twice
    have once := run.spends_once account call.evidence.nullifier
    omega

end Recoveries

/-! ### A recovery with a proof -/

namespace Proven

def circuitId : Bytes32 := Sample.sha256 []

def factor : CompiledZkFactor := { Sample.factor with circuitId := circuitId }

def config : CompiledRecoveryConfig where
  configHash := .fill 10
  profile := .protectedProfile
  mode := .combined { guardians := [Sample.guardian], quorum := 1 } factor
  controller := Sample.deployment.address
  baseline := none
  replaceable := []
  delayLedgers := 10
  expiryLedgers := 100
  maxCancels := 3

def statement : RecoveryStatement :=
  Recovery.statement Sample.deployment Sample.account config 1 201 (.lostKey
    { attemptId := 0
      sourceDocHash := Sample.sha256 Sample.source
      targetDocHash := Sample.target.docHash
      replacementsHash :=
        be32 0x9c492e61087bc1260a6a1c56bf635544588ce54bf78f94d6c94db701c9b3087a })

def secret : Element := element (be32 8)

/-- The account's enrollment, and another one, which fills the tree. -/
def poolCalls : List InsertCall :=
  [{ sequence := 90
     account := Sample.account
     enrollmentId := factor.enrollmentId
     commitment := Filled.poseidon2.commitment (encoding secret) },
   { sequence := 91, account := Sample.account, enrollmentId := .fill 9, commitment := be32 9 }]

def pooled : List PoolStep × PoolStorage := (pool Filled.poseidon2 1).play [] .empty poolCalls

def digest : Bytes32 := (statement.digest Sample.sha256).toOption.getD (.fill 0)

def leafOf (enrollmentId commitment : Bytes32) : Bytes32 :=
  Filled.poseidon2.leafHash (.fill 1) enrollmentId commitment

def witness : Circuit.Witness 1 where
  secret := secret
  acctHi := element (splitHiLo (.fill 1)).1
  acctLo := element (splitHiLo (.fill 1)).2
  enrHi := element (splitHiLo factor.enrollmentId).1
  enrLo := element (splitHiLo factor.enrollmentId).2
  digestHi := element (splitHiLo digest).1
  digestLo := element (splitHiLo digest).2
  leafIndex := element (be32 0)
  siblings := [element (leafOf (.fill 9) (be32 9))]
  sized := rfl

/-- An adapter whose verifier checks the circuit on the witness. -/
def adapter : Adapter where
  sha256 := Sample.sha256
  poseidon2 := Filled.poseidon2
  vk := []
  verifier := some fun _ inputs => Circuit.check Filled.poseidon2 (.read inputs) witness

def evidence : ZkEvidence where
  treeId := 0
  root := treeRoot 1 pooled.2 0
  nullifier := Filled.poseidon2.nullifier (.fill 1) factor.enrollmentId (encoding secret)
  proof := List.replicate proofBytes 0

def knownRoots : KnownRoots := fun _ treeId root => some (isKnownRoot pooled.2 treeId root)

def Accepts (asked : RecoveryStatement) (binding : ZkBinding) (given : ZkEvidence) : Prop :=
  asked = statement ∧ binding = factor.binding ∧ given.treeId = 0 ∧
    given.root = evidence.root ∧ given.nullifier = evidence.nullifier ∧
    given.proof.length = proofBytes

instance (asked : RecoveryStatement) (binding : ZkBinding) (given : ZkEvidence) :
    Decidable (Accepts asked binding given) :=
  inferInstanceAs (Decidable (_ ∧ _ ∧ _ ∧ _ ∧ _ ∧ _))

def calls : Set AdapterCall :=
  {call | call.knownRoots = knownRoots ∧ Accepts call.statement call.binding call.evidence}

def env (sequence : UInt32) : Env :=
  { Sample.env sequence with
    zkAdapter := fun _ =>
      { verify := fun asked binding given => decide (Accepts asked binding given)
        circuitId := some circuitId
        treeDepth := some 20 } }

def invoke (sequence : UInt32) (call : Call) : Invocation :=
  { env := env sequence, call := call }

/-- Enrollment, one attempt, the evidence that authorizes it, and its
completion. -/
def invocations : List Invocation :=
  [invoke 100 (.rcvSync Sample.account (Sample.sha256 Sample.source) [config] 0),
   invoke 101 (.beginLostKey Sample.account Sample.replacements),
   invoke 102 (.submitGuardian Sample.account 0 .initiate Sample.guardian),
   invoke 104 (.submitZk Sample.account 0 .initiate evidence),
   invoke 114 (.enforce Sample.applied [] Sample.recoveryRule Sample.account),
   invoke 114 (.rcvSync Sample.account Sample.target.docHash
     [{ config with configHash := Sample.target.configHash }] 0)]

def reached : History × Storage := (controller Sample.deployment).play [] .empty invocations

theorem run : Run Sample.deployment reached.1 114 reached.2 := Execution.refl.play (by decide)

theorem chain : EmptyHashes Filled.poseidon2 1 := by
  have levels : ∀ level < 1, zeroHash (level + 1) =
      Filled.poseidon2.node (zeroHash level) (zeroHash level) := by
    decide
  exact levels

theorem pool_run : Execution (pool Filled.poseidon2 1) 0 .empty pooled.1 91 pooled.2 :=
  Execution.refl.play (by decide)

def fields : ZkStatementFields where
  accountHi := (splitHiLo (.fill 1)).1
  accountLo := (splitHiLo (.fill 1)).2
  enrollmentHi := (splitHiLo factor.enrollmentId).1
  enrollmentLo := (splitHiLo factor.enrollmentId).2
  digestHi := (splitHiLo digest).1
  digestLo := (splitHiLo digest).2

theorem projected :
    zkStatementFields Sample.sha256 statement factor.enrollmentId = .ok fields := by
  decide +kernel

def known : List (List Bytes32) :=
  witness.preimages Filled.poseidon2 ++
    [bindPreimage (.fill 1) (.fill 9) (be32 9), [zeroHash 0, zeroHash 0],
      [encoding (witness.stored Filled.poseidon2), zeroHash 0]]

theorem node_known {treeId : UInt32} {count : Nat}
    (stored : count ≤ (leavesOf pooled.1 treeId).length) :
    [(treePair Filled.poseidon2 pooled.1 treeId count 0 0).1,
      (treePair Filled.poseidon2 pooled.1 treeId count 0 0).2] ∈ known := by
  have first : ∀ count ≤ (leavesOf pooled.1 0).length,
      [(treePair Filled.poseidon2 pooled.1 0 count 0 0).1,
        (treePair Filled.poseidon2 pooled.1 0 count 0 0).2] ∈ known := by
    decide +kernel
  have inserted : ∀ taken ∈ pooled.1, (insertedLeaf 0 taken).isSome = true := by
    decide +kernel
  by_cases same : treeId = 0
  · subst same
    exact first count stored
  · have none : leavesOf pooled.1 treeId = [] := by
      apply List.filterMap_eq_nil_iff.mpr
      intro taken member
      have here := inserted taken (List.mem_reverse.mp member)
      rw [insertedLeaf] at here ⊢
      cases replied : taken.reply with
      | error refusal => rfl
      | ok insertion =>
          rw [replied] at here
          dsimp only at here ⊢
          split at here
          next zero =>
            rw [zero]
            exact if_neg (Ne.symm same)
          next => cases here
    rw [none, List.length_nil] at stored
    obtain rfl := Nat.le_zero.mp stored
    have empty := first 0 (Nat.zero_le _)
    rw [treePair, List.take_zero] at empty ⊢
    exact empty

theorem inPlay_known : ∀ preimage ∈ InPlay adapter pooled.1 calls (fun _ => witness),
    preimage ∈ known := by
  have steps : ∀ taken ∈ pooled.1, ∀ accountId ∈ contractId taken.action.account,
      bindPreimage accountId taken.action.enrollmentId taken.action.commitment ∈ known := by
    decide +kernel
  intro preimage hashed
  cases hashed with
  | bound member _ account => exact steps _ member _ account
  | node stored below within =>
      obtain rfl := Nat.lt_one_iff.mp below
      obtain rfl := Nat.lt_one_iff.mp within
      exact node_known stored
  | proved _ member => exact List.mem_append_left _ member
  | stated listed asked =>
      rw [listed.2.1, listed.2.2.1] at asked
      cases projected.symm.trans asked
      decide +kernel

theorem trusted : SoundProofs adapter pooled.1 calls (fun _ => witness) := by
  constructor
  · intro call _ verifier inputs available _ verified
    have own : (fun _ inputs => Circuit.check Filled.poseidon2 (.read inputs) witness) =
        verifier := Option.some.inj available
    rw [← own] at verified
    exact verified
  · intro preimage member preimage' member' same
    have apart : ∀ x ∈ known, ∀ y ∈ known,
        Filled.poseidon2.hashBytes x = Filled.poseidon2.hashBytes y → x = y := by
      decide +kernel
    exact apart _ (inPlay_known _ member) _ (inPlay_known _ member') same
  · intro preimage member
    have nonzero : ∀ x ∈ known, Filled.poseidon2.hashBytes x ≠ zeroHash 0 := by
      decide +kernel
    exact nonzero _ (inPlay_known _ member)
  · rintro call ⟨asked, _⟩
    refine ⟨[], pooled.1, 91, pooled.2, rfl, pool_run, ?_⟩
    rw [asked]
    rfl

theorem accepted {call : AdapterCall} (listed : call ∈ calls) : call.accepted adapter := by
  obtain ⟨asked, statement, binding, tree, root, nullifier, size⟩ := listed
  have canonical : isCanonicalField evidence.root = true ∧
      isCanonicalField evidence.nullifier = true ∧
      isKnownRoot pooled.2 0 evidence.root = true ∧
      Circuit.check Filled.poseidon2 (.read (publicInputs evidence.root evidence.nullifier
        (adapter.statementHash fields))) witness = true := by
    decide +kernel
  rw [AdapterCall.accepted_iff, asked, statement, binding, tree, root, nullifier]
  refine ⟨rfl, ⟨fields, projected, _, rfl, canonical.2.2.2⟩, canonical.1, canonical.2.1, size, ?_⟩
  exact congrArg some canonical.2.2.1

def call (byte : UInt8) : AdapterCall where
  knownRoots := knownRoots
  statement := statement
  binding := factor.binding
  evidence :=
    { treeId := 0
      root := evidence.root
      nullifier := evidence.nullifier
      proof := List.replicate proofBytes byte }

theorem call_listed (byte : UInt8) : call byte ∈ calls := by
  have same : (call byte).evidence.root = evidence.root ∧
      (call byte).evidence.nullifier = evidence.nullifier := by
    simp only [call, and_self]
  exact ⟨rfl, rfl, rfl, rfl, same.1, same.2, List.length_replicate⟩

theorem relied : Relied adapter calls Sample.account reached.1 := by
  intro taken member _ address asked binding given verified
  have played := System.play_actions (controller Sample.deployment) [] .empty invocations
  have listed : taken.action ∈ invocations := by
    have action := List.mem_map_of_mem (f := fun step : ControllerStep => step.action) member
    rw [reached, played] at action
    simpa only [List.map_nil, List.append_nil, List.mem_reverse] using action
  have shared : ∀ invocation ∈ invocations, invocation.env.zkAdapter = (env 0).zkAdapter := by
    simp only [invocations, List.forall_mem_cons]
    exact ⟨rfl, rfl, rfl, rfl, rfl, rfl, fun _ absent => by cases absent⟩
  rw [shared _ listed] at verified
  have listed : { knownRoots, statement := asked, binding, evidence := given : AdapterCall } ∈
      calls :=
    ⟨rfl, of_decide_eq_true verified⟩
  exact ⟨knownRoots, listed, accepted listed⟩

end Proven

theorem accepted_enrolled_sample : ∃ accountId position secret,
    contractId (Proven.call 0).statement.account = some accountId ∧
      Proven.pooled.2.enrollment ((Proven.call 0).statement.account,
        (Proven.call 0).binding.enrollmentId) = some position ∧
      position.treeId = (Proven.call 0).evidence.treeId ∧
      Proven.pooled.2.leaf (position.treeId, position.index) =
        some (Filled.poseidon2.leafHash accountId (Proven.call 0).binding.enrollmentId
          (Filled.poseidon2.commitment secret)) ∧
      (Proven.call 0).evidence.nullifier = Filled.poseidon2.nullifier accountId
        (Proven.call 0).binding.enrollmentId secret :=
  accepted_enrolled Proven.trusted (by decide) Proven.chain Proven.pool_run
    (Proven.call_listed 0) (Proven.accepted (Proven.call_listed 0))

/-- Two proofs of one enrollment. -/
theorem nullifier_iff_enrollment_sample :
    (Proven.call 0).evidence.proof ≠ (Proven.call 1).evidence.proof ∧
      ((Proven.call 0).evidence.nullifier = (Proven.call 1).evidence.nullifier ↔
        (Proven.call 0).statement.account = (Proven.call 1).statement.account ∧
          (Proven.call 0).binding.enrollmentId = (Proven.call 1).binding.enrollmentId) := by
  constructor
  · exact fun same => absurd (List.replicate_inj.mp same).2 (by decide)
  · exact nullifier_iff_enrollment Proven.trusted (by decide) Proven.chain Proven.pool_run
      (Proven.call_listed 0) (Proven.call_listed 1) (Proven.accepted (Proven.call_listed 0))
      (Proven.accepted (Proven.call_listed 1))

theorem Proven.spent :
    reached.1.countP (spends Sample.account evidence.nullifier) = 1 := by
  decide +kernel

/-- The recovery completed, and was proved by the enrollment. -/
theorem enrollment_recovers_once_sample :
    Proven.reached.1.countP (spends Sample.account Proven.evidence.nullifier) = 1 ∧
      (∀ taken ∈ Proven.reached.1, ∀ n, spends Sample.account n taken = true →
        ∃ enrollmentId,
          (Proven.pooled.2.enrollment (Sample.account, enrollmentId)).isSome = true ∧
          CompletedWith Proven.adapter Proven.calls Sample.account enrollmentId taken) := by
  have once := enrollment_recovers_once Proven.trusted (by decide) Proven.chain
    Proven.pool_run Proven.run Proven.relied
  exact ⟨Proven.spent, once.1⟩

theorem Proven.adapterEnrolled : AdapterEnrolled adapter Sample.account reached.1 := by
  intro taken member named address asked binding given verified
  obtain ⟨knownRoots, _, accepted⟩ := relied taken member named address asked binding given verified
  exact ⟨knownRoots, accepted⟩

/-- The public inputs of the two recorded proofs differ; and in a run that spends
a nullifier no other of its element is spent. -/
theorem one_credential_one_spend_fixture :
    ((Fixture.call (.lostKey Fixture.lostKey)).accepted Fixture.adapter ∧
      (Fixture.call (.compromise Fixture.compromise)).accepted Fixture.adapter ∧
      ∀ inputs inputs',
        (Fixture.call (.lostKey Fixture.lostKey)).inputs Fixture.adapter = .ok inputs →
        (Fixture.call (.compromise Fixture.compromise)).inputs Fixture.adapter = .ok inputs' →
        residues inputs ≠ residues inputs') ∧
    Proven.reached.1.countP (spends Sample.account Proven.evidence.nullifier) = 1 ∧
      Proven.reached.1.Pairwise fun newer older => ∀ n n', spends Sample.account n newer = true →
        spends Sample.account n' older = true →
          value n % fieldModulus ≠ value n' % fieldModulus := by
  have recorded := one_credential_one_spend Fixture.adapter Fixture.calls Fixture.hashes
    Fixture.elements
  refine ⟨⟨?_, ?_, ?_⟩, Proven.spent, ?_⟩
  · exact Fixture.call_accepted Fixture.lostKey_projects (by simp)
  · exact Fixture.call_accepted Fixture.compromise_projects (by simp)
  · intro inputs inputs' handed handed' same
    have bound := recorded.2.1 _ (.inl rfl) _ (.inr rfl)
      (Fixture.call_accepted Fixture.lostKey_projects (by simp))
      (Fixture.call_accepted Fixture.compromise_projects (by simp))
    have statements := (bound.1 inputs inputs' handed handed' same).2.2.1
    exact absurd (congrArg RecoveryStatement.action statements) (by decide)
  · exact (one_credential_one_spend Proven.adapter ∅ (by simp [encodingsOf])
      (by simp [preimagesOf])).2.2 _ _ _ _ _ Proven.run Proven.adapterEnrolled

end Perch.Zk
