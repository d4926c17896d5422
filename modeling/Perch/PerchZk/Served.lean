/-
An indexer fed with the insertions of a pool.

The source may page the insertions as it likes, repeat them, serve them out of
order and leave some out: as long as it makes none up, every tree of the index
holds the first leaves of the pool's.  So the pool knows the root of every
witness, and a proof made with it is accepted.  Once every insertion is stored,
the answers are those of the whole pool.
-/

import Perch.Document.Strkey
import Perch.PerchZk.Inputs
import Perch.PerchZk.Syncing

namespace Perch.PerchZk.Indexer

open Machine Machine.Js Recovery Zk Document
open Machine.WitnessTree hiding siblings Tree

/-! ### The events of a pool -/

def addressText (accountId : Bytes32) : Text := ascii (strkey contractVersion accountId.bytes)

def leafRecord (insertion : Insertion) (accountId enrollmentId : Bytes32) (ledger : Option Nat) :
    LeafRecord where
  treeId := insertion.treeId.toNat
  index := insertion.index.toNat
  leaf := insertion.leaf
  root := insertion.root
  account := addressText accountId
  enrollmentId := enrollmentId
  ledger := ledger

def Emitted (pooled : List PoolStep) (record : LeafRecord) : Prop :=
  ∃ taken ∈ pooled, ∃ insertion accountId ledger, taken.reply = .ok insertion ∧
    contractId taken.action.account = some accountId ∧
    record = leafRecord insertion accountId taken.action.enrollmentId ledger

def Truthful (pooled : List PoolStep) (history : List IndexerStep) : Prop :=
  ∀ cursor page, Served history cursor page → ∀ record ∈ page.records, Emitted pooled record

theorem addressText_injective {accountId accountId' : Bytes32}
    (equal : addressText accountId = addressText accountId') : accountId = accountId' := by
  have narrow : Function.Injective UInt8.toUInt16 := by
    intro left right wide
    rw [← left.toUInt8_toUInt16, wide, right.toUInt8_toUInt16]
  have texts : strkey contractVersion accountId.bytes = strkey contractVersion accountId'.bytes :=
    List.map_injective_iff.mpr narrow equal
  have decoded := congrArg (Ir.base32Bytes 0 0) texts
  rw [base32Bytes_strkey accountId.size, base32Bytes_strkey accountId'.size] at decoded
  have long : (contractVersion :: accountId.bytes).length =
      (contractVersion :: accountId'.bytes).length := by
    rw [List.length_cons, List.length_cons, accountId.size, accountId'.size]
  exact BytesN.ext_bytes (List.cons.inj (List.append_inj decoded long).1).2

section Pool

variable {poseidon2 barretenberg : Poseidon2} {depth : Nat} {pooled : List PoolStep}
  {now : UInt32} {s : PoolStorage}

/-- An insertion goes behind the leaves its tree had. -/
theorem insertion_index (shallow : depth ≤ 32) (chain : EmptyHashes poseidon2 depth)
    {later earlier : List PoolStep} {taken : PoolStep}
    (run : Execution (pool poseidon2 depth) 0 .empty (later ++ taken :: earlier) now s)
    {insertion : Insertion} (replied : taken.reply = .ok insertion) :
    insertion.index.toNat = (leavesOf earlier insertion.treeId).length := by
  obtain ⟨executed, before, _⟩ := run.split later
  have opened := (poolSound chain shallow before).trees.openState.1
  cases called : rcvInsert poseidon2 depth taken.before taken.action.account
      taken.action.enrollmentId taken.action.commitment with
  | error refusal =>
      rw [executed, (step_refused called).1] at replied
      cases replied
  | ok result =>
      obtain ⟨made, after⟩ := result
      rw [executed, (step_inserted called).1] at replied
      cases replied
      obtain ⟨_, appends, _⟩ := (rcvInsert_inserts called).appends
      rw [appends.index, appends.treeId]
      exact opened

theorem insertion_fresh (shallow : depth ≤ 32) (chain : EmptyHashes poseidon2 depth)
    {later earlier : List PoolStep} {taken taken' : PoolStep}
    (run : Execution (pool poseidon2 depth) 0 .empty (later ++ taken :: earlier) now s)
    (before : taken' ∈ earlier) {insertion insertion' : Insertion}
    (replied : taken.reply = .ok insertion) (replied' : taken'.reply = .ok insertion')
    (trees : insertion'.treeId = insertion.treeId) : insertion'.index ≠ insertion.index := by
  intro same
  obtain ⟨_, _, found⟩ := inserted_at shallow chain (run.split later).2.1 before replied'
  have below := (List.getElem?_eq_some_iff.mp found).1
  rw [trees, same, insertion_index shallow chain run replied] at below
  exact Nat.lt_irrefl _ below

theorem insertion_once (shallow : depth ≤ 32) (chain : EmptyHashes poseidon2 depth)
    (run : Execution (pool poseidon2 depth) 0 .empty pooled now s) {taken taken' : PoolStep}
    (member : taken ∈ pooled) (member' : taken' ∈ pooled) {insertion insertion' : Insertion}
    (replied : taken.reply = .ok insertion) (replied' : taken'.reply = .ok insertion')
    (trees : insertion'.treeId = insertion.treeId) (indices : insertion'.index = insertion.index) :
    taken' = taken := by
  obtain ⟨later, earlier, rfl⟩ := List.append_of_mem member
  rcases List.mem_append.mp member' with after | here
  · obtain ⟨last, middle, rfl⟩ := List.append_of_mem after
    rw [List.append_assoc, List.cons_append] at run
    have between : taken ∈ middle ++ taken :: earlier :=
      List.mem_append_right _ List.mem_cons_self
    exact absurd indices.symm
      (insertion_fresh shallow chain run between replied' replied trees.symm)
  · rcases List.mem_cons.mp here with same | before
    · exact same
    · exact absurd indices (insertion_fresh shallow chain run before replied replied' trees)

/-- What an insertion stored, where it says. -/
theorem insertion_leaf (shallow : depth ≤ 32) (chain : EmptyHashes poseidon2 depth)
    {taken : PoolStep} (run : Execution (pool poseidon2 depth) 0 .empty pooled now s)
    (member : taken ∈ pooled) {insertion : Insertion} (replied : taken.reply = .ok insertion) :
    (leavesOf pooled insertion.treeId)[insertion.index.toNat]? = some insertion.leaf := by
  obtain ⟨later, earlier, rfl⟩ := List.append_of_mem member
  have here : (leavesOf (taken :: earlier) insertion.treeId)[insertion.index.toNat]? =
      some insertion.leaf := by
    rw [leavesOf_inserted earlier replied, insertion_index shallow chain run replied]
    exact List.getElem?_concat_length
  clear run member
  induction later with
  | nil => exact here
  | cons next later ih => exact leavesOf_kept ih

theorem enrollment_once (shallow : depth ≤ 32) (chain : EmptyHashes poseidon2 depth)
    (run : Execution (pool poseidon2 depth) 0 .empty pooled now s) {taken taken' : PoolStep}
    (member : taken ∈ pooled) (member' : taken' ∈ pooled) {insertion insertion' : Insertion}
    (replied : taken.reply = .ok insertion) (replied' : taken'.reply = .ok insertion')
    (accounts : taken'.action.account = taken.action.account)
    (ids : taken'.action.enrollmentId = taken.action.enrollmentId) : insertion' = insertion := by
  have listed {step : PoolStep} {made : Insertion} (among : step ∈ pooled)
      (answered : step.reply = .ok made) (account : step.action.account = taken.action.account)
      (id : step.action.enrollmentId = taken.action.enrollmentId) :
      made ∈ enrollmentsOf pooled taken.action.account taken.action.enrollmentId := by
    apply List.mem_filterMap.mpr ⟨step, among, ?_⟩
    rw [enrolledBy, answered]
    exact if_pos ⟨account, id⟩
  have mine := listed member replied rfl rfl
  have other := listed member' replied' accounts ids
  rcases (poolSound chain shallow run).enrolled taken.action.account
      taken.action.enrollmentId with ⟨none, _⟩ | ⟨only, _, _, once, _⟩
  · rw [none] at mine
    cases mine
  · rw [once] at mine other
    rw [List.mem_singleton.mp mine, List.mem_singleton.mp other]

end Pool

/-! ### The index and the pool's trees -/

section Indexed

variable {poseidon2 barretenberg : Poseidon2} {options : IndexOptions} {pooled : List PoolStep}
  {now : UInt32} {s : PoolStorage} {history : List IndexerStep} {state : State}
  {ingested : List LeafRecord}

/-- Every stored record is of an insertion. -/
def AllEmitted (pooled : List PoolStep) (store : MemoryStore) : Prop :=
  ∀ place record, store.byTree place = some record → Emitted pooled record

theorem allEmitted_of_run
    (run : Execution (indexer barretenberg options) () .empty history () state)
    (truthful : Truthful pooled history) : AllEmitted pooled state.store := by
  intro place record stored
  obtain ⟨cursor, page, served, member⟩ := (pages_of_run run).served place record stored
  exact truthful cursor page served record member

/-- A tree of the index has the first leaves of the pool's. -/
theorem treeLeaves_take (shallow : options.height ≤ 32)
    (chain : EmptyHashes poseidon2 options.height)
    (run : Execution (pool poseidon2 options.height) 0 .empty pooled now s)
    {store : MemoryStore} (kept : store.Kept) (stored : Prefix options store ingested)
    (emitted : AllEmitted pooled store) (treeId : UInt32) :
    treeLeaves options.height ingested treeId.toNat = (leavesOf pooled treeId).take
      (treeLeaves options.height ingested treeId.toNat).length := by
  apply List.ext_getElem?
  intro index
  rcases Nat.lt_or_ge index (treeLeaves options.height ingested treeId.toNat).length with
    below | beyond
  · obtain ⟨record, held, leaf⟩ := stored.leaf below
    obtain ⟨taken, member, insertion, accountId, ledger, replied, _, rfl⟩ := emitted _ _ held
    obtain ⟨trees, indices⟩ := Prod.mk.inj (kept.placed _ _ held)
    obtain rfl : insertion.treeId = treeId := UInt32.toNat_inj.mp trees
    have there := insertion_leaf shallow chain run member replied
    have position : insertion.index.toNat = index := indices
    rw [position] at there
    rw [List.getElem?_take_of_lt below, leaf, there]
    rfl
  · rw [List.getElem?_eq_none beyond, List.getElem?_eq_none]
    exact (List.length_take_le _ _).trans beyond

theorem treeLeaves_le (shallow : options.height ≤ 32)
    (chain : EmptyHashes poseidon2 options.height)
    (run : Execution (pool poseidon2 options.height) 0 .empty pooled now s)
    {store : MemoryStore} (kept : store.Kept) (stored : Prefix options store ingested)
    (emitted : AllEmitted pooled store) (treeId : UInt32) :
    (treeLeaves options.height ingested treeId.toNat).length ≤
      (leavesOf pooled treeId).length := by
  have first := treeLeaves_take shallow chain run kept stored emitted treeId
  have sizes := congrArg List.length first
  rw [List.length_take] at sizes
  omega

theorem rootAt_merkleRoot (same : SameSponge barretenberg poseidon2) {treeId : Nat}
    (canonical : ∀ leaf ∈ treeLeaves options.height ingested treeId,
      isCanonicalField leaf = true) :
    rootAt barretenberg options ingested treeId =
      merkleRoot poseidon2 options.height (treeLeaves options.height ingested treeId) :=
  subtree_same same.sameHash canonical options.height 0

theorem treeLeaves_canonical (shallow : options.height ≤ 32)
    (chain : EmptyHashes poseidon2 options.height)
    (run : Execution (pool poseidon2 options.height) 0 .empty pooled now s)
    {store : MemoryStore} (kept : store.Kept) (stored : Prefix options store ingested)
    (emitted : AllEmitted pooled store) (treeId : UInt32) :
    ∀ leaf ∈ treeLeaves options.height ingested treeId.toNat, isCanonicalField leaf = true := by
  intro leaf member
  rw [treeLeaves_take shallow chain run kept stored emitted treeId] at member
  exact leavesOf_canonical run treeId leaf (List.mem_of_mem_take member)

/-- The pool knows the root of every tree of the index that has a leaf. -/
theorem rootAt_known (shallow : options.height ≤ 32)
    (chain : EmptyHashes poseidon2 options.height) (same : SameSponge barretenberg poseidon2)
    (run : Execution (pool poseidon2 options.height) 0 .empty pooled now s)
    {store : MemoryStore} (kept : store.Kept) (stored : Prefix options store ingested)
    (emitted : AllEmitted pooled store) {treeId : UInt32}
    (some : 0 < (treeLeaves options.height ingested treeId.toNat).length) :
    isKnownRoot s treeId (rootAt barretenberg options ingested treeId.toNat) = true := by
  have canonical := treeLeaves_canonical shallow chain run kept stored emitted treeId
  rw [isKnownRoot, (poolSound chain shallow run).trees.root]
  refine ⟨_, some, treeLeaves_le shallow chain run kept stored emitted treeId, ?_⟩
  rw [rootAt_merkleRoot same canonical, ← treeLeaves_take shallow chain run kept stored emitted]

/-- What is answered is right, of stored insertions. -/
theorem answered_right
    (indexed : Execution (indexer barretenberg options) () .empty history () state)
    (truthful : Truthful pooled history) {answer : IndexerStep} (listed : answer ∈ history) :
    ∃ ingested, Sound barretenberg options ingested answer.after ∧
      AllEmitted pooled answer.after.store ∧
      ∀ outcome, answer.reply = some outcome → Right barretenberg options ingested
        answer.after.store (syncResult answer.before) outcome := by
  obtain ⟨later, earlier, split⟩ := List.append_of_mem listed
  rw [split] at indexed
  obtain ⟨executed, before, _⟩ := indexed.split later
  have past : Execution (indexer barretenberg options) () .empty (answer :: earlier) ()
      answer.after := by
    have through := before.call answer.action rfl
    rw [← executed] at through
    exact through
  obtain ⟨_, _, _, more, after, right⟩ := sound_before past List.mem_cons_self
  refine ⟨_, after, ?_, right⟩
  apply allEmitted_of_run past
  intro cursor page ⟨source, among, asking⟩ record held
  refine truthful cursor page ⟨source, ?_, asking⟩ record held
  rw [split]
  exact List.mem_append_right _ among

/-- A witness for an enrollment is that for the leaf it was inserted with. -/
theorem witness_enrolled (shallow : options.height ≤ 32)
    (chain : EmptyHashes poseidon2 options.height)
    (run : Execution (pool poseidon2 options.height) 0 .empty pooled now s)
    {store : MemoryStore} (stored : Prefix options store ingested)
    (emitted : AllEmitted pooled store) {taken : PoolStep} (member : taken ∈ pooled)
    {insertion : Insertion} (replied : taken.reply = .ok insertion) {accountId : Bytes32}
    (named : contractId taken.action.account = some accountId) {out : SyncResult} {w : Witness}
    (right : Right barretenberg options ingested store out
      (.witness (addressText accountId) taken.action.enrollmentId w)) :
    w.treeId = insertion.treeId.toNat ∧ w.index = insertion.index.toNat ∧
      w.siblings = WitnessTree.siblings (hashing barretenberg) options.height
        (treeLeaves options.height ingested insertion.treeId.toNat) insertion.index.toNat ∧
      w.root = rootAt barretenberg options ingested insertion.treeId.toNat ∧
      (treeLeaves options.height ingested insertion.treeId.toNat)[insertion.index.toNat]? =
        some insertion.leaf := by
  cases right with
  | @witness _ _ record names bound =>
      obtain ⟨taken', member', insertion', accountId', ledger, replied', named', rfl⟩ :=
        emitted _ _ names.stored
      have ids : accountId' = accountId := addressText_injective names.account
      have accounts : taken'.action.account = taken.action.account := by
        rw [contractId_eq_some.mp named', contractId_eq_some.mp named, ids]
      obtain rfl : insertion' = insertion :=
        enrollment_once shallow chain run member member' replied replied' accounts
          names.enrollmentId
      have leaf := stored.named names bound
      exact ⟨rfl, rfl, rfl, rfl, List.getElem?_eq_some_iff.mpr ⟨bound, leaf⟩⟩

/-- Whatever way the insertions of a pool reach the indexer, and whatever else
is asked of it at the time, a witness it returns for an enrolled secret makes a
proof for any statement of the account, and the adapter accepts it then and
after any later insertions. -/
theorem indexed_witness_accepted (shallow : options.height ≤ 32)
    (chain : EmptyHashes poseidon2 options.height) (same : SameSponge barretenberg poseidon2)
    (run : Execution (pool poseidon2 options.height) 0 .empty pooled now s)
    (indexed : Execution (indexer barretenberg options) () .empty history () state)
    (truthful : Truthful pooled history) {taken : PoolStep} (member : taken ∈ pooled)
    {insertion : Insertion} (replied : taken.reply = .ok insertion) {accountId : Bytes32}
    (named : contractId taken.action.account = some accountId) {secret : Bytes32}
    (canonical : isCanonicalField secret = true)
    (committed : taken.action.commitment = commitment barretenberg secret)
    {answer : IndexerStep} (listed : answer ∈ history) {w : Witness}
    (answered : answer.reply =
      some (.witness (addressText accountId) taken.action.enrollmentId w))
    {adapter : Adapter} (hashes : adapter.poseidon2 = poseidon2) {verifier : Bytes → Bytes → Bool}
    (available : adapter.verifier = some verifier)
    {generateProof : Circuit.PublicInputs → Circuit.Witness options.height → Bytes}
    (complete : Complete poseidon2 verifier generateProof)
    {statement : RecoveryStatement} (about : statement.account = taken.action.account)
    {digest : Bytes32} (hashed : statement.digest adapter.sha256 = .ok digest)
    {binding : ZkBinding} (enrolled : binding.enrollmentId = taken.action.enrollmentId)
    (circuit : binding.circuitId = adapter.circuitId) :
    ∃ p, prove barretenberg poseidon2 generateProof
        { secret := secret
          accountId := accountId
          enrollmentId := taken.action.enrollmentId
          digest := digest
          leafIndex := w.index
          siblings := w.siblings } = some p ∧
      w.treeId = insertion.treeId.toNat ∧ p.publicInputs.root = w.root ∧
      ∀ later now' s', Execution (pool poseidon2 options.height) now s later now' s' →
        ∀ knownRoots : KnownRoots,
        (∀ root, knownRoots binding.pool insertion.treeId root =
          some (isKnownRoot s' insertion.treeId root)) →
        adapter.verify knownRoots statement binding (evidence insertion.treeId p) = .ok () := by
  obtain ⟨ingested, after, emitted, right⟩ := answered_right indexed truthful listed
  obtain ⟨trees, position, path, rooted, found⟩ := witness_enrolled shallow chain run after.stored
    emitted member replied named (right _ answered)
  obtain ⟨bound, leaf⟩ := List.getElem?_eq_some_iff.mp found
  have leaves := treeLeaves_canonical shallow chain run after.kept after.stored emitted
    insertion.treeId
  have each := siblings_canonical same leaves options.height insertion.index.toNat
  have long : (WitnessTree.siblings (hashing barretenberg) options.height
      (treeLeaves options.height ingested insertion.treeId.toNat)
      insertion.index.toNat).length = options.height := by
    rw [WitnessTree.siblings, List.length_map, List.length_range]
  rw [← path] at each long
  rw [← about] at named
  obtain ⟨p, proved, climbs, accepts⟩ := path_accepted same shallow canonical each long
    (bound.trans_le treeLeaves_fits) hashes available complete named hashed circuit
  rw [enrolled] at proved climbs
  have stored : insertion.leaf = poseidon2.leafHash accountId taken.action.enrollmentId
      (poseidon2.commitment secret) := by
    obtain ⟨_, named', inserted⟩ := inserted_at shallow chain run member replied
    rw [insertion_leaf shallow chain run member replied, Option.some.injEq] at inserted
    rw [about, named'] at named
    rw [inserted, Option.some.inj named, committed, commitment_same same canonical]
  have root : p.publicInputs.root = w.root := by
    have fits := leaves _ (List.getElem_mem bound)
    have climbed := @rootFromPath_siblings _ (hashing barretenberg) options.height
      insertion.index.toNat _ treeLeaves_fits bound
    rw [climbs, ← stored, ← leaf, ← rootFromPath_same same fits each, path, rooted]
    exact climbed
  rw [position]
  refine ⟨p, proved, trees, root, ?_⟩
  intro later now' s' continued knownRoots answers
  have known : isKnownRoot s' insertion.treeId p.publicInputs.root = true := by
    have sealing := continued.related Sealed Sealed.refl Sealed.trans step_sealed
    apply sealing.known
    rw [root, rooted]
    exact rootAt_known shallow chain same run after.kept after.stored emitted
      (Nat.zero_lt_of_lt bound)
  exact accepts insertion.treeId knownRoots ((answers _).trans (congrArg some known))

/-! ### The index follows the pool -/

/-- Where the index goes on. -/
def nextPlace (index : PoolWitnessIndex) : Nat × Nat := (index.current, index.size index.current)

def Still (taken : IndexerStep) : Prop :=
  nextPlace taken.after.index = nextPlace taken.before.index

/-- The last step of an advance finds no record to take. -/
structure EndsAdvance (taken : IndexerStep) : Prop where
  indexed : taken.action = .indexed
  turn : taken.before.indexing ≠ []
  working : taken.before.work = .advancing
  still : Still taken

/-- The records from the pool's first place on, up to one where none is stored. -/
structure Longest (options : IndexOptions) (store : MemoryStore) (ingested : List LeafRecord) :
    Prop where
  stored : Prefix options store ingested
  ends : store.byTree (placeOf options.height ingested.length) = none

/-- A witness for an enrollment of the pool, in the tree of its leaf when that had
`size` leaves. -/
structure WitnessOf (poseidon2 barretenberg : Poseidon2) (depth : Nat) (pooled : List PoolStep)
    (s : PoolStorage) (account : Text) (enrollmentId : Bytes32) (w : Witness)
    (insertion : Insertion) (size : Nat) : Prop where
  enrolled : ∃ taken ∈ pooled, ∃ accountId, taken.reply = .ok insertion ∧
    contractId taken.action.account = some accountId ∧ addressText accountId = account ∧
    taken.action.enrollmentId = enrollmentId
  treeId : w.treeId = insertion.treeId.toNat
  index : w.index = insertion.index.toNat
  leaf : w.leaf = insertion.leaf
  below : insertion.index.toNat < size
  within : size ≤ (leavesOf pooled insertion.treeId).length
  climbs : rootFromPath barretenberg w.leaf w.index w.siblings = w.root
  root : w.root = merkleRoot poseidon2 depth ((leavesOf pooled insertion.treeId).take size)
  known : isKnownRoot s insertion.treeId w.root = true

theorem Prefix.nodup {store : MemoryStore} (kept : store.Kept)
    (stored : Prefix options store ingested) : ingested.Nodup := by
  apply List.nodup_iff_injective_get.mpr
  intro first second same
  have held (n : Fin ingested.length) : (ingested.get n).place = placeOf options.height n :=
    kept.placed _ _ (stored n _ (List.getElem?_eq_getElem n.isLt))
  have places := held first
  rw [same, held second] at places
  exact Fin.ext (placeOf_injective places.symm)

/-- A step takes further records, or none. -/
theorem Sound.takes (sound : Sound barretenberg options ingested state) (event : Event) :
    ∃ more, Sound barretenberg options (ingested ++ more)
        ((indexer barretenberg options).step state event).after ∧
      (Still ((indexer barretenberg options).step state event) → more = []) := by
  obtain ⟨more, after, _⟩ := (sound.step event).sound
  refine ⟨more, after, ?_⟩
  intro still
  have same : placeOf options.height (ingested ++ more).length =
      placeOf options.height ingested.length :=
    after.holds.next.symm.trans (still.trans sound.holds.next)
  have none := placeOf_injective same
  rw [List.length_append] at none
  exact List.length_eq_zero_iff.mp (by omega)

theorem Sound.goes_on {origin : State} (sound : Sound barretenberg options ingested origin)
    {start stop : Unit}
    (run : Execution (indexer barretenberg options) start origin history stop state) :
    ∃ more, Sound barretenberg options (ingested ++ more) state ∧
      ((∀ taken ∈ history, Still taken) → more = []) := by
  induction run with
  | refl =>
      refine ⟨[], ?_, fun _ => rfl⟩
      rw [List.append_nil]
      exact sound
  | wait _ _ ih => exact ih
  | call event _ _ ih =>
      obtain ⟨before, held, none_before⟩ := ih
      obtain ⟨more, after, none⟩ := held.takes event
      refine ⟨before ++ more, ?_, ?_⟩
      · rw [← List.append_assoc]
        exact after
      · intro still
        obtain ⟨last, earlier⟩ := List.forall_mem_cons.mp still
        rw [none_before earlier, none last, List.nil_append]

/-- After an advance has ended, the index has what was stored without a gap at
that moment, and what was taken since. -/
theorem longest_since
    (run : Execution (indexer barretenberg options) () .empty history () state)
    {later earlier : List IndexerStep} {taken : IndexerStep}
    (split : history = later ++ taken :: earlier) (ends : EndsAdvance taken) :
    ∃ ingested more, Longest options taken.before.store ingested ∧
      Ingested barretenberg options (ingested ++ more) state.index ∧
      Prefix options state.store (ingested ++ more) ∧
      ((∀ step ∈ later, Still step) → more = []) := by
  subst split
  obtain ⟨executed, before, after⟩ := run.split later
  obtain ⟨ingested, sound⟩ := sound_of_run before
  have held := ends.still
  rw [executed] at held after
  obtain ⟨none, kept, nothing⟩ := sound.takes taken.action
  obtain rfl : none = [] := nothing held
  rw [List.append_nil] at kept
  obtain ⟨more, reached, quiet⟩ := kept.goes_on after
  refine ⟨ingested, more, ⟨sound.stored, ?_⟩, reached.holds, reached.stored, quiet⟩
  apply sound.stops ends.turn ends.working
  have indexed : (index barretenberg options taken.before).2 =
      ((indexer barretenberg options).step taken.before taken.action).after := by
    rw [ends.indexed]
    rfl
  rw [indexed]
  exact kept.holds

/-- Putting a record where one is stored leaves the store and the index. -/
theorem occupied_kept
    (run : Execution (indexer barretenberg options) () .empty history () state)
    {taken : IndexerStep} (member : taken ∈ history) (pulled : taken.action = .pulled)
    {remaining : Nat} {cursor : Option Text} {page : Page} {record existing : LeafRecord}
    {rest : List LeafRecord} {out : SyncResult} {waiting : List Pull}
    (putting : taken.before.syncing =
      .putting remaining cursor page (record :: rest) out :: waiting)
    (stored : taken.before.store.byTree record.place = some existing) :
    taken.after.store = taken.before.store ∧ taken.after.index = taken.before.index := by
  have unchanged : (taken.before.store.put record).2 = taken.before.store := by
    rw [MemoryStore.put, stored]
  have queues := putNext_queues { taken.before with store := (taken.before.store.put record).2 }
    remaining cursor page rest (out.add record (taken.before.store.put record).1) waiting
  have after : taken.after = (pull taken.before).2 := by
    conv_lhs => rw [run.executed member, pulled]
    rfl
  rw [after]
  unfold pull
  rw [putting]
  exact ⟨queues.store.trans unchanged, queues.index⟩

theorem witness_rooted (shallow : options.height ≤ 32)
    (chain : EmptyHashes poseidon2 options.height) (same : SameSponge barretenberg poseidon2)
    (run : Execution (pool poseidon2 options.height) 0 .empty pooled now s)
    (indexed : Execution (indexer barretenberg options) () .empty history () state)
    (truthful : Truthful pooled history) {answer : IndexerStep} (listed : answer ∈ history)
    {account : Text} {enrollmentId : Bytes32} {w : Witness}
    (replied : answer.reply = some (.witness account enrollmentId w)) :
    ∃ insertion, WitnessOf poseidon2 barretenberg options.height pooled s account enrollmentId w
      insertion (answer.after.index.size w.treeId) := by
  obtain ⟨ingested, sound, emitted, right⟩ := answered_right indexed truthful listed
  cases right _ replied with
  | @witness _ _ record names bound =>
      obtain ⟨taken, member, insertion, accountId, ledger, inserted, named, rfl⟩ :=
        emitted _ _ names.stored
      have canonical := treeLeaves_canonical shallow chain run sound.kept sound.stored emitted
        insertion.treeId
      have first := treeLeaves_take shallow chain run sound.kept sound.stored emitted
        insertion.treeId
      have sized := sound.holds.size insertion.treeId.toNat
      refine ⟨insertion, ?_, rfl, rfl, rfl, ?_, ?_, sound.stored.climbs names bound, ?_, ?_⟩
      · exact ⟨taken, member, accountId, inserted, named, names.account, names.enrollmentId⟩
      · rw [witnessAt, leafRecord, sized]
        exact bound
      · rw [witnessAt, leafRecord, sized]
        exact treeLeaves_le shallow chain run sound.kept sound.stored emitted insertion.treeId
      · rw [witnessAt, leafRecord, sized, ← first]
        exact rootAt_merkleRoot same canonical
      · exact rootAt_known shallow chain same run sound.kept sound.stored emitted
          (Nat.zero_lt_of_lt bound)

/-- An indexer fed from a pool.  At any moment it has taken the records stored
from the pool's first place on, in the pool's order and each once: all of those
without a gap when its last advance ended, and those the present one took.  A
record that contradicts a stored one changes nothing, the cursor moves only to
the end of the page after it, and a witness leads to the root the pool's tree
had with the leaves indexed. -/
theorem index_follows_pool (shallow : options.height ≤ 32)
    (chain : EmptyHashes poseidon2 options.height) (same : SameSponge barretenberg poseidon2)
    (run : Execution (pool poseidon2 options.height) 0 .empty pooled now s)
    (indexed : Execution (indexer barretenberg options) () .empty history () state)
    (truthful : Truthful pooled history) :
    (∃ ingested, Ingested barretenberg options ingested state.index ∧
      Prefix options state.store ingested ∧ ingested.Nodup) ∧
    (∀ later taken earlier, history = later ++ taken :: earlier → EndsAdvance taken →
      ∃ ingested more, Longest options taken.before.store ingested ∧
        Ingested barretenberg options (ingested ++ more) state.index ∧
        Prefix options state.store (ingested ++ more) ∧
        ((∀ step ∈ later, Still step) → more = [])) ∧
    (∀ taken ∈ history, taken.before.store.Grown taken.after.store ∧
      ∀ remaining cursor page record rest out waiting, taken.action = .pulled →
        taken.before.syncing = .putting remaining cursor page (record :: rest) out :: waiting →
        ∀ existing, taken.before.store.byTree record.place = some existing →
          taken.after.store = taken.before.store ∧ taken.after.index = taken.before.index) ∧
    (∀ later taken earlier, history = later ++ taken :: earlier →
      taken.after.store.cursor ≠ taken.before.store.cursor → Passes earlier taken) ∧
    ∀ answer ∈ history, ∀ account enrollmentId w,
      answer.reply = some (.witness account enrollmentId w) →
      ∃ insertion, WitnessOf poseidon2 barretenberg options.height pooled s account enrollmentId w
        insertion (answer.after.index.size w.treeId) := by
  refine ⟨?_, ?_, ?_, ?_, ?_⟩
  · obtain ⟨ingested, sound⟩ := sound_of_run indexed
    exact ⟨ingested, sound.holds, sound.stored, sound.stored.nodup sound.kept⟩
  · intro later taken earlier split ends
    exact longest_since indexed split ends
  · intro taken member
    obtain ⟨_, _, advances⟩ := sound_before indexed member
    refine ⟨advances.grown, ?_⟩
    intro remaining cursor page record rest out waiting pulled putting existing stored
    exact occupied_kept indexed member pulled putting stored
  · intro later taken earlier split moved
    rw [split] at indexed
    exact passes_of_run indexed moved
  · intro answer listed account enrollmentId w replied
    exact witness_rooted shallow chain same run indexed truthful listed replied

/-! ### Once every insertion is stored -/

def AllStored (pooled : List PoolStep) (store : MemoryStore) : Prop :=
  ∀ treeId index, index < (leavesOf pooled treeId).length →
    (store.get treeId.toNat index).isSome = true

/-- The index has every leaf of the pool. -/
def CaughtUp (pooled : List PoolStep) (index : PoolWitnessIndex) : Prop :=
  ∀ treeId : UInt32, index.size treeId.toNat = (leavesOf pooled treeId).length

theorem AllStored.grown {store store' : MemoryStore} (all : AllStored pooled store)
    (grown : store.Grown store') : AllStored pooled store' := by
  intro treeId index below
  obtain ⟨record, stored⟩ := Option.isSome_iff_exists.mp (all treeId index below)
  exact Option.isSome_iff_exists.mpr ⟨record, grown _ _ stored⟩

/-- With every leaf stored, an index that stops has them all. -/
theorem caughtUp_of_stop (shallow : options.height ≤ 32)
    (chain : EmptyHashes poseidon2 options.height)
    (run : Execution (pool poseidon2 options.height) 0 .empty pooled now s)
    (sound : Sound barretenberg options ingested state)
    (emitted : AllEmitted pooled state.store) (all : AllStored pooled state.store)
    (stops : state.store.byTree (placeOf options.height ingested.length) = none) :
    CaughtUp pooled state.index := by
  have trees := (poolSound chain shallow run).trees
  have below := Nat.mod_lt ingested.length (Nat.two_pow_pos options.height)
  have split := Nat.div_add_mod' ingested.length (2 ^ options.height)
  -- The place the index stops at is none of the pool's.
  have beyond (treeId : UInt32) (here : treeId.toNat = ingested.length / 2 ^ options.height) :
      (leavesOf pooled treeId).length ≤ ingested.length % 2 ^ options.height := by
    by_contra within
    have stored := all treeId _ (Nat.lt_of_not_le within)
    rw [here, MemoryStore.get] at stored
    rw [placeOf] at stops
    rw [stops] at stored
    cases stored
  intro treeId
  rw [sound.holds.size]
  apply Nat.le_antisymm
  · exact treeLeaves_le shallow chain run sound.kept sound.stored emitted treeId
  · rw [treeLeaves_length]
    rcases Nat.lt_trichotomy treeId.toNat (ingested.length / 2 ^ options.height) with
      full | here | unopened
    · have enough := (Nat.le_div_iff_mul_le (Nat.two_pow_pos options.height)).mp full
      rw [Nat.succ_mul] at enough
      have fits := leavesOf_fits shallow chain run treeId
      omega
    · have held := beyond treeId here
      rw [here]
      omega
    · -- A tree after one that is not full has no leaves.
      have small : ingested.length / 2 ^ options.height < 2 ^ 32 :=
        unopened.trans treeId.toNat_lt
      have named : (UInt32.ofNat (ingested.length / 2 ^ options.height)).toNat =
          ingested.length / 2 ^ options.height := UInt32.toNat_ofNat_of_lt' small
      have partly := beyond _ named
      have later : currentTreeOf s < treeId := by
        rw [UInt32.lt_iff_toNat_lt]
        by_contra earlier
        have before : UInt32.ofNat (ingested.length / 2 ^ options.height) < currentTreeOf s := by
          rw [UInt32.lt_iff_toNat_lt, named]
          omega
        have full := trees.full _ before
        omega
      rw [trees.unopened treeId later]
      exact Nat.zero_le _

/-- With every leaf stored, only an index that has them all is read. -/
def Current (pooled : List PoolStep) (state : State) : Prop :=
  state.work = .advancing ∨ CaughtUp pooled state.index

theorem resume_index (state : State) (task : Task) (others : List Task) (treeId : Nat)
    (computation : Reading Bytes32 Outcome) :
    (resume state task others treeId computation).2.index = state.index := by
  rw [resume]
  split
  · rfl
  · rfl

theorem read_index (state : State) (task : Task) (others : List Task) (treeId start count : Nat)
    (got : List Bytes32) (next : List Bytes32 → Reading Bytes32 Outcome) :
    (read state task others treeId start count got next).2.index = state.index := by
  rw [read]
  split
  · rfl
  · dsimp only
    split
    · rfl
    · exact resume_index state task others treeId _

theorem advanced_index (state : State) (task : Task) (others : List Task) :
    (advanced barretenberg options state task others).2.index = state.index ∨
      ∃ treeId, (advanced barretenberg options state task others).2.index =
        state.index.opened barretenberg options treeId := by
  unfold advanced
  cases task with
  | sync => exact Or.inl rfl
  | root treeId => exact Or.inr ⟨treeId, resume_index _ _ _ _ _⟩
  | witness account enrollmentId record =>
      dsimp only
      split
      · exact Or.inl rfl
      · exact Or.inr ⟨record.treeId, resume_index _ _ _ _ _⟩

/-- A step of the index that answers, or goes on to answer, finds every leaf
indexed. -/
theorem Current.index (shallow : options.height ≤ 32)
    (chain : EmptyHashes poseidon2 options.height)
    (run : Execution (pool poseidon2 options.height) 0 .empty pooled now s)
    (sound : Sound barretenberg options ingested state)
    (emitted : AllEmitted pooled state.store) (all : AllStored pooled state.store)
    (current : Current pooled state) :
    ((index barretenberg options state).1 = none ∧
        (index barretenberg options state).2.work = .advancing) ∨
      CaughtUp pooled (index barretenberg options state).2.index := by
  rw [Indexer.index]
  split
  · exact current.imp_left fun working => ⟨rfl, working⟩
  · rename_i task others _
    split
    · rename_i working
      rw [advance, MemoryStore.get, sound.holds.next]
      split
      · rename_i stops
        right
        have caught := caughtUp_of_stop shallow chain run sound emitted all stops
        rcases @advanced_index barretenberg options state task others with same | ⟨opened, same⟩
        · rw [same]
          exact caught
        · rw [same]
          intro treeId
          rw [(sound.holds.opened opened).size, ← sound.holds.size]
          exact caught treeId
      · rename_i record _
        obtain ⟨next, ingests, _⟩ := sound.holds.ingest record
        rw [ingests]
        exact Or.inl ⟨rfl, working⟩
    · rename_i reading
      right
      rw [read_index]
      refine current.resolve_left ?_
      rw [reading]
      simp

/-- A step leaves the index, and answers nothing from it. -/
structure Aside (state : State) (result : Option Outcome × State) : Prop where
  index : result.2.index = state.index
  work : result.2.work = state.work
  answers : ∀ outcome, result.1 = some outcome → outcome = .failed .source ∨
    ∃ account enrollmentId, outcome = .failed (.notIndexed account enrollmentId)

theorem Aside.silent {state' : State} (index : state'.index = state.index)
    (work : state'.work = state.work) : Aside state (none, state') := by
  refine ⟨index, work, ?_⟩
  intro outcome replied
  cases replied

theorem pull_aside (state : State) : Aside state (pull state) := by
  unfold pull
  split
  · have queues := again_queues state
    exact .silent (queues _ _ _ _).index (queues _ _ _ _).work
  · rename_i remaining cursor page record rest out waiting _
    have queues := putNext_queues { state with store := (state.store.put record).2 } remaining
      cursor page rest (out.add record (state.store.put record).1) waiting
    exact .silent queues.index queues.work
  · rename_i remaining page next out waiting _
    have queues := pageEnd_queues { state with store := state.store.setCursor next } remaining
      (some next) page out waiting
    exact .silent queues.index queues.work
  · exact .silent rfl rfl

theorem answer_aside (state : State) (page : Option Page) : Aside state (answer state page) := by
  unfold answer
  split
  · have queues := putNext_queues state
    exact .silent (queues _ _ _ _ _ _).index (queues _ _ _ _ _ _).work
  · refine ⟨rfl, rfl, ?_⟩
    intro outcome replied
    cases replied
    exact Or.inl rfl
  · exact .silent rfl rfl

theorem find_aside (state : State) (k : Nat) : Aside state (find state k) := by
  rw [find]
  split
  · exact .silent rfl rfl
  · dsimp only
    split
    · refine ⟨rfl, rfl, ?_⟩
      intro outcome replied
      cases replied
      exact Or.inr ⟨_, _, rfl⟩
    · exact .silent rfl rfl

theorem respond_aside (state : State) {event : Event} (other : event ≠ .indexed) :
    Aside state ((indexer barretenberg options).respond state event) := by
  cases event with
  | sync maxPages => exact .silent rfl rfl
  | root treeId => exact .silent rfl rfl
  | witness account enrollmentId => exact .silent rfl rfl
  | pulled => exact pull_aside state
  | answered page => exact answer_aside state page
  | found k => exact find_aside state k
  | indexed => exact absurd rfl other

theorem Truthful.suffix {later : List IndexerStep}
    (truthful : Truthful pooled (later ++ history)) : Truthful pooled history := by
  intro cursor page ⟨taken, member, asking⟩
  exact truthful cursor page ⟨taken, List.mem_append_right _ member, asking⟩

/-- A step with every leaf stored keeps the index current, and what it answers
from the index is of every leaf. -/
theorem Current.step (shallow : options.height ≤ 32)
    (chain : EmptyHashes poseidon2 options.height)
    (run : Execution (pool poseidon2 options.height) 0 .empty pooled now s)
    (sound : Sound barretenberg options ingested state)
    (emitted : AllEmitted pooled state.store) (all : AllStored pooled state.store)
    (current : Current pooled state) (event : Event) :
    Current pooled ((indexer barretenberg options).respond state event).2 ∧
      ∀ outcome, ((indexer barretenberg options).respond state event).1 = some outcome →
        CaughtUp pooled ((indexer barretenberg options).respond state event).2.index ∨
          outcome = .failed .source ∨
            ∃ account enrollmentId, outcome = .failed (.notIndexed account enrollmentId) := by
  by_cases indexed : event = .indexed
  · subst indexed
    rcases current.index shallow chain run sound emitted all with ⟨none, working⟩ | caught
    · refine ⟨Or.inl working, ?_⟩
      intro outcome replied
      cases none.symm.trans replied
    · exact ⟨Or.inr caught, fun _ _ => Or.inl caught⟩
  · have aside := @respond_aside barretenberg options state event indexed
    constructor
    · rw [Current, aside.index, aside.work]
      exact current
    · intro outcome replied
      exact Or.inr (aside.answers outcome replied)

theorem current_of_run (shallow : options.height ≤ 32)
    (chain : EmptyHashes poseidon2 options.height)
    (run : Execution (pool poseidon2 options.height) 0 .empty pooled now s)
    {caught : State}
    (indexed : Execution (indexer barretenberg options) () .empty history () caught)
    (idle : caught.work = .advancing) (all : AllStored pooled caught.store)
    {later : List IndexerStep} {start stop : Unit}
    (continued : Execution (indexer barretenberg options) start caught later stop state)
    (truthful : Truthful pooled (later ++ history)) :
    Current pooled state ∧ AllStored pooled state.store := by
  induction continued with
  | refl => exact ⟨Or.inl idle, all⟩
  | wait _ _ ih => exact ih truthful
  | @call later _ state event execution _ ih =>
      obtain ⟨current, stored⟩ := ih (@Truthful.suffix _ _ [_] truthful)
      have whole := indexed.trans execution
      obtain ⟨_, sound⟩ := sound_of_run whole
      have emitted := allEmitted_of_run whole (@Truthful.suffix _ _ [_] truthful)
      exact ⟨(current.step shallow chain run sound emitted stored event).1,
        stored.grown (sound.step event).grown⟩

/-- With every leaf indexed, a tree's root is the pool's. -/
theorem rootAt_treeRoot (shallow : options.height ≤ 32)
    (chain : EmptyHashes poseidon2 options.height) (same : SameSponge barretenberg poseidon2)
    (run : Execution (pool poseidon2 options.height) 0 .empty pooled now s)
    (sound : Sound barretenberg options ingested state)
    (emitted : AllEmitted pooled state.store) (caught : CaughtUp pooled state.index)
    (treeId : UInt32) :
    rootAt barretenberg options ingested treeId.toNat = treeRoot options.height s treeId := by
  have first := treeLeaves_take shallow chain run sound.kept sound.stored emitted treeId
  rw [← sound.holds.size, caught treeId, List.take_length] at first
  have canonical := treeLeaves_canonical shallow chain run sound.kept sound.stored emitted treeId
  rw [rootAt_merkleRoot same canonical, (poolSound chain shallow run).trees.treeRoot chain treeId,
    first]

theorem emitted_leaf (shallow : options.height ≤ 32)
    (chain : EmptyHashes poseidon2 options.height)
    (run : Execution (pool poseidon2 options.height) 0 .empty pooled now s) {record : LeafRecord}
    (emitted : Emitted pooled record) : ∃ treeId : UInt32, record.treeId = treeId.toNat ∧
      record.index < (leavesOf pooled treeId).length := by
  obtain ⟨taken, member, insertion, accountId, ledger, replied, _, rfl⟩ := emitted
  have there := insertion_leaf shallow chain run member replied
  exact ⟨insertion.treeId, rfl, (List.getElem?_eq_some_iff.mp there).1⟩

/-- With every leaf stored, an enrollment of the pool is found. -/
theorem enrolled_found (shallow : options.height ≤ 32)
    (chain : EmptyHashes poseidon2 options.height)
    (run : Execution (pool poseidon2 options.height) 0 .empty pooled now s)
    {store : MemoryStore} (kept : store.Kept) (emitted : AllEmitted pooled store)
    (all : AllStored pooled store) {taken : PoolStep} (member : taken ∈ pooled)
    {insertion : Insertion} (replied : taken.reply = .ok insertion) {accountId : Bytes32}
    (named : contractId taken.action.account = some accountId) :
    (store.find (addressText accountId) taken.action.enrollmentId).isSome = true := by
  have there := insertion_leaf shallow chain run member replied
  have below := (List.getElem?_eq_some_iff.mp there).1
  obtain ⟨record, held⟩ := Option.isSome_iff_exists.mp (all insertion.treeId _ below)
  obtain ⟨taken', member', insertion', accountId', ledger, replied', named', rfl⟩ :=
    emitted _ _ held
  obtain ⟨trees, indices⟩ := Prod.mk.inj (kept.placed _ _ held)
  obtain rfl : taken' = taken :=
    insertion_once shallow chain run member member' replied replied'
      (UInt32.toNat_inj.mp trees) (UInt64.toNat_inj.mp indices)
  rw [named, Option.some.injEq] at named'
  rw [named']
  exact kept.findable _ _ held

/-- From when every insertion is stored, what is answered is right, and of every
insertion unless it is a failure that reads no tree. -/
theorem answered_caughtUp (shallow : options.height ≤ 32)
    (chain : EmptyHashes poseidon2 options.height)
    (run : Execution (pool poseidon2 options.height) 0 .empty pooled now s)
    {caught : State}
    (indexed : Execution (indexer barretenberg options) () .empty history () caught)
    (idle : caught.work = .advancing) (all : AllStored pooled caught.store)
    {later : List IndexerStep}
    (continued : Execution (indexer barretenberg options) () caught later () state)
    (truthful : Truthful pooled (later ++ history)) {answer : IndexerStep}
    (listed : answer ∈ later) :
    ∃ ingested, Sound barretenberg options ingested answer.after ∧
      AllEmitted pooled answer.after.store ∧ AllStored pooled answer.after.store ∧
      ∀ outcome, answer.reply = some outcome →
        Right barretenberg options ingested answer.after.store (syncResult answer.before)
            outcome ∧
          (CaughtUp pooled answer.after.index ∨ outcome = .failed .source ∨
            ∃ account enrollmentId, outcome = .failed (.notIndexed account enrollmentId)) := by
  obtain ⟨ingested, after, emitted, right⟩ :=
    answered_right (indexed.trans continued) truthful (List.mem_append_left _ listed)
  obtain ⟨last, first, rfl⟩ := List.append_of_mem listed
  obtain ⟨executed, before, _⟩ := continued.split last
  rw [List.append_assoc] at truthful
  have past := @Truthful.suffix _ _ [answer] truthful.suffix
  obtain ⟨current, stored⟩ := current_of_run shallow chain run indexed idle all before past
  have whole := indexed.trans before
  obtain ⟨_, sound⟩ := sound_of_run whole
  have answers := (current.step shallow chain run sound (allEmitted_of_run whole past) stored
    answer.action).2
  have still : AllStored pooled answer.after.store := by
    rw [executed]
    exact stored.grown (sound.step answer.action).grown
  refine ⟨ingested, after, emitted, still, ?_⟩
  intro outcome replied
  refine ⟨right outcome replied, ?_⟩
  rw [executed] at replied ⊢
  exact answers outcome replied

/-- Once every insertion of the pool is stored, and no witness was being read
at the time, the answers from then on are the pool's own: each root is the
tree's root in the pool, each witness leads there, and a request for a witness
fails only for what was never enrolled. -/
theorem caught_up_answers (shallow : options.height ≤ 32)
    (chain : EmptyHashes poseidon2 options.height) (same : SameSponge barretenberg poseidon2)
    (run : Execution (pool poseidon2 options.height) 0 .empty pooled now s)
    {caught : State}
    (indexed : Execution (indexer barretenberg options) () .empty history () caught)
    (idle : caught.work = .advancing) (all : AllStored pooled caught.store)
    {later : List IndexerStep}
    (continued : Execution (indexer barretenberg options) () caught later () state)
    (truthful : Truthful pooled (later ++ history)) {answer : IndexerStep}
    (listed : answer ∈ later) :
    (∀ (treeId : UInt32) root, answer.reply = some (.root treeId.toNat root) →
      root = treeRoot options.height s treeId) ∧
    (∀ account enrollmentId w, answer.reply = some (.witness account enrollmentId w) →
      ∃ treeId : UInt32, w.treeId = treeId.toNat ∧
        rootFromPath barretenberg w.leaf w.index w.siblings = treeRoot options.height s treeId) ∧
    ∀ refusal, answer.reply = some (.failed refusal) → refusal = .source ∨
      ∃ account enrollmentId, refusal = .notIndexed account enrollmentId ∧
        ∀ taken ∈ pooled, ∀ insertion accountId, taken.reply = .ok insertion →
          contractId taken.action.account = some accountId → addressText accountId = account →
          taken.action.enrollmentId ≠ enrollmentId := by
  obtain ⟨ingested, after, emitted, still, right⟩ :=
    answered_caughtUp shallow chain run indexed idle all continued truthful listed
  refine ⟨?_, ?_, ?_⟩
  · intro treeId root replied
    obtain ⟨due, caught⟩ := right _ replied
    have reached : CaughtUp pooled answer.after.index := by simpa using caught
    cases due
    exact rootAt_treeRoot shallow chain same run after emitted reached treeId
  · intro account enrollmentId w replied
    obtain ⟨due, caught⟩ := right _ replied
    have reached : CaughtUp pooled answer.after.index := by simpa using caught
    cases due with
    | @witness _ _ record names bound =>
        obtain ⟨treeId, trees, _⟩ := emitted_leaf shallow chain run (emitted _ _ names.stored)
        refine ⟨treeId, trees, ?_⟩
        rw [← rootAt_treeRoot shallow chain same run after emitted reached treeId, ← trees]
        exact after.stored.climbs names bound
  · intro refusal replied
    obtain ⟨due, caught⟩ := right _ replied
    cases due with
    | source => exact Or.inl rfl
    | @notIndexed account enrollmentId absent =>
        refine Or.inr ⟨account, enrollmentId, rfl, ?_⟩
        intro taken member insertion accountId inserted named spelled ids
        have found := enrolled_found shallow chain run after.kept emitted still member inserted
          named
        rw [spelled, ids, absent] at found
        cases found
    | @gap account enrollmentId record names _ beyond =>
        -- Every leaf is indexed, so that of a stored record is.
        have reached : CaughtUp pooled answer.after.index := by simpa using caught
        obtain ⟨treeId, trees, below⟩ := emitted_leaf shallow chain run (emitted _ _ names.stored)
        rw [trees, ← after.holds.size, reached treeId] at beyond
        omega

end Indexed

/-! ### A pool of two leaves, served last to first -/

theorem play_work {barretenberg : Poseidon2} {options : IndexOptions} {events : List Event}
    (history : List IndexerStep) (state : State) (none : ∀ event ∈ events, event ≠ .indexed) :
    ((indexer barretenberg options).play history state events).2.work = state.work := by
  induction events generalizing history state with
  | nil => rfl
  | cons event rest ih =>
      obtain ⟨now, later⟩ := List.forall_mem_cons.mp none
      rw [System.play, ih _ _ later]
      exact (respond_aside state now).work

theorem truthful_of_events (events : List Event) {pooled : List PoolStep}
    {history : List IndexerStep} (played : history.map (·.action) = events.reverse)
    (each : ∀ page, .answered (some page) ∈ events → ∀ record ∈ page.records,
      Emitted pooled record) : Truthful pooled history := by
  intro cursor page ⟨taken, member, action, _⟩
  apply each
  have listed : taken.action ∈ history.map (·.action) := List.mem_map_of_mem member
  rw [played, List.mem_reverse, action] at listed
  exact listed

namespace Pooled

def taken : PoolStep :=
  (pool Filled.poseidon2 1).step Sampled.taken.after
    { sequence := 91, account := Sample.account, enrollmentId := .fill 9, commitment := be32 9 }

def insertion : Insertion where
  treeId := 0
  index := 1
  leaf := Proven.leafOf (.fill 9) (be32 9)
  root := Filled.poseidon2.node Sampled.insertion.leaf (Proven.leafOf (.fill 9) (be32 9))

def records : List LeafRecord :=
  [leafRecord insertion (.fill 1) (.fill 9) none,
    leafRecord Sampled.insertion (.fill 1) Proven.factor.enrollmentId none]

def storing : List Event :=
  [.sync 1, .pulled, .answered (some ⟨records, none⟩), .pulled, .pulled]

def asking : List Event :=
  [.witness (addressText (.fill 1)) Proven.factor.enrollmentId, .found 0, .indexed, .indexed,
    .indexed, .indexed]

def answering : List Event := asking ++ [.indexed]

def stored : List IndexerStep × State :=
  (indexer Filled.poseidon2 Indexed.options).play [] .empty storing

def reached : List IndexerStep × State :=
  (indexer Filled.poseidon2 Indexed.options).play [] stored.2 answering

theorem shallow : Indexed.options.height ≤ 32 := by decide

theorem chain : EmptyHashes Filled.poseidon2 Indexed.options.height := Proven.chain

theorem same : SameSponge Filled.poseidon2 Filled.poseidon2 := fun _ _ => rfl

theorem pool_run :
    Execution (pool Filled.poseidon2 Indexed.options.height) 0 .empty Proven.pooled.1 91
      Proven.pooled.2 :=
  Proven.pool_run

theorem complete :
    @Complete Indexed.options.height Filled.poseidon2 Sampled.verifier
      Sampled.generateProof :=
  Sampled.complete

theorem stored_run :
    Execution (indexer Filled.poseidon2 Indexed.options) () .empty stored.1 () stored.2 :=
  Execution.refl.play (List.pairwise_of_forall fun _ _ => trivial)

theorem reached_run :
    Execution (indexer Filled.poseidon2 Indexed.options) () stored.2 reached.1 () reached.2 :=
  Execution.refl.play (List.pairwise_of_forall fun _ _ => trivial)

theorem replied : taken.reply = .ok insertion := by
  decide +kernel

theorem first_replied : Sampled.taken.reply = .ok Sampled.insertion := by
  decide +kernel

theorem taken_listed : taken ∈ Proven.pooled.1 := List.mem_cons_self

theorem truthful : Truthful Proven.pooled.1 (reached.1 ++ stored.1) := by
  apply truthful_of_events (storing ++ answering)
  · rw [List.map_append, reached, stored, System.play_actions, System.play_actions,
      List.reverse_append]
    simp
  · intro page answered record member
    have page_eq : page = ⟨records, none⟩ := by
      simpa [storing, asking, answering] using answered
    subst page_eq
    rcases List.mem_cons.mp member with rfl | rest
    · exact ⟨taken, taken_listed, insertion, .fill 1, none, replied, rfl, rfl⟩
    · rw [List.mem_singleton.mp rest]
      exact ⟨Sampled.taken, Sampled.taken_listed, Sampled.insertion, .fill 1, none, first_replied,
        rfl, rfl⟩

theorem allStored : AllStored Proven.pooled.1 stored.2.store := by
  intro treeId index below
  by_cases first : treeId = 0
  · subst first
    have sized : (leavesOf Proven.pooled.1 0).length = 2 := by decide +kernel
    rw [sized] at below
    have both : ∀ index < 2, (stored.2.store.get 0 index).isSome = true := by decide +kernel
    exact both index below
  · have none : leavesOf Proven.pooled.1 treeId = [] := by
      have second := leavesOf_other [Sampled.taken] replied first
      have only := leavesOf_other [] first_replied first
      exact second.trans only
    rw [none] at below
    cases below

def answered : IndexerStep :=
  (indexer Filled.poseidon2 Indexed.options).step
    ((indexer Filled.poseidon2 Indexed.options).play [] stored.2 asking).2 .indexed

def path : Witness where
  treeId := 0
  index := 0
  leaf := Sampled.insertion.leaf
  siblings := [insertion.leaf]
  root := insertion.root

theorem answered_listed : answered ∈ reached.1 := by
  rw [reached, answering, System.play_append]
  exact List.mem_cons_self

theorem idle : stored.2.work = .advancing :=
  play_work [] .empty (by simp [storing])

theorem answered_reply : answered.reply =
    some (.witness (addressText (.fill 1)) Proven.factor.enrollmentId path) := by
  decide +kernel

def ingesting : List Event :=
  [.witness (addressText (.fill 1)) Proven.factor.enrollmentId, .found 0, .indexed, .indexed]

def earlier : List IndexerStep :=
  ((indexer Filled.poseidon2 Indexed.options).play [] stored.2 ingesting).1

/-- The end of the sync's advance, which indexed both leaves. -/
def ended : IndexerStep :=
  (indexer Filled.poseidon2 Indexed.options).step
    ((indexer Filled.poseidon2 Indexed.options).play [] stored.2 ingesting).2 .indexed

def later : List IndexerStep :=
  ((indexer Filled.poseidon2 Indexed.options).play [] ended.after [.indexed, .indexed]).1

theorem ended_listed : reached.1 ++ stored.1 = later ++ ended :: (earlier ++ stored.1) := by
  have events : answering = ingesting ++ [.indexed, .indexed, .indexed] := rfl
  have reached_eq : reached.1 = later ++ ended :: earlier := by
    rw [reached, events, System.play_append]
    rfl
  rw [reached_eq, List.append_assoc, List.cons_append]

theorem work_advancing {work : Work}
    (working : (match work with | .advancing => true | .reading .. => false) = true) :
    work = .advancing := by
  cases work with
  | advancing => rfl
  | reading => cases working

theorem ended_ends : EndsAdvance ended where
  indexed := rfl
  turn := List.isEmpty_eq_false_iff.mp (by decide +kernel)
  working := work_advancing (by decide +kernel)
  still := by
    rw [Still]
    decide +kernel

theorem later_still : ∀ step ∈ later, Still step := by
  unfold Still
  decide +kernel

end Pooled

theorem index_follows_pool_sample :
    (∃ ingested, Longest Indexed.options Pooled.ended.before.store ingested ∧
      Ingested Filled.poseidon2 Indexed.options ingested Pooled.reached.2.index) ∧
    ∃ insertion, WitnessOf Filled.poseidon2 Filled.poseidon2 Indexed.options.height
      Proven.pooled.1 Proven.pooled.2 (addressText (.fill 1)) Proven.factor.enrollmentId
      Pooled.path insertion (Pooled.answered.after.index.size 0) := by
  obtain ⟨_, longest, _, _, rooted⟩ := index_follows_pool Pooled.shallow Pooled.chain Pooled.same
    Pooled.pool_run (Pooled.stored_run.trans Pooled.reached_run) Pooled.truthful
  constructor
  · obtain ⟨ingested, more, whole, holds, _, none⟩ :=
      longest _ _ _ Pooled.ended_listed Pooled.ended_ends
    obtain rfl := none Pooled.later_still
    rw [List.append_nil] at holds
    exact ⟨ingested, whole, holds⟩
  · exact rooted _ (List.mem_append_left _ Pooled.answered_listed) _ _ _ Pooled.answered_reply

theorem caught_up_answers_sample :
    Pooled.answered.reply =
        some (.witness (addressText (.fill 1)) Proven.factor.enrollmentId Pooled.path) ∧
      ∃ treeId : UInt32, treeId.toNat = 0 ∧
        rootFromPath Filled.poseidon2 Pooled.path.leaf 0 Pooled.path.siblings =
          treeRoot 1 Proven.pooled.2 treeId := by
  refine ⟨Pooled.answered_reply, ?_⟩
  obtain ⟨_, leads, _⟩ := caught_up_answers Pooled.shallow Pooled.chain Pooled.same Pooled.pool_run
    Pooled.stored_run Pooled.idle Pooled.allStored Pooled.reached_run Pooled.truthful
    Pooled.answered_listed
  obtain ⟨treeId, trees, climbs⟩ := leads _ _ _ Pooled.answered_reply
  exact ⟨treeId, trees.symm, climbs⟩

theorem indexed_witness_accepted_sample : ∃ p,
    Sampled.adapter.verify Proven.knownRoots Proven.statement Proven.factor.binding
      (PerchZk.evidence 0 p) = .ok () := by
  have hashed : Proven.statement.digest Sampled.adapter.sha256 = .ok Proven.digest := by
    decide +kernel
  have fits : isCanonicalField (encoding Proven.secret) = true := encoding_canonical _
  have hashes : Sampled.adapter.poseidon2 = Filled.poseidon2 := rfl
  have available : Sampled.adapter.verifier = some Sampled.verifier := rfl
  have about : Proven.statement.account = Sampled.taken.action.account := rfl
  have enrolled : Proven.factor.binding.enrollmentId = Sampled.taken.action.enrollmentId := rfl
  have circuit : Proven.factor.binding.circuitId = Sampled.adapter.circuitId := rfl
  have named : contractId Sampled.taken.action.account = some (.fill 1) := rfl
  have committed : Sampled.taken.action.commitment =
      commitment Filled.poseidon2 (encoding Proven.secret) :=
    (commitment_same Pooled.same fits).symm
  have replied : Pooled.answered.reply =
      some (.witness (addressText (.fill 1)) Sampled.taken.action.enrollmentId Pooled.path) :=
    Pooled.answered_reply
  have run := Pooled.stored_run.trans Pooled.reached_run
  have listed := List.mem_append_left Pooled.stored.1 Pooled.answered_listed
  obtain ⟨p, _, _, _, accepted⟩ := indexed_witness_accepted Pooled.shallow Pooled.chain Pooled.same
    Pooled.pool_run run Pooled.truthful Sampled.taken_listed Pooled.first_replied named fits
    committed listed replied hashes available Pooled.complete about hashed enrolled circuit
  exact ⟨p, accepted [] _ _ .refl Proven.knownRoots fun _ => rfl⟩

end Perch.PerchZk.Indexer
