/-
The ZK adapter, and what an accepted proof is bound to.

The adapter hands its verifier a root, a nullifier and a statement hash.  All
three determine what was proved: the root and the nullifier because only their
canonical encodings are accepted, the statement because its encoding, its
digest and the hash of the projection are all one-to-one.
-/

import Perch.Document.LocalHost
import Perch.Recovery.Nullifier
import Perch.Zk.Pool

namespace Perch.Zk

open Machine Recovery

inductive ZkAdapterError
  | circuitMismatch
  | invalidStatement
  | nonCanonicalField
  | unknownRoot
  | poolUnavailable
  | malformedProof
  | proofRejected
  | verifierUnavailable
deriving DecidableEq

/-- The size of a zero-knowledge proof: 507 field elements. -/
def proofBytes : Nat := 507 * 32

/-- What an adapter is built with.  Nothing is assumed about its verifier; one
that reads its inputs modulo the field's order is one of them. -/
structure Adapter where
  sha256 : Sha256
  poseidon2 : Poseidon2
  /-- The compiled-in verification key. -/
  vk : Bytes
  /-- The verifier the key parses to. -/
  verifier : Option (Bytes → Bytes → Bool)

def Adapter.circuitId (adapter : Adapter) : Bytes32 := adapter.sha256 adapter.vk

def Adapter.statementHash (adapter : Adapter) (fields : ZkStatementFields) : Bytes32 :=
  adapter.poseidon2.hashBytes fields.authPreimage

/-- The pools' answers to `is_known_root`; an absent answer is a failed call. -/
abbrev KnownRoots := Address → UInt32 → Bytes32 → Option Bool

def askPool (knownRoots : KnownRoots) (binding : ZkBinding) (evidence : ZkEvidence) :
    Except ZkAdapterError Unit :=
  match knownRoots binding.pool evidence.treeId evidence.root with
  | some true => pure ()
  | some false => throw .unknownRoot
  | none => throw .poolUnavailable

def Adapter.verify (adapter : Adapter) (knownRoots : KnownRoots) (statement : RecoveryStatement)
    (binding : ZkBinding) (evidence : ZkEvidence) : Except ZkAdapterError Unit := do
  require (binding.circuitId = adapter.circuitId) .circuitMismatch
  let fields ← (zkStatementFields adapter.sha256 statement binding.enrollmentId).mapError
    fun _ => .invalidStatement
  require (isCanonicalField evidence.root = true ∧ isCanonicalField evidence.nullifier = true)
    .nonCanonicalField
  require (evidence.proof.length = proofBytes) .malformedProof
  askPool knownRoots binding evidence
  let inputs := publicInputs evidence.root evidence.nullifier (adapter.statementHash fields)
  let verifier ← orFail adapter.verifier .verifierUnavailable
  require (verifier evidence.proof inputs = true) .proofRejected

/-! ### Accepted calls -/

structure AdapterCall where
  knownRoots : KnownRoots
  statement : RecoveryStatement
  binding : ZkBinding
  evidence : ZkEvidence

def AdapterCall.accepted (adapter : Adapter) (call : AdapterCall) : Prop :=
  adapter.verify call.knownRoots call.statement call.binding call.evidence = .ok ()

def AdapterCall.preimage (adapter : Adapter) (call : AdapterCall) :
    Except StatementError (List Nat) := do
  let fields ← zkStatementFields adapter.sha256 call.statement call.binding.enrollmentId
  pure (fields.authPreimage.map value)

def AdapterCall.inputs (adapter : Adapter) (call : AdapterCall) : Except StatementError Bytes := do
  let fields ← zkStatementFields adapter.sha256 call.statement call.binding.enrollmentId
  pure (publicInputs call.evidence.root call.evidence.nullifier (adapter.statementHash fields))

/-- The encodings that SHA-256 is taken of in some calls. -/
def encodingsOf (calls : Set AdapterCall) : Set Bytes :=
  {encoded | ∃ call ∈ calls, call.statement.encode = .ok encoded}

def preimagesOf (adapter : Adapter) (calls : Set AdapterCall) : Set (List Nat) :=
  {preimage | ∃ call ∈ calls, call.preimage adapter = .ok preimage}

theorem AdapterCall.accepted_iff {adapter : Adapter} {call : AdapterCall} :
    call.accepted adapter ↔
      call.binding.circuitId = adapter.circuitId ∧
      (∃ fields,
        zkStatementFields adapter.sha256 call.statement call.binding.enrollmentId = .ok fields ∧
        ∃ verifier, adapter.verifier = some verifier ∧
          verifier call.evidence.proof (publicInputs call.evidence.root call.evidence.nullifier
            (adapter.statementHash fields)) = true) ∧
      isCanonicalField call.evidence.root = true ∧
      isCanonicalField call.evidence.nullifier = true ∧
      call.evidence.proof.length = proofBytes ∧
      call.knownRoots call.binding.pool call.evidence.treeId call.evidence.root = some true := by
  have asked : askPool call.knownRoots call.binding call.evidence = .ok () ↔
      call.knownRoots call.binding.pool call.evidence.treeId call.evidence.root = some true := by
    unfold askPool
    split <;> simp_all [pure, Except.pure, throw, throwThe, MonadExceptOf.throw]
  simp only [accepted, Adapter.verify, bind_eq_ok, require_eq_ok, mapError_eq_ok, orFail_eq_ok,
    asked]
  constructor
  · rintro ⟨-, circuit, fields, projected, -, ⟨root, nullifier⟩, -, size, -, known, verifier,
      available, verified⟩
    exact ⟨circuit, ⟨fields, projected, verifier, available, verified⟩, root, nullifier, size,
        known⟩
  · rintro ⟨circuit, ⟨fields, projected, verifier, available, verified⟩, root, nullifier, size,
      known⟩
    exact ⟨(), circuit, fields, projected, (), ⟨root, nullifier⟩, (), size, (), known, verifier,
      available, verified⟩

/-- Accepted calls with the same public inputs, as field elements, are about
the same root, nullifier, statement and enrollment. -/
theorem same_inputs {adapter : Adapter} {calls : Set AdapterCall}
    (hashes : Set.InjOn adapter.sha256 (encodingsOf calls))
    (elements : Set.InjOn adapter.poseidon2.hash (preimagesOf adapter calls))
    {first second : AdapterCall} (listed : first ∈ calls) (listed' : second ∈ calls)
    (accepted : first.accepted adapter) (accepted' : second.accepted adapter)
    {inputs inputs' : Bytes} (handed : first.inputs adapter = .ok inputs)
    (handed' : second.inputs adapter = .ok inputs') (same : residues inputs = residues inputs') :
    first.evidence.root = second.evidence.root ∧
      first.evidence.nullifier = second.evidence.nullifier ∧
      first.statement = second.statement ∧
      first.binding.enrollmentId = second.binding.enrollmentId := by
  obtain ⟨_, _, root, nullifier, _, _⟩ := AdapterCall.accepted_iff.mp accepted
  obtain ⟨_, _, root', nullifier', _, _⟩ := AdapterCall.accepted_iff.mp accepted'
  simp only [AdapterCall.inputs, bind_eq_ok, pure_eq_ok] at handed handed'
  obtain ⟨fields, projected, rfl⟩ := handed
  obtain ⟨fields', projected', rfl⟩ := handed'
  rw [residues_publicInputs, residues_publicInputs, Prod.mk.injEq, Prod.mk.injEq] at same
  obtain ⟨roots, nullifiers, statements⟩ := same
  -- The statement hashes are canonical, being outputs of the field's hash.
  have reduced : ∀ inputs, value (be32 (adapter.poseidon2.hash inputs)) % fieldModulus =
      adapter.poseidon2.hash inputs := by
    intro inputs
    rw [value_be32 (adapter.poseidon2.reduced inputs),
      Nat.mod_eq_of_lt (adapter.poseidon2.reduced inputs)]
  rw [Adapter.statementHash, Adapter.statementHash, Poseidon2.hashBytes, Poseidon2.hashBytes,
    reduced, reduced] at statements
  have preimages := elements ⟨first, listed, by simp [AdapterCall.preimage, projected]⟩
    ⟨second, listed', by simp [AdapterCall.preimage, projected']⟩ statements
  obtain rfl := authPreimage_injective preimages
  obtain ⟨enrollments, encoded, encoded', encodes, encodes', digests⟩ :=
    zkStatementFields_eq_ok projected projected'
  have encodings := hashes ⟨first, listed, encodes⟩ ⟨second, listed', encodes'⟩ digests
  subst encodings
  exact ⟨eq_of_congruent root root' roots, eq_of_congruent nullifier nullifier' nullifiers,
    RecoveryStatement.encode_injective encodes encodes', enrollments⟩

/-! ### One nullifier, one recovery -/

/-- In every step for an account, the adapters it names are this one. -/
def AdapterEnrolled (adapter : Adapter) (account : Address) (history : History) : Prop :=
  ∀ taken ∈ history, taken.action.call.account = account →
    ∀ address statement binding evidence,
      (taken.action.env.zkAdapter address).verify statement binding evidence = true →
      ∃ knownRoots, adapter.verify knownRoots statement binding evidence = .ok ()

theorem nullifier_canonical {adapter : Adapter} {d : Deployment} {history : History}
    {now : UInt32} {s : Storage} (run : Run d history now s) {account : Address}
    (enrolled : AdapterEnrolled adapter account history) {id : UInt64} {a : Attempt}
    (stored : s.attempt (account, id) = some a) {n : Bytes32} (recorded : a.zkNullifier = some n) :
    isCanonicalField n = true := by
  obtain ⟨-, -, config, -, evidence⟩ := run.founded account id a (.inl stored)
  obtain ⟨factor, -, taken, member, proved, -⟩ := evidence.proved n recorded
  obtain ⟨given, called, rfl, verified⟩ := proved.call
  have named : taken.action.call.account = account := by
    rw [called]
    rfl
  obtain ⟨knownRoots, accepted⟩ := enrolled taken member named _ _ _ _ verified
  have passed : AdapterCall.accepted adapter ⟨knownRoots, _, _, given⟩ := accepted
  exact (AdapterCall.accepted_iff.mp passed).2.2.2.1

/-- A step that spends a nullifier completes an attempt that holds it. -/
theorem spends_stored {account : Address} {n : Bytes32} {taken : ControllerStep}
    (spent : spends account n taken = true) :
    ∃ id a, taken.before.attempt (account, id) = some a ∧ a.zkNullifier = some n := by
  unfold spends at spent
  rw [Bool.and_eq_true] at spent
  have held := spent.2
  split at held
  · rename_i completion _ _
    obtain ⟨a, stored, own⟩ := (Option.any_eq_true _ _).mp held
    exact ⟨_, a, stored, by simpa using own⟩
  · cases held

theorem no_element_spent_twice {adapter : Adapter} {d : Deployment} {history : History}
    {now : UInt32} {s : Storage} (run : Run d history now s) {account : Address}
    (enrolled : AdapterEnrolled adapter account history) :
    history.Pairwise fun newer older => ∀ n n', spends account n newer = true →
      spends account n' older = true → value n % fieldModulus ≠ value n' % fieldModulus := by
  have canonical : ∀ taken ∈ history, ∀ n, spends account n taken = true →
      isCanonicalField n = true := by
    intro taken member n spent
    obtain ⟨later, earlier, rfl⟩ := List.append_of_mem member
    obtain ⟨_, before, _⟩ := Execution.split later run
    have before : Run d earlier taken.action.env.sequence taken.before := before
    obtain ⟨id, a, stored, recorded⟩ := spends_stored spent
    refine nullifier_canonical before (fun past known => enrolled past ?_) stored recorded
    simp [known]
  rw [List.pairwise_iff_forall_sublist]
  intro newer older sublist n n' spent spent' congruent
  have newest : newer ∈ history := sublist.subset (by simp)
  have oldest : older ∈ history := sublist.subset (by simp)
  have same := eq_of_congruent (canonical newer newest n spent) (canonical older oldest n' spent')
    congruent
  subst same
  have twice := sublist.countP_le (p := spends account n)
  rw [List.countP_cons_of_pos spent, List.countP_cons_of_pos spent', List.countP_nil] at twice
  have once := run.spends_once account n
  omega

/-- An accepted proof was made against a root the enrolled pool recorded; two
accepted proofs with the same public inputs are about the same root,
nullifier, statement and enrollment; accepted nullifiers that are one field
element are one byte string; and so no field element completes two recoveries
of an account. -/
theorem one_credential_one_spend (adapter : Adapter) (calls : Set AdapterCall)
    (hashes : Set.InjOn adapter.sha256 (encodingsOf calls))
    (elements : Set.InjOn adapter.poseidon2.hash (preimagesOf adapter calls)) :
    (∀ call ∈ calls, call.accepted adapter →
      call.knownRoots call.binding.pool call.evidence.treeId call.evidence.root = some true ∧
      ∀ (depth : Nat) (history : List PoolStep) (now : UInt32) (s : PoolStorage),
        Execution (pool adapter.poseidon2 depth) 0 .empty history now s →
        (∀ treeId root, call.knownRoots call.binding.pool treeId root =
          some (isKnownRoot s treeId root)) →
        ∃ taken ∈ history, Recorded call.evidence.treeId call.evidence.root taken) ∧
    (∀ first ∈ calls, ∀ second ∈ calls, first.accepted adapter → second.accepted adapter →
      (∀ inputs inputs', first.inputs adapter = .ok inputs → second.inputs adapter = .ok inputs' →
        residues inputs = residues inputs' →
        first.evidence.root = second.evidence.root ∧
        first.evidence.nullifier = second.evidence.nullifier ∧
        first.statement = second.statement ∧
        first.binding.enrollmentId = second.binding.enrollmentId) ∧
      (value first.evidence.nullifier % fieldModulus =
          value second.evidence.nullifier % fieldModulus →
        first.evidence.nullifier = second.evidence.nullifier)) ∧
    ∀ (d : Deployment) (history : History) (now : UInt32) (s : Storage) (account : Address),
      Run d history now s → AdapterEnrolled adapter account history →
      history.Pairwise fun newer older => ∀ n n', spends account n newer = true →
        spends account n' older = true → value n % fieldModulus ≠ value n' % fieldModulus := by
  refine ⟨?_, ?_, ?_⟩
  · intro call _ accepted
    obtain ⟨_, _, _, _, _, known⟩ := AdapterCall.accepted_iff.mp accepted
    refine ⟨known, ?_⟩
    intro depth history now s run answers
    rw [answers, Option.some.injEq] at known
    exact (known_root_recorded run _ _).mp known
  · intro first listed second listed' accepted accepted'
    refine ⟨?_, ?_⟩
    · intro inputs inputs' handed handed' same
      exact same_inputs hashes elements listed listed' accepted accepted' handed handed' same
    · intro congruent
      obtain ⟨_, _, _, nullifier, _, _⟩ := AdapterCall.accepted_iff.mp accepted
      obtain ⟨_, _, _, nullifier', _, _⟩ := AdapterCall.accepted_iff.mp accepted'
      exact eq_of_congruent nullifier nullifier' congruent
  · intro d history now s account run enrolled
    exact no_element_spent_twice run enrolled

/-! ### The recorded proofs -/

namespace Fixture

open Document

def accountId : Bytes32 :=
  be32 0x2f55f804e95d6a81c9409dc2ea908b6d6c87d0881f8db9ed238a75deec804d21

def enrollmentId : Bytes32 :=
  be32 0x2b68379f50f7afcd99f335de81057eb4e0c9e534bbd4b78692e16fddc2b68c23

def statement (subject : StatementSubject) : RecoveryStatement where
  networkId := be32
    0xcee0302d59844d32bdca915c8203dd44b33fbb7edc19051ea37abedf28ecd472
  account := .contract accountId
  controller := .contract (be32
    0xd2ab8d41bd56feed2802ec950d99591222eed271261e4001b407ae6458a8a123)
  config :=
    { epoch := 3
      configHash := be32
        0xba481f11749d4f1a2ff92d9cd30603a09419dd7253a944a7be23c8e46bf4e39f }
  timing :=
    { delayLedgers := 120960
      expiryLedgers := 241920
      validUntilLedger := 2000000 }
  subject := subject

def lostKey : AttemptSubject where
  attemptId := 1
  sourceDocHash := be32
    0x7ee763822bf85b0239cd21029607305c53e23cdd5c62f9647ce9904b4297cfdb
  targetDocHash := be32
    0x44264b188b6186a9c14371c77287c682e6eab57c549c57cfd46e8d8565bfb89e
  replacementsHash := be32
    0x6d0b5ea975dfb81d37c4fd70a7e82bd68518f2b89aff13362629ae40b11cd110

def compromise : AttemptSubject where
  attemptId := 2
  sourceDocHash := be32
    0x928667a02e47ee62eafc88484a9d846cf18fb1393ec5904af774ae5b7de3c415
  targetDocHash := be32
    0xcd2fd6efe448c00241f90bd3dc8cbe040584c348f633cb1a0395ce5d42137293
  replacementsHash := be32
    0x6d0b5ea975dfb81d37c4fd70a7e82bd68518f2b89aff13362629ae40b11cd110

def fields (digest : Bytes32) : ZkStatementFields where
  accountHi := (splitHiLo accountId).1
  accountLo := (splitHiLo accountId).2
  enrollmentHi := (splitHiLo enrollmentId).1
  enrollmentLo := (splitHiLo enrollmentId).2
  digestHi := (splitHiLo digest).1
  digestLo := (splitHiLo digest).2

def lostKeyFields : ZkStatementFields :=
  fields (be32 0x77bec5d40bd6167d10847f88adfdfa04153781397cbb64c404b4b31e39631468)

def compromiseFields : ZkStatementFields :=
  fields (be32 0xb606b284aaba54f8f528d3db4aa6cb24769e7c19fde2c62b7c5e2508d97a0f3a)

set_option maxRecDepth 16384 in
theorem lostKey_projects :
    zkStatementFields localSha256 (statement (.lostKey lostKey)) enrollmentId =
      .ok lostKeyFields := by
  decide

set_option maxRecDepth 16384 in
theorem compromise_projects :
    zkStatementFields localSha256 (statement (.compromise compromise)) enrollmentId =
      .ok compromiseFields := by
  decide

def poseidon2 : Poseidon2 where
  hash inputs :=
    if inputs = lostKeyFields.authPreimage.map value then
      0x07aa3f4aae689355aedf057343f4c607d56f7d800b9e54b6859d9e8eb5a456af
    else if inputs = compromiseFields.authPreimage.map value then
      0x086b82ee8904cfe1980581dfa1acc1514e5c9f6905a8297c6bc6706af98d1c19
    else 0
  reduced inputs := by
    split
    · decide
    · split <;> decide

def root : Bytes32 :=
  be32 0x2b0b60d01cae92326abc85a67ced84214ab0e0b09f0efce478bf52571bc52b98

def nullifier : Bytes32 :=
  be32 0x06e2681c8720a76b03b287cf6212a4cad256f80761ccf4ed2008938c9f18f86d

def adapter : Adapter where
  sha256 := localSha256
  poseidon2 := poseidon2
  vk := []
  verifier := some fun _ inputs =>
    [lostKeyFields, compromiseFields].any fun fields =>
      inputs = publicInputs root nullifier (poseidon2.hashBytes fields.authPreimage)

def call (subject : StatementSubject) : AdapterCall where
  knownRoots _ treeId known := some (decide (treeId = 0 ∧ known = root))
  statement := statement subject
  binding :=
    { pool := .contract (be32
        0xc6d3820a1f47a48e83e109b49a8949248d2a9fe39602387b0068a377e9093c5c)
      enrollmentId := enrollmentId
      circuitId := adapter.circuitId }
  evidence :=
    { treeId := 0
      root := root
      nullifier := nullifier
      proof := List.replicate proofBytes 0 }

theorem call_accepted {subject : StatementSubject} {projection : ZkStatementFields}
    (projected : zkStatementFields localSha256 (statement subject) enrollmentId = .ok projection)
    (listed : projection ∈ [lostKeyFields, compromiseFields]) :
    (call subject).accepted adapter := by
  have canonicalRoot : isCanonicalField root = true := by decide
  have canonicalNullifier : isCanonicalField nullifier = true := by decide
  refine AdapterCall.accepted_iff.mpr
    ⟨rfl, ⟨projection, projected, _, rfl, ?_⟩, canonicalRoot, canonicalNullifier, ?_, ?_⟩
  · exact List.any_eq_true.mpr ⟨projection, listed, by simp [call, Adapter.statementHash, adapter]⟩
  · exact List.length_replicate
  · simp [call]

theorem call_preimage {subject : StatementSubject} {projection : ZkStatementFields}
    (projected : zkStatementFields localSha256 (statement subject) enrollmentId = .ok projection) :
    (call subject).preimage adapter = .ok (projection.authPreimage.map value) := by
  have same : zkStatementFields adapter.sha256 (call subject).statement
      (call subject).binding.enrollmentId = .ok projection := projected
  rw [AdapterCall.preimage, same]
  rfl

def encoding (subject : StatementSubject) : Bytes :=
  (statement subject).encode.toOption.getD []

theorem lostKey_encodes :
    (statement (.lostKey lostKey)).encode = .ok (encoding (.lostKey lostKey)) := rfl

theorem compromise_encodes :
    (statement (.compromise compromise)).encode = .ok (encoding (.compromise compromise)) := rfl

set_option maxRecDepth 16384 in
theorem digests_differ : adapter.sha256 (encoding (.lostKey lostKey)) ≠
    adapter.sha256 (encoding (.compromise compromise)) := by
  decide

set_option maxRecDepth 16384 in
theorem hashes_differ : adapter.poseidon2.hash (lostKeyFields.authPreimage.map value) ≠
    adapter.poseidon2.hash (compromiseFields.authPreimage.map value) := by
  decide

def calls : Set AdapterCall := {call (.lostKey lostKey), call (.compromise compromise)}

private theorem injOn_pair {α β : Type} {f : α → β} {a b : α} (differ : f a ≠ f b) :
    Set.InjOn f {a, b} := by
  rintro x (rfl | rfl) y (rfl | rfl) same
  · rfl
  · exact absurd same differ
  · exact absurd same.symm differ
  · rfl

theorem hashes : Set.InjOn adapter.sha256 (encodingsOf calls) := by
  refine (injOn_pair digests_differ).mono ?_
  rintro encoded ⟨_, rfl | rfl, encodes⟩
  · exact .inl (Except.ok.inj (encodes.symm.trans lostKey_encodes))
  · exact .inr (Except.ok.inj (encodes.symm.trans compromise_encodes))

theorem elements : Set.InjOn adapter.poseidon2.hash (preimagesOf adapter calls) := by
  refine (injOn_pair hashes_differ).mono ?_
  rintro preimage ⟨_, rfl | rfl, projected⟩
  · rw [call_preimage lostKey_projects] at projected
    exact .inl (Except.ok.inj projected.symm)
  · rw [call_preimage compromise_projects] at projected
    exact .inr (Except.ok.inj projected.symm)

end Fixture

end Perch.Zk
