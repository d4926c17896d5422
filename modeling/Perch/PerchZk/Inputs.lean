/-
The inputs of a proof, as the web client and the prover derive them.

The one hashes with Barretenberg and splits ids as big integers, the other
hashes as the host does and splits them as bytes.  Both derive one input set,
the circuit accepts it exactly when the index is in the tree, and for a secret
that was enrolled the adapter accepts the proof.
-/

import Perch.PerchZk.Tree
import Perch.Zk.Proofs

namespace Perch.PerchZk

open Machine Zk Recovery
open Machine.WitnessTree hiding siblings Tree

/-! ### perch-zk's inputs -/

def domLeaf : Nat := 0x1981de3e07709613862272edb5ff4fab545737382d1405fe8d0970dc7d4d7ed6

def domBind : Nat := 0x20ae6172af8bed19c921e91e21641198661035616a6a4d733346853501fd07c5

def domNullifier : Nat := 0x0280c3170f4abb8389838a5c280dbdac8bfd7c75fcb780a9485d93af553ab840

def domAuth : Nat := 0x04e4c99c7477379c7e47c9380170e3fb1e7c565afe67dd56216df99861f1fb3c

/-- The 16/16 split of a big integer. -/
def splitHiLo (b : Bytes32) : Nat × Nat := (value b >>> 128, value b &&& ((1 <<< 128) - 1))

structure Witness where
  secret : Bytes32
  accountId : Bytes32
  enrollmentId : Bytes32
  digest : Bytes32
  leafIndex : Nat
  siblings : List Bytes32

structure PublicInputs where
  root : Bytes32
  nullifier : Bytes32
  statementHash : Bytes32
deriving DecidableEq

def field (v : Nat) : Element := ⟨v % fieldModulus, Nat.mod_lt _ (by decide)⟩

section Web

variable (barretenberg : Poseidon2)

def commitment (secret : Bytes32) : Bytes32 := be32 (barretenberg.hash [domLeaf, value secret])

def leaf (accountId enrollmentId inner : Bytes32) : Bytes32 :=
  be32 (barretenberg.hash [domBind, (splitHiLo accountId).1, (splitHiLo accountId).2,
    (splitHiLo enrollmentId).1, (splitHiLo enrollmentId).2, value inner])

def nullifier (accountId enrollmentId secret : Bytes32) : Bytes32 :=
  be32 (barretenberg.hash [domNullifier, (splitHiLo accountId).1, (splitHiLo accountId).2,
    (splitHiLo enrollmentId).1, (splitHiLo enrollmentId).2, value secret])

def statementHash (accountId enrollmentId digest : Bytes32) : Bytes32 :=
  be32 (barretenberg.hash [domAuth, (splitHiLo accountId).1, (splitHiLo accountId).2,
    (splitHiLo enrollmentId).1, (splitHiLo enrollmentId).2, (splitHiLo digest).1,
    (splitHiLo digest).2])

/-- A secret that is no field element throws, and so does a sibling, when it is
hashed. -/
def publicInputs (w : Witness) : Option PublicInputs :=
  if isCanonicalField w.secret = true ∧ ∀ sibling ∈ w.siblings, isCanonicalField sibling = true then
    let stored := leaf barretenberg w.accountId w.enrollmentId (commitment barretenberg w.secret)
    some
      { root := rootFromPath barretenberg stored w.leafIndex w.siblings
        nullifier := nullifier barretenberg w.accountId w.enrollmentId w.secret
        statementHash := statementHash barretenberg w.accountId w.enrollmentId w.digest }
  else none

def publicInputBytes (p : PublicInputs) : Bytes :=
  p.root.bytes ++ p.nullifier.bytes ++ p.statementHash.bytes

/-- The Noir input map, as the circuit of a depth reads it: the siblings must
fill its array, and the index be below the modulus. -/
def noirInputs (depth : Nat) (w : Witness) :
    Option (Circuit.PublicInputs × Circuit.Witness depth) := do
  let p ← publicInputs barretenberg w
  if sized : (w.siblings.map fun s => field (value s)).length = depth ∧
      w.leafIndex < fieldModulus then
    some
      ({ root := field (value p.root)
         nullifier := field (value p.nullifier)
         statementHash := field (value p.statementHash) },
       { secret := field (value w.secret)
         acctHi := field (splitHiLo w.accountId).1
         acctLo := field (splitHiLo w.accountId).2
         enrHi := field (splitHiLo w.enrollmentId).1
         enrLo := field (splitHiLo w.enrollmentId).2
         digestHi := field (splitHiLo w.digest).1
         digestLo := field (splitHiLo w.digest).2
         leafIndex := field w.leafIndex
         siblings := w.siblings.map fun s => field (value s)
         sized := sized.1 })
  else none

end Web

/-! ### The prover's inputs -/

namespace Prover

structure Inputs where
  root : Bytes32
  nullifier : Bytes32
  statementHash : Bytes32
  secret : Bytes32
  accountId : Bytes32
  enrollmentId : Bytes32
  digest : Bytes32
  leafIndex : UInt64
  siblings : List Bytes32

def fields (accountId enrollmentId digest : Bytes32) : ZkStatementFields where
  accountHi := (Zk.splitHiLo accountId).1
  accountLo := (Zk.splitHiLo accountId).2
  enrollmentHi := (Zk.splitHiLo enrollmentId).1
  enrollmentLo := (Zk.splitHiLo enrollmentId).2
  digestHi := (Zk.splitHiLo digest).1
  digestLo := (Zk.splitHiLo digest).2

section Inputs

variable (poseidon2 : Poseidon2)

/-- Hashing what is no field element is a panic, and so is a shift by the width
of the index. -/
def Inputs.new (secret accountId enrollmentId digest : Bytes32) (leafIndex : UInt64)
    (siblings : List Bytes32) : Option Inputs :=
  if (isCanonicalField secret = true ∧ ∀ sibling ∈ siblings, isCanonicalField sibling = true) ∧
      siblings.length ≤ 64 then
    let leaf := poseidon2.leafHash accountId enrollmentId (poseidon2.commitment secret)
    some
      { root := Merkle.rootFromPath poseidon2.node leaf leafIndex.toNat siblings
        nullifier := poseidon2.nullifier accountId enrollmentId secret
        statementHash := poseidon2.hashBytes (fields accountId enrollmentId digest).authPreimage
        secret := secret
        accountId := accountId
        enrollmentId := enrollmentId
        digest := digest
        leafIndex := leafIndex
        siblings := siblings }
  else none

def Inputs.publicInputs (inputs : Inputs) : Bytes :=
  Zk.publicInputs inputs.root inputs.nullifier inputs.statementHash

/-- The `Prover.toml`, as the circuit of a depth reads it. -/
def Inputs.proverToml (depth : Nat) (inputs : Inputs) :
    Option (Circuit.PublicInputs × Circuit.Witness depth) :=
  let f := fields inputs.accountId inputs.enrollmentId inputs.digest
  if sized : (inputs.siblings.map element).length = depth then
    some
      ({ root := element inputs.root
         nullifier := element inputs.nullifier
         statementHash := element inputs.statementHash },
       { secret := element inputs.secret
         acctHi := element f.accountHi
         acctLo := element f.accountLo
         enrHi := element f.enrollmentHi
         enrLo := element f.enrollmentLo
         digestHi := element f.digestHi
         digestLo := element f.digestLo
         leafIndex := element (be32 inputs.leafIndex.toNat)
         siblings := inputs.siblings.map element
         sized := sized })
  else none

end Inputs

end Prover

/-! ### One set of inputs -/

/-- Barretenberg's hash of field elements is the host's. -/
def SameSponge (barretenberg poseidon2 : Poseidon2) : Prop :=
  ∀ inputs, (∀ input ∈ inputs, input < fieldModulus) →
    barretenberg.hash inputs = poseidon2.hash inputs

section Agreement

variable {barretenberg poseidon2 : Poseidon2}

theorem SameSponge.sameHash (same : SameSponge barretenberg poseidon2) :
    SameHash barretenberg poseidon2 := by
  intro left right leftFits rightFits
  apply same
  simp [leftFits, rightFits]

theorem SameSponge.hashBytes (same : SameSponge barretenberg poseidon2) {inputs : List Nat}
    (bytes : List Bytes32) (canonical : ∀ x ∈ bytes, isCanonicalField x = true)
    (values : inputs = bytes.map value) :
    be32 (barretenberg.hash inputs) = poseidon2.hashBytes bytes := by
  subst values
  rw [Poseidon2.hashBytes, same]
  intro input member
  obtain ⟨x, listed, rfl⟩ := List.mem_map.mp member
  exact isCanonicalField_iff.mp (canonical x listed)

/-- The bytes and the big integer are split alike. -/
theorem value_splitHiLo (x : Bytes32) :
    value (Zk.splitHiLo x).1 = (splitHiLo x).1 ∧ value (Zk.splitHiLo x).2 = (splitHiLo x).2 := by
  have low : beValue (x.bytes.drop 16) < 2 ^ 128 := by
    have bound := beValue_lt (x.bytes.drop 16)
    have size : (x.bytes.drop 16).length = 16 := by simp [x.size]
    rwa [size] at bound
  have whole : value x = beValue (x.bytes.take 16) * 2 ^ 128 + beValue (x.bytes.drop 16) := by
    have pieces := beValue_append (x.bytes.take 16) (x.bytes.drop 16)
    have size : (x.bytes.drop 16).length = 16 := by simp [x.size]
    rw [List.take_append_drop, size] at pieces
    exact pieces
  rw [Zk.splitHiLo, value_extend, value_extend, splitHiLo, Nat.shiftRight_eq_div_pow,
    Nat.one_shiftLeft, Nat.and_two_pow_sub_one_eq_mod]
  constructor
  · omega
  · omega

theorem element_splitHiLo (x : Bytes32) :
    element (Zk.splitHiLo x).1 = field (splitHiLo x).1 ∧
      element (Zk.splitHiLo x).2 = field (splitHiLo x).2 := by
  obtain ⟨high, low⟩ := value_splitHiLo x
  constructor
  · rw [element, field]
    simp only [high]
  · rw [element, field]
    simp only [low]

theorem bound_canonical (domain : Bytes32) (fits : isCanonicalField domain = true)
    (accountId enrollmentId : Bytes32) (rest : List Bytes32)
    (each : ∀ x ∈ rest, isCanonicalField x = true) :
    ∀ x ∈ domain :: (Zk.splitHiLo accountId).1 :: (Zk.splitHiLo accountId).2 ::
        (Zk.splitHiLo enrollmentId).1 :: (Zk.splitHiLo enrollmentId).2 :: rest,
      isCanonicalField x = true := by
  simp only [List.forall_mem_cons]
  exact ⟨fits, (splitHiLo_canonical accountId).1, (splitHiLo_canonical accountId).2,
    (splitHiLo_canonical enrollmentId).1, (splitHiLo_canonical enrollmentId).2, each⟩

section Same

variable (same : SameSponge barretenberg poseidon2) {secret : Bytes32}
  (canonical : isCanonicalField secret = true) (accountId enrollmentId : Bytes32)

include same

theorem statementHash_same (digest : Bytes32) :
    statementHash barretenberg accountId enrollmentId digest =
      poseidon2.hashBytes (Prover.fields accountId enrollmentId digest).authPreimage := by
  apply same.hashBytes
  · apply bound_canonical
    · decide
    · simp only [List.forall_mem_cons]
      exact ⟨(splitHiLo_canonical digest).1, (splitHiLo_canonical digest).2, by simp⟩
  · simp only [ZkStatementFields.authPreimage, Prover.fields, List.map_cons, List.map_nil,
      value_splitHiLo]
    rfl

include canonical

theorem commitment_same : commitment barretenberg secret = poseidon2.commitment secret := by
  apply same.hashBytes
  · intro x member
    simp only [List.mem_cons, List.not_mem_nil, or_false] at member
    rcases member with rfl | rfl
    · decide
    · exact canonical
  · rfl

theorem bound_same (domain : Bytes32) (fits : isCanonicalField domain = true) :
    be32 (barretenberg.hash [value domain, (splitHiLo accountId).1, (splitHiLo accountId).2,
      (splitHiLo enrollmentId).1, (splitHiLo enrollmentId).2, value secret]) =
    poseidon2.hashBytes [domain, (Zk.splitHiLo accountId).1, (Zk.splitHiLo accountId).2,
      (Zk.splitHiLo enrollmentId).1, (Zk.splitHiLo enrollmentId).2, secret] := by
  apply same.hashBytes
  · exact bound_canonical domain fits accountId enrollmentId [secret] (by simp [canonical])
  · simp only [List.map_cons, List.map_nil, value_splitHiLo]

theorem nullifier_same : nullifier barretenberg accountId enrollmentId secret =
    poseidon2.nullifier accountId enrollmentId secret :=
  bound_same same canonical accountId enrollmentId Zk.domNullifier (by decide)

theorem leaf_same : leaf barretenberg accountId enrollmentId secret =
    poseidon2.leafHash accountId enrollmentId secret :=
  bound_same same canonical accountId enrollmentId Zk.domBind (by decide)

end Same

theorem node_same (same : SameSponge barretenberg poseidon2) {left right : Bytes32}
    (leftFits : isCanonicalField left = true) (rightFits : isCanonicalField right = true) :
    node barretenberg left right = poseidon2.node left right ∧
      isCanonicalField (node barretenberg left right) = true := by
  have equal : node barretenberg left right = poseidon2.node left right := by
    apply same.hashBytes [left, right]
    · simp [leftFits, rightFits]
    · rfl
  rw [equal]
  exact ⟨rfl, hashBytes_canonical _⟩

theorem rootFromPath_same (same : SameSponge barretenberg poseidon2) {stored : Bytes32}
    {leafIndex : Nat} {siblings : List Bytes32} (fits : isCanonicalField stored = true)
    (each : ∀ sibling ∈ siblings, isCanonicalField sibling = true) :
    rootFromPath barretenberg stored leafIndex siblings =
      Merkle.rootFromPath poseidon2.node stored leafIndex siblings := by
  have agree : ∀ left right, isCanonicalField left = true → isCanonicalField right = true →
      node barretenberg left right = poseidon2.node left right ∧
        isCanonicalField (node barretenberg left right) = true := by
    intro left right leftFits rightFits
    exact node_same same leftFits rightFits
  exact (Merkle.climbPath_agree agree fits each).1

theorem rootFromPath_canonical {stored : Bytes32} {leafIndex : Nat} {siblings : List Bytes32}
    (fits : isCanonicalField stored = true)
    (each : ∀ sibling ∈ siblings, isCanonicalField sibling = true) :
    isCanonicalField (Merkle.rootFromPath poseidon2.node stored leafIndex siblings) = true := by
  have closed : ∀ left right, isCanonicalField left = true → isCanonicalField right = true →
      poseidon2.node left right = poseidon2.node left right ∧
        isCanonicalField (poseidon2.node left right) = true := by
    intro left right _ _
    exact ⟨rfl, hashBytes_canonical _⟩
  exact (Merkle.climbPath_agree closed fits each).2

theorem publicInputs_same (same : SameSponge barretenberg poseidon2)
    (secret accountId enrollmentId digest : Bytes32) (leafIndex : UInt64)
    {siblings : List Bytes32} (short : siblings.length ≤ 64) :
    publicInputs barretenberg
        { secret, accountId, enrollmentId, digest, leafIndex := leafIndex.toNat, siblings } =
      (Prover.Inputs.new poseidon2 secret accountId enrollmentId digest leafIndex siblings).map
        fun inputs =>
          { root := inputs.root
            nullifier := inputs.nullifier
            statementHash := inputs.statementHash } := by
  rw [publicInputs, Prover.Inputs.new]
  dsimp only
  split
  next canonical =>
    have stored : leaf barretenberg accountId enrollmentId (commitment barretenberg secret) =
        poseidon2.leafHash accountId enrollmentId (poseidon2.commitment secret) := by
      rw [commitment_same same canonical.1]
      exact leaf_same same (hashBytes_canonical _) accountId enrollmentId
    have fits : isCanonicalField (poseidon2.leafHash accountId enrollmentId
        (poseidon2.commitment secret)) = true :=
      hashBytes_canonical _
    have climbs := @rootFromPath_same _ _ same _ leafIndex.toNat _ fits canonical.2
    rw [if_pos ⟨canonical, short⟩, Option.map_some, statementHash_same same,
      nullifier_same same canonical.1, stored]
    exact congrArg (fun root => some (PublicInputs.mk root _ _)) climbs
  next other =>
    rw [if_neg fun both => other both.1]
    rfl

theorem index_field (leafIndex : UInt64) :
    leafIndex.toNat < fieldModulus ∧
      field leafIndex.toNat = element (be32 leafIndex.toNat) := by
  have small : leafIndex.toNat < fieldModulus := leafIndex.toNat_lt.trans (by decide)
  refine ⟨small, ?_⟩
  rw [field, element]
  simp only [value_be32 small]

/-- What both clients give the circuit is one set of inputs. -/
theorem noirInputs_same (same : SameSponge barretenberg poseidon2)
    (secret accountId enrollmentId digest : Bytes32) (leafIndex : UInt64)
    {siblings : List Bytes32} (short : siblings.length ≤ 64) (depth : Nat) :
    noirInputs barretenberg depth
        { secret, accountId, enrollmentId, digest, leafIndex := leafIndex.toNat, siblings } =
      (Prover.Inputs.new poseidon2 secret accountId enrollmentId digest leafIndex siblings).bind
        fun inputs => inputs.proverToml depth := by
  obtain ⟨small, index⟩ := index_field leafIndex
  rw [noirInputs, publicInputs_same same secret accountId enrollmentId digest leafIndex short]
  cases made : Prover.Inputs.new poseidon2 secret accountId enrollmentId digest leafIndex siblings
    with
  | none => rfl
  | some inputs =>
      have kept := made
      rw [Prover.Inputs.new] at kept
      split at kept
      next =>
        cases kept
        rw [Option.map_some, Option.bind_some, Prover.Inputs.proverToml]
        simp only [Option.bind_eq_bind, Option.bind_some, Prover.fields, element_splitHiLo,
          ← index, List.length_map, small, and_true]
        rfl
      next => cases kept

section Elements

variable (poseidon2) {secret : Bytes32} (canonical : isCanonicalField secret = true)
  (accountId enrollmentId : Bytes32)

theorem statementHash_element (digest : Bytes32) :
    Circuit.statementHash poseidon2 (element (Zk.splitHiLo accountId).1)
        (element (Zk.splitHiLo accountId).2) (element (Zk.splitHiLo enrollmentId).1)
        (element (Zk.splitHiLo enrollmentId).2) (element (Zk.splitHiLo digest).1)
        (element (Zk.splitHiLo digest).2) =
      element (poseidon2.hashBytes (Prover.fields accountId enrollmentId digest).authPreimage) :=
  hash_element (bound_canonical Zk.domAuth (by decide) accountId enrollmentId
    [(Zk.splitHiLo digest).1, (Zk.splitHiLo digest).2] (by simp [splitHiLo_canonical]))

include canonical

theorem commitment_element :
    Circuit.commitment poseidon2 (element secret) = element (poseidon2.commitment secret) := by
  have each : ∀ x ∈ [Zk.domLeaf, secret], isCanonicalField x = true := by
    simp only [List.forall_mem_cons]
    exact ⟨by decide, canonical, by simp⟩
  exact hash_element each

theorem nullifier_element :
    Circuit.nullifier poseidon2 (element (Zk.splitHiLo accountId).1)
        (element (Zk.splitHiLo accountId).2) (element (Zk.splitHiLo enrollmentId).1)
        (element (Zk.splitHiLo enrollmentId).2) (element secret) =
      element (poseidon2.nullifier accountId enrollmentId secret) :=
  hash_element (bound_canonical Zk.domNullifier (by decide) accountId enrollmentId [secret]
    (by simp [canonical]))

theorem leaf_element :
    Circuit.leaf poseidon2 (element (Zk.splitHiLo accountId).1)
        (element (Zk.splitHiLo accountId).2) (element (Zk.splitHiLo enrollmentId).1)
        (element (Zk.splitHiLo enrollmentId).2) (Circuit.commitment poseidon2 (element secret)) =
      element (poseidon2.leafHash accountId enrollmentId (poseidon2.commitment secret)) := by
  rw [commitment_element poseidon2 canonical]
  exact hash_element (bound_canonical Zk.domBind (by decide) accountId enrollmentId
    [poseidon2.commitment secret]
    (by simp [Poseidon2.commitment, hashBytes_canonical]))

end Elements

/-- The circuit accepts the inputs derived exactly when the index is in the tree. -/
theorem proverToml_check {secret accountId enrollmentId digest : Bytes32} {leafIndex : UInt64}
    {siblings : List Bytes32} {inputs : Prover.Inputs} {depth : Nat}
    (made : Prover.Inputs.new poseidon2 secret accountId enrollmentId digest leafIndex siblings =
      some inputs) {publics : Circuit.PublicInputs} {w : Circuit.Witness depth}
    (given : inputs.proverToml depth = some (publics, w)) :
    Circuit.check poseidon2 publics w = true ↔ leafIndex.toNat < 2 ^ depth := by
  rw [Prover.Inputs.new] at made
  split at made
  next canonical =>
    cases made
    rw [Prover.Inputs.proverToml] at given
    split at given
    next sized =>
      cases given
      obtain ⟨⟨secretFits, each⟩, _⟩ := canonical
      have index : (element (be32 leafIndex.toNat)).val = leafIndex.toNat := by
        rw [← (index_field leafIndex).2]
        exact Nat.mod_eq_of_lt (index_field leafIndex).1
      rw [check_iff]
      constructor
      · intro shown
        rw [← index]
        exact shown.index
      · intro below
        constructor
        · exact index.trans_lt below
        · have stored := leaf_element poseidon2 secretFits accountId enrollmentId
          have fits : isCanonicalField (poseidon2.leafHash accountId enrollmentId
              (poseidon2.commitment secret)) = true :=
            hashBytes_canonical _
          rw [Circuit.Witness.stored]
          dsimp only [Prover.fields]
          rw [stored, index, map_encoding_element each, encoding_element fits,
            encoding_element (rootFromPath_canonical fits each)]
        · exact nullifier_element poseidon2 secretFits accountId enrollmentId
        · exact statementHash_element poseidon2 accountId enrollmentId digest
    next => cases given
  next => cases made

/-- Whatever the ids, the secret and the path, the web client and the prover
derive the same public inputs and give the circuit the same witness, and it
accepts it exactly when the index is in the tree. -/
theorem clients_agree (same : SameSponge barretenberg poseidon2)
    (secret accountId enrollmentId digest : Bytes32) (leafIndex : UInt64)
    {siblings : List Bytes32} (short : siblings.length ≤ 64) (depth : Nat) :
    (publicInputs barretenberg
        { secret, accountId, enrollmentId, digest, leafIndex := leafIndex.toNat, siblings }).map
        publicInputBytes =
      (Prover.Inputs.new poseidon2 secret accountId enrollmentId digest leafIndex siblings).map
        Prover.Inputs.publicInputs ∧
    noirInputs barretenberg depth
        { secret, accountId, enrollmentId, digest, leafIndex := leafIndex.toNat, siblings } =
      (Prover.Inputs.new poseidon2 secret accountId enrollmentId digest leafIndex siblings).bind
        (fun inputs => inputs.proverToml depth) ∧
    ∀ publics w, noirInputs barretenberg depth
        { secret, accountId, enrollmentId, digest, leafIndex := leafIndex.toNat, siblings } =
          some (publics, w) →
      (Circuit.check poseidon2 publics w = true ↔ leafIndex.toNat < 2 ^ depth) := by
  have inputs := noirInputs_same same secret accountId enrollmentId digest leafIndex short depth
  refine ⟨?_, inputs, ?_⟩
  · rw [publicInputs_same same secret accountId enrollmentId digest leafIndex short,
      Option.map_map]
    rfl
  · intro publics w given
    rw [inputs, Option.bind_eq_some_iff] at given
    obtain ⟨own, made, read⟩ := given
    exact proverToml_check made read

theorem clients_agree_sample :
    (publicInputs Filled.poseidon2
        { secret := be32 8
          accountId := .fill 1
          enrollmentId := .fill 8
          digest := .fill 200
          leafIndex := (1 : UInt64).toNat
          siblings := [be32 9] }).isSome = true ∧
    (publicInputs Filled.poseidon2
        { secret := be32 8
          accountId := .fill 1
          enrollmentId := .fill 8
          digest := .fill 200
          leafIndex := (1 : UInt64).toNat
          siblings := [be32 9] }).map publicInputBytes =
      (Prover.Inputs.new Filled.poseidon2 (be32 8) (.fill 1) (.fill 8) (.fill 200) 1
        [be32 9]).map Prover.Inputs.publicInputs := by
  constructor
  · decide
  · exact (clients_agree (fun _ _ => rfl) (be32 8) (.fill 1) (.fill 8) (.fill 200) 1
      (by decide) 1).1

end Agreement

/-! ### Proving -/

structure Proof where
  proof : Bytes
  publicInputs : PublicInputs

section Prove

variable {depth : Nat}

/-- Solving the circuit, and proving what it was solved for.  What Barretenberg
makes of a solution, and the randomness of it, is not otherwise known. -/
def prove (barretenberg poseidon2 : Poseidon2)
    (generateProof : Circuit.PublicInputs → Circuit.Witness depth → Bytes) (w : Witness) :
    Option Proof := do
  let expected ← publicInputs barretenberg w
  let (inputs, solved) ← noirInputs barretenberg depth w
  let got := [encoding inputs.root, encoding inputs.nullifier, encoding inputs.statementHash]
  let want := [expected.root, expected.nullifier, expected.statementHash]
  if Circuit.check poseidon2 inputs solved = true ∧ got = want ∧
      (generateProof inputs solved).length = proofBytes then
    some { proof := generateProof inputs solved, publicInputs := expected }
  else none

def evidence (treeId : UInt32) (p : Proof) : ZkEvidence where
  treeId := treeId
  root := p.publicInputs.root
  nullifier := p.publicInputs.nullifier
  proof := p.proof

/-- A proof of a solved circuit has its size, and the verifier accepts it. -/
def Complete (poseidon2 : Poseidon2) (verifier : Bytes → Bytes → Bool)
    (generateProof : Circuit.PublicInputs → Circuit.Witness depth → Bytes) : Prop :=
  ∀ inputs w, Circuit.check poseidon2 inputs w = true →
    (generateProof inputs w).length = proofBytes ∧
      verifier (generateProof inputs w) (Zk.publicInputs (encoding inputs.root)
        (encoding inputs.nullifier) (encoding inputs.statementHash)) = true

section Proves

variable {barretenberg poseidon2 : Poseidon2} (same : SameSponge barretenberg poseidon2)
  {verifier : Bytes → Bytes → Bool}
  {generateProof : Circuit.PublicInputs → Circuit.Witness depth → Bytes}
  (complete : Complete poseidon2 verifier generateProof) {secret : Bytes32}
  (canonical : isCanonicalField secret = true) {siblings : List Bytes32}
  (each : ∀ sibling ∈ siblings, isCanonicalField sibling = true)
  (accountId enrollmentId digest : Bytes32) (leafIndex : UInt64)

include same complete canonical each

/-- For field elements and an index in the tree, proving succeeds. -/
theorem prove_succeeds (long : siblings.length = depth) (shallow : depth ≤ 32)
    (below : leafIndex.toNat < 2 ^ depth) :
    ∃ p, prove barretenberg poseidon2 generateProof
        { secret, accountId, enrollmentId, digest, leafIndex := leafIndex.toNat, siblings } =
          some p ∧
      p.publicInputs =
        { root := Merkle.rootFromPath poseidon2.node (poseidon2.leafHash accountId enrollmentId
            (poseidon2.commitment secret)) leafIndex.toNat siblings
          nullifier := poseidon2.nullifier accountId enrollmentId secret
          statementHash :=
            poseidon2.hashBytes (Prover.fields accountId enrollmentId digest).authPreimage } ∧
      p.proof.length = proofBytes ∧
      verifier p.proof (Zk.publicInputs p.publicInputs.root p.publicInputs.nullifier
        p.publicInputs.statementHash) = true := by
  have short : siblings.length ≤ 64 := by omega
  obtain ⟨inputs, made⟩ : ∃ inputs, Prover.Inputs.new poseidon2 secret accountId enrollmentId
      digest leafIndex siblings = some inputs := ⟨_, if_pos ⟨⟨canonical, each⟩, short⟩⟩
  have known := made
  rw [Prover.Inputs.new, if_pos ⟨⟨canonical, each⟩, short⟩, Option.some.injEq] at known
  obtain ⟨publics, w, read⟩ : ∃ publics w, inputs.proverToml depth = some (publics, w) := by
    rw [← known]
    exact ⟨_, _, dif_pos (by simp [long])⟩
  have accepted := (proverToml_check made read).mpr below
  obtain ⟨size, verified⟩ := complete publics w accepted
  have encodings : encoding publics.root = inputs.root ∧
      encoding publics.nullifier = inputs.nullifier ∧
      encoding publics.statementHash = inputs.statementHash := by
    rw [Prover.Inputs.proverToml] at read
    split at read
    next =>
      cases read
      subst known
      have fits : isCanonicalField (poseidon2.leafHash accountId enrollmentId
          (poseidon2.commitment secret)) = true :=
        hashBytes_canonical _
      exact ⟨encoding_element (rootFromPath_canonical fits each),
        encoding_element (hashBytes_canonical _), encoding_element (hashBytes_canonical _)⟩
    next => cases read
  rw [encodings.1, encodings.2.1, encodings.2.2] at verified
  refine ⟨{ proof := generateProof publics w
            publicInputs :=
              { root := inputs.root
                nullifier := inputs.nullifier
                statementHash := inputs.statementHash } }, ?_, ?_, size, verified⟩
  · rw [prove, publicInputs_same same secret accountId enrollmentId digest leafIndex short, made,
      noirInputs_same same secret accountId enrollmentId digest leafIndex short depth, made]
    simp only [Option.map_some, Option.bind_some, Option.bind_eq_bind, read, accepted, encodings,
      size, and_self, if_true]
  · rw [← known]

end Proves

end Prove

/-! ### An enrolled secret -/

section Enrolled

variable {barretenberg poseidon2 : Poseidon2} {depth : Nat} {history : List PoolStep}
  {now : UInt32} {s : PoolStorage}

theorem inserted_at (shallow : depth ≤ 32) (chain : EmptyHashes poseidon2 depth)
    (run : Execution (pool poseidon2 depth) 0 .empty history now s) {taken : PoolStep}
    (member : taken ∈ history) {insertion : Insertion} (replied : taken.reply = .ok insertion) :
    ∃ accountId, contractId taken.action.account = some accountId ∧
      (leavesOf history insertion.treeId)[insertion.index.toNat]? =
        some (poseidon2.leafHash accountId taken.action.enrollmentId taken.action.commitment) := by
  have executed := run.executed member
  have mine : insertion ∈ enrollmentsOf history taken.action.account
      taken.action.enrollmentId := by
    apply List.mem_filterMap.mpr ⟨taken, member, ?_⟩
    rw [enrolledBy, replied]
    exact if_pos ⟨rfl, rfl⟩
  cases called : rcvInsert poseidon2 depth taken.before taken.action.account
      taken.action.enrollmentId taken.action.commitment with
  | error refusal =>
      rw [executed, (step_refused called).1] at replied
      cases replied
  | ok result =>
      obtain ⟨made, after⟩ := result
      have answer := (step_inserted called).1
      rw [← executed, replied] at answer
      cases answer
      obtain ⟨accountId, named, bound⟩ := (rcvInsert_inserts called).bound
      refine ⟨accountId, named, ?_⟩
      rcases (poolSound chain shallow run).enrolled taken.action.account
          taken.action.enrollmentId with ⟨none, _⟩ | ⟨only, _, _, once, _, _, _, held⟩
      · rw [none] at mine
        cases mine
      · rw [once] at mine
        obtain rfl := List.mem_singleton.mp mine
        rw [held, bound]

theorem leavesOf_fits (shallow : depth ≤ 32) (chain : EmptyHashes poseidon2 depth)
    (run : Execution (pool poseidon2 depth) 0 .empty history now s) (treeId : UInt32) :
    (leavesOf history treeId).length ≤ 2 ^ depth := by
  have trees := (poolSound chain shallow run).trees
  rcases Nat.lt_trichotomy treeId.toNat (currentTreeOf s).toNat with full | here | unopened
  · exact (trees.full treeId (UInt32.lt_iff_toNat_lt.mpr full)).le
  · rw [UInt32.toNat_inj.mp here]
    exact trees.room.le
  · rw [trees.unopened treeId (UInt32.lt_iff_toNat_lt.mpr unopened)]
    exact Nat.zero_le _

theorem siblings_canonical (same : SameSponge barretenberg poseidon2) {leaves : List Bytes32}
    (canonical : ∀ leaf ∈ leaves, isCanonicalField leaf = true) (depth index : Nat) :
    ∀ sibling ∈ WitnessTree.siblings (hashing barretenberg) depth leaves index,
      isCanonicalField sibling = true := by
  intro sibling member
  obtain ⟨level, _, rfl⟩ := List.mem_map.mp member
  have agree : ∀ left right, isCanonicalField left = true → isCanonicalField right = true →
      node barretenberg left right = poseidon2.node left right ∧
        isCanonicalField (node barretenberg left right) = true := by
    intro left right leftFits rightFits
    exact node_same same leftFits rightFits
  refine (Merkle.subtree_agree agree ?_ level _).2
  intro position
  rw [Merkle.padded, List.getD_eq_getElem?_getD]
  cases held : leaves[position]? with
  | none =>
      have zero : isCanonicalField (BytesN.fill 0) = true := by decide
      exact zero
  | some leaf => exact canonical leaf (List.mem_of_getElem? held)

/-- The web client's tree gives each of its leaves a path of field elements. -/
theorem web_path (same : SameSponge barretenberg poseidon2) (chunkLevel : Nat)
    {leaves : List Bytes32} (fits : leaves.length ≤ 2 ^ depth)
    (canonical : ∀ leaf ∈ leaves, isCanonicalField leaf = true)
    {read : Nat × Nat → List Bytes32} (serves : Serves leaves read) :
    ∃ t, (incrementalTree barretenberg ⟨some depth, some chunkLevel, none, none⟩).appendAll
        (hashing barretenberg) leaves = .ok t ∧
      ∀ index, ∀ bound : index < leaves.length, ∃ path,
        (t.witness (hashing barretenberg) index).run read = .ok path ∧
        path.siblings.length = depth ∧
        (∀ sibling ∈ path.siblings, isCanonicalField sibling = true) ∧
        Merkle.rootFromPath poseidon2.node leaves[index] index path.siblings =
          merkleRoot poseidon2 depth leaves := by
  have long : ((zeroHashes barretenberg depth).take depth).length = depth := by
    rw [zeroHashes, List.length_take, List.length_map, List.length_range]
    omega
  have start := @holds_start (hashing barretenberg) depth chunkLevel _ long
  obtain ⟨t, fed, holds⟩ := @Holds.appendAll _ _ depth _ [] _ leaves start fits
  rw [List.nil_append] at holds
  refine ⟨t, fed, ?_⟩
  intro index bound
  have given := holds.witness (zeroChain barretenberg depth) (fun _ => rfl) serves
    (Nat.min_le_right chunkLevel depth) bound
  have each := siblings_canonical same canonical depth index
  refine ⟨_, given.returns, ?_, each, ?_⟩
  · rw [WitnessTree.siblings, List.length_map, List.length_range]
  · rw [← rootFromPath_same same (canonical _ (List.getElem_mem bound)) each]
    exact rootFromPath_root same.sameHash fits canonical index bound

/-- A proof made with a path is accepted wherever the root it leads to is known. -/
theorem path_accepted (same : SameSponge barretenberg poseidon2) (shallow : depth ≤ 32)
    {secret : Bytes32} (canonical : isCanonicalField secret = true) {siblings : List Bytes32}
    (each : ∀ sibling ∈ siblings, isCanonicalField sibling = true)
    (long : siblings.length = depth) {leafIndex : UInt64} (below : leafIndex.toNat < 2 ^ depth)
    {adapter : Adapter} (hashes : adapter.poseidon2 = poseidon2) {verifier : Bytes → Bytes → Bool}
    (available : adapter.verifier = some verifier)
    {generateProof : Circuit.PublicInputs → Circuit.Witness depth → Bytes}
    (complete : Complete poseidon2 verifier generateProof)
    {statement : RecoveryStatement} {accountId : Bytes32}
    (named : contractId statement.account = some accountId)
    {digest : Bytes32} (hashed : statement.digest adapter.sha256 = .ok digest)
    {binding : ZkBinding} (circuit : binding.circuitId = adapter.circuitId) :
    ∃ p, prove barretenberg poseidon2 generateProof
        { secret := secret
          accountId := accountId
          enrollmentId := binding.enrollmentId
          digest := digest
          leafIndex := leafIndex.toNat
          siblings := siblings } = some p ∧
      p.publicInputs.root = Merkle.rootFromPath poseidon2.node
        (poseidon2.leafHash accountId binding.enrollmentId (poseidon2.commitment secret))
        leafIndex.toNat siblings ∧
      ∀ (treeId : UInt32) (knownRoots : KnownRoots),
        knownRoots binding.pool treeId p.publicInputs.root = some true →
        adapter.verify knownRoots statement binding (evidence treeId p) = .ok () := by
  obtain ⟨p, proved, publics, size, verified⟩ := prove_succeeds same complete canonical each
    accountId binding.enrollmentId digest leafIndex long shallow below
  refine ⟨p, proved, by rw [publics], ?_⟩
  intro treeId knownRoots known
  have projected : zkStatementFields adapter.sha256 statement binding.enrollmentId =
      .ok (Prover.fields accountId binding.enrollmentId digest) := by
    rw [zkStatementFields, named, hashed]
    rfl
  have accepted : AdapterCall.accepted adapter
      { knownRoots, statement, binding, evidence := evidence treeId p } := by
    refine AdapterCall.accepted_iff.mpr ⟨circuit, ⟨_, projected, verifier, available, ?_⟩, ?_, ?_,
      size, known⟩
    · rw [Adapter.statementHash, hashes]
      rw [publics] at verified
      simp only [evidence, publics]
      exact verified
    · rw [evidence, publics]
      exact rootFromPath_canonical (hashBytes_canonical _) each
    · rw [evidence, publics]
      exact hashBytes_canonical _
  exact accepted

/-- Whoever enrolled the commitment of a secret can prove it: from the leaves
of the tree it went into the web client makes a proof for any statement of the
account, and the adapter accepts it then and after any later insertions. -/
theorem enrolled_secret_accepted (shallow : depth ≤ 32) (chain : EmptyHashes poseidon2 depth)
    (same : SameSponge barretenberg poseidon2)
    (run : Execution (pool poseidon2 depth) 0 .empty history now s) {taken : PoolStep}
    (member : taken ∈ history) {insertion : Insertion} (replied : taken.reply = .ok insertion)
    {secret : Bytes32} (canonical : isCanonicalField secret = true)
    (committed : taken.action.commitment = commitment barretenberg secret)
    (chunkLevel : Nat) {read : Nat × Nat → List Bytes32}
    (serves : Serves (leavesOf history insertion.treeId) read)
    {adapter : Adapter} (hashes : adapter.poseidon2 = poseidon2) {verifier : Bytes → Bytes → Bool}
    (available : adapter.verifier = some verifier)
    {generateProof : Circuit.PublicInputs → Circuit.Witness depth → Bytes}
    (complete : Complete poseidon2 verifier generateProof)
    {statement : RecoveryStatement} (about : statement.account = taken.action.account)
    {digest : Bytes32} (hashed : statement.digest adapter.sha256 = .ok digest)
    {binding : ZkBinding} (enrolled : binding.enrollmentId = taken.action.enrollmentId)
    (circuit : binding.circuitId = adapter.circuitId) :
    ∃ accountId t path p, contractId taken.action.account = some accountId ∧
      (incrementalTree barretenberg ⟨some depth, some chunkLevel, none, none⟩).appendAll
        (hashing barretenberg) (leavesOf history insertion.treeId) = .ok t ∧
      (t.witness (hashing barretenberg) insertion.index.toNat).run read = .ok path ∧
      prove barretenberg poseidon2 generateProof
        { secret := secret
          accountId := accountId
          enrollmentId := taken.action.enrollmentId
          digest := digest
          leafIndex := insertion.index.toNat
          siblings := path.siblings } = some p ∧
      ∀ later now' s', Execution (pool poseidon2 depth) now s later now' s' →
        ∀ knownRoots : KnownRoots,
        (∀ root, knownRoots binding.pool insertion.treeId root =
          some (isKnownRoot s' insertion.treeId root)) →
        adapter.verify knownRoots statement binding (evidence insertion.treeId p) = .ok () := by
  obtain ⟨accountId, named, found⟩ := inserted_at shallow chain run member replied
  obtain ⟨bound, here⟩ := List.getElem?_eq_some_iff.mp found
  have fits := leavesOf_fits shallow chain run insertion.treeId
  obtain ⟨t, fed, paths⟩ := web_path same chunkLevel fits (leavesOf_canonical run _) serves
  obtain ⟨path, given, long, each, climbs⟩ := paths insertion.index.toNat bound
  rw [← about] at named
  obtain ⟨p, proved, rooted, accepts⟩ := path_accepted same shallow canonical each long
    (bound.trans_le fits) hashes available complete named hashed circuit
  rw [enrolled] at proved rooted
  rw [about] at named
  refine ⟨accountId, t, path, p, named, fed, given, proved, ?_⟩
  intro later now' s' continued knownRoots answers
  rw [commitment_same same canonical] at committed
  rw [here, committed] at climbs
  have root : p.publicInputs.root =
      merkleRoot poseidon2 depth (leavesOf history insertion.treeId) := rooted.trans climbs
  have known : isKnownRoot s' insertion.treeId p.publicInputs.root = true := by
    have sealing := continued.related Sealed Sealed.refl Sealed.trans step_sealed
    apply sealing.known
    rw [isKnownRoot, (poolSound chain shallow run).trees.root, root]
    exact ⟨_, Nat.zero_lt_of_lt bound, Nat.le_refl _, by rw [List.take_length]⟩
  exact accepts insertion.treeId knownRoots ((answers _).trans (congrArg some known))

end Enrolled

/-! ### The sample enrollment, proved -/

namespace Sampled

/-- A stand-in for a proof: the public inputs, in a proof's size. -/
def proofOf (inputs : Bytes) : Bytes := inputs ++ List.replicate (proofBytes - 96) 0

/-- Accepts the proof of the inputs it is given, and no other. -/
def verifier (proof inputs : Bytes) : Bool := proof = proofOf inputs

def adapter : Adapter := { Proven.adapter with verifier := some verifier }

def taken : PoolStep :=
  (pool Filled.poseidon2 1).step .empty
    { sequence := 90
      account := Sample.account
      enrollmentId := Proven.factor.enrollmentId
      commitment := Filled.poseidon2.commitment (encoding Proven.secret) }

def insertion : Insertion where
  treeId := 0
  index := 0
  leaf := Proven.leafOf Proven.factor.enrollmentId
    (Filled.poseidon2.commitment (encoding Proven.secret))
  root := Filled.poseidon2.node (Proven.leafOf Proven.factor.enrollmentId
    (Filled.poseidon2.commitment (encoding Proven.secret))) (Zk.zeroHash 0)

theorem taken_listed : taken ∈ Proven.pooled.1 := List.mem_cons_of_mem _ List.mem_cons_self

def generateProof (inputs : Circuit.PublicInputs) (_ : Circuit.Witness 1) : Bytes :=
  proofOf (Zk.publicInputs (encoding inputs.root) (encoding inputs.nullifier)
    (encoding inputs.statementHash))

theorem complete : Complete Filled.poseidon2 verifier generateProof := by
  intro inputs w _
  have blob : (Zk.publicInputs (encoding inputs.root) (encoding inputs.nullifier)
      (encoding inputs.statementHash)).length = 96 := by simp [Zk.publicInputs, BytesN.size]
  constructor
  · rw [generateProof, proofOf, List.length_append, List.length_replicate, blob]
    decide
  · exact decide_eq_true rfl

end Sampled

theorem enrolled_secret_accepted_sample : ∃ p,
    Sampled.adapter.verify Proven.knownRoots Proven.statement Proven.factor.binding
      (evidence 0 p) = .ok () := by
  have replied : Sampled.taken.reply = .ok Sampled.insertion := by decide +kernel
  have hashed : Proven.statement.digest Sampled.adapter.sha256 = .ok Proven.digest := by
    decide +kernel
  have fits : isCanonicalField (encoding Proven.secret) = true := encoding_canonical _
  have hashes : Sampled.adapter.poseidon2 = Filled.poseidon2 := rfl
  have available : Sampled.adapter.verifier = some Sampled.verifier := rfl
  have about : Proven.statement.account = Sampled.taken.action.account := rfl
  have enrolled : Proven.factor.binding.enrollmentId = Sampled.taken.action.enrollmentId := rfl
  have circuit : Proven.factor.binding.circuitId = Sampled.adapter.circuitId := rfl
  obtain ⟨_, _, _, p, _, _, _, _, accepted⟩ := enrolled_secret_accepted (by decide) Proven.chain
    (fun _ _ => rfl) Proven.pool_run Sampled.taken_listed replied fits rfl 0 (fun _ _ => rfl)
    hashes available Sampled.complete about hashed enrolled circuit
  exact ⟨p, accepted [] _ _ .refl Proven.knownRoots fun _ => rfl⟩

end Perch.PerchZk
