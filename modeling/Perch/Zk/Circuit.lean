/-
The circuit, and what an accepted proof says of the pool.

The circuit computes over field elements and the contracts over bytes.  On
canonical encodings the two are one computation, so a witness made from the
pool's bytes satisfies the circuit, and a witness that satisfies it names a leaf
the pool stores.  What the circuit does not range-check, the halves of its ids,
the statement hash binds.
-/

import Perch.Zk.Adapter
import Perch.Zk.Trees

namespace Perch.Zk

open Machine Recovery

/-! ### The circuit -/

abbrev Element := Fin fieldModulus

namespace Circuit

def domLeaf : Element :=
  ⟨0x1981de3e07709613862272edb5ff4fab545737382d1405fe8d0970dc7d4d7ed6, by decide⟩

def domBind : Element :=
  ⟨0x20ae6172af8bed19c921e91e21641198661035616a6a4d733346853501fd07c5, by decide⟩

def domNullifier : Element :=
  ⟨0x0280c3170f4abb8389838a5c280dbdac8bfd7c75fcb780a9485d93af553ab840, by decide⟩

def domAuth : Element :=
  ⟨0x04e4c99c7477379c7e47c9380170e3fb1e7c565afe67dd56216df99861f1fb3c, by decide⟩

structure PublicInputs where
  root : Element
  nullifier : Element
  statementHash : Element
deriving DecidableEq

structure Witness (depth : Nat) where
  secret : Element
  acctHi : Element
  acctLo : Element
  enrHi : Element
  enrLo : Element
  digestHi : Element
  digestLo : Element
  leafIndex : Element
  siblings : List Element
  sized : siblings.length = depth

section Relation

variable (poseidon2 : Poseidon2)

/-- `Poseidon2::hash(inputs, inputs.len())`. -/
def hash (inputs : List Element) : Element :=
  ⟨poseidon2.hash (inputs.map Fin.val), poseidon2.reduced _⟩

def hash2 (a b : Element) : Element := hash poseidon2 [a, b]

def commitment (secret : Element) : Element := hash poseidon2 [domLeaf, secret]

def leaf (acctHi acctLo enrHi enrLo inner : Element) : Element :=
  hash poseidon2 [domBind, acctHi, acctLo, enrHi, enrLo, inner]

def nullifier (acctHi acctLo enrHi enrLo secret : Element) : Element :=
  hash poseidon2 [domNullifier, acctHi, acctLo, enrHi, enrLo, secret]

def statementHash (acctHi acctLo enrHi enrLo digestHi digestLo : Element) : Element :=
  hash poseidon2 [domAuth, acctHi, acctLo, enrHi, enrLo, digestHi, digestLo]

/-- `to_le_bits`: that the bits are enough is a constraint. -/
def toLeBits (depth : Nat) (x : Element) : Option (List Nat) :=
  if x.val < 2 ^ depth then some ((List.range depth).map fun i => (x.val >>> i) &&& 1) else none

def merkleRoot (depth : Nat) (leaf leafIndex : Element) (siblings : List Element) :
    Option Element :=
  (toLeBits depth leafIndex).map fun bits =>
    (bits.zip siblings).foldl
      (fun cur step => if step.1 = 0 then hash2 poseidon2 cur step.2 else hash2 poseidon2 step.2 cur)
      leaf

def check {depth : Nat} (inputs : PublicInputs) (w : Witness depth) : Bool :=
  let stored := leaf poseidon2 w.acctHi w.acctLo w.enrHi w.enrLo (commitment poseidon2 w.secret)
  decide (merkleRoot poseidon2 depth stored w.leafIndex w.siblings = some inputs.root) &&
    decide (nullifier poseidon2 w.acctHi w.acctLo w.enrHi w.enrLo w.secret = inputs.nullifier) &&
    decide (statementHash poseidon2 w.acctHi w.acctLo w.enrHi w.enrLo w.digestHi w.digestLo =
      inputs.statementHash)

end Relation

end Circuit

/-! ### Elements and bytes -/

def element (x : Bytes32) : Element := ⟨value x % fieldModulus, Nat.mod_lt _ (by decide)⟩

def encoding (x : Element) : Bytes32 := be32 x.val

section Encoding

theorem value_encoding (x : Element) : value (encoding x) = x.val := value_be32 x.isLt

theorem encoding_canonical (x : Element) : isCanonicalField (encoding x) = true := by
  rw [isCanonicalField_iff, value_encoding]
  exact x.isLt

theorem encoding_injective {x y : Element} (same : encoding x = encoding y) : x = y := by
  apply Fin.ext
  rw [← value_encoding x, ← value_encoding y, same]

@[simp] theorem element_encoding (x : Element) : element (encoding x) = x := by
  apply Fin.ext
  change value (encoding x) % fieldModulus = x.val
  rw [value_encoding, Nat.mod_eq_of_lt x.isLt]

theorem encoding_element {x : Bytes32} (canonical : isCanonicalField x = true) :
    encoding (element x) = x := by
  apply value_injective
  rw [value_encoding]
  exact Nat.mod_eq_of_lt (isCanonicalField_iff.mp canonical)

theorem element_val {x : Bytes32} (canonical : isCanonicalField x = true) :
    (element x).val = value x :=
  Nat.mod_eq_of_lt (isCanonicalField_iff.mp canonical)

variable {poseidon2 : Poseidon2}

/-- The circuit hashes elements as the contracts hash their encodings. -/
theorem encoding_hash (inputs : List Element) :
    encoding (Circuit.hash poseidon2 inputs) = poseidon2.hashBytes (inputs.map encoding) := by
  have values : (inputs.map encoding).map value = inputs.map Fin.val := by
    simp only [List.map_map, Function.comp_def, value_encoding]
  rw [Poseidon2.hashBytes, values, encoding, Circuit.hash]

theorem map_encoding_element {bytes : List Bytes32}
    (canonical : ∀ x ∈ bytes, isCanonicalField x = true) :
    (bytes.map element).map encoding = bytes := by
  induction bytes with
  | nil => rfl
  | cons x rest ih =>
      obtain ⟨here, later⟩ := List.forall_mem_cons.mp canonical
      rw [List.map_cons, List.map_cons, encoding_element here, ih later]

/-- The contracts hash canonical encodings as the circuit hashes elements. -/
theorem hash_element {inputs : List Bytes32}
    (canonical : ∀ x ∈ inputs, isCanonicalField x = true) :
    Circuit.hash poseidon2 (inputs.map element) = element (poseidon2.hashBytes inputs) := by
  apply encoding_injective
  rw [encoding_hash, map_encoding_element canonical, encoding_element (hashBytes_canonical inputs)]

theorem value_extend (half : Bytes) (size : half.length = 16) :
    value (extend half size) = beValue half := by
  have zeros : beValue (List.replicate 16 0) = 0 := by decide
  rw [value, extend, beValue_append, zeros, Nat.zero_mul, Nat.zero_add]

theorem extend_canonical (half : Bytes) (size : half.length = 16) :
    isCanonicalField (extend half size) = true := by
  rw [isCanonicalField_iff]
  calc
    value (extend half size) = beValue half := value_extend half size
    _ < 256 ^ half.length := beValue_lt half
    _ < fieldModulus := by
      rw [size]
      decide

theorem splitHiLo_canonical (x : Bytes32) :
    isCanonicalField (splitHiLo x).1 = true ∧ isCanonicalField (splitHiLo x).2 = true := by
  constructor
  · exact extend_canonical (x.bytes.take 16) (by simp [x.size])
  · exact extend_canonical (x.bytes.drop 16) (by simp [x.size])

theorem encoding_domBind : encoding Circuit.domBind = domBind := rfl

theorem encoding_domAuth : encoding Circuit.domAuth = domAuth := rfl

end Encoding

/-! ### The client's hashes -/

def domLeaf : Bytes32 :=
  be32 0x1981de3e07709613862272edb5ff4fab545737382d1405fe8d0970dc7d4d7ed6

def domNullifier : Bytes32 :=
  be32 0x0280c3170f4abb8389838a5c280dbdac8bfd7c75fcb780a9485d93af553ab840

section Hasher

variable (poseidon2 : Poseidon2)

def Poseidon2.commitment (secret : Bytes32) : Bytes32 := poseidon2.hashBytes [domLeaf, secret]

def Poseidon2.nullifier (accountId enrollmentId secret : Bytes32) : Bytes32 :=
  poseidon2.hashBytes [domNullifier, (splitHiLo accountId).1, (splitHiLo accountId).2,
    (splitHiLo enrollmentId).1, (splitHiLo enrollmentId).2, secret]

end Hasher

/-! ### The circuit over bytes -/

section Bytes

variable {poseidon2 : Poseidon2} {depth : Nat}

theorem encoding_hash2 (a b : Element) :
    encoding (Circuit.hash2 poseidon2 a b) = poseidon2.node (encoding a) (encoding b) :=
  encoding_hash [a, b]

/-- The leaf a witness names, as the pool would store it. -/
def Circuit.Witness.stored (poseidon2 : Poseidon2) (w : Circuit.Witness depth) : Element :=
  Circuit.leaf poseidon2 w.acctHi w.acctLo w.enrHi w.enrLo (Circuit.commitment poseidon2 w.secret)

/-- The decomposition into bits bounds the index, and the loop over them is the
way up the contracts take. -/
theorem merkleRoot_eq_some {leaf leafIndex root : Element} {siblings : List Element}
    (sized : siblings.length = depth) :
    Circuit.merkleRoot poseidon2 depth leaf leafIndex siblings = some root ↔
      leafIndex.val < 2 ^ depth ∧
        Merkle.rootFromPath poseidon2.node (encoding leaf) leafIndex.val
          (siblings.map encoding) = encoding root := by
  have climbs : (((List.range depth).map fun i => (leafIndex.val >>> i) &&& 1).zip siblings).foldl
      (fun cur step => if step.1 = 0 then Circuit.hash2 poseidon2 cur step.2
        else Circuit.hash2 poseidon2 step.2 cur) leaf =
      Merkle.climbPath (Circuit.hash2 poseidon2) leafIndex.val 0 leaf siblings := by
    rw [Merkle.climbPath_foldl, sized, List.zip_map_left, List.foldl_map, List.range_eq_range']
    congr 1
    funext cur step
    have bit := Nat.and_one_is_mod (leafIndex.val >>> step.1)
    dsimp only [Prod.map]
    split
    · rw [if_neg (by omega)]
      rfl
    · rw [if_pos (by omega)]
      rfl
  rw [Circuit.merkleRoot, Circuit.toLeBits]
  split
  next fits =>
    rw [Option.map_some, climbs, Option.some.injEq, Merkle.rootFromPath,
      ← Merkle.climbPath_map encoding_hash2]
    constructor
    · rintro rfl
      exact ⟨fits, rfl⟩
    · rintro ⟨_, same⟩
      exact encoding_injective same
  next beyond =>
    rw [Option.map_none]
    constructor
    · intro absent
      cases absent
    · rintro ⟨fits, _⟩
      exact absurd fits beyond

structure Shows (poseidon2 : Poseidon2) (inputs : Circuit.PublicInputs)
    (w : Circuit.Witness depth) : Prop where
  index : w.leafIndex.val < 2 ^ depth
  root : Merkle.rootFromPath poseidon2.node (encoding (w.stored poseidon2)) w.leafIndex.val
    (w.siblings.map encoding) = encoding inputs.root
  nullifier : Circuit.nullifier poseidon2 w.acctHi w.acctLo w.enrHi w.enrLo w.secret =
    inputs.nullifier
  statementHash : Circuit.statementHash poseidon2 w.acctHi w.acctLo w.enrHi w.enrLo w.digestHi
    w.digestLo = inputs.statementHash

theorem check_iff {inputs : Circuit.PublicInputs} {w : Circuit.Witness depth} :
    Circuit.check poseidon2 inputs w = true ↔ Shows poseidon2 inputs w := by
  simp only [Circuit.check, Bool.and_eq_true, decide_eq_true_eq, merkleRoot_eq_some w.sized]
  constructor
  · rintro ⟨⟨⟨index, root⟩, nullifier⟩, statementHash⟩
    exact ⟨index, root, nullifier, statementHash⟩
  · rintro ⟨index, root, nullifier, statementHash⟩
    exact ⟨⟨⟨index, root⟩, nullifier⟩, statementHash⟩

end Bytes

end Perch.Zk
