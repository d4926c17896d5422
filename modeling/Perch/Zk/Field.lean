/-
The circuit's field: canonical encodings, the hash over it, and the projection
of a recovery statement onto its elements.

A verifier reads its public inputs modulo the order of the field, so bytes and
elements correspond only on canonical encodings.
-/

import Perch.Recovery.Statement

namespace Perch.Zk

open Machine Recovery

def bn254ScalarModulus : Bytes :=
  [0x30, 0x64, 0x4e, 0x72, 0xe1, 0x31, 0xa0, 0x29, 0xb8, 0x50, 0x45, 0xb6, 0x81, 0x81, 0x58, 0x5d,
   0x28, 0x33, 0xe8, 0x48, 0x79, 0xb9, 0x70, 0x91, 0x43, 0xe1, 0xf5, 0x93, 0xf0, 0x00, 0x00, 0x01]

def fieldModulus : Nat :=
  0x30644e72e131a029b85045b68181585d2833e84879b9709143e1f593f0000001

theorem beValue_modulus : beValue bn254ScalarModulus = fieldModulus := by decide

def value (x : Bytes32) : Nat := beValue x.bytes

def be32 (n : Nat) : Bytes32 := ⟨beBytes 32 n, beBytes_length 32 n⟩

theorem value_injective {x y : Bytes32} (same : value x = value y) : x = y :=
  BytesN.ext_bytes (beValue_injective (x.size.trans y.size.symm) same)

theorem value_be32 {n : Nat} (fits : n < fieldModulus) : value (be32 n) = n := by
  rw [value, be32, beValue_beBytes]
  exact Nat.mod_eq_of_lt (Nat.lt_trans fits (by decide))

/-- Whether big-endian bytes are a canonical field element. -/
def isCanonicalField (x : Bytes32) : Bool := bytesBelow x.bytes bn254ScalarModulus

theorem isCanonicalField_iff {x : Bytes32} :
    isCanonicalField x = true ↔ value x < fieldModulus := by
  rw [isCanonicalField, bytesBelow_iff (x.size.trans rfl), beValue_modulus]
  rfl

theorem eq_of_congruent {x y : Bytes32} (canonical : isCanonicalField x = true)
    (canonical' : isCanonicalField y = true)
    (congruent : value x % fieldModulus = value y % fieldModulus) : x = y := by
  rw [Nat.mod_eq_of_lt (isCanonicalField_iff.mp canonical),
    Nat.mod_eq_of_lt (isCanonicalField_iff.mp canonical')] at congruent
  exact value_injective congruent

/-! ### The hash -/

/-- Poseidon2 over the field, of any number of elements. -/
structure Poseidon2 where
  hash : List Nat → Nat
  reduced : ∀ inputs, hash inputs < fieldModulus

/-- `Hasher::hash`. -/
def Poseidon2.hashBytes (poseidon2 : Poseidon2) (inputs : List Bytes32) : Bytes32 :=
  be32 (poseidon2.hash (inputs.map value))

theorem hashBytes_canonical {poseidon2 : Poseidon2} (inputs : List Bytes32) :
    isCanonicalField (poseidon2.hashBytes inputs) = true := by
  rw [isCanonicalField_iff, Poseidon2.hashBytes, value_be32 (poseidon2.reduced _)]
  exact poseidon2.reduced _

/-! ### The statement's projection -/

/-- A half of a 32-byte value, extended with zeros on the left. -/
def extend (half : Bytes) (size : half.length = 16) : Bytes32 :=
  ⟨List.replicate 16 0 ++ half, by simp [size]⟩

def splitHiLo (x : Bytes32) : Bytes32 × Bytes32 :=
  (extend (x.bytes.take 16) (by simp [x.size]), extend (x.bytes.drop 16) (by simp [x.size]))

theorem splitHiLo_injective {x y : Bytes32} (same : splitHiLo x = splitHiLo y) : x = y := by
  simp only [splitHiLo, extend, Prod.mk.injEq, BytesN.mk.injEq, List.append_cancel_left_eq] at same
  obtain ⟨high, low⟩ := same
  apply BytesN.ext_bytes
  rw [← List.take_append_drop 16 x.bytes, high, low, List.take_append_drop]

def domAuth : Bytes32 :=
  be32 0x04e4c99c7477379c7e47c9380170e3fb1e7c565afe67dd56216df99861f1fb3c

structure ZkStatementFields where
  accountHi : Bytes32
  accountLo : Bytes32
  enrollmentHi : Bytes32
  enrollmentLo : Bytes32
  digestHi : Bytes32
  digestLo : Bytes32
deriving DecidableEq

def ZkStatementFields.authPreimage (fields : ZkStatementFields) : List Bytes32 :=
  [domAuth, fields.accountHi, fields.accountLo, fields.enrollmentHi, fields.enrollmentLo,
    fields.digestHi, fields.digestLo]

/-- Project a statement and the enrolled id onto circuit field elements. -/
def zkStatementFields (sha256 : Sha256) (statement : RecoveryStatement)
    (enrollmentId : Bytes32) : Except StatementError ZkStatementFields := do
  let account ← orFail (contractId statement.account) .accountNotContract
  let digest ← statement.digest sha256
  pure
    { accountHi := (splitHiLo account).1
      accountLo := (splitHiLo account).2
      enrollmentHi := (splitHiLo enrollmentId).1
      enrollmentLo := (splitHiLo enrollmentId).2
      digestHi := (splitHiLo digest).1
      digestLo := (splitHiLo digest).2 }

theorem authPreimage_injective {fields fields' : ZkStatementFields}
    (same : fields.authPreimage.map value = fields'.authPreimage.map value) :
    fields = fields' := by
  have pieces := List.map_injective_iff.mpr (fun _ _ => value_injective) same
  simp only [ZkStatementFields.authPreimage, List.cons.injEq, and_true, true_and] at pieces
  obtain ⟨accountHi, accountLo, enrollmentHi, enrollmentLo, digestHi, digestLo⟩ := pieces
  cases fields
  cases fields'
  subst accountHi accountLo enrollmentHi enrollmentLo digestHi digestLo
  rfl

/-- The projection determines the digest and the enrollment id. -/
theorem zkStatementFields_eq_ok {sha256 : Sha256} {statement statement' : RecoveryStatement}
    {enrollmentId enrollmentId' : Bytes32} {fields : ZkStatementFields}
    (projected : zkStatementFields sha256 statement enrollmentId = .ok fields)
    (projected' : zkStatementFields sha256 statement' enrollmentId' = .ok fields) :
    enrollmentId = enrollmentId' ∧ ∃ encoded encoded', statement.encode = .ok encoded ∧
      statement'.encode = .ok encoded' ∧ sha256 encoded = sha256 encoded' := by
  simp only [zkStatementFields, RecoveryStatement.digest, bind_eq_ok, orFail_eq_ok, pure_eq_ok]
    at projected projected'
  obtain ⟨_, _, digest, ⟨encoded, encodes, rfl⟩, rfl⟩ := projected
  obtain ⟨_, _, digest', ⟨encoded', encodes', rfl⟩, same⟩ := projected'
  simp only [ZkStatementFields.mk.injEq] at same
  obtain ⟨_, _, enrollmentHi, enrollmentLo, digestHi, digestLo⟩ := same
  refine ⟨?_, encoded, encoded', encodes, encodes', ?_⟩
  · exact (splitHiLo_injective (Prod.ext enrollmentHi enrollmentLo)).symm
  · exact (splitHiLo_injective (Prod.ext digestHi digestLo)).symm

def publicInputs (root nullifier statementHash : Bytes32) : Bytes :=
  root.bytes ++ nullifier.bytes ++ statementHash.bytes

/-- The three public inputs of a blob, as field elements. -/
def residues (inputs : Bytes) : Nat × Nat × Nat :=
  (beValue (inputs.take 32) % fieldModulus, beValue ((inputs.drop 32).take 32) % fieldModulus,
    beValue (inputs.drop 64) % fieldModulus)

theorem residues_publicInputs (root nullifier statementHash : Bytes32) :
    residues (publicInputs root nullifier statementHash) =
      (value root % fieldModulus, value nullifier % fieldModulus,
        value statementHash % fieldModulus) := by
  have first : (publicInputs root nullifier statementHash).take 32 = root.bytes := by
    rw [publicInputs, List.append_assoc]
    exact List.take_left' root.size
  have rest : (publicInputs root nullifier statementHash).drop 32 =
      nullifier.bytes ++ statementHash.bytes := by
    rw [publicInputs, List.append_assoc]
    exact List.drop_left' root.size
  have third : (publicInputs root nullifier statementHash).drop 64 = statementHash.bytes := by
    rw [show 64 = 32 + 32 from rfl, ← List.drop_drop, rest]
    exact List.drop_left' nullifier.size
  rw [residues, first, rest, third, List.take_left' nullifier.size]
  rfl

end Perch.Zk
