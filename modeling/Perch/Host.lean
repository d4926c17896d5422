/-
The Soroban host as the contracts see it: byte strings, addresses, host
values, authorization contexts, and the OpenZeppelin smart-account types that
cross contract boundaries.

A `BytesN` carries the proof of its length, so a 32-byte value of the wrong
size cannot be built.  SHA-256 is a host function and stays a parameter.
-/

import Mathlib.Data.List.Basic

namespace Perch

abbrev Bytes := List UInt8

structure BytesN (n : Nat) where
  bytes : Bytes
  size : bytes.length = n
deriving DecidableEq

abbrev Bytes32 := BytesN 32

instance instLawfulBEqBytes32 : LawfulBEq Bytes32 := inferInstance

/-- A condition on an optional value is decided by looking at the value, not by
going through every value of its type. -/
instance instDecidableForallOption {α : Type} {p : α → Prop} [DecidablePred p]
    (value : Option α) : Decidable (∀ a ∈ value, p a) :=
  Option.decidableForallMem value

def BytesN.fill {n : Nat} (byte : UInt8) : BytesN n :=
  ⟨List.replicate n byte, List.length_replicate⟩

theorem BytesN.ext_bytes {n : Nat} {left right : BytesN n} (same : left.bytes = right.bytes) :
    left = right := by
  cases left
  cases right
  cases same
  rfl

abbrev Sha256 := Bytes → Bytes32

/-! ### Addresses -/

/-- An `Address`.  The recovery stack accepts `G...` accounts and `C...`
contracts; every other shape is kept by its XDR and refused by the encodings. -/
inductive Address
  | account (key : Bytes32)
  | contract (id : Bytes32)
  | other (xdr : Bytes)
deriving DecidableEq

inductive AddressKind
  | account
  | contract
deriving DecidableEq

def AddressKind.tag : AddressKind → UInt8
  | .account => 0
  | .contract => 1

def addressPayload : Address → Option (AddressKind × Bytes32)
  | .account key => some (.account, key)
  | .contract id => some (.contract, id)
  | .other _ => none

def contractId : Address → Option Bytes32
  | .contract id => some id
  | _ => none

/-- `tag || payload`, where either supported address kind is acceptable. -/
def taggedAddress (address : Address) : Option Bytes :=
  (addressPayload address).map fun (kind, payload) => kind.tag :: payload.bytes

theorem contractId_eq_some {address : Address} {id : Bytes32} :
    contractId address = some id ↔ address = .contract id := by
  cases address <;> simp [contractId]

/-! ### Values and contexts -/

abbrev Symbol := String

/-- A Soroban `String`: any bytes, not necessarily UTF-8. -/
abbrev SString := Bytes

/-- A host value.  Only byte strings are ever decoded by the contracts here;
every other value is kept by its XDR. -/
inductive Val
  | bytes (value : Bytes)
  | other (xdr : Bytes)
deriving DecidableEq

/-- `Bytes::try_from_val`. -/
def Val.toBytes? : Val → Option Bytes
  | .bytes value => some value
  | .other _ => none

structure ContractContext where
  contract : Address
  fnName : Symbol
  args : List Val
deriving DecidableEq

/-- What an authorization entry asks the account to authorize. -/
inductive Context
  | contract (call : ContractContext)
  | createContract (wasmHash : Bytes32)
deriving DecidableEq

/-! ### OpenZeppelin smart-account types -/

inductive Signer
  | delegated (address : Address)
  | external (verifier : Address) (key : Bytes)
deriving DecidableEq

inductive ContextRuleType
  | default
  | callContract (contract : Address)
  | createContract (wasmHash : Bytes32)
deriving DecidableEq

structure ContextRule where
  id : UInt32
  contextType : ContextRuleType
  name : SString
  signers : List Signer
  policies : List Address
  validUntil : Option UInt32
deriving DecidableEq

end Perch
