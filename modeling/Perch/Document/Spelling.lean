/-
Credentials and the texts that declare them.

A document spells a credential as text and the compiler reads it back, for
every declaration on its own although keys are canonicalized in batches.  The
other way, a replacement credential is spelled for the document by the host,
which spells no two of them alike.
-/

import Perch.Document.Derivation
import Perch.Document.Strkey
import Perch.Ir.Target

namespace Perch.Document

open Machine Recovery

/-! ### Reading a declaration -/

section Reading

variable (host : CompilerHost)

def credentialOf (s : Ir.SignerDecl) : Except DocFailure Credential :=
  match s.method with
  | .delegated address => do pure (.delegated (← addressFromStr host address))
  | .external verifier key => do
      let verifier ← addressFromStr host verifier
      let key ← hexBytes key
      pure (.external verifier key)

variable {host}

/-- Later keys are appended, so a slot keeps its credential. -/
def Batches.Grows (batches next : Batches) : Prop :=
  ∀ verifier (i : Nat) key, (batches.keys verifier)[i]? = some key →
    (next.keys verifier)[i]? = some key

theorem Batches.Grows.slot {batches next : Batches} (grows : batches.Grows next)
    {slot : Address × Option Nat} {credential : Credential}
    (read : slotCredential batches slot = .ok credential) :
    slotCredential next slot = .ok credential := by
  obtain ⟨address, place⟩ := slot
  cases place with
  | none => exact read
  | some i =>
      simp only [slotCredential, bind_eq_ok, orFail_eq_ok, pure_eq_ok] at read ⊢
      obtain ⟨key, found, rfl⟩ := read
      exact ⟨key, grows address i key found, rfl⟩

theorem Batches.add_eq_ok {batches next : Batches} {s : Ir.SignerDecl}
    (added : batches.add host s = .ok next) :
    batches.Grows next ∧ ∃ slot credential, next.slots = batches.slots ++ [slot] ∧
      slotCredential next slot = .ok credential ∧ credentialOf host s = .ok credential := by
  unfold Batches.add at added
  unfold credentialOf
  cases declares : s.method with
  | delegated text =>
      simp only [declares, bind_eq_ok, pure_eq_ok] at added
      obtain ⟨address, read, rfl⟩ := added
      refine ⟨fun _ _ _ found => found, (address, none), .delegated address, rfl, rfl, ?_⟩
      simp only [bind_eq_ok, pure_eq_ok]
      exact ⟨address, read, rfl⟩
  | external text keyHex =>
      simp only [declares, bind_eq_ok, pure_eq_ok] at added
      obtain ⟨verifier, read, key, decoded, rfl⟩ := added
      refine ⟨?_, (verifier, some (batches.keys verifier).length), .external verifier key, rfl,
        ?_, ?_⟩
      · intro other i value found
        by_cases own : other = verifier
        · subst own
          have within := (List.getElem?_eq_some_iff.mp found).1
          simp only [Function.update_self]
          rw [List.getElem?_append_left within]
          exact found
        · simp only [Function.update_of_ne own]
          exact found
      · simp [slotCredential, orFail]
      · simp only [bind_eq_ok, pure_eq_ok]
        exact ⟨verifier, read, key, decoded, rfl⟩

theorem batches_eq_ok {batches final : Batches} {signers : List Ir.SignerDecl}
    (walked : signers.foldlM (Batches.add host) batches = .ok final) :
    batches.Grows final ∧ ∃ slots, final.slots = batches.slots ++ slots ∧
      List.Forall₂ (fun s slot => ∃ credential, slotCredential final slot = .ok credential ∧
        credentialOf host s = .ok credential) signers slots := by
  induction signers generalizing batches with
  | nil =>
      simp only [List.foldlM_nil, pure_eq_ok] at walked
      subst walked
      exact ⟨fun _ _ _ found => found, [], (List.append_nil _).symm, .nil⟩
  | cons s rest ih =>
      rw [List.foldlM_cons] at walked
      obtain ⟨next, added, walked⟩ := bind_eq_ok.mp walked
      obtain ⟨grows, slot, credential, placed, read, declared⟩ := Batches.add_eq_ok added
      obtain ⟨grows', slots, appended, aligned⟩ := ih walked
      refine ⟨fun verifier i key found => grows' verifier i key (grows verifier i key found),
        slot :: slots, ?_, .cons ⟨credential, grows'.slot read, declared⟩ aligned⟩
      rw [appended, placed, List.append_assoc]
      rfl

/-- Each declaration contributes the credential it spells. -/
theorem canonicalCredentials_eq_ok {signers : List Ir.SignerDecl} {credentials : List Credential}
    (canonical : canonicalCredentials host signers = .ok credentials) :
    List.Forall₂ (fun s credential => credentialOf host s = .ok credential) signers
      credentials := by
  simp only [canonicalCredentials, bind_eq_ok] at canonical
  obtain ⟨batches, walked, _, -, read⟩ := canonical
  obtain ⟨-, slots, placed, aligned⟩ := batches_eq_ok walked
  rw [placed] at read
  have spelled := mapM_eq_ok read
  change List.Forall₂ _ slots credentials at spelled
  clear placed read walked
  induction aligned generalizing credentials with
  | nil =>
      cases spelled
      exact .nil
  | cons head _ ih =>
      cases spelled with
      | cons first rest =>
          obtain ⟨credential, slot, declared⟩ := head
          obtain rfl := Except.ok.inj (slot.symm.trans first)
          exact .cons declared (ih rest)

end Reading

/-! ### Spelling a credential -/

/-- What the host conversions and the hex library document: a `G...` or `C...`
address is spelled as a text that reads back as the address, and hex decodes
to the bytes it encodes. -/
structure Spells (host : CompilerHost) : Prop where
  address : ∀ address, (taggedAddress address).isSome = true →
    host.addressFromStr (Utf8.lossy (host.addressToString address)) = some address
  hex : ∀ bytes, hexPairs (Ir.utf8 (host.hexEncode bytes)) = some bytes

section Spelling

variable {host : CompilerHost} (spells : Spells host)

include spells

theorem Spells.address_injective {first second : Address}
    (supported : (taggedAddress first).isSome = true)
    (supported' : (taggedAddress second).isSome = true)
    (same : Utf8.lossy (host.addressToString first) = Utf8.lossy (host.addressToString second)) :
    first = second := by
  have read := spells.address first supported
  rw [same, spells.address second supported'] at read
  exact (Option.some.inj read).symm

theorem Spells.hex_injective {first second : Bytes}
    (same : host.hexEncode first = host.hexEncode second) : first = second := by
  have read := spells.hex first
  rw [same, spells.hex second] at read
  exact (Option.some.inj read).symm

theorem Spells.method_injective {first second : Credential} {encoded encoded' : Bytes}
    (encodes : first.encode = .ok encoded) (encodes' : second.encode = .ok encoded')
    (same : toSignerMethod host first = toSignerMethod host second) : first = second := by
  cases first with
  | delegated address =>
      cases second with
      | external => cases same
      | delegated other =>
          simp only [Credential.encode, bind_eq_ok, orFail_eq_ok] at encodes encodes'
          obtain ⟨_, supported, -⟩ := encodes
          obtain ⟨_, supported', -⟩ := encodes'
          have texts := Ir.SignerMethod.delegated.inj same
          rw [spells.address_injective (by simp [supported]) (by simp [supported']) texts]
  | external verifier key =>
      cases second with
      | delegated => cases same
      | external other key' =>
          simp only [Credential.encode, bind_eq_ok, orFail_eq_ok] at encodes encodes'
          obtain ⟨_, supported, -⟩ := encodes
          obtain ⟨_, supported', -⟩ := encodes'
          obtain ⟨texts, hexes⟩ := Ir.SignerMethod.external.inj same
          rw [spells.address_injective (by simp [supported]) (by simp [supported']) texts,
            spells.hex_injective hexes]

theorem Spells.rotation_injective {first second : ZkEnrollment}
    (same : toRotation host first = toRotation host second) : first = second := by
  obtain ⟨id, commitment⟩ := first
  obtain ⟨id', commitment'⟩ := second
  obtain ⟨ids, commitments⟩ := Ir.ZkRotation.mk.inj same
  have sameId : id = id' := BytesN.ext_bytes (spells.hex_injective ids)
  have sameCommitment : commitment = commitment' :=
    BytesN.ext_bytes (spells.hex_injective commitments)
  rw [sameId, sameCommitment]

end Spelling

/-! ### Hex pairs -/

theorem hexPairs_cons_eq_some {first second : UInt8} {rest bytes : Bytes} :
    hexPairs (first :: second :: rest) = some bytes ↔
      ∃ high low tail, hexNibble first = some high ∧ hexNibble second = some low ∧
        hexPairs rest = some tail ∧ bytes = (high * 16 + low) :: tail := by
  simp only [hexPairs, Option.bind_eq_bind, Option.bind_eq_some_iff, Option.some.injEq]
  constructor
  · rintro ⟨high, readHigh, low, readLow, tail, decoded, rfl⟩
    exact ⟨high, low, tail, readHigh, readLow, decoded, rfl⟩
  · rintro ⟨high, low, tail, readHigh, readLow, decoded, rfl⟩
    exact ⟨high, readHigh, low, readLow, tail, decoded, rfl⟩

theorem length_of_hexPairs {text bytes : Bytes} (decoded : hexPairs text = some bytes) :
    text.length = 2 * bytes.length := by
  induction text using hexPairs.induct generalizing bytes with
  | case1 =>
      obtain rfl := Option.some.inj decoded
      rfl
  | case2 => cases decoded
  | case3 first second rest ih =>
      obtain ⟨_, _, tail, -, -, decodedTail, rfl⟩ := hexPairs_cons_eq_some.mp decoded
      rw [List.length_cons, List.length_cons, List.length_cons, ih decodedTail]
      omega

/-! ### The local host spells -/

theorem hexNibble_hexDigit {n : UInt8} (small : n < 16) :
    ∃ letter, String.utf8EncodeChar (hexDigit n) = [letter] ∧ hexNibble letter = some n := by
  have every : ∀ m < 16, ∃ letter ∈ String.utf8EncodeChar (hexDigit (UInt8.ofNat m)),
      String.utf8EncodeChar (hexDigit (UInt8.ofNat m)) = [letter] ∧
        hexNibble letter = some (UInt8.ofNat m) := by
    decide
  have bound : n.toNat < 16 := UInt8.lt_iff_toNat_lt.mp small
  obtain ⟨letter, -, encoded, read⟩ := every n.toNat bound
  rw [UInt8.ofNat_toNat] at encoded read
  exact ⟨letter, encoded, read⟩

theorem hexPairs_localHexEncode (bytes : Bytes) :
    hexPairs (Ir.utf8 (localHexEncode bytes)) = some bytes := by
  rw [localHexEncode, utf8_ofList]
  induction bytes with
  | nil => rfl
  | cons byte rest ih =>
      have fits := byte.toNat_lt
      have high : byte / 16 < 16 := by
        rw [UInt8.lt_iff_toNat_lt, UInt8.toNat_div]
        change byte.toNat / 16 < 16
        omega
      have low : byte % 16 < 16 := by
        rw [UInt8.lt_iff_toNat_lt, UInt8.toNat_mod]
        change byte.toNat % 16 < 16
        omega
      have joined : byte / 16 * 16 + byte % 16 = byte := by
        rw [← UInt8.toNat_inj, UInt8.toNat_add, UInt8.toNat_mul, UInt8.toNat_div, UInt8.toNat_mod]
        change (byte.toNat / 16 * 16 % 256 + byte.toNat % 16) % 256 = byte.toNat
        omega
      obtain ⟨first, firstEncoded, firstRead⟩ := hexNibble_hexDigit high
      obtain ⟨second, secondEncoded, secondRead⟩ := hexNibble_hexDigit low
      rw [List.flatMap_cons, List.flatMap_append, List.flatMap_cons, List.flatMap_cons,
        List.flatMap_nil, firstEncoded, secondEncoded]
      simp only [List.append_nil, List.cons_append, List.nil_append, hexPairs, firstRead,
        secondRead,
        ih, Option.bind_eq_bind, Option.bind_some, joined]

/-- A strkey is plain text, so decoding keeps it. -/
theorem utf8_lossy_strkey (version : UInt8) (payload : Bytes) :
    Ir.utf8 (Utf8.lossy (strkey version payload)) = strkey version payload := by
  have plain : ∀ letters : Bytes, letters.all Ir.isBase32 = true →
      Utf8.replacementCharacter ∉ Utf8.lossyChars letters := by
    intro letters valid
    induction letters with
    | nil => simp [Utf8.lossyChars.eq_def]
    | cons letter rest ih =>
        rw [List.all_cons, Bool.and_eq_true] at valid
        have small : letter.toNat < 0x80 := by
          have range := isBase32_iff.mp valid.1
          omega
        rw [Utf8.lossyChars_one (Utf8.width_eq_one.mpr small), List.mem_cons, not_or]
        refine ⟨fun same => ?_, ih valid.2⟩
        have value := congrArg Char.toNat same
        rw [Utf8.toNat_ofNat (n := letter.toNat) (.inl (by omega))] at value
        have special : Utf8.replacementCharacter.toNat = 0xFFFD := by decide
        omega
  rw [Utf8.lossy, utf8_ofList]
  exact Utf8.encode_lossyChars (plain _ (strkey_valid version payload))

theorem localHost_spells (network : String) : Spells (localHost network) where
  address := by
    intro address supported
    change localAddressFromStr (Utf8.lossy (localAddressToString address)) = some address
    have shaped (version : UInt8) (payload : Bytes32)
        (listed : version ∈ AddressKind.any.versions) :
        Ir.isAddressShape (Utf8.lossy (strkey version payload.bytes)) = true :=
      AddressKind.shape_iff.mpr ⟨version, List.mem_map_of_mem listed, payload.bytes, payload.size,
        utf8_lossy_strkey version payload.bytes⟩
    cases address with
    | account key =>
        have shape := shaped accountVersion key (by decide)
        unfold localAddressFromStr localAddressToString
        rw [utf8_lossy_strkey, base32Bytes_strkey key.size, strkeyData, List.cons_append]
        simp [shape, List.take_left' key.size, key.size]
    | contract id =>
        have shape := shaped contractVersion id (by decide)
        unfold localAddressFromStr localAddressToString
        rw [utf8_lossy_strkey, base32Bytes_strkey id.size, strkeyData, List.cons_append]
        have apart : contractVersion ≠ accountVersion := by decide
        simp [shape, apart, List.take_left' id.size, id.size]
    | other xdr => cases supported
  hex := hexPairs_localHexEncode

end Perch.Document
