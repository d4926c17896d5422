/-
Reading `G...` and `C...` addresses in the wallet.

The bits of a strkey pass through a 32-bit word, five at a time, and leave it
a byte at a time.  What comes out is checked against its checksum, and the
version byte decides between an account and a contract.
-/

import Perch.Document.Strkey
import Perch.Machine.Js

namespace Perch.PerchJs

open Machine Machine.Js Document

inductive Failure
  | notAnAddress (strkey : Text)
  | badChecksum (strkey : Text)
  | unsupportedVersion (strkey : Text)
  | notAContract (strkey : Text)
  | wrongLength (expected actual : Nat)
  | notU32 (value : Number)
  | notU64 (value : Int)
deriving DecidableEq

def Failure.message (numberText : Number → Text) : Failure → Text
  | notAnAddress strkey => utf16 "not a G... or C... address: " ++ strkey
  | badChecksum strkey => utf16 "bad strkey checksum: " ++ strkey
  | unsupportedVersion strkey => utf16 "unsupported strkey version: " ++ strkey
  | notAContract strkey => utf16 "expected a contract address: " ++ strkey
  | wrongLength expected actual =>
      utf16 "expected " ++ decimalText expected ++ utf16 " bytes, got " ++ decimalText actual
  | notU32 value => utf16 "not a u32: " ++ numberText value
  | notU64 value => utf16 "not a u64: " ++ decimalText value

def base32Alphabet : Text := utf16 "ABCDEFGHIJKLMNOPQRSTUVWXYZ234567"

def indexOf (letter : UInt16) : UInt32 :=
  match base32Alphabet.idxOf? letter with
  | some index => UInt32.ofNat index
  | none => 0xFFFFFFFF

/-- `[A-Z2-7]`. -/
def isAddressLetter (unit : UInt16) : Bool :=
  (65 ≤ unit && unit ≤ 90) || (50 ≤ unit && unit ≤ 55)

/-- `/^[GC][A-Z2-7]{55}$/`. -/
def isAddressText (strkey : Text) : Bool :=
  match strkey with
  | lead :: letters =>
      (lead = 71 || lead = 67) && letters.length = 55 && letters.all isAddressLetter
  | [] => false

/-- The decoding loop.  Shifts act on the 32 bits of `value`, so only the bits
that are still to leave it matter. -/
def decodeLetters (bits : Nat) (value : UInt32) : Text → Bytes
  | [] => []
  | c :: rest =>
      let value := (value <<< 5) ||| indexOf c
      let bits := bits + 5
      if 8 ≤ bits then
        ((value >>> UInt32.ofNat (bits - 8)) &&& 0xFF).toUInt8
          :: decodeLetters (bits - 8) value rest
      else decodeLetters bits value rest

def crcStep (crc : UInt32) : UInt32 :=
  if crc &&& 0x8000 ≠ 0 then ((crc <<< 1) ^^^ 0x1021) &&& 0xFFFF else (crc <<< 1) &&& 0xFFFF

def crc16xmodem (bytes : Bytes) : UInt32 :=
  bytes.foldl (fun (crc : UInt32) b =>
      Nat.iterate crcStep 8 (crc ^^^ (b.toUInt32 <<< (8 : UInt32)))) 0

inductive AddressTag
  | account
  | contract
deriving DecidableEq

def AddressTag.code : AddressTag → UInt8
  | account => 0
  | contract => 1

/-- A `G...` or `C...` strkey's kind tag and 32-byte payload. -/
def addressPayload (strkey : Text) : Except Failure (AddressTag × Bytes) :=
  if isAddressText strkey = false then .error (.notAnAddress strkey)
  else
    let raw := decodeLetters 0 0 strkey
    let version := raw.getD 0 0
    let payload := (raw.drop 1).take 32
    let checksum := (raw.getD 33 0).toUInt32 ||| ((raw.getD 34 0).toUInt32 <<< 8)
    if crc16xmodem (raw.take 33) ≠ checksum then .error (.badChecksum strkey)
    else if version = (6 : UInt8) <<< 3 then .ok (.account, payload)
    else if version = (2 : UInt8) <<< 3 then .ok (.contract, payload)
    else .error (.unsupportedVersion strkey)

def contractId (strkey : Text) : Except Failure Bytes := do
  let (tag, payload) ← addressPayload strkey
  if tag ≠ .contract then .error (.notAContract strkey)
  pure payload

/-! ### The decoding loop -/

theorem indexOf_letter {letter : UInt8} (valid : Ir.isBase32 letter = true) :
    indexOf letter.toUInt16 = UInt32.ofNat (Ir.base32Value letter) := by
  suffices every : ∀ n < 256, Ir.isBase32 (UInt8.ofNat n) = true →
      indexOf (UInt8.ofNat n).toUInt16 = UInt32.ofNat (Ir.base32Value (UInt8.ofNat n)) by
    simpa [valid] using every letter.toNat letter.toNat_lt
  decide +kernel

theorem toNat_push (value : UInt32) {index : Nat} (small : index < 32) :
    ((value <<< 5) ||| UInt32.ofNat index).toNat = (value.toNat * 32 + index) % 4294967296 := by
  have shifted : (value <<< 5).toNat = value.toNat % 134217728 * 32 := by
    rw [UInt32.toNat_shiftLeft, Nat.shiftLeft_eq]
    change value.toNat * 32 % 4294967296 = _
    omega
  have disjoint : value.toNat % 134217728 * 32 + index =
      value.toNat % 134217728 * 32 ||| index := by
    have apart := Nat.shiftLeft_add_eq_or_of_lt (show index < 2 ^ 5 by omega)
      (value.toNat % 134217728)
    rwa [Nat.shiftLeft_eq] at apart
  have whole : index % 2 ^ 32 = index := Nat.mod_eq_of_lt (by omega)
  rw [UInt32.toNat_or, shifted, UInt32.toNat_ofNat', whole, ← disjoint]
  omega

theorem toUInt8_pop (value : UInt32) {shift : Nat} (small : shift < 32) :
    ((value >>> UInt32.ofNat shift) &&& 0xFF).toUInt8 =
      UInt8.ofNat (value.toNat / 2 ^ shift) := by
  apply UInt8.toNat_inj.mp
  have masked := Nat.and_two_pow_sub_one_eq_mod (value.toNat / 2 ^ shift) 8
  rw [UInt32.toNat_toUInt8, UInt32.toNat_and, UInt32.toNat_shiftRight, UInt32.toNat_ofNat',
    Nat.mod_eq_of_lt (show shift < 2 ^ 32 by omega), Nat.mod_eq_of_lt small,
    Nat.shiftRight_eq_div_pow, UInt8.toNat_ofNat']
  change (value.toNat / 2 ^ shift &&& (2 ^ 8 - 1)) % 2 ^ 8 = _
  rw [masked, Nat.mod_mod]

/-- The loop decodes as the address checks do. -/
theorem decodeLetters_ascii {letters : Bytes} (valid : letters.all Ir.isBase32 = true)
    {bits : Nat} (few : bits < 8) (value : UInt32) :
    decodeLetters bits value (ascii letters) = Ir.base32Bytes value.toNat bits letters := by
  induction letters generalizing bits value with
  | nil => rfl
  | cons letter rest ih =>
      rw [List.all_cons, Bool.and_eq_true] at valid
      have pushed := toNat_push value (base32Value_lt valid.1)
      have index := indexOf_letter valid.1
      have split : ascii (letter :: rest) = letter.toUInt16 :: ascii rest := rfl
      simp only [split, decodeLetters, Ir.base32Bytes, index]
      split
      · rw [toUInt8_pop _ (by omega), ih valid.2 (by omega), pushed]
      · rw [ih valid.2 (by omega), pushed]

/-! ### The checksum -/

theorem toUInt32_shiftLeft (crc : UInt16) :
    (crc <<< 1).toUInt32 = (crc.toUInt32 <<< 1) &&& 0xFFFF := by
  apply UInt32.toNat_inj.mp
  have masked := Nat.and_two_pow_sub_one_eq_mod (crc.toNat * 2 % 2 ^ 32) 16
  have fits := crc.toNat_lt
  rw [UInt16.toNat_toUInt32, UInt16.toNat_shiftLeft, UInt32.toNat_and, UInt32.toNat_shiftLeft,
    UInt16.toNat_toUInt32, Nat.shiftLeft_eq, Nat.shiftLeft_eq]
  change crc.toNat * 2 % 2 ^ 16 = (crc.toNat * 2 % 2 ^ 32) &&& (2 ^ 16 - 1)
  rw [masked]
  omega

theorem crcStep_toUInt32 (crc : UInt16) : crcStep crc.toUInt32 = (Ir.crcShift crc).toUInt32 := by
  have tested : crc.toUInt32 &&& 0x8000 ≠ 0 ↔ crc &&& 0x8000 ≠ 0 := by
    have same : crc.toUInt32 &&& 0x8000 = (crc &&& 0x8000).toUInt32 := by
      rw [UInt16.toUInt32_and]
      rfl
    rw [same, Ne, Ne, not_iff_not]
    constructor
    · intro zero
      exact UInt16.toUInt32_inj.mp zero
    · intro zero
      rw [zero]
      rfl
  unfold crcStep Ir.crcShift
  simp only [tested]
  split
  · rw [UInt16.toUInt32_xor, toUInt32_shiftLeft]
    apply UInt32.toNat_inj.mp
    rw [UInt32.toNat_and, UInt32.toNat_xor, Nat.and_xor_distrib_right, UInt32.toNat_xor,
      UInt32.toNat_and]
    rfl
  · exact (toUInt32_shiftLeft crc).symm

theorem crc16xmodem_eq (bytes : Bytes) : crc16xmodem bytes = (Ir.crc16 bytes).toUInt32 := by
  have iterated : ∀ (rounds : Nat) (crc : UInt16),
      Nat.iterate crcStep rounds crc.toUInt32 = (Nat.iterate Ir.crcShift rounds crc).toUInt32 := by
    intro rounds
    induction rounds with
    | zero => intro crc; rfl
    | succ rounds ih =>
        intro crc
        rw [Function.iterate_succ_apply, Function.iterate_succ_apply, crcStep_toUInt32, ih]
  suffices general : ∀ start : UInt16,
      bytes.foldl (fun (crc : UInt32) b =>
          Nat.iterate crcStep 8 (crc ^^^ (b.toUInt32 <<< (8 : UInt32))))
        start.toUInt32 =
        (bytes.foldl (fun (crc : UInt16) b =>
          Nat.iterate Ir.crcShift 8 (crc ^^^ (b.toUInt16 <<< (8 : UInt16)))) start).toUInt32 from
    general 0
  induction bytes with
  | nil => intro start; rfl
  | cons byte rest ih =>
      intro start
      have placed : (byte.toUInt16 <<< (8 : UInt16)).toUInt32 =
          byte.toUInt32 <<< (8 : UInt32) := by
        apply UInt32.toNat_inj.mp
        have fits := byte.toNat_lt
        rw [UInt16.toNat_toUInt32, UInt16.toNat_shiftLeft, UInt8.toNat_toUInt16,
          UInt32.toNat_shiftLeft, UInt8.toNat_toUInt32, Nat.shiftLeft_eq, Nat.shiftLeft_eq]
        change byte.toNat * 256 % 2 ^ 16 = byte.toNat * 256 % 2 ^ 32
        omega
      rw [List.foldl_cons, List.foldl_cons, ← placed, ← UInt16.toUInt32_xor, iterated]
      exact ih _

/-! ### What an address decodes to -/

theorem isAddressLetter_toUInt16 (letter : UInt8) :
    isAddressLetter letter.toUInt16 = Ir.isBase32 letter := by
  simp [isAddressLetter, Ir.isBase32, UInt16.le_iff_toNat_le, UInt8.le_iff_toNat_le]

theorem toUInt16_toUInt8 {unit : UInt16} (letter : isAddressLetter unit = true) :
    unit.toUInt8.toUInt16 = unit := by
  apply UInt16.toNat_inj.mp
  have small : unit.toNat < 256 := by
    simp only [isAddressLetter, Bool.or_eq_true, Bool.and_eq_true, decide_eq_true_eq,
      UInt16.le_iff_toNat_le, UInt16.reduceToNat] at letter
    omega
  rw [UInt8.toNat_toUInt16, UInt16.toNat_toUInt8, Nat.mod_eq_of_lt small]

theorem ascii_toUInt8 {text : Text} (letters : text.all isAddressLetter = true) :
    ascii (text.map UInt16.toUInt8) = text := by
  have same : ∀ unit ∈ text, (UInt8.toUInt16 ∘ UInt16.toUInt8) unit = unit := fun unit member =>
    toUInt16_toUInt8 (List.all_eq_true.mp letters unit member)
  rw [ascii, List.map_map, List.map_congr_left same, List.map_id']

theorem isAddressText_iff {text : Text} :
    isAddressText text = true ↔
      ∃ letters : Bytes, text = ascii letters ∧ letters.length = 56 ∧
        letters.all Ir.isBase32 = true ∧ letters.headD 0 ∈ [71, 67] := by
  constructor
  · intro accepted
    cases text with
    | nil => cases accepted
    | cons lead rest =>
        simp only [isAddressText, Bool.and_eq_true, Bool.or_eq_true, decide_eq_true_eq] at accepted
        obtain ⟨⟨kind, size⟩, letters⟩ := accepted
        have leadLetter : isAddressLetter lead = true := by
          rcases kind with rfl | rfl <;> decide
        have all : (lead :: rest).all isAddressLetter = true := by
          rw [List.all_cons, leadLetter, letters, Bool.and_self]
        have spelled := ascii_toUInt8 all
        refine ⟨(lead :: rest).map UInt16.toUInt8, spelled.symm, ?_, ?_, ?_⟩
        · rw [List.length_map, List.length_cons, size]
        · rw [← spelled, ascii, List.all_map] at all
          rw [List.all_eq_true] at all ⊢
          intro letter member
          rw [← isAddressLetter_toUInt16]
          exact all letter member
        · rcases kind with rfl | rfl
          · exact List.mem_cons_self
          · exact List.mem_cons_of_mem _ List.mem_cons_self
  · rintro ⟨letters, rfl, size, valid, kind⟩
    cases letters with
    | nil => cases size
    | cons lead rest =>
        rw [List.all_cons, Bool.and_eq_true] at valid
        have first : lead = 71 ∨ lead = 67 := by simpa using kind
        have more : (ascii rest).all isAddressLetter = true := by
          rw [ascii, List.all_map, List.all_eq_true]
          intro letter member
          rw [Function.comp_apply, isAddressLetter_toUInt16]
          exact List.all_eq_true.mp valid.2 letter member
        have split : ascii (lead :: rest) = lead.toUInt16 :: ascii rest := rfl
        have length : (ascii rest).length = 55 := by
          rw [ascii, List.length_map]
          exact Nat.succ.inj size
        rw [split, isAddressText, more, length]
        rcases first with rfl | rfl <;> rfl

def AddressTag.version : AddressTag → UInt8
  | account => accountVersion
  | contract => contractVersion

theorem checksum_word (low high : UInt8) :
    low.toUInt32 ||| (high.toUInt32 <<< 8) =
      (low.toUInt16 + (high.toUInt16 <<< 8)).toUInt32 := by
  apply UInt32.toNat_inj.mp
  have lowFits := low.toNat_lt
  have highFits := high.toNat_lt
  have placed : (high.toUInt32 <<< 8).toNat = high.toNat * 256 := by
    rw [UInt32.toNat_shiftLeft, UInt8.toNat_toUInt32, Nat.shiftLeft_eq]
    change high.toNat * 256 % 2 ^ 32 = high.toNat * 256
    omega
  have disjoint : high.toNat * 256 + low.toNat = high.toNat * 256 ||| low.toNat := by
    have apart := Nat.shiftLeft_add_eq_or_of_lt (show low.toNat < 2 ^ 8 by omega) high.toNat
    rwa [Nat.shiftLeft_eq] at apart
  rw [UInt32.toNat_or, UInt8.toNat_toUInt32, placed, Nat.or_comm, ← disjoint,
    UInt16.toNat_toUInt32, toNat_checksum, Nat.add_comm]

theorem addressPayload_strkey (tag : AddressTag) {payload : Bytes} (size : payload.length = 32) :
    addressPayload (ascii (strkey tag.version payload)) = .ok (tag, payload) := by
  have valid := strkey_valid tag.version payload
  have shaped : isAddressText (ascii (strkey tag.version payload)) = true := by
    apply isAddressText_iff.mpr
    refine ⟨_, rfl, strkey_length _ _, valid, ?_⟩
    rw [strkey_head size]
    cases tag <;> decide
  have raw : decodeLetters 0 0 (ascii (strkey tag.version payload)) =
      strkeyData tag.version payload := by
    rw [decodeLetters_ascii valid (by decide)]
    exact base32Bytes_strkey size
  have whole := strkeyData_length tag.version size
  have checked := (checksummed_iff whole).mpr ⟨_, _, size, rfl⟩
  have body : ((strkeyData tag.version payload).drop 1).take 32 = payload := by
    rw [strkeyData, List.cons_append, List.drop_one, List.tail_cons, List.take_left' size]
  have first : (strkeyData tag.version payload).getD 0 0 = tag.version := rfl
  simp only [addressPayload, shaped, raw, first, body, crc16xmodem_eq, checked, checksum_word,
    ne_eq, not_true_eq_false, Bool.true_eq_false, if_false]
  cases tag <;> rfl

/-- What decodes is the strkey of what it decodes to. -/
theorem addressPayload_eq_ok {text : Text} {tag : AddressTag} {payload : Bytes} :
    addressPayload text = .ok (tag, payload) ↔
      payload.length = 32 ∧ text = ascii (strkey tag.version payload) := by
  constructor
  · intro decoded
    unfold addressPayload at decoded
    split at decoded
    next => cases decoded
    next shaped =>
      obtain ⟨letters, rfl, count, valid, _⟩ := isAddressText_iff.mp (by simpa using shaped)
      have fills : 0 + 5 * letters.length = 8 * 35 := by omega
      have raw : decodeLetters 0 0 (ascii letters) = Ir.base32Bytes 0 0 letters :=
        decodeLetters_ascii valid (by decide) 0
      have whole : (Ir.base32Bytes 0 0 letters).length = 35 := by
        rw [base32Bytes_eq valid (by decide) fills, beBytes_length]
      simp only [raw, crc16xmodem_eq, checksum_word] at decoded
      split at decoded
      next => cases decoded
      next matched =>
        have checked := UInt16.toUInt32_inj.mp (not_not.mp matched)
        have accepted : Ir.strkeyChecksumOk letters = true := by
          simp only [Ir.strkeyChecksumOk, count, valid, whole, checked, decide_true, Bool.and_self]
        obtain ⟨version, found, size, rfl⟩ := strkeyChecksumOk_iff.mp accepted
        have body : ((strkeyData version found).drop 1).take 32 = found := by
          rw [strkeyData, List.cons_append, List.drop_one, List.tail_cons, List.take_left' size]
        have first : (strkeyData version found).getD 0 0 = version := rfl
        simp only [base32Bytes_strkey size, body, first] at decoded
        split at decoded
        next account =>
          cases decoded
          exact ⟨size, by rw [account]; rfl⟩
        next =>
          split at decoded
          next contract =>
            cases decoded
            exact ⟨size, by rw [contract]; rfl⟩
          next => cases decoded
  · rintro ⟨size, rfl⟩
    exact addressPayload_strkey tag size

theorem contractId_strkey {id : Bytes} (size : id.length = 32) :
    contractId (ascii (strkey contractVersion id)) = .ok id := by
  have decoded := addressPayload_strkey .contract size
  rw [contractId, show contractVersion = AddressTag.contract.version from rfl, decoded]
  rfl

end Perch.PerchJs
