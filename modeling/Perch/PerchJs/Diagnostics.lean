/-
Writing `G...` and `C...` addresses in the wallet.

The wallet writes an address for what it reads in the host's events, and reads
it back elsewhere.  Bytes pass through a 32-bit word eight bits at a time and
leave it five at a time.  What is read is what would be written, so one letter
taken for another changes the checksum.
-/

import Mathlib.Data.Nat.Bitwise
import Perch.Machine.Crc
import Perch.PerchJs.Strkey

namespace Perch.PerchJs.Diagnostics

open Machine Machine.Js Document

/-- `BASE32[word & 31]`. -/
def letter (word : UInt32) : UInt16 := base32Alphabet.getD (word &&& 31).toNat 0

/-- The letters that leave the word, and the bits that stay. -/
def drain (value : UInt32) : Nat → Text × Nat
  | bits + 5 =>
      let (out, left) := drain value bits
      (letter (value >>> UInt32.ofNat bits) :: out, left)
  | bits => ([], bits)

/-- The encoding loop, and the bits left over at its end. -/
def encodeBytes (bits : Nat) (value : UInt32) : Bytes → Text
  | [] => if 0 < bits then [letter (value <<< UInt32.ofNat (5 - bits))] else []
  | b :: rest =>
      let value := (value <<< 8) ||| b.toUInt32
      let (out, left) := drain value (bits + 8)
      out ++ encodeBytes left value rest

def AddressTag.versionByte : AddressTag → UInt8
  | .account => (6 : UInt8) <<< 3
  | .contract => (2 : UInt8) <<< 3

def payloadLength : Text := utf16 "strkey payload must be 32 bytes"

def strkey (kind : AddressTag) (payload : Bytes) : Except Text Text :=
  if payload.length ≠ 32 then .error payloadLength
  else
    let body := AddressTag.versionByte kind :: payload
    let crc := crc16xmodem body
    .ok (encodeBytes 0 0 (body ++ [(crc &&& 0xFF).toUInt8, (crc >>> 8).toUInt8]))

/-! ### The encoding loop -/

theorem letter_eq (word : UInt32) : letter word = (base32Letter (word.toNat % 32)).toUInt16 := by
  have alphabet : ∀ i < 32, base32Alphabet.getD i 0 = (base32Letter i).toUInt16 := by
    decide
  have masked : (word &&& 31).toNat = word.toNat % 32 := by
    rw [UInt32.toNat_and]
    exact Nat.and_two_pow_sub_one_eq_mod word.toNat 5
  rw [letter, masked, alphabet _ (Nat.mod_lt _ (by decide))]

theorem base32Letters_congr {count n m : Nat} (same : n % 32 ^ count = m % 32 ^ count) :
    base32Letters count n = base32Letters count m := by
  have spelled : ∀ n, base32Letters count (n % 32 ^ count) = base32Letters count n := by
    intro n
    have back := base32Letters_letterValue (base32Letters_valid count n)
    rwa [base32Letters_length, letterValue_base32Letters] at back
  rw [← spelled n, same, spelled m]

theorem power_places (bits bytes count : Nat) (fills : bits + 8 * bytes = 5 * count) :
    32 ^ count = 2 ^ bits * 256 ^ bytes := by
  calc
    (32 : Nat) ^ count = 2 ^ (5 * count) := (pow_mul 2 5 count).symm
    _ = 2 ^ bits * 2 ^ (8 * bytes) := by rw [← fills, pow_add]
    _ = 2 ^ bits * 256 ^ bytes := congrArg (2 ^ bits * ·) (pow_mul 2 8 bytes)

/-- Draining spells the leading letters of the number the word and the bytes
behind it make. -/
theorem drain_spec (value : UInt32) (rest : Bytes) {bits count : Nat} (few : bits < 32)
    (fills : bits + 8 * rest.length = 5 * count) :
    ∃ left more, (drain value bits).2 = left ∧ left < 5 ∧ left + 8 * rest.length = 5 * more ∧
      ascii (base32Letters count (value.toNat * 256 ^ rest.length + beValue rest)) =
        (drain value bits).1 ++
          ascii (base32Letters more (value.toNat * 256 ^ rest.length + beValue rest)) := by
  induction bits using Nat.strong_induction_on generalizing count with
  | _ bits ih =>
      by_cases small : bits < 5
      · have stays : drain value bits = ([], bits) := by
          rw [drain.eq_2]
          omega
        refine ⟨bits, count, ?_, small, fills, ?_⟩
        · rw [stays]
        · rw [stays]
          rfl
      · obtain ⟨bits, rfl⟩ : ∃ fewer, bits = fewer + 5 := ⟨bits - 5, by omega⟩
        obtain ⟨count, rfl⟩ : ∃ fewer, count = fewer + 1 := ⟨count - 1, by omega⟩
        obtain ⟨left, more, stays, five, filled, spelled⟩ :=
          ih bits (by omega) (by omega) (show bits + 8 * rest.length = 5 * count by omega)
        refine ⟨left, more, stays, five, filled, ?_⟩
        have high : (value.toNat * 256 ^ rest.length + beValue rest) / 32 ^ count =
            value.toNat / 2 ^ bits := by
          rw [power_places bits rest.length count (by omega), Nat.mul_comm (2 ^ bits),
            ← Nat.div_div_eq_div_mul, Nat.mul_comm value.toNat,
            Nat.mul_add_div (by positivity), Nat.div_eq_of_lt (beValue_lt rest), Nat.add_zero]
        have shifted : (value >>> UInt32.ofNat bits).toNat = value.toNat / 2 ^ bits := by
          rw [UInt32.toNat_shiftRight, UInt32.toNat_ofNat',
            Nat.mod_eq_of_lt (show bits < 2 ^ 32 by omega), Nat.mod_eq_of_lt (by omega),
            Nat.shiftRight_eq_div_pow]
        have split : (drain value (bits + 5)).1 =
            letter (value >>> UInt32.ofNat bits) :: (drain value bits).1 := rfl
        rw [base32Letters_succ, high, split, letter_eq, shifted, List.cons_append, ← spelled]
        rfl

theorem toNat_pushByte (value : UInt32) (byte : UInt8) :
    ((value <<< 8) ||| byte.toUInt32).toNat = (value.toNat * 256 + byte.toNat) % 4294967296 := by
  have fits := byte.toNat_lt
  have shifted : (value <<< 8).toNat = value.toNat % 16777216 * 256 := by
    rw [UInt32.toNat_shiftLeft, Nat.shiftLeft_eq]
    change value.toNat * 256 % 4294967296 = _
    omega
  have disjoint : value.toNat % 16777216 * 256 + byte.toNat =
      value.toNat % 16777216 * 256 ||| byte.toNat := by
    have apart := Nat.shiftLeft_add_eq_or_of_lt (show byte.toNat < 2 ^ 8 by omega)
      (value.toNat % 16777216)
    rwa [Nat.shiftLeft_eq] at apart
  rw [UInt32.toNat_or, shifted, UInt8.toNat_toUInt32, ← disjoint]
  omega

/-- The loop spells bytes whose bits fill the letters. -/
theorem encodeBytes_eq {bits : Nat} (few : bits < 5) (value : UInt32) {bytes : Bytes} {count : Nat}
    (fills : bits + 8 * bytes.length = 5 * count) :
    encodeBytes bits value bytes =
      ascii (base32Letters count (value.toNat * 256 ^ bytes.length + beValue bytes)) := by
  induction bytes generalizing bits value count with
  | nil =>
      have done : bits = 0 ∧ count = 0 := by
        rw [List.length_nil] at fills
        omega
      obtain ⟨rfl, rfl⟩ := done
      rfl
  | cons byte rest ih =>
      rw [List.length_cons] at fills
      have wide : bits + 8 + 8 * rest.length = 5 * count := by omega
      obtain ⟨left, more, stays, five, filled, spelled⟩ :=
        drain_spec ((value <<< 8) ||| byte.toUInt32) rest (by omega) wide
      have split : encodeBytes bits value (byte :: rest) =
          (drain ((value <<< 8) ||| byte.toUInt32) (bits + 8)).1 ++
            encodeBytes (drain ((value <<< 8) ||| byte.toUInt32) (bits + 8)).2
              ((value <<< 8) ||| byte.toUInt32) rest := rfl
      rw [split, stays, ih five _ filled, ← spelled]
      congr 1
      apply base32Letters_congr
      have regroup : value.toNat * 256 ^ (byte :: rest).length + beValue (byte :: rest) =
          (value.toNat * 256 + byte.toNat) * 256 ^ rest.length + beValue rest := by
        rw [List.length_cons, beValue_cons]
        ring
      have narrow : 32 ^ count ∣ 4294967296 * 256 ^ rest.length := by
        rw [power_places _ _ _ wide]
        exact Nat.mul_dvd_mul (Nat.pow_dvd_pow 2 (n := 32) (by omega)) (Nat.dvd_refl _)
      rw [regroup, toNat_pushByte, ← Nat.mod_mod_of_dvd _ narrow, high_mod,
        Nat.mod_mod_of_dvd _ narrow]

theorem versionByte_eq (kind : AddressTag) : AddressTag.versionByte kind = kind.version := by
  cases kind <;> rfl

theorem strkey_eq (kind : AddressTag) {payload : Bytes} (size : payload.length = 32) :
    strkey kind payload = .ok (ascii (Document.strkey kind.version payload)) := by
  have raw : AddressTag.versionByte kind :: payload ++
      [(crc16xmodem (AddressTag.versionByte kind :: payload) &&& 0xFF).toUInt8,
        (crc16xmodem (AddressTag.versionByte kind :: payload) >>> 8).toUInt8] =
      strkeyData kind.version payload := by
    have low : ∀ crc : UInt16, (crc.toUInt32 &&& 0xFF).toUInt8 = (crc &&& 255).toUInt8 := by
      intro crc
      apply UInt8.toNat_inj.mp
      rw [toNat_lowByte, UInt32.toNat_toUInt8, UInt32.toNat_and, UInt16.toNat_toUInt32]
      have masked := Nat.and_two_pow_sub_one_eq_mod crc.toNat 8
      change (crc.toNat &&& (2 ^ 8 - 1)) % 2 ^ 8 = _
      rw [masked, Nat.mod_mod]
    have high : ∀ crc : UInt16, (crc.toUInt32 >>> 8).toUInt8 = (crc >>> 8).toUInt8 := by
      intro crc
      have fits := crc.toNat_lt
      apply UInt8.toNat_inj.mp
      rw [toNat_highByte, UInt32.toNat_toUInt8, UInt32.toNat_shiftRight, UInt16.toNat_toUInt32,
        Nat.shiftRight_eq_div_pow]
      change crc.toNat / 256 % 256 = crc.toNat / 256
      omega
    rw [versionByte_eq, crc16xmodem_eq, low, high]
    rfl
  have fills : 0 + 8 * (strkeyData kind.version payload).length = 5 * 56 := by
    rw [strkeyData_length _ size]
  rw [strkey, if_neg (not_not.mpr size)]
  simp only [raw, encodeBytes_eq (by decide) 0 fills]
  rw [Document.strkey_eq, UInt32.toNat_zero, Nat.zero_mul, Nat.zero_add]

/-! ### The checksum -/

theorem crcShift_eq (crc : UInt16) :
    Ir.crcShift crc = (crc <<< 1) ^^^ (if crc.toNat.testBit 15 then 0x1021 else 0) := by
  have top : crc &&& 0x8000 ≠ 0 ↔ crc.toNat.testBit 15 = true := by
    have masked : (crc &&& 0x8000).toNat = (crc.toNat.testBit 15).toNat * 2 ^ 15 := by
      rw [UInt16.toNat_and]
      exact Nat.and_two_pow crc.toNat 15
    rw [Ne, ← UInt16.toNat_inj, masked]
    cases crc.toNat.testBit 15 <;> decide
  unfold Ir.crcShift
  by_cases falls : crc.toNat.testBit 15 = true
  · rw [if_pos (top.mpr falls), if_pos falls]
  · rw [if_neg (mt top.mp falls), if_neg falls, UInt16.xor_zero]

theorem shifted_xor (a b : UInt16) : (a ^^^ b) <<< 1 = (a <<< 1) ^^^ (b <<< 1) := by
  apply UInt16.toBitVec_inj.mp
  simp only [UInt16.toBitVec_shiftLeft, UInt16.toBitVec_xor]
  exact BitVec.shiftLeft_xor_distrib _ _ _

theorem crcShift_linear : Linear Ir.crcShift := by
  constructor
  · intro a b
    rw [crcShift_eq, crcShift_eq, crcShift_eq, shifted_xor, UInt16.toNat_xor, Nat.testBit_xor]
    have doubled : (a <<< 1 ^^^ (0x1021 : UInt16)) ^^^ (b <<< 1 ^^^ (0x1021 : UInt16)) =
        a <<< 1 ^^^ b <<< 1 := by
      calc
        (a <<< 1 ^^^ (0x1021 : UInt16)) ^^^ (b <<< 1 ^^^ (0x1021 : UInt16)) =
            (a <<< 1 ^^^ b <<< 1) ^^^ ((0x1021 : UInt16) ^^^ 0x1021) := by ac_rfl
        _ = a <<< 1 ^^^ b <<< 1 := by rw [UInt16.xor_self, UInt16.xor_zero]
    cases a.toNat.testBit 15 <;> cases b.toNat.testBit 15
    · simp only [Bool.xor_self, Bool.false_eq_true, if_false, UInt16.xor_zero]
    · simp only [Bool.false_xor, Bool.false_eq_true, if_false, if_true, UInt16.xor_zero]
      ac_rfl
    · simp only [Bool.true_xor, Bool.not_false, Bool.false_eq_true, if_false, if_true,
        UInt16.xor_zero]
      ac_rfl
    · simp only [Bool.xor_self, Bool.false_eq_true, if_false, if_true, UInt16.xor_zero, doubled]
  · intro a zero
    have fits := a.toNat_lt
    have double : (a <<< 1).toNat = a.toNat * 2 % 65536 := by
      rw [UInt16.toNat_shiftLeft, Nat.shiftLeft_eq]
      rfl
    rw [crcShift_eq, UInt16.xor_eq_zero_iff, ← UInt16.toNat_inj, double] at zero
    have bit : a.toNat.testBit 15 = decide (a.toNat / 2 ^ 15 % 2 = 1) :=
      Nat.testBit_eq_decide_div_mod_eq
    apply UInt16.toNat_inj.mp
    change a.toNat = 0
    split at zero
    · change a.toNat * 2 % 65536 = 0x1021 at zero
      omega
    · rename_i clear
      rw [bit, decide_eq_true_iff] at clear
      change a.toNat * 2 % 65536 = 0 at zero
      omega

theorem crc16_register (data : Bytes) : Ir.crc16 data = register Ir.crcShift^[8] 0 data := rfl

def checkWord (low high : UInt8) : UInt16 := low.toUInt16 ^^^ (high.toUInt16 <<< 8)

theorem checkWord_eq (low high : UInt8) :
    checkWord low high = low.toUInt16 + (high.toUInt16 <<< 8) := by
  apply UInt16.toNat_inj.mp
  have lowFits := low.toNat_lt
  have highFits := high.toNat_lt
  have placed : (high.toUInt16 <<< 8).toNat = high.toNat * 2 ^ 8 := by
    rw [UInt16.toNat_shiftLeft, UInt8.toNat_toUInt16, Nat.shiftLeft_eq]
    change high.toNat * 256 % 65536 = high.toNat * 256
    omega
  rw [checkWord, UInt16.toNat_xor, placed, UInt8.toNat_toUInt16, place_xor _ lowFits,
    toNat_checksum]
  rfl

theorem checkWord_xor (low high low' high' : UInt8) :
    checkWord (low ^^^ low') (high ^^^ high') = checkWord low high ^^^ checkWord low' high' := by
  rw [checkWord, checkWord, checkWord, UInt8.toUInt16_xor]
  have placed := placed_xor high high'
  rw [placed]
  ac_rfl

def Checks (data : Bytes) : Prop :=
  Ir.crc16 (data.take 33) = checkWord (data.getD 33 0) (data.getD 34 0)

theorem checks_xor {left right : Bytes} (sizes : left.length = right.length) (first : Checks left)
    (second : Checks right) : Checks (xorBytes left right) := by
  have taken : (left.take 33).length = (right.take 33).length := by
    rw [List.length_take, List.length_take, sizes]
  have mixed := register_xor (crcShift_linear.iterate 8) taken 0 0
  rw [UInt16.xor_self] at mixed
  rw [Checks, xorBytes_take, xorBytes_getD sizes, xorBytes_getD sizes, checkWord_xor, ← first,
    ← second]
  exact mixed

/-- Five bytes with a letter's difference in one of their eight places. -/
theorem letter_difference : ∀ d < 32, d ≠ 0 → ∀ place < 8,
    Ir.crc16 (beBytes 5 (d * 32 ^ place)) ≠ 0 ∧
      Ir.crc16 ((beBytes 5 (d * 32 ^ place)).take 3) ≠
        checkWord ((beBytes 5 (d * 32 ^ place)).getD 3 0)
          ((beBytes 5 (d * 32 ^ place)).getD 4 0) := by
  decide +kernel

/-- Data with a letter's difference in it does not end in its checksum. -/
theorem not_checks_difference {d place : Nat} (different : d ≠ 0) (small : d < 32)
    (inside : place < 56) : ¬Checks (beBytes 35 (d * 32 ^ place)) := by
  -- Eight letters are five bytes: `within` is the place in its group of eight.
  have fits : ∀ within < 8, d * 32 ^ within < 256 ^ 5 := by
    intro within bound
    calc
      d * 32 ^ within < 32 * 32 ^ within := Nat.mul_lt_mul_of_pos_right small (by positivity)
      _ = 32 ^ (within + 1) := by rw [pow_succ, Nat.mul_comm]
      _ ≤ 32 ^ 8 := Nat.pow_le_pow_right (by decide) (by omega)
      _ = 256 ^ 5 := by norm_num
  have within := Nat.mod_lt place (show 0 < 8 by decide)
  obtain ⟨inBody, atEnd⟩ := letter_difference d small different _ within
  have grouped : d * 32 ^ place = d * 32 ^ (place % 8) * 256 ^ (5 * (place / 8)) := by
    have groups : (256 : Nat) ^ (5 * (place / 8)) = 32 ^ (8 * (place / 8)) := by
      rw [pow_mul, pow_mul]
      norm_num
    rw [groups, Nat.mul_assoc, ← pow_add, Nat.mod_add_div]
  intro checks
  rcases Nat.eq_zero_or_pos (place / 8) with first | later
  · have last : beBytes 35 (d * 32 ^ place) =
        List.replicate 30 0 ++ beBytes 5 (d * 32 ^ (place % 8)) := by
      rw [grouped, first, Nat.mul_zero, pow_zero, Nat.mul_one]
      exact beBytes_small 30 (fits _ within)
    apply atEnd
    rw [Checks, last, crc16_register, List.take_append, register_append] at checks
    rw [crc16_register]
    have start : (Ir.crcShift^[8])^[30] 0 = 0 := ((crcShift_linear.iterate 8).iterate 30).zero
    rw [List.length_replicate, List.take_of_length_le (by decide), register_zeros, start] at checks
    exact checks
  · have bound : place / 8 ≤ 6 := by omega
    have padded : beBytes 35 (d * 32 ^ place) = List.replicate (30 - 5 * (place / 8)) 0 ++
        (beBytes 5 (d * 32 ^ (place % 8)) ++ List.replicate (5 * (place / 8)) 0) := by
      rw [grouped, ← List.append_assoc, ← beBytes_small _ (fits _ within), ← beBytes_mul]
      congr 1
      omega
    obtain ⟨zeros, count⟩ : ∃ zeros, 5 * (place / 8) = zeros + 2 :=
      ⟨5 * (place / 8) - 2, by omega⟩
    have split : beBytes 35 (d * 32 ^ place) =
        (List.replicate (30 - 5 * (place / 8)) 0 ++
          (beBytes 5 (d * 32 ^ (place % 8)) ++ List.replicate zeros 0)) ++ [0, 0] := by
      rw [padded, count, List.replicate_add, List.append_assoc, List.append_assoc]
      rfl
    have size : (List.replicate (30 - 5 * (place / 8)) (0 : UInt8) ++
        (beBytes 5 (d * 32 ^ (place % 8)) ++ List.replicate zeros 0)).length = 33 := by
      simp only [List.length_append, List.length_replicate, beBytes_length]
      omega
    rw [Checks, split, List.take_left' size, List.getD_append_right _ _ _ _ (by omega),
      List.getD_append_right _ _ _ _ (by omega), size, crc16_register] at checks
    exact inBody (register_padded (crcShift_linear.iterate 8) checks)

/-! ### One letter for another -/

theorem letterValue_append (first second : Bytes) :
    letterValue (first ++ second) =
      letterValue first * 32 ^ second.length + letterValue second := by
  induction first with
  | nil => simp [letterValue]
  | cons letter rest ih =>
      rw [List.cons_append, letterValue_cons, ih, letterValue_cons, List.length_append, pow_add]
      ring

theorem strkeyData_eq (version : UInt8) {payload : Bytes} (size : payload.length = 32) :
    strkeyData version payload = beBytes 35 (letterValue (Document.strkey version payload)) := by
  have fits := beValue_lt (strkeyData version payload)
  rw [strkeyData_length version size] at fits
  have whole := beBytes_beValue (strkeyData version payload)
  rw [strkeyData_length version size] at whole
  rw [Document.strkey_eq, letterValue_base32Letters,
    Nat.mod_eq_of_lt (fits.trans_eq (by norm_num)), whole]

theorem checks_strkeyData (version : UInt8) {payload : Bytes} (size : payload.length = 32) :
    Checks (strkeyData version payload) := by
  rw [Checks, checkWord_eq]
  exact (checksummed_iff (strkeyData_length version size)).mpr ⟨version, payload, size, rfl⟩

/-- No two strkeys differ in one letter. -/
theorem letters_apart {before after : Bytes} {a b : UInt8} {version version' : UInt8}
    {payload payload' : Bytes} (size : payload.length = 32) (size' : payload'.length = 32)
    (first : before ++ a :: after = Document.strkey version payload)
    (second : before ++ b :: after = Document.strkey version' payload') : a = b := by
  have valid := strkey_valid version payload
  have valid' := strkey_valid version' payload'
  rw [← first, List.all_append, List.all_cons, Bool.and_eq_true, Bool.and_eq_true] at valid
  rw [← second, List.all_append, List.all_cons, Bool.and_eq_true, Bool.and_eq_true] at valid'
  have aFits := base32Value_lt valid.2.1
  have bFits := base32Value_lt valid'.2.1
  have count : before.length + (after.length + 1) = 56 := by
    have length := congrArg List.length first
    rwa [List.length_append, List.length_cons, strkey_length] at length
  have power : (32 : Nat) ^ after.length = 2 ^ (5 * after.length) := (pow_mul 2 5 _).symm
  have lowFits := letterValue_lt valid.2.2
  rw [power] at lowFits
  have spelled : ∀ c : UInt8, letterValue (before ++ c :: after) =
      (letterValue before * 2 ^ 5 + Ir.base32Value c) * 2 ^ (5 * after.length) +
        letterValue after := by
    intro c
    rw [letterValue_append, letterValue_cons, List.length_cons, pow_succ, power]
    ring
  have difference : xorBytes (strkeyData version payload) (strkeyData version' payload') =
      beBytes 35 ((Ir.base32Value a ^^^ Ir.base32Value b) * 32 ^ after.length) := by
    rw [strkeyData_eq _ size, strkeyData_eq _ size', beBytes_xor, ← first, ← second, spelled,
      spelled, xor_digits _ aFits bFits lowFits, power]
  have sizes : (strkeyData version payload).length = (strkeyData version' payload').length := by
    rw [strkeyData_length _ size, strkeyData_length _ size']
  have checks := checks_xor sizes (checks_strkeyData _ size) (checks_strkeyData _ size')
  rw [difference] at checks
  have same : Ir.base32Value a = Ir.base32Value b := by
    by_contra different
    have small := Nat.xor_lt_two_pow (n := 5) aFits bFits
    exact not_checks_difference (mt Nat.xor_eq_zero_iff.mp different) small (by omega) checks
  rw [← base32Letter_value valid.2.1, same, base32Letter_value valid'.2.1]

structure StrkeyCodec : Prop where
  /-- What is written is read back. -/
  reads : ∀ kind (payload : Bytes), payload.length = 32 →
    ∃ text, strkey kind payload = .ok text ∧ addressPayload text = .ok (kind, payload)
  /-- Nothing else is read. -/
  exact : ∀ text kind payload,
    addressPayload text = .ok (kind, payload) ↔ strkey kind payload = .ok text
  /-- Two texts are not read alike. -/
  injective : ∀ text text' read, addressPayload text = .ok read → addressPayload text' = .ok read →
    text = text'
  /-- No text is written under two kinds. -/
  oneKind : ∀ kind kind' payload payload' text, strkey kind payload = .ok text →
    strkey kind' payload' = .ok text → kind = kind' ∧ payload = payload'
  /-- One letter taken for another is noticed. -/
  detects : ∀ before letter other after read,
    addressPayload (before ++ letter :: after) = .ok read → other ≠ letter →
      ∃ failure, addressPayload (before ++ other :: after) = .error failure

theorem addressPayload_exact {text : Text} {kind : AddressTag} {payload : Bytes} :
    addressPayload text = .ok (kind, payload) ↔ strkey kind payload = .ok text := by
  rw [addressPayload_eq_ok]
  constructor
  · rintro ⟨size, rfl⟩
    exact strkey_eq kind size
  · intro written
    have size : payload.length = 32 := by
      by_contra other
      rw [strkey, if_pos other] at written
      cases written
    rw [strkey_eq kind size] at written
    exact ⟨size, (Except.ok.inj written).symm⟩

theorem ascii_injective {bytes : Bytes} {text : Text} (spelled : text = ascii bytes) :
    bytes = text.map UInt16.toUInt8 ∧ ∀ unit ∈ text, unit.toUInt8.toUInt16 = unit := by
  subst spelled
  have back : ∀ byte : UInt8, byte.toUInt16.toUInt8 = byte := fun byte => byte.toUInt8_toUInt16
  constructor
  · rw [ascii, List.map_map]
    exact (List.map_id'' back bytes).symm
  · intro unit member
    obtain ⟨byte, _, rfl⟩ := List.mem_map.mp member
    rw [back]

theorem addressPayload_detects {before after : Text} {letter other : UInt16}
    {read read' : AddressTag × Bytes}
    (accepted : addressPayload (before ++ letter :: after) = .ok read)
    (accepted' : addressPayload (before ++ other :: after) = .ok read') : other = letter := by
  obtain ⟨size, spelled⟩ := addressPayload_eq_ok.mp accepted
  obtain ⟨size', spelled'⟩ := addressPayload_eq_ok.mp accepted'
  obtain ⟨bytes, whole⟩ := ascii_injective spelled
  obtain ⟨bytes', whole'⟩ := ascii_injective spelled'
  rw [List.map_append, List.map_cons] at bytes bytes'
  have same := letters_apart size' size bytes'.symm bytes.symm
  rw [← whole letter (by simp), ← same, whole' other (by simp)]

theorem strkey_codec : StrkeyCodec := by
  constructor
  · intro kind payload size
    exact ⟨_, strkey_eq kind size, addressPayload_exact.mpr (strkey_eq kind size)⟩
  · intro text kind payload
    exact addressPayload_exact
  · intro text text' read first second
    obtain ⟨kind, payload⟩ := read
    rw [addressPayload_exact] at first second
    exact Except.ok.inj (first.symm.trans second)
  · intro kind kind' payload payload' text first second
    rw [← addressPayload_exact] at first second
    exact Prod.mk.inj (Except.ok.inj (first.symm.trans second))
  · intro before letter other after read accepted different
    cases decoded : addressPayload (before ++ other :: after) with
    | ok read' => exact absurd (addressPayload_detects accepted decoded) different
    | error failure => exact ⟨failure, rfl⟩

end Perch.PerchJs.Diagnostics
