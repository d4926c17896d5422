/-
Strkeys, and which of them the address checks let through.

A strkey is a version byte, a 32-byte payload, and a checksum, spelled in
base32.  The checks decode the text and compare the checksum, but look at the
version only through the first letter, which carries five of its eight bits.
-/

import Perch.Document.LocalHost
import Perch.Document.Valid
import Mathlib.Tactic.Positivity

namespace Perch.Document

open Machine

/-! ### Letters -/

theorem isBase32_iff {letter : UInt8} :
    Ir.isBase32 letter = true ↔
      (65 ≤ letter.toNat ∧ letter.toNat ≤ 90) ∨ (50 ≤ letter.toNat ∧ letter.toNat ≤ 55) := by
  simp [Ir.isBase32, UInt8.le_iff_toNat_le]

theorem base32Value_eq (letter : UInt8) :
    Ir.base32Value letter =
      if 65 ≤ letter.toNat ∧ letter.toNat ≤ 90 then letter.toNat - 65
      else letter.toNat - 50 + 26 := by
  simp [Ir.base32Value, UInt8.le_iff_toNat_le]

theorem base32Value_lt {letter : UInt8} (valid : Ir.isBase32 letter = true) :
    Ir.base32Value letter < 32 := by
  rw [isBase32_iff] at valid
  rw [base32Value_eq]
  split <;> omega

theorem base32Letter_value {letter : UInt8} (valid : Ir.isBase32 letter = true) :
    base32Letter (Ir.base32Value letter) = letter := by
  rw [isBase32_iff] at valid
  rw [base32Value_eq, base32Letter]
  apply UInt8.toNat_inj.mp
  rw [UInt8.toNat_ofNat']
  split <;> split <;> omega

theorem base32Letter_valid {value : Nat} (small : value < 32) :
    Ir.isBase32 (base32Letter value) = true ∧ Ir.base32Value (base32Letter value) = value := by
  revert value
  decide

def letterValue (letters : Bytes) : Nat :=
  letters.foldl (fun value letter => value * 32 + Ir.base32Value letter) 0

private theorem foldl_letterValue (letters : Bytes) (value : Nat) :
    letters.foldl (fun value letter => value * 32 + Ir.base32Value letter) value =
      value * 32 ^ letters.length + letterValue letters := by
  induction letters generalizing value with
  | nil => simp [letterValue]
  | cons letter rest ih =>
      simp only [letterValue, List.foldl_cons, List.length_cons, Nat.zero_mul, Nat.zero_add]
      rw [ih, ih (Ir.base32Value letter)]
      ring

theorem letterValue_cons (letter : UInt8) (rest : Bytes) :
    letterValue (letter :: rest) =
      Ir.base32Value letter * 32 ^ rest.length + letterValue rest := by
  simp only [letterValue, List.foldl_cons, Nat.zero_mul, Nat.zero_add]
  exact foldl_letterValue rest _

theorem letterValue_lt {letters : Bytes} (valid : letters.all Ir.isBase32 = true) :
    letterValue letters < 32 ^ letters.length := by
  induction letters with
  | nil => simp [letterValue]
  | cons letter rest ih =>
      rw [List.all_cons, Bool.and_eq_true] at valid
      have first := base32Value_lt valid.1
      have scaled : Ir.base32Value letter * 32 ^ rest.length ≤ 31 * 32 ^ rest.length :=
        Nat.mul_le_mul_right _ (by omega)
      have more := ih valid.2
      rw [letterValue_cons, List.length_cons, pow_succ]
      omega

theorem base32Letters_succ (count bits : Nat) :
    base32Letters (count + 1) bits =
      base32Letter (bits / 32 ^ count % 32) :: base32Letters count bits := by
  simp only [base32Letters, List.range_succ_eq_map, List.map_cons, List.map_map]
  congr 1
  apply List.map_congr_left
  intro i member
  have within := List.mem_range.mp member
  have same : count + 1 - 1 - (i + 1) = count - 1 - i := by omega
  simp only [Function.comp_apply, Nat.succ_eq_add_one, same]

@[simp] theorem base32Letters_length (count bits : Nat) :
    (base32Letters count bits).length = count := by
  simp [base32Letters]

theorem base32Letters_valid (count bits : Nat) :
    (base32Letters count bits).all Ir.isBase32 = true := by
  simp only [base32Letters, List.all_map, List.all_eq_true, Function.comp_apply]
  intro i _
  exact (base32Letter_valid (Nat.mod_lt _ (by decide))).1

theorem letterValue_base32Letters (count bits : Nat) :
    letterValue (base32Letters count bits) = bits % 32 ^ count := by
  induction count with
  | zero => simp [base32Letters, letterValue, Nat.mod_one]
  | succ count ih =>
      rw [base32Letters_succ, letterValue_cons, ih, base32Letters_length,
        (base32Letter_valid (Nat.mod_lt _ (by decide))).2, pow_succ,
        Nat.mod_mul, Nat.mul_comm, Nat.add_comm]

theorem base32Letters_letterValue {letters : Bytes} (valid : letters.all Ir.isBase32 = true) :
    base32Letters letters.length (letterValue letters) = letters := by
  suffices spelled : ∀ high, base32Letters letters.length
      (high * 32 ^ letters.length + letterValue letters) = letters by
    simpa using spelled 0
  induction letters with
  | nil => intro high; rfl
  | cons letter rest ih =>
      intro high
      rw [List.all_cons, Bool.and_eq_true] at valid
      have regroup : high * 32 ^ (rest.length + 1) + letterValue (letter :: rest) =
          (high * 32 + Ir.base32Value letter) * 32 ^ rest.length + letterValue rest := by
        rw [letterValue_cons]
        ring
      have head : ((high * 32 + Ir.base32Value letter) * 32 ^ rest.length + letterValue rest) /
          32 ^ rest.length % 32 = Ir.base32Value letter := by
        rw [Nat.mul_comm _ (32 ^ rest.length), Nat.mul_add_div (by positivity),
          Nat.div_eq_of_lt (letterValue_lt valid.2)]
        have small := base32Value_lt valid.1
        omega
      rw [List.length_cons, regroup, base32Letters_succ, head, base32Letter_value valid.1,
        ih valid.2]

/-! ### Bytes -/

/-- The bytes of a number depend on its low-order part only. -/
theorem beBytes_congr {width n m : Nat} (same : n % 256 ^ width = m % 256 ^ width) :
    beBytes width n = beBytes width m := by
  apply beValue_injective
  · rw [beBytes_length, beBytes_length]
  · rw [beValue_beBytes, beValue_beBytes, same]

theorem beBytes_beValue (bytes : Bytes) : beBytes bytes.length (beValue bytes) = bytes := by
  apply beValue_injective
  · exact beBytes_length _ _
  · rw [beValue_beBytes, Nat.mod_eq_of_lt (beValue_lt bytes)]

/-- The bit buffer after one more letter, on the bits that matter. -/
theorem buffer_mod {buf value bits width : Nat} (within : bits + 5 ≤ 32)
    (fits : width ≤ bits + 5) :
    (buf * 32 + value) % 4294967296 % 2 ^ width =
      ((buf % 2 ^ bits) * 32 + value) % 2 ^ width := by
  have wide : (2 : Nat) ^ width ∣ 4294967296 := Nat.pow_dvd_pow 2 (n := 32) (by omega)
  have narrow : (2 : Nat) ^ width ∣ 2 ^ bits * 32 := by
    rw [show (32 : Nat) = 2 ^ 5 by rfl, ← pow_add]
    exact Nat.pow_dvd_pow 2 fits
  rw [Nat.mod_mod_of_dvd _ wide]
  have split : buf * 32 + value = 2 ^ bits * 32 * (buf / 2 ^ bits) +
      ((buf % 2 ^ bits) * 32 + value) := by
    have parts := Nat.div_add_mod buf (2 ^ bits)
    calc
      buf * 32 + value = (2 ^ bits * (buf / 2 ^ bits) + buf % 2 ^ bits) * 32 + value := by
        rw [parts]
      _ = _ := by ring
  obtain ⟨factor, multiple⟩ := narrow
  rw [split, multiple, Nat.mul_assoc, Nat.mul_add_mod]

/-- Reducing the high part of a number by what the modulus leaves of it. -/
theorem high_mod {high low scale modulus : Nat} :
    ((high % modulus) * scale + low) % (modulus * scale) =
      (high * scale + low) % (modulus * scale) := by
  have parts : high * scale + low =
      modulus * scale * (high / modulus) + ((high % modulus) * scale + low) := by
    calc
      high * scale + low = (modulus * (high / modulus) + high % modulus) * scale + low := by
        rw [Nat.div_add_mod]
      _ = _ := by ring
  rw [parts, Nat.mul_add_mod]

theorem base32Bytes_eq {text : Bytes} (valid : text.all Ir.isBase32 = true) {buf bits width : Nat}
    (pending : bits < 8) (fills : bits + 5 * text.length = 8 * width) :
    Ir.base32Bytes buf bits text =
      beBytes width ((buf % 2 ^ bits) * 32 ^ text.length + letterValue text) := by
  induction text generalizing buf bits width with
  | nil =>
      have empty : width = 0 := by
        rw [List.length_nil] at fills
        omega
      subst empty
      rfl
  | cons letter rest ih =>
      rw [List.all_cons, Bool.and_eq_true] at valid
      have small := base32Value_lt valid.1
      have below := letterValue_lt valid.2
      rw [List.length_cons] at fills
      have regroup : (buf % 2 ^ bits) * 32 ^ (rest.length + 1) + letterValue (letter :: rest) =
          ((buf % 2 ^ bits) * 32 + Ir.base32Value letter) * 32 ^ rest.length +
            letterValue rest := by
        rw [letterValue_cons]
        ring
      rw [List.length_cons, regroup]
      simp only [Ir.base32Bytes]
      split
      next full =>
        obtain ⟨width, rfl⟩ : ∃ less, width = less + 1 := ⟨width - 1, by omega⟩
        have room : 256 ^ width = 2 ^ (bits + 5 - 8) * 32 ^ rest.length := by
          rw [show (256 : Nat) = 2 ^ 8 by rfl, show (32 : Nat) = 2 ^ 5 by rfl, ← pow_mul,
            ← pow_mul, ← pow_add]
          congr 1
          omega
        have filled : bits + 5 - 8 + 5 * rest.length = 8 * width := by omega
        rw [beBytes, ih valid.2 (by omega) filled, room]
        congr 1
        · have quotient : (((buf % 2 ^ bits) * 32 + Ir.base32Value letter) * 32 ^ rest.length +
              letterValue rest) / 32 ^ rest.length =
                (buf % 2 ^ bits) * 32 + Ir.base32Value letter := by
            rw [Nat.mul_comm _ (32 ^ rest.length), Nat.mul_add_div (by positivity),
              Nat.div_eq_of_lt below, Nat.add_zero]
          apply UInt8.toNat_inj.mp
          rw [UInt8.toNat_ofNat', UInt8.toNat_ofNat', Nat.mul_comm (2 ^ (bits + 5 - 8)),
            ← Nat.div_div_eq_div_mul, quotient, ← Nat.mod_mul_right_div_self,
            ← Nat.mod_mul_right_div_self]
          have width8 : 2 ^ (bits + 5 - 8) * 2 ^ 8 = 2 ^ (bits + 5) := by
            rw [← pow_add]
            congr 1
            omega
          rw [width8, buffer_mod (by omega) (Nat.le_refl _)]
        · apply beBytes_congr
          have within : bits + 5 - 8 ≤ bits + 5 := by omega
          rw [buffer_mod (by omega) within, room, high_mod]
      next partly =>
        have filled : bits + 5 + 5 * rest.length = 8 * width := by omega
        rw [ih valid.2 (by omega) filled, buffer_mod (by omega) (Nat.le_refl _)]
        have exact : (buf % 2 ^ bits) * 32 + Ir.base32Value letter < 2 ^ (bits + 5) := by
          have low := Nat.mod_lt buf (show 0 < 2 ^ bits by positivity)
          rw [pow_add]
          omega
        rw [Nat.mod_eq_of_lt exact]

/-! ### Strkeys -/

/-- A version byte, a payload, and their checksum, low byte first. -/
def strkeyData (version : UInt8) (payload : Bytes) : Bytes :=
  let data := version :: payload
  data ++ [(Ir.crc16 data &&& 255).toUInt8, (Ir.crc16 data >>> 8).toUInt8]

theorem strkey_eq (version : UInt8) (payload : Bytes) :
    strkey version payload = base32Letters 56 (beValue (strkeyData version payload)) := rfl

/-- The text is a strkey of a version byte and some 32 bytes. -/
def IsStrkey (version : UInt8) (text : String) : Prop :=
  ∃ payload : Bytes, payload.length = 32 ∧ Ir.utf8 text = strkey version payload

theorem strkeyData_length (version : UInt8) {payload : Bytes} (size : payload.length = 32) :
    (strkeyData version payload).length = 35 := by
  simp [strkeyData, size]

theorem strkey_length (version : UInt8) (payload : Bytes) : (strkey version payload).length = 56 :=
  base32Letters_length _ _

theorem strkey_valid (version : UInt8) (payload : Bytes) :
    (strkey version payload).all Ir.isBase32 = true :=
  base32Letters_valid _ _

theorem toNat_checksum (low high : UInt8) :
    (low.toUInt16 + (high.toUInt16 <<< 8)).toNat = low.toNat + high.toNat * 256 := by
  have lowFits := low.toNat_lt
  have highFits := high.toNat_lt
  simp [UInt16.toNat_shiftLeft, Nat.shiftLeft_eq]
  omega

theorem toNat_lowByte (checksum : UInt16) :
    (checksum &&& 255).toUInt8.toNat = checksum.toNat % 256 := by
  have masked : checksum.toNat % 256 &&& 255 = checksum.toNat % 256 % 256 :=
    Nat.and_two_pow_sub_one_eq_mod _ 8
  simp [masked]

theorem toNat_highByte (checksum : UInt16) :
    (checksum >>> 8).toUInt8.toNat = checksum.toNat / 256 := by
  have fits := checksum.toNat_lt
  simp [UInt16.toNat_shiftRight, Nat.shiftRight_eq_div_pow]
  omega

theorem checksum_eq_iff {checksum : UInt16} {low high : UInt8} :
    checksum = low.toUInt16 + (high.toUInt16 <<< 8) ↔
      low = (checksum &&& 255).toUInt8 ∧ high = (checksum >>> 8).toUInt8 := by
  have lowFits := low.toNat_lt
  rw [← UInt16.toNat_inj, toNat_checksum, ← UInt8.toNat_inj, toNat_lowByte, ← UInt8.toNat_inj,
    toNat_highByte]
  omega

theorem base32Bytes_strkey {version : UInt8} {payload : Bytes} (size : payload.length = 32) :
    Ir.base32Bytes 0 0 (strkey version payload) = strkeyData version payload := by
  have fills : 0 + 5 * (strkey version payload).length = 8 * 35 := by
    rw [strkey_length]
  have fits := beValue_lt (strkeyData version payload)
  rw [strkeyData_length version size] at fits
  rw [base32Bytes_eq (strkey_valid version payload) (by decide) fills, strkey_eq,
    letterValue_base32Letters, Nat.zero_mod, Nat.zero_mul, Nat.zero_add,
    Nat.mod_eq_of_lt (fits.trans_eq (by norm_num)),
    ← strkeyData_length version size, beBytes_beValue]

theorem checksummed_iff {data : Bytes} (size : data.length = 35) :
    Ir.crc16 (data.take 33) = (data.getD 33 0).toUInt16 + ((data.getD 34 0).toUInt16 <<< 8) ↔
      ∃ version payload, payload.length = 32 ∧ data = strkeyData version payload := by
  rw [checksum_eq_iff]
  constructor
  · rintro ⟨low, high⟩
    have split : data = data.take 33 ++ [data.getD 33 0, data.getD 34 0] := by
      have last : data.drop 33 = [data.getD 33 0, data.getD 34 0] := by
        rw [List.drop_eq_getElem_cons (by omega), List.drop_eq_getElem_cons (by omega),
          List.drop_eq_nil_of_le (by omega), List.getD_eq_getElem _ _ (by omega),
          List.getD_eq_getElem _ _ (by omega)]
      rw [← last, List.take_append_drop]
    cases front : data.take 33 with
    | nil =>
        have length := congrArg List.length front
        rw [List.length_take, size] at length
        cases length
    | cons version payload =>
        rw [front] at low high split
        have length := congrArg List.length front
        rw [List.length_take, size, List.length_cons] at length
        refine ⟨version, payload, by omega, ?_⟩
        rw [split, low, high]
        rfl
  · rintro ⟨version, payload, length, rfl⟩
    have prefix33 : (strkeyData version payload).take 33 = version :: payload := by
      rw [strkeyData, List.take_left' (by simp [length])]
    rw [prefix33]
    have body : (version :: payload).length = 33 := by simp [length]
    constructor
    · rw [strkeyData, List.getD_append_right _ _ _ _ (by omega), body]
      rfl
    · rw [strkeyData, List.getD_append_right _ _ _ _ (by omega), body]
      rfl

/-- The letters and the checksum are right exactly when the text is a strkey. -/
theorem strkeyChecksumOk_iff {bytes : Bytes} :
    Ir.strkeyChecksumOk bytes = true ↔
      ∃ version payload, payload.length = 32 ∧ bytes = strkey version payload := by
  simp only [Ir.strkeyChecksumOk, Bool.and_eq_true, decide_eq_true_eq]
  constructor
  · rintro ⟨⟨⟨letters, valid⟩, size⟩, checked⟩
    have fills : 0 + 5 * bytes.length = 8 * 35 := by omega
    obtain ⟨version, payload, length, spelled⟩ := (checksummed_iff size).mp checked
    refine ⟨version, payload, length, ?_⟩
    have fits : letterValue bytes < 256 ^ 35 := by
      have below := letterValue_lt valid
      rw [letters] at below
      exact below.trans_eq (by norm_num)
    rw [strkey_eq, ← spelled, base32Bytes_eq valid (by decide) fills, Nat.zero_mod, Nat.zero_mul,
      Nat.zero_add, beValue_beBytes, Nat.mod_eq_of_lt fits, ← letters,
      base32Letters_letterValue valid]
  · rintro ⟨version, payload, size, rfl⟩
    rw [base32Bytes_strkey size]
    have whole := strkeyData_length version size
    exact ⟨⟨⟨strkey_length _ _, strkey_valid _ _⟩, whole⟩,
      (checksummed_iff whole).mpr ⟨version, payload, size, rfl⟩⟩

/-- A text is the strkey of one version byte at most. -/
theorem IsStrkey.version_unique {version other : UInt8} {text : String}
    (first : IsStrkey version text) (second : IsStrkey other text) : version = other := by
  obtain ⟨payload, size, spelled⟩ := first
  obtain ⟨payload', size', spelled'⟩ := second
  have same := congrArg (Ir.base32Bytes 0 0) (spelled.symm.trans spelled')
  rw [base32Bytes_strkey size, base32Bytes_strkey size'] at same
  exact (List.cons.inj same).1

theorem strkey_head {version : UInt8} {payload : Bytes} (size : payload.length = 32) :
    (strkey version payload).headD 0 = base32Letter (version.toNat / 8) := by
  have versionFits := version.toNat_lt
  have tailSize := strkeyData_length version size
  rw [strkeyData, List.cons_append, List.length_cons] at tailSize
  have tailFits := beValue_lt (payload ++ [(Ir.crc16 (version :: payload) &&& 255).toUInt8,
    (Ir.crc16 (version :: payload) >>> 8).toUInt8])
  rw [Nat.succ.inj tailSize] at tailFits
  have high : beValue (strkeyData version payload) / 32 ^ 55 % 32 = version.toNat / 8 := by
    rw [strkeyData, List.cons_append, beValue_cons, Nat.succ.inj tailSize,
      show (32 : Nat) ^ 55 = 256 ^ 34 * 8 by norm_num, ← Nat.div_div_eq_div_mul,
      Nat.mul_comm _ (256 ^ 34), Nat.mul_add_div (by positivity), Nat.div_eq_of_lt tailFits]
    omega
  rw [strkey_eq, base32Letters_succ, List.headD_cons, high]

theorem isStrkeyShape_iff {text : String} {leads : List UInt8} :
    Ir.isStrkeyShape text leads = true ↔
      ∃ version, IsStrkey version text ∧ base32Letter (version.toNat / 8) ∈ leads := by
  simp only [Ir.isStrkeyShape, Bool.and_eq_true, decide_eq_true_eq, strkeyChecksumOk_iff]
  constructor
  · rintro ⟨⟨⟨_, lead⟩, _⟩, version, payload, size, spelled⟩
    rw [spelled, strkey_head size] at lead
    exact ⟨version, ⟨payload, size, spelled⟩, lead⟩
  · rintro ⟨version, ⟨payload, size, spelled⟩, lead⟩
    rw [spelled, strkey_head size]
    exact ⟨⟨⟨strkey_length _ _, lead⟩, strkey_valid _ _⟩, version, payload, size, rfl⟩

/-! ### The two checks -/

inductive AddressKind
  | contract
  | any
deriving DecidableEq

namespace AddressKind

def shape : AddressKind → String → Bool
  | contract => Ir.isContractAddressShape
  | any => Ir.isAddressShape

def versions : AddressKind → List UInt8
  | contract => [contractVersion]
  | any => [contractVersion, accountVersion]

/-- The text is the strkey of a contract, or of an account where one may stand. -/
def Strkey (kind : AddressKind) (text : String) : Prop :=
  ∃ version ∈ kind.versions, IsStrkey version text

/-- Version bytes that only start like one the field may hold. -/
def strayVersion : AddressKind → UInt8 → Prop
  | contract, version => 16 < version ∧ version < 24
  | any, version => (16 < version ∧ version < 24) ∨ (48 < version ∧ version < 56)

/-- The text is checksummed, but neither a contract's nor an account's. -/
def Stray (kind : AddressKind) (text : String) : Prop :=
  ∃ version, kind.strayVersion version ∧ IsStrkey version text

theorem strayVersion_iff {kind : AddressKind} {version : UInt8} :
    kind.strayVersion version ↔
      version ∉ kind.versions ∧ version / 8 ∈ kind.versions.map (· / 8) := by
  cases kind <;>
    simp only [strayVersion, versions, contractVersion, accountVersion, List.mem_cons,
      List.map_cons, List.map_nil, List.not_mem_nil, or_false, UInt8.lt_iff_toNat_lt,
      ← UInt8.toNat_inj, UInt8.toNat_div, UInt8.reduceToNat] <;>
    omega

/-- The first letters of the versions a field may hold. -/
theorem shape_eq (kind : AddressKind) (text : String) :
    kind.shape text =
      Ir.isStrkeyShape text
        (kind.versions.map fun version => base32Letter (version.toNat / 8)) := by
  cases kind <;> rfl

theorem lead_iff {kind : AddressKind} {version : UInt8} :
    base32Letter (version.toNat / 8) ∈
        kind.versions.map (fun version => base32Letter (version.toNat / 8)) ↔
      version / 8 ∈ kind.versions.map (· / 8) := by
  have same (other : UInt8) :
      base32Letter (other.toNat / 8) = base32Letter (version.toNat / 8) ↔
        other / 8 = version / 8 := by
    have fits := version.toNat_lt
    have fits' := other.toNat_lt
    have bits : other / 8 = version / 8 ↔ other.toNat / 8 = version.toNat / 8 := by
      rw [← UInt8.toNat_inj, UInt8.toNat_div, UInt8.toNat_div]
      rfl
    rw [bits]
    constructor
    · intro letters
      have values := congrArg Ir.base32Value letters
      rwa [(base32Letter_valid (by omega)).2, (base32Letter_valid (by omega)).2] at values
    · intro high
      exact congrArg base32Letter high
  simp only [List.mem_map, same]

theorem shape_iff {kind : AddressKind} {text : String} :
    kind.shape text = true ↔
      ∃ version, version / 8 ∈ kind.versions.map (· / 8) ∧ IsStrkey version text := by
  rw [shape_eq, isStrkeyShape_iff]
  constructor
  · rintro ⟨version, spelled, lead⟩
    exact ⟨version, lead_iff.mp lead, spelled⟩
  · rintro ⟨version, lead, spelled⟩
    exact ⟨version, spelled, lead_iff.mpr lead⟩

/-- The check is right about a text exactly when the text is not stray. -/
theorem shape_exact_iff {kind : AddressKind} {text : String} :
    (kind.shape text = true ↔ kind.Strkey text) ↔ ¬kind.Stray text := by
  rw [shape_iff]
  constructor
  · rintro right ⟨version, stray, spelled⟩
    obtain ⟨foreign, lead⟩ := strayVersion_iff.mp stray
    obtain ⟨proper, listed, spelled'⟩ := right.mp ⟨version, lead, spelled⟩
    exact foreign (spelled.version_unique spelled' ▸ listed)
  · intro settled
    constructor
    · rintro ⟨version, lead, spelled⟩
      by_contra missing
      apply settled
      exact ⟨version, strayVersion_iff.mpr ⟨fun listed => missing ⟨version, listed, spelled⟩, lead⟩,
        spelled⟩
    · rintro ⟨version, listed, spelled⟩
      exact ⟨version, List.mem_map_of_mem listed, spelled⟩

end AddressKind

/-! ### The host's conversion -/

/-- A conversion that takes the strkeys of contracts and of accounts, and no
other text. -/
def DecodesStrkeys (addressFromStr : String → Option Address) : Prop :=
  ∀ text, addressFromStr text ≠ none ↔ AddressKind.any.Strkey text

theorem localAddressFromStr_decodes : DecodesStrkeys localAddressFromStr := by
  intro text
  constructor
  · intro decoded
    have shaped : AddressKind.any.shape text = true := by
      by_contra malformed
      apply decoded
      have refused : Ir.isAddressShape text ≠ true := malformed
      unfold localAddressFromStr
      split
      · rfl
      · simp [refused]
    obtain ⟨version, _, spelled⟩ := AddressKind.shape_iff.mp shaped
    refine ⟨version, ?_, spelled⟩
    obtain ⟨payload, size, spelled⟩ := spelled
    by_contra foreign
    apply decoded
    simp only [AddressKind.versions, List.mem_cons, List.not_mem_nil, or_false, not_or] at foreign
    unfold localAddressFromStr
    rw [spelled, base32Bytes_strkey size, strkeyData, List.cons_append]
    simp [foreign]
  · rintro ⟨version, listed, spelled⟩
    have shaped : Ir.isAddressShape text = true :=
      AddressKind.shape_iff.mpr ⟨version, List.mem_map_of_mem listed, spelled⟩
    obtain ⟨payload, size, spelled⟩ := spelled
    simp only [AddressKind.versions, List.mem_cons, List.not_mem_nil, or_false] at listed
    unfold localAddressFromStr
    rw [spelled, base32Bytes_strkey size, strkeyData, List.cons_append]
    rcases listed with rfl | rfl
    · simp [shaped, List.take_left' size, size, contractVersion, accountVersion]
    · simp [shaped, List.take_left' size, size]

/-- A text read as an address is the address' one spelling. -/
theorem localAddressFromStr_spells {text : String} {address : Address}
    (reads : localAddressFromStr text = some address) :
    Ir.utf8 text = localAddressToString address := by
  have decoded : localAddressFromStr text ≠ none := by simp [reads]
  obtain ⟨version, listed, payload, size, spelled⟩ := (localAddressFromStr_decodes text).mp decoded
  unfold localAddressFromStr at reads
  rw [spelled, base32Bytes_strkey size, strkeyData, List.cons_append] at reads
  simp only [List.take_left' size, size, dite_true] at reads
  split at reads
  next account =>
    cases reads
    rw [spelled, account.2]
    rfl
  · split at reads
    next contract =>
      cases reads
      rw [spelled, contract.2]
      rfl
    · cases reads

theorem localAddressFromStr_injective {text text' : String} {address : Address}
    (reads : localAddressFromStr text = some address)
    (reads' : localAddressFromStr text' = some address) : text = text' :=
  utf8_injective ((localAddressFromStr_spells reads).trans (localAddressFromStr_spells reads').symm)

end Perch.Document
