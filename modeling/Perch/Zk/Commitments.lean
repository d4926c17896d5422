/-
The commitment of an enrollment, checked three times.

Validation compares it with the modulus as lower-case hex text, the compiler
decodes it, and the pool compares the bytes.  Fixed-width text compares like
the number it spells, so the three checks are one, and a commitment that
compiles is never refused by the pool as non-canonical.
-/

import Perch.Document.Derivation
import Perch.Document.Spelling
import Perch.Zk.Pool

namespace Perch.Zk

open Machine Recovery Document

/-! ### Lower-case hex -/

def isLowerHex (letter : UInt8) : Bool :=
  (48 ≤ letter && letter ≤ 57) || (97 ≤ letter && letter ≤ 102)

theorem hexNibble_of_lower {letter : UInt8} (lower : isLowerHex letter = true) :
    ∃ nibble, hexNibble letter = some nibble ∧ nibble.toNat < 16 ∧
      letter.toNat = nibble.toNat + if nibble.toNat < 10 then 48 else 87 := by
  have every : ∀ n < 256, isLowerHex (UInt8.ofNat n) = true →
      ∃ m < 16, hexNibble (UInt8.ofNat n) = some (UInt8.ofNat m) ∧
        n = m + if m < 10 then 48 else 87 := by
    decide +kernel
  have known := every letter.toNat letter.toNat_lt
  rw [UInt8.ofNat_toNat] at known
  obtain ⟨m, small, read, spelled⟩ := known lower
  have same : (UInt8.ofNat m).toNat = m := by
    rw [UInt8.toNat_ofNat']
    omega
  exact ⟨UInt8.ofNat m, read, by rwa [same], by rwa [same]⟩

theorem toNat_nibbles {high low : UInt8} (highSmall : high.toNat < 16)
    (lowSmall : low.toNat < 16) : (high * 16 + low).toNat = high.toNat * 16 + low.toNat := by
  rw [UInt8.toNat_add, UInt8.toNat_mul]
  change (high.toNat * 16 % 256 + low.toNat) % 256 = _
  omega

theorem hexPairs_of_lower {text : Bytes} {count : Nat} (paired : text.length = 2 * count)
    (lower : text.all isLowerHex = true) :
    ∃ bytes, hexPairs text = some bytes ∧ bytes.length = count := by
  induction count generalizing text with
  | zero =>
      obtain rfl := List.length_eq_zero_iff.mp paired
      exact ⟨[], rfl, rfl⟩
  | succ count ih =>
      match text with
      | [] => simp at paired
      | [_] =>
          rw [List.length_singleton] at paired
          omega
      | first :: second :: rest =>
          simp only [List.all_cons, Bool.and_eq_true] at lower
          obtain ⟨high, readHigh, -⟩ := hexNibble_of_lower lower.1
          obtain ⟨low, readLow, -⟩ := hexNibble_of_lower lower.2.1
          have shorter : rest.length = 2 * count := by
            simp only [List.length_cons] at paired
            omega
          obtain ⟨bytes, decoded, size⟩ := ih shorter lower.2.2
          refine ⟨(high * 16 + low) :: bytes, ?_, by rw [List.length_cons, size]⟩
          simp [hexPairs, readHigh, readLow, decoded]

theorem lower_lt_iff {letter letter' nibble nibble' : UInt8}
    (lower : isLowerHex letter = true) (lower' : isLowerHex letter' = true)
    (read : hexNibble letter = some nibble) (read' : hexNibble letter' = some nibble') :
    (letter < letter' ↔ nibble.toNat < nibble'.toNat) ∧
      (letter = letter' ↔ nibble.toNat = nibble'.toNat) ∧ nibble.toNat < 16 := by
  obtain ⟨found, reads, small, spelled⟩ := hexNibble_of_lower lower
  obtain ⟨found', reads', small', spelled'⟩ := hexNibble_of_lower lower'
  obtain rfl := Option.some.inj (reads.symm.trans read)
  obtain rfl := Option.some.inj (reads'.symm.trans read')
  rw [UInt8.lt_iff_toNat_lt, ← UInt8.toNat_inj, spelled, spelled']
  refine ⟨?_, ?_, small⟩
  · split <;> split <;> omega
  · split <;> split <;> omega

/-- Lower-case texts of one length compare like the bytes they spell. -/
theorem lower_text_lt_iff {text text' bytes bytes' : Bytes}
    (sizes : text.length = text'.length) (lower : text.all isLowerHex = true)
    (lower' : text'.all isLowerHex = true) (decoded : hexPairs text = some bytes)
    (decoded' : hexPairs text' = some bytes') :
    text < text' ↔ bytesBelow bytes bytes' = true := by
  induction text using hexPairs.induct generalizing text' bytes bytes' with
  | case1 =>
      obtain rfl := List.length_eq_zero_iff.mp sizes.symm
      obtain rfl := Option.some.inj decoded
      simp [bytesBelow]
  | case2 => cases decoded
  | case3 first second rest ih =>
      cases text' with
      | nil => simp at sizes
      | cons first' others =>
          cases others with
          | nil => simp at sizes
          | cons second' rest' =>
              simp only [List.all_cons, Bool.and_eq_true] at lower lower'
              obtain ⟨high, low, tail, readHigh, readLow, decodedTail, rfl⟩ :=
                hexPairs_cons_eq_some.mp decoded
              obtain ⟨high', low', tail', readHigh', readLow', decodedTail', rfl⟩ :=
                hexPairs_cons_eq_some.mp decoded'
              obtain ⟨highLt, highEq, highSmall⟩ :=
                lower_lt_iff lower.1 lower'.1 readHigh readHigh'
              obtain ⟨lowLt, lowEq, lowSmall⟩ :=
                lower_lt_iff lower.2.1 lower'.2.1 readLow readLow'
              obtain ⟨-, -, highSmall'⟩ := lower_lt_iff lower'.1 lower.1 readHigh' readHigh
              obtain ⟨-, -, lowSmall'⟩ := lower_lt_iff lower'.2.1 lower.2.1 readLow' readLow
              have tails : rest.length = rest'.length := by simpa using sizes
              rw [List.cons_lt_cons_iff, List.cons_lt_cons_iff, highLt, highEq, lowLt, lowEq,
                ih tails lower.2.2 lower'.2.2 decodedTail decodedTail', bytesBelow]
              by_cases same : high * 16 + low = high' * 16 + low'
              · have values := congrArg UInt8.toNat same
                rw [toNat_nibbles highSmall lowSmall, toNat_nibbles highSmall' lowSmall'] at values
                rw [if_neg (not_not.mpr same)]
                have highs : high.toNat = high'.toNat := by omega
                have lows : low.toNat = low'.toNat := by omega
                simp [highs, lows]
              · rw [if_pos same, decide_eq_true_iff, UInt8.lt_iff_toNat_lt,
                  toNat_nibbles highSmall lowSmall, toNat_nibbles highSmall' lowSmall']
                rw [← UInt8.toNat_inj, toNat_nibbles highSmall lowSmall,
                  toNat_nibbles highSmall' lowSmall'] at same
                omega

theorem hexBytes32_of_sha256Hex {text : String} (hex : Ir.isSha256Hex text = true) :
    ∃ x, hexBytes32 text = .ok x ∧ hexPairs (Ir.utf8 text) = some x.bytes := by
  simp only [Ir.isSha256Hex, Bool.and_eq_true, decide_eq_true_eq] at hex
  obtain ⟨bytes, decoded, size⟩ := hexPairs_of_lower (show _ = 2 * 32 from hex.1) hex.2
  refine ⟨⟨bytes, size⟩, ?_, decoded⟩
  simp [hexBytes32, hexBytes, hex.1, decoded, size, require, orFail]

theorem hexBytes32_eq_ok {text : String} {x : Bytes32} :
    hexBytes32 text = .ok x ↔
      (Ir.utf8 text).length = 64 ∧ hexPairs (Ir.utf8 text) = some x.bytes := by
  simp only [hexBytes32, hexBytes, bind_eq_ok, require_eq_ok, orFail_eq_ok]
  constructor
  · rintro ⟨_, long, bytes, decoded, checked⟩
    split at checked
    · obtain rfl := Except.ok.inj checked
      exact ⟨long, decoded⟩
    · cases checked
  · rintro ⟨long, decoded⟩
    exact ⟨(), long, x.bytes, decoded, dif_pos x.size⟩

/-- The modulus as text spells the modulus as bytes. -/
theorem modulusHex_spells :
    Ir.isSha256Hex Ir.bn254ScalarModulusHex = true ∧
      hexPairs (Ir.utf8 Ir.bn254ScalarModulusHex) = some bn254ScalarModulus := by
  constructor
  · decide
  · decide

/-- Comparing with the modulus as text compares the numbers. -/
theorem text_lt_modulus_iff {text : String} {x : Bytes32} (hex : Ir.isSha256Hex text = true)
    (decoded : hexBytes32 text = .ok x) :
    Ir.utf8 text < Ir.utf8 Ir.bn254ScalarModulusHex ↔ isCanonicalField x = true := by
  obtain ⟨modulusHex, modulusDecoded⟩ := modulusHex_spells
  simp only [Ir.isSha256Hex, Bool.and_eq_true, decide_eq_true_eq] at hex modulusHex
  exact lower_text_lt_iff (hex.1.trans modulusHex.1.symm) hex.2 modulusHex.2
    (hexBytes32_eq_ok.mp decoded).2 modulusDecoded

/-! ### What validation reports -/

section Reports

open Ir

variable {commitment : String} {hexDecode : String → Option Bytes}

@[simp] theorem mem_reportIf {fails : Prop} [Decidable fails] {error other : ValidationError} :
    other ∈ reportIf fails error ↔ fails ∧ other = error := by
  unfold reportIf
  split <;> simp_all

theorem eachSeen_silent {α κ : Type} [DecidableEq κ] {key : α → κ}
    {report : Bool → α → List ValidationError} {seen : List κ} {items : List α}
    {error : ValidationError} (silent : ∀ repeated item, error ∉ report repeated item) :
    error ∉ eachSeen key report seen items := by
  induction items generalizing seen with
  | nil => simp [eachSeen]
  | cons item rest ih =>
      rw [eachSeen, List.mem_append, not_or]
      exact ⟨silent _ item, ih⟩

theorem validateSigners_silent {position : Nat} {seen : SeenSigners}
    {signers : List SignerDecl} :
    .invalidCommitment commitment ∉ validateSigners hexDecode position seen signers := by
  induction signers generalizing position seen with
  | nil => simp [validateSigners]
  | cons signer rest ih =>
      rw [validateSigners, List.mem_append, List.mem_append, not_or, not_or]
      refine ⟨⟨?_, ?_⟩, ih⟩
      · split <;> simp
      · unfold validateMethod
        split
        · split
          · simp
          · split <;> simp
        · split <;> simp

theorem validatePrincipals_silent {rule : String} {declared : List String}
    {principals : Principals} :
    .invalidCommitment commitment ∉ validatePrincipals hexDecode rule declared principals := by
  have signers : ∀ ids,
      .invalidCommitment commitment ∉ validatePrincipalSigners rule ids declared := by
    intro ids
    rw [validatePrincipalSigners, List.mem_append, not_or]
    exact ⟨by simp, eachSeen_silent fun _ _ => by simp⟩
  cases principals with
  | all ids => exact signers ids
  | threshold ids m =>
      rw [validatePrincipals, List.mem_append, not_or]
      exact ⟨signers ids, by simp⟩
  | selfAuthenticating => simp [validatePrincipals]

theorem validateFunctions_silent {rule : String} {functions : List String} :
    .invalidCommitment commitment ∉ validateFunctions rule functions := by
  rw [validateFunctions, List.mem_append, not_or]
  refine ⟨by simp, eachSeen_silent fun repeated func => ?_⟩
  split <;> simp

theorem validateArgs_silent {rule : String} {args : List ArgConstraint} :
    .invalidCommitment commitment ∉ validateArgs rule args := by
  rw [validateArgs, List.mem_append, not_or]
  refine ⟨by simp, eachSeen_silent fun repeated constraint => ?_⟩
  rw [List.mem_append, not_or]
  refine ⟨by simp, ?_⟩
  cases constraint.pred with
  | stringIn values =>
      rw [validatePred, List.mem_append, not_or]
      exact ⟨by simp, eachSeen_silent fun _ _ => by simp⟩
  | stringPrefix => simp [validatePred]
  | addressEq => simp [validatePred]
  | isSelf => simp [validatePred]
  | u32Eq => simp [validatePred]

theorem validateRule_silent {declared : List String} {rule : Rule} :
    .invalidCommitment commitment ∉ validateRule hexDecode declared rule := by
  simp only [validateRule, List.mem_append, not_or]
  refine ⟨⟨⟨⟨⟨?_, validatePrincipals_silent⟩, ?_⟩, ?_⟩, by simp⟩, ?_⟩
  · cases rule.scope <;> simp [validateScope]
  · cases rule.functions with
    | none => simp
    | some functions => exact validateFunctions_silent
  · cases rule.args with
    | none => simp
    | some args => exact validateArgs_silent
  · cases rule.cap with
    | none => simp
    | some cap =>
        simp only [Option.map_some, Option.getD_some, validateCap, List.mem_append, not_or]
        refine ⟨⟨by simp, by simp⟩, ?_⟩
        cases rule.scope with
        | selfAdmin => simp [validateCapScope]
        | contract address =>
            cases cap.token with
            | none => simp [validateCapScope]
            | some token =>
                rw [validateCapScope]
                split <;> simp

theorem validateRules_silent {declared seen : List String} {position : Nat}
    {rules : List Rule} :
    .invalidCommitment commitment ∉ validateRules hexDecode declared position seen rules := by
  induction rules generalizing position seen with
  | nil => simp [validateRules]
  | cons rule rest ih =>
      rw [validateRules, List.mem_append, List.mem_append, not_or, not_or]
      refine ⟨⟨?_, validateRule_silent⟩, ih⟩
      split <;> simp

theorem mem_validateRecovery {declared : List String} {r : RecoveryConfig} :
    .invalidCommitment commitment ∈ validateRecovery declared r ↔
      ∃ z, r.mode.zk = some z ∧ .invalidCommitment commitment ∈ validateZkFactor z := by
  have guardians : ∀ g, .invalidCommitment commitment ∉ validateGuardianSet g := by
    intro g
    simp only [validateGuardianSet, List.mem_append, not_or]
    exact ⟨⟨by simp, eachSeen_silent fun _ _ => by simp⟩, by simp⟩
  have replaceable : .invalidCommitment commitment ∉
      eachSeen id (fun repeated id =>
        reportIf (repeated = true) (.duplicateRecoveryReplaceable id) ++
          reportIf (id ∉ declared) (.unknownRecoveryReplaceableRef id)) [] r.replaceable :=
    eachSeen_silent fun _ _ => by simp
  have baseline : .invalidCommitment commitment ∉ (r.baseline.map fun b =>
      reportIf (isSha256Hex b.docHash = false) (.invalidBaselineDocHash b.docHash)).getD [] := by
    cases r.baseline <;> simp
  have mode : .invalidCommitment commitment ∈ validateMode r.mode ↔
      ∃ z, r.mode.zk = some z ∧ .invalidCommitment commitment ∈ validateZkFactor z := by
    cases r.mode with
    | guardianOnly g => simp [validateMode, RecoveryMode.zk, guardians g]
    | zkOnly z => simp [validateMode, RecoveryMode.zk]
    | combined g z => simp [validateMode, RecoveryMode.zk, guardians g]
  simp only [validateRecovery, List.mem_append, mem_reportIf, reduceCtorEq, and_false, or_false,
    false_or, replaceable, baseline, mode]

theorem mem_validateZkFactor {z : ZkFactor} :
    .invalidCommitment commitment ∈ validateZkFactor z ↔ commitment = z.commitment ∧
      (isSha256Hex z.commitment = false ∨ utf8 bn254ScalarModulusHex ≤ utf8 z.commitment) := by
  simp [validateZkFactor, and_comm]

theorem mem_violations {doc : PolicyDoc} {r : RecoveryConfig} {z : ZkFactor}
    (recovers : doc.recovery = some r) (proves : r.mode.zk = some z) :
    .invalidCommitment z.commitment ∈ violations hexDecode doc ↔
      isSha256Hex z.commitment = false ∨ utf8 bn254ScalarModulusHex ≤ utf8 z.commitment := by
  have rules : .invalidCommitment z.commitment ∉ validateRulesAvoidZkContracts doc r := by
    unfold validateRulesAvoidZkContracts
    rw [proves]
    intro raised
    obtain ⟨rule, -, raised⟩ := List.mem_flatMap.mp raised
    split at raised <;> simp at raised
  simp only [violations, recovers, Option.map_some, Option.getD_some, List.mem_append,
    mem_reportIf, reduceCtorEq, and_false, false_or, or_false, validateSigners_silent,
    validateRules_silent, rules, mem_validateRecovery, proves, Option.some.injEq,
    exists_eq_left', mem_validateZkFactor, true_and]

/-- Validation accepts a commitment exactly when it spells a canonical field
element. -/
theorem commitment_accepted_iff {doc : PolicyDoc} {r : RecoveryConfig} {z : ZkFactor}
    (recovers : doc.recovery = some r) (proves : r.mode.zk = some z) :
    .invalidCommitment z.commitment ∉ violations hexDecode doc ↔
      isSha256Hex z.commitment = true ∧
        ∃ x, hexBytes32 z.commitment = .ok x ∧ isCanonicalField x = true := by
  rw [mem_violations recovers proves, not_or, Bool.not_eq_false]
  constructor
  · rintro ⟨hex, below⟩
    obtain ⟨x, decoded, -⟩ := hexBytes32_of_sha256Hex hex
    exact ⟨hex, x, decoded, (text_lt_modulus_iff hex decoded).mp (List.not_le.mp below)⟩
  · rintro ⟨hex, x, decoded, canonical⟩
    exact ⟨hex, List.not_le.mpr ((text_lt_modulus_iff hex decoded).mpr canonical)⟩

end Reports

/-! ### What the compiler hands on -/

variable {host : CompilerHost}

/-- What the hex library documents of its encoder: two lower-case digits a
byte, the high nibble first. -/
def EncodesHex (hexEncode : Bytes → String) : Prop :=
  ∀ bytes, hexEncode bytes = localHexEncode bytes

theorem hexBytes32_encode {hexEncode : Bytes → String} (encodes : EncodesHex hexEncode)
    (x : Bytes32) : hexBytes32 (hexEncode x.bytes) = .ok x := by
  have decoded := hexPairs_localHexEncode x.bytes
  have long := length_of_hexPairs decoded
  rw [x.size] at long
  rw [encodes]
  exact hexBytes32_eq_ok.mpr ⟨long, decoded⟩

theorem toCompiledZk_commitment {z : Ir.ZkFactor} {factor : CompiledZkFactor}
    (builds : toCompiledZk host z = .ok factor) :
    hexBytes32 z.commitment = .ok factor.commitment := by
  simp only [toCompiledZk, bind_eq_ok, pure_eq_ok] at builds
  obtain ⟨_, -, _, -, _, -, _, -, commitment, decoded, rfl⟩ := builds
  exact decoded

/-- A compiled configuration has a factor exactly when the declared one has,
and its commitment is the declared one's bytes. -/
theorem toCompiledRecovery_zk {r : Ir.RecoveryConfig} {config : CompiledRecoveryConfig}
    (builds : toCompiledRecovery host r = .ok config) :
    Option.Rel (fun z factor => hexBytes32 z.commitment = .ok factor.commitment)
      r.mode.zk config.zk := by
  simp only [toCompiledRecovery, bind_eq_ok, pure_eq_ok] at builds
  obtain ⟨mode, moded, _, -, _, -, rfl⟩ := builds
  cases declared : r.mode with
  | guardianOnly g =>
      simp only [declared, toCompiledMode, bind_eq_ok, pure_eq_ok] at moded
      obtain ⟨_, -, rfl⟩ := moded
      exact .none
  | zkOnly z =>
      simp only [declared, toCompiledMode, bind_eq_ok, pure_eq_ok] at moded
      obtain ⟨built, builds, rfl⟩ := moded
      exact .some (toCompiledZk_commitment builds)
  | combined g z =>
      simp only [declared, toCompiledMode, bind_eq_ok, pure_eq_ok] at moded
      obtain ⟨_, -, built, builds, rfl⟩ := moded
      exact .some (toCompiledZk_commitment builds)

theorem compiled_commitment {doc : Ir.PolicyDoc} {compiled : CompiledDoc}
    {config : CompiledRecoveryConfig} {factor : CompiledZkFactor}
    (compiles : Compiles host doc compiled) (member : config ∈ compiled.recovery)
    (proves : config.zk = some factor) : isCanonicalField factor.commitment = true := by
  obtain ⟨r, recovers, builds⟩ := compiles.recovery_mem member
  have related := toCompiledRecovery_zk builds
  generalize declared : r.mode.zk = zk, config.zk = compiledZk at related proves
  subst proves
  cases related with
  | @some z _ decoded =>
      have accepted : .invalidCommitment z.commitment ∉ Ir.violations host.hexDecode doc := by
        rw [compiles.valid]
        exact List.not_mem_nil
      obtain ⟨-, x, decoded', canonical⟩ :=
        (commitment_accepted_iff recovers declared).mp accepted
      obtain rfl := Except.ok.inj (decoded.symm.trans decoded')
      exact canonical

theorem rotates_zk {mode rotated : Ir.RecoveryMode} {rotation : Ir.ZkRotation}
    (rotates : Ir.Rotates mode (some rotation) rotated) :
    ∃ z, rotated.zk = some z ∧ z.commitment = rotation.commitment := by
  cases rotates with
  | zkOnly => exact ⟨_, rfl, rfl⟩
  | combined => exact ⟨_, rfl, rfl⟩

theorem derived_commitment (encodes : EncodesHex host.hexEncode)
    {source current target : Ir.PolicyDoc} {action : RecoveryAction}
    {replacements : ReplacementSet} {compiled : CompiledDoc} {derived : DerivedTarget}
    (derivation : Derivation host source current action replacements target compiled derived)
    {enrollment : ZkEnrollment} (listed : enrollment ∈ replacements.zkEnrollment) :
    ∃ config ∈ compiled.recovery, ∃ factor, config.zk = some factor ∧
      factor.commitment = enrollment.commitment := by
  obtain ⟨act, rotation, -, rotated, walked⟩ := derivation.derives
  obtain ⟨recovery, mode, -, -, rotates, rfl⟩ := Ir.deriveTarget_eq_ok.mp walked
  have single : rotation = some (toRotation host enrollment) := by
    match declared : replacements.zkEnrollment with
    | [] => simp [declared] at listed
    | [only] =>
        rw [declared, List.mem_singleton] at listed
        rw [declared, Document.rotationOf, pure_eq_ok] at rotated
        rw [← rotated, listed]
    | _ :: _ :: _ =>
        rw [declared] at rotated
        cases rotated
  subst single
  obtain ⟨z, turned, commitment⟩ := rotates_zk rotates
  obtain ⟨config, first, -⟩ := derivation.config
  have member := List.mem_of_head? first
  obtain ⟨r, recovers, builds⟩ := (compileParsed_eq_ok derivation.compiles).recovery_mem member
  obtain rfl := Option.some.inj recovers
  have related := toCompiledRecovery_zk builds
  rw [show Ir.RecoveryMode.zk mode = some z from turned] at related
  generalize proves : config.zk = compiledZk at related
  cases related with
  | @some _ factor decoded =>
      refine ⟨config, member, factor, proves, ?_⟩
      rw [commitment, toRotation, hexBytes32_encode encodes] at decoded
      exact (Except.ok.inj decoded).symm

/-! ### What the pool makes of it -/

theorem append_ne {poseidon2 : Poseidon2} {depth : Nat} {s : PoolStorage} {leaf : Bytes32}
    {error : Account.PoolError} (other : error ≠ .treeIdOverflow) :
    append poseidon2 depth s leaf ≠ .error (some error) := by
  intro refused
  simp only [append, bind_eq_error, orFail_eq_error, orFail_eq_ok, reduceCtorEq, and_false,
    false_or, pure_ne_error, exists_false, or_false] at refused
  obtain ⟨size, -, rolled⟩ := refused
  split at rolled
  · cases next : checkedSucc32 (currentTreeOf s) with
    | none =>
        simp only [next, bind_eq_error, orFail_eq_error, true_and, Option.some.injEq,
          pure_ne_error, and_false, exists_false, or_false] at rolled
        exact other rolled.symm
    | some tree => simp [next, orFail] at rolled
  · cases rolled

/-- The pool refuses a contract's commitment as non-canonical exactly when it
is. -/
theorem rcvInsert_nonCanonical {poseidon2 : Poseidon2} {depth : Nat} {s : PoolStorage}
    {account : Address} {enrollmentId commitment : Bytes32} :
    rcvInsert poseidon2 depth s account enrollmentId commitment =
        .error (some .nonCanonicalCommitment) ↔
      (contractId account).isSome = true ∧ isCanonicalField commitment = false := by
  have appends : ∀ leaf, append poseidon2 depth s leaf ≠ .error (some .nonCanonicalCommitment) :=
    fun _ => append_ne (by decide)
  simp only [rcvInsert, bind_eq_error, orFail_eq_error, orFail_eq_ok, require_eq_error,
    require_eq_ok, appends, pure_ne_error, Option.some.injEq, reduceCtorEq,
    and_false, false_or, exists_false, or_false, and_true, Bool.not_eq_true, exists_and_right]
  rw [Option.isSome_iff_exists]

/-- The pool refuses an id as taken only if it has it. -/
theorem rcvInsert_ne_taken {poseidon2 : Poseidon2} {depth : Nat} {s : PoolStorage}
    {account : Address} {enrollmentId commitment : Bytes32}
    (absent : s.enrollment (account, enrollmentId) = none) :
    rcvInsert poseidon2 depth s account enrollmentId commitment ≠
      .error (some .enrollmentIdTaken) := by
  have appends : ∀ leaf, append poseidon2 depth s leaf ≠ .error (some .enrollmentIdTaken) :=
    fun _ => append_ne (by decide)
  simp only [rcvInsert, ne_eq, bind_eq_error, orFail_eq_error, require_eq_error, absent, appends,
    pure_ne_error, Option.some.injEq, reduceCtorEq, not_true_eq_false, and_false, false_and,
    exists_false, or_false, not_false_eq_true]

/-! ### The checks agree -/

/-- What the three checks of a commitment say about one another. -/
structure CommitmentsAgree (host : CompilerHost) : Prop where
  accepted : ∀ hexDecode doc r z, doc.recovery = some r → r.mode.zk = some z →
    (.invalidCommitment z.commitment ∉ Ir.violations hexDecode doc ↔
      Ir.isSha256Hex z.commitment = true ∧
        ∃ x, hexBytes32 z.commitment = .ok x ∧ isCanonicalField x = true)
  canonical : ∀ x, isCanonicalField x = true ↔ value x < fieldModulus
  /-- Comparing the text with the modulus compares the number it spells. -/
  ordered : ∀ text, Ir.isSha256Hex text = true → ∃ x, hexBytes32 text = .ok x ∧
    (Ir.utf8 text < Ir.utf8 Ir.bn254ScalarModulusHex ↔ value x < fieldModulus)
  encoded : ∀ x : Bytes32, hexBytes32 (host.hexEncode x.bytes) = .ok x
  pool : ∀ poseidon2 depth s account enrollmentId commitment,
    rcvInsert poseidon2 depth s account enrollmentId commitment =
        .error (some .nonCanonicalCommitment) ↔
      (contractId account).isSome = true ∧ isCanonicalField commitment = false
  compiled : ∀ docJson compiled, compileDoc host docJson = .ok compiled →
    ∀ config ∈ compiled.recovery, ∀ factor, config.zk = some factor →
      ∀ poseidon2 depth s account,
        rcvInsert poseidon2 depth s account factor.enrollmentId factor.commitment ≠
          .error (some .nonCanonicalCommitment)
  /-- A target that derives enrolls the declared commitment, and the pool does
  not refuse it. -/
  derived : ∀ sourceJson currentJson action replacements derived,
    deriveTarget host sourceJson currentJson action replacements = .ok derived →
    ∀ enrollment ∈ replacements.zkEnrollment,
      (∃ source current target compiled,
        Derivation host source current action replacements target compiled derived ∧
        ∃ config ∈ compiled.recovery, ∃ factor, config.zk = some factor ∧
          factor.commitment = enrollment.commitment) ∧
      ∀ poseidon2 depth s account enrollmentId,
        rcvInsert poseidon2 depth s account enrollmentId enrollment.commitment ≠
          .error (some .nonCanonicalCommitment)

theorem rcvInsert_ne_nonCanonical {poseidon2 : Poseidon2} {depth : Nat} {s : PoolStorage}
    {account : Address} {enrollmentId commitment : Bytes32}
    (canonical : isCanonicalField commitment = true) :
    rcvInsert poseidon2 depth s account enrollmentId commitment ≠
      .error (some .nonCanonicalCommitment) := by
  intro refused
  have other := (rcvInsert_nonCanonical.mp refused).2
  rw [canonical] at other
  cases other

/-- Validation, the compiler and the pool agree on every commitment. -/
theorem commitment_checks_agree (host : CompilerHost) (encodes : EncodesHex host.hexEncode) :
    CommitmentsAgree host := by
  constructor
  · intro hexDecode doc r z recovers proves
    exact commitment_accepted_iff recovers proves
  · intro x
    exact isCanonicalField_iff
  · intro text hex
    obtain ⟨x, decoded, -⟩ := hexBytes32_of_sha256Hex hex
    refine ⟨x, decoded, ?_⟩
    rw [text_lt_modulus_iff hex decoded, isCanonicalField_iff]
  · intro x
    exact hexBytes32_encode encodes x
  · intro poseidon2 depth s account enrollmentId commitment
    exact rcvInsert_nonCanonical
  · intro docJson compiled compiles config member factor proves poseidon2 depth s account
    obtain ⟨doc, -, whole⟩ := compileDoc_eq_ok.mp compiles
    exact rcvInsert_ne_nonCanonical
      (compiled_commitment (compileParsed_eq_ok whole) member proves)
  · intro sourceJson currentJson action replacements derived derives enrollment listed
    obtain ⟨source, current, target, compiled, -, -, derivation⟩ := deriveTarget_eq_ok derives
    obtain ⟨config, member, factor, proves, same⟩ :=
      derived_commitment encodes derivation listed
    refine ⟨⟨source, current, target, compiled, derivation, config, member, factor, proves,
      same⟩, ?_⟩
    intro poseidon2 depth s account enrollmentId
    rw [← same]
    exact rcvInsert_ne_nonCanonical
      (compiled_commitment (compileParsed_eq_ok derivation.compiles) member proves)

theorem commitment_checks_agree_local : CommitmentsAgree (localHost "Test network") :=
  commitment_checks_agree (localHost "Test network") fun _ => rfl

end Perch.Zk
