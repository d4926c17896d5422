/-
Check sums that are linear in exclusive or.

A register takes one byte at a time into its high half and is turned.  Where a
turn is linear and sends nothing but zero to zero, the check sum of the
difference of two byte strings is the difference of their check sums, and zeros
around a difference do not hide it.
-/

import Mathlib.Logic.Function.Iterate
import Mathlib.Tactic.Positivity
import Perch.Machine.BigEndian

namespace Perch.Machine

def register (turn : UInt16 → UInt16) (start : UInt16) (data : List UInt8) : UInt16 :=
  data.foldl (fun state byte => turn (state ^^^ (byte.toUInt16 <<< (8 : UInt16)))) start

/-- A turn that is linear, and sends only zero to zero. -/
structure Linear (turn : UInt16 → UInt16) : Prop where
  xor : ∀ a b, turn (a ^^^ b) = turn a ^^^ turn b
  faithful : ∀ a, turn a = 0 → a = 0

def xorBytes (left right : List UInt8) : List UInt8 := List.zipWith (· ^^^ ·) left right

section Register

variable {turn : UInt16 → UInt16}

theorem Linear.zero (linear : Linear turn) : turn 0 = 0 := by
  have doubled := linear.xor 0 0
  rwa [UInt16.xor_self, UInt16.xor_self] at doubled

theorem Linear.iterate (linear : Linear turn) (times : Nat) : Linear turn^[times] := by
  induction times with
  | zero => exact ⟨fun _ _ => rfl, fun _ zero => zero⟩
  | succ times ih =>
      constructor
      · intro a b
        rw [Function.iterate_succ_apply, linear.xor, ih.xor, Function.iterate_succ_apply,
          Function.iterate_succ_apply]
      · intro a zero
        rw [Function.iterate_succ_apply] at zero
        exact linear.faithful a (ih.faithful _ zero)

theorem placed_xor (a b : UInt8) :
    (a ^^^ b).toUInt16 <<< (8 : UInt16) =
      (a.toUInt16 <<< (8 : UInt16)) ^^^ (b.toUInt16 <<< (8 : UInt16)) := by
  apply UInt16.toBitVec_inj.mp
  simp only [UInt16.toBitVec_shiftLeft, UInt16.toBitVec_xor, UInt8.toUInt16_xor]
  exact BitVec.shiftLeft_xor_distrib _ _ _

theorem register_xor (linear : Linear turn) {left right : List UInt8}
    (sizes : left.length = right.length) (a b : UInt16) :
    register turn (a ^^^ b) (xorBytes left right) =
      register turn a left ^^^ register turn b right := by
  induction left generalizing right a b with
  | nil =>
      rw [List.length_eq_zero_iff.mp sizes.symm]
      rfl
  | cons x left ih =>
      cases right with
      | nil => cases sizes
      | cons y right =>
          have mixed : turn ((a ^^^ b) ^^^ ((x ^^^ y).toUInt16 <<< (8 : UInt16))) =
              turn (a ^^^ (x.toUInt16 <<< (8 : UInt16))) ^^^
                turn (b ^^^ (y.toUInt16 <<< (8 : UInt16))) := by
            rw [placed_xor, ← linear.xor]
            congr 1
            ac_rfl
          have tails : left.length = right.length := Nat.succ.inj sizes
          exact (congrArg (fun state => register turn state (xorBytes left right)) mixed).trans
            (ih tails _ _)

theorem register_append (start : UInt16) (first second : List UInt8) :
    register turn start (first ++ second) = register turn (register turn start first) second :=
  List.foldl_append

theorem register_zeros (start : UInt16) (count : Nat) :
    register turn start (List.replicate count 0) = turn^[count] start := by
  induction count generalizing start with
  | zero => rfl
  | succ count ih =>
      have first : turn (start ^^^ ((0 : UInt8).toUInt16 <<< (8 : UInt16))) = turn start :=
        congrArg turn UInt16.xor_zero
      rw [List.replicate_succ, Function.iterate_succ_apply, ← first, ← ih]
      rfl

/-- Zeros before and after a byte string hide no difference from zero. -/
theorem register_padded (linear : Linear turn) {before after : Nat} {data : List UInt8}
    (zero : register turn 0 (List.replicate before 0 ++ (data ++ List.replicate after 0)) = 0) :
    register turn 0 data = 0 := by
  have start : turn^[before] 0 = 0 := (linear.iterate before).zero
  rw [register_append, register_zeros, start, register_append, register_zeros] at zero
  exact (linear.iterate after).faithful _ zero

end Register

/-! ### Differences of numbers -/

@[simp] theorem xorBytes_length {left right : List UInt8} (sizes : left.length = right.length) :
    (xorBytes left right).length = right.length := by
  rw [xorBytes, List.length_zipWith, sizes, Nat.min_self]

theorem xorBytes_take (count : Nat) (left right : List UInt8) :
    (xorBytes left right).take count = xorBytes (left.take count) (right.take count) :=
  List.take_zipWith

theorem xorBytes_getD {left right : List UInt8} (sizes : left.length = right.length) (i : Nat) :
    (xorBytes left right).getD i 0 = left.getD i 0 ^^^ right.getD i 0 := by
  induction left generalizing right i with
  | nil =>
      rw [List.length_eq_zero_iff.mp sizes.symm]
      exact UInt8.xor_self.symm
  | cons x left ih =>
      cases right with
      | nil => cases sizes
      | cons y right =>
          cases i with
          | zero => rfl
          | succ i => exact ih (Nat.succ.inj sizes) i

theorem beBytes_xor (width n m : Nat) :
    xorBytes (beBytes width n) (beBytes width m) = beBytes width (n ^^^ m) := by
  induction width with
  | zero => rfl
  | succ width ih =>
      have shifted : ∀ k : Nat, k / 256 ^ width = k >>> (8 * width) := by
        intro k
        rw [Nat.shiftRight_eq_div_pow, pow_mul]
        rfl
      have head : UInt8.ofNat (n / 256 ^ width) ^^^ UInt8.ofNat (m / 256 ^ width) =
          UInt8.ofNat ((n ^^^ m) / 256 ^ width) := by
        rw [shifted, shifted, shifted, Nat.shiftRight_xor_distrib, UInt8.ofNat_xor]
      rw [beBytes, beBytes, beBytes, ← head, ← ih]
      rfl

theorem beBytes_mul (width zeros n : Nat) :
    beBytes (width + zeros) (n * 256 ^ zeros) = beBytes width n ++ List.replicate zeros 0 := by
  induction width with
  | zero =>
      rw [Nat.zero_add, beBytes, List.nil_append]
      induction zeros generalizing n with
      | zero => rfl
      | succ zeros ih =>
          have top : UInt8.ofNat (n * 256 ^ (zeros + 1) / 256 ^ zeros) = 0 := by
            rw [pow_succ, ← Nat.mul_assoc, Nat.mul_right_comm, Nat.mul_div_cancel _ (by positivity)]
            apply UInt8.toNat_inj.mp
            rw [UInt8.toNat_ofNat']
            exact Nat.mul_mod_left n 256
          rw [beBytes, top, List.replicate_succ]
          have regroup : n * 256 ^ (zeros + 1) = n * 256 * 256 ^ zeros := by
            rw [pow_succ]
            ring
          rw [regroup, ih]
  | succ width ih =>
      have top : n * 256 ^ zeros / 256 ^ (width + zeros) = n / 256 ^ width := by
        rw [pow_add, Nat.mul_div_mul_right _ _ (by positivity)]
      rw [Nat.add_right_comm, beBytes, beBytes, top, ih]
      rfl

theorem beBytes_small (zeros : Nat) {width n : Nat} (small : n < 256 ^ width) :
    beBytes (zeros + width) n = List.replicate zeros 0 ++ beBytes width n := by
  induction zeros with
  | zero =>
      rw [Nat.zero_add]
      rfl
  | succ zeros ih =>
      have wider : n < 256 ^ (zeros + width) :=
        Nat.lt_of_lt_of_le small (Nat.pow_le_pow_right (by decide) (by omega))
      rw [Nat.add_right_comm, beBytes, Nat.div_eq_of_lt wider, ih, List.replicate_succ]
      rfl

private theorem testBit_place {place low : Nat} (high : Nat) (fits : low < 2 ^ place) (i : Nat) :
    (high * 2 ^ place + low).testBit i =
      if i < place then low.testBit i else high.testBit (i - place) := by
  rw [Nat.mul_comm]
  exact Nat.testBit_two_pow_mul_add high fits i

theorem place_xor {place low : Nat} (high : Nat) (fits : low < 2 ^ place) :
    low ^^^ high * 2 ^ place = low + high * 2 ^ place := by
  apply Nat.eq_of_testBit_eq
  intro i
  have placed := testBit_place high (Nat.two_pow_pos place) i
  rw [Nat.add_zero] at placed
  rw [Nat.testBit_xor, placed, Nat.add_comm low, testBit_place high fits]
  split
  · rw [Nat.zero_testBit, Bool.xor_false]
  · rename_i beyond
    have reaches : 2 ^ place ≤ 2 ^ i := Nat.pow_le_pow_right (by decide) (Nat.not_lt.mp beyond)
    rw [Nat.testBit_lt_two_pow (Nat.lt_of_lt_of_le fits reaches), Bool.false_xor]

/-- Numbers that differ in one digit differ by the digits' difference in its place. -/
theorem xor_digits {width place low : Nat} (high : Nat) {a b : Nat} (aFits : a < 2 ^ width)
    (bFits : b < 2 ^ width) (lowFits : low < 2 ^ place) :
    ((high * 2 ^ width + a) * 2 ^ place + low) ^^^ ((high * 2 ^ width + b) * 2 ^ place + low) =
      (a ^^^ b) * 2 ^ place := by
  apply Nat.eq_of_testBit_eq
  intro i
  rw [Nat.testBit_xor, ← Nat.add_zero ((a ^^^ b) * 2 ^ place), testBit_place _ lowFits,
    testBit_place _ lowFits, testBit_place _ (Nat.two_pow_pos place)]
  split
  · rw [Bool.xor_self, Nat.zero_testBit]
  · rw [testBit_place _ aFits, testBit_place _ bFits, Nat.testBit_xor]
    split
    · rfl
    · rename_i beyond
      have reaches : width ≤ i - place := Nat.not_lt.mp beyond
      have none : ∀ {c : Nat}, c < 2 ^ width → c.testBit (i - place) = false := fun fits =>
        Nat.testBit_lt_two_pow (Nat.lt_of_lt_of_le fits (Nat.pow_le_pow_right (by decide) reaches))
      rw [Bool.xor_self, none aFits, none bFits]
      rfl

end Perch.Machine
