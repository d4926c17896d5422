/-
Fixed-width big-endian encodings.

A number below `256 ^ width` is recovered from its `width` bytes, and two
concatenations of pieces with equal widths agree piece by piece.
-/

import Mathlib.Tactic.Ring

namespace Perch.Machine

/-- The `width` low-order bytes of `n`, most significant first. -/
def beBytes : Nat → Nat → List UInt8
  | 0, _ => []
  | width + 1, n => UInt8.ofNat (n / 256 ^ width) :: beBytes width n

def beValue (bytes : List UInt8) : Nat :=
  bytes.foldl (fun value byte => value * 256 + byte.toNat) 0

@[simp] theorem beBytes_length (width n : Nat) : (beBytes width n).length = width := by
  induction width with
  | zero => rfl
  | succ width ih => simp only [beBytes, List.length_cons, ih]

private theorem foldl_value (bytes : List UInt8) (value : Nat) :
    bytes.foldl (fun value byte => value * 256 + byte.toNat) value =
      value * 256 ^ bytes.length + beValue bytes := by
  induction bytes generalizing value with
  | nil => simp [beValue]
  | cons byte rest ih =>
      simp only [beValue, List.foldl_cons, List.length_cons, Nat.zero_mul, Nat.zero_add]
      rw [ih, ih byte.toNat]
      ring

theorem beValue_cons (byte : UInt8) (rest : List UInt8) :
    beValue (byte :: rest) = byte.toNat * 256 ^ rest.length + beValue rest := by
  simp only [beValue, List.foldl_cons, Nat.zero_mul, Nat.zero_add]
  exact foldl_value rest byte.toNat

theorem beValue_append (high low : List UInt8) :
    beValue (high ++ low) = beValue high * 256 ^ low.length + beValue low := by
  rw [beValue, List.foldl_append]
  exact foldl_value low (beValue high)

theorem beValue_beBytes (width n : Nat) : beValue (beBytes width n) = n % 256 ^ width := by
  induction width with
  | zero => simp [beBytes, beValue, Nat.mod_one]
  | succ width ih =>
      rw [beBytes, beValue_cons, ih, beBytes_length, UInt8.toNat_ofNat']
      have split := Nat.mod_add_div (n % 256 ^ (width + 1)) (256 ^ width)
      have low : n % 256 ^ (width + 1) % 256 ^ width = n % 256 ^ width :=
        Nat.mod_mod_of_dvd n (Nat.pow_dvd_pow 256 (Nat.le_succ width))
      have high : n % 256 ^ (width + 1) / 256 ^ width = n / 256 ^ width % 256 := by
        rw [pow_succ, Nat.mod_mul_right_div_self]
      rw [low, high] at split
      rw [← split, Nat.mul_comm, Nat.add_comm]

theorem beBytes_injective {width n m : Nat} (nFits : n < 256 ^ width) (mFits : m < 256 ^ width)
    (same : beBytes width n = beBytes width m) : n = m := by
  have values := congrArg beValue same
  rwa [beValue_beBytes, beValue_beBytes, Nat.mod_eq_of_lt nFits, Nat.mod_eq_of_lt mFits] at values

theorem beBytes_uint32_injective {n m : UInt32}
    (same : beBytes 4 n.toNat = beBytes 4 m.toNat) : n = m :=
  UInt32.toNat_inj.mp (beBytes_injective n.toNat_lt m.toNat_lt same)

theorem beBytes_uint64_injective {n m : UInt64}
    (same : beBytes 8 n.toNat = beBytes 8 m.toNat) : n = m :=
  UInt64.toNat_inj.mp (beBytes_injective n.toNat_lt m.toNat_lt same)

/-! ### Comparing byte strings by value -/

theorem beValue_lt (bytes : List UInt8) : beValue bytes < 256 ^ bytes.length := by
  induction bytes with
  | nil => simp [beValue]
  | cons byte rest ih =>
      rw [beValue_cons, List.length_cons, pow_succ]
      have fits := byte.toNat_lt
      have scaled : byte.toNat * 256 ^ rest.length ≤ 255 * 256 ^ rest.length :=
        Nat.mul_le_mul_right _ (by omega)
      omega

theorem beValue_injective {left right : List UInt8} (sizes : left.length = right.length)
    (same : beValue left = beValue right) : left = right := by
  induction left generalizing right with
  | nil => exact (List.length_eq_zero_iff.mp sizes.symm).symm
  | cons a left ih =>
      cases right with
      | nil => cases sizes
      | cons b right =>
          have tails : left.length = right.length := by simpa using sizes
          rw [beValue_cons, beValue_cons, tails] at same
          have low := beValue_lt left
          have low' := beValue_lt right
          rw [tails] at low
          have heads : a.toNat = b.toNat := by
            have quotients := congrArg (· / 256 ^ right.length) same
            simpa [Nat.mul_comm _ (256 ^ right.length), Nat.mul_add_div, Nat.div_eq_of_lt low,
              Nat.div_eq_of_lt low'] using quotients
          rw [heads] at same
          rw [UInt8.toNat_inj.mp heads, ih tails (by omega)]

/-- Whether the first byte that differs is the smaller one on the left. -/
def bytesBelow : List UInt8 → List UInt8 → Bool
  | a :: left, b :: right => if a ≠ b then a < b else bytesBelow left right
  | _, _ => false

/-- Comparing bytewise from the front compares values. -/
theorem bytesBelow_iff {left right : List UInt8} (sizes : left.length = right.length) :
    bytesBelow left right = true ↔ beValue left < beValue right := by
  induction left generalizing right with
  | nil =>
      have empty := List.length_eq_zero_iff.mp sizes.symm
      subst empty
      simp [bytesBelow]
  | cons a left ih =>
      cases right with
      | nil => cases sizes
      | cons b right =>
          have tails : left.length = right.length := by simpa using sizes
          rw [bytesBelow, beValue_cons, beValue_cons, tails]
          by_cases heads : a = b
          · subst heads
            rw [if_neg (not_not.mpr rfl), ih tails]
            omega
          · rw [if_pos heads, decide_eq_true_iff, UInt8.lt_iff_toNat_lt]
            have low := beValue_lt left
            have low' := beValue_lt right
            rw [tails] at low
            have differ : a.toNat ≠ b.toNat := fun same => heads (UInt8.toNat_inj.mp same)
            constructor
            · intro smaller
              have step : (a.toNat + 1) * 256 ^ right.length ≤ b.toNat * 256 ^ right.length :=
                Nat.mul_le_mul_right _ smaller
              rw [Nat.succ_mul] at step
              omega
            · intro below
              by_contra larger
              have step : (b.toNat + 1) * 256 ^ right.length ≤ a.toNat * 256 ^ right.length :=
                Nat.mul_le_mul_right _ (by omega)
              rw [Nat.succ_mul] at step
              omega

end Perch.Machine
