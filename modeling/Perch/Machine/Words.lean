/-
Checked and saturating arithmetic on machine words, and storage entries with
a lifetime.

A checked sum is characterised by the natural-number sum it stands for, which
is the only fact about it that later proofs use.
-/

import Mathlib.Order.Basic
import Mathlib.Tactic.Ring

namespace Perch.Machine

instance uint32Preorder : Preorder UInt32 where
  toLE := inferInstance
  toLT := inferInstance
  le_refl := UInt32.le_refl
  le_trans _ _ _ := UInt32.le_trans
  lt_iff_le_not_ge a b := by
    rw [UInt32.lt_iff_toNat_lt, UInt32.le_iff_toNat_le, UInt32.le_iff_toNat_le]
    omega

def checkedAdd (a b : UInt32) : Option UInt32 :=
  if a.toNat + b.toNat < 2 ^ 32 then some (a + b) else none

def saturatingAdd (a b : UInt32) : UInt32 :=
  (checkedAdd a b).getD 0xFFFFFFFF

def saturatingSub (a b : UInt32) : UInt32 :=
  if b ≤ a then a - b else 0

/-- The successor of a counter, absent where it would overflow. -/
def checkedSucc (n : UInt64) : Option UInt64 :=
  if n.toNat + 1 < 2 ^ 64 then some (n + 1) else none

def saturatingAdd64 (a b : UInt64) : UInt64 :=
  if a.toNat + b.toNat < 2 ^ 64 then a + b else 0xFFFFFFFFFFFFFFFF

def checkedSucc32 (n : UInt32) : Option UInt32 :=
  if n.toNat + 1 < 2 ^ 32 then some (n + 1) else none

theorem checkedAdd_eq_some {a b c : UInt32} :
    checkedAdd a b = some c ↔ c.toNat = a.toNat + b.toNat := by
  unfold checkedAdd
  split
  · rename_i fits
    simp only [Option.some.injEq]
    constructor
    · rintro rfl
      rw [UInt32.toNat_add]
      omega
    · intro sum
      apply UInt32.toNat_inj.mp
      rw [UInt32.toNat_add]
      omega
  · rename_i overflow
    simp only [reduceCtorEq, false_iff]
    intro sum
    have bounded := c.toNat_lt
    omega

theorem checkedSucc_eq_some {n next : UInt64} :
    checkedSucc n = some next ↔ next.toNat = n.toNat + 1 := by
  unfold checkedSucc
  split
  · rename_i fits
    simp only [Option.some.injEq]
    constructor
    · rintro rfl
      rw [UInt64.toNat_add]
      change (n.toNat + 1) % 2 ^ 64 = _
      omega
    · intro sum
      apply UInt64.toNat_inj.mp
      rw [UInt64.toNat_add]
      change (n.toNat + 1) % 2 ^ 64 = _
      omega
  · rename_i overflow
    simp only [reduceCtorEq, false_iff]
    intro sum
    have bounded := next.toNat_lt
    omega

theorem checkedSucc32_eq_some {n next : UInt32} :
    checkedSucc32 n = some next ↔ next.toNat = n.toNat + 1 := by
  unfold checkedSucc32
  split
  · rename_i fits
    simp only [Option.some.injEq]
    constructor
    · rintro rfl
      rw [UInt32.toNat_add]
      change (n.toNat + 1) % 2 ^ 32 = _
      omega
    · intro sum
      apply UInt32.toNat_inj.mp
      rw [UInt32.toNat_add]
      change (n.toNat + 1) % 2 ^ 32 = _
      omega
  · rename_i overflow
    simp only [reduceCtorEq, false_iff]
    intro sum
    have bounded := next.toNat_lt
    omega

theorem lt_checkedSucc {n next : UInt64} (succeeds : checkedSucc n = some next) : n < next := by
  rw [UInt64.lt_iff_toNat_lt, checkedSucc_eq_some.mp succeeds]
  omega

theorem toNat_saturatingAdd (a b : UInt32) :
    (saturatingAdd a b).toNat = min (a.toNat + b.toNat) (2 ^ 32 - 1) := by
  unfold saturatingAdd
  cases sum : checkedAdd a b with
  | none =>
      have overflow : ¬a.toNat + b.toNat < 2 ^ 32 := by
        intro fits
        rw [checkedAdd, if_pos fits] at sum
        cases sum
      change (2 ^ 32 - 1 : Nat) = _
      omega
  | some total =>
      have exactly := checkedAdd_eq_some.mp sum
      have bounded := total.toNat_lt
      change total.toNat = _
      omega

theorem toNat_saturatingSub (a b : UInt32) : (saturatingSub a b).toNat = a.toNat - b.toNat := by
  unfold saturatingSub
  split
  · rename_i ordered
    exact UInt32.toNat_sub_of_le a b ordered
  · rename_i disordered
    rw [UInt32.le_iff_toNat_le] at disordered
    change (0 : Nat) = _
    omega

/-! ### Entries with a lifetime -/

/-- A stored value and the last time it can be read at. -/
structure Temporary (α : Type) where
  value : α
  liveUntil : UInt32

namespace Temporary

variable {α : Type}

def read (now : UInt32) (entry : Option (Temporary α)) : Option α :=
  match entry with
  | some found => if now ≤ found.liveUntil then some found.value else none
  | none => none

/-- Writing keeps the lifetime of an entry that is still readable; any other
entry starts with the shortest lifetime the store gives. -/
def write (now minimumTtl : UInt32) (entry : Option (Temporary α)) (value : α) : Temporary α :=
  match entry with
  | some found =>
      if now ≤ found.liveUntil then { found with value := value }
      else { value := value, liveUntil := saturatingSub (saturatingAdd now minimumTtl) 1 }
  | none => { value := value, liveUntil := saturatingSub (saturatingAdd now minimumTtl) 1 }

/-- Raise a lifetime that is at most `threshold` away to `extendTo`. -/
def extend (now threshold extendTo : UInt32) (entry : Temporary α) : Temporary α :=
  if saturatingSub entry.liveUntil now ≤ threshold then
    { entry with liveUntil := max entry.liveUntil (saturatingAdd now extendTo) }
  else entry

theorem read_eq_some {now : UInt32} {entry : Option (Temporary α)} {value : α} :
    read now entry = some value ↔
      ∃ found, entry = some found ∧ now ≤ found.liveUntil ∧ found.value = value := by
  cases entry with
  | none => simp [read]
  | some found =>
      by_cases live : now ≤ found.liveUntil
      · simp [read, live]
      · simp [read, live]

theorem read_earlier {now later : UInt32} {entry : Option (Temporary α)} {value : α}
    (forward : now ≤ later) (found : read later entry = some value) :
    read now entry = some value := by
  obtain ⟨stored, present, live, same⟩ := read_eq_some.mp found
  exact read_eq_some.mpr ⟨stored, present, UInt32.le_trans forward live, same⟩

/-- An extended entry can be read throughout the window it was extended by. -/
theorem le_extend (now window : UInt32) (entry : Temporary α) :
    saturatingAdd now window ≤ (entry.extend now window window).liveUntil := by
  unfold extend
  split
  · change _ ≤ if _ then _ else _
    split
    · exact UInt32.le_refl _
    · rename_i longer
      rw [UInt32.le_iff_toNat_le] at longer ⊢
      omega
  · rename_i far
    rw [UInt32.le_iff_toNat_le, toNat_saturatingSub] at far
    rw [UInt32.le_iff_toNat_le, toNat_saturatingAdd]
    omega

@[simp] theorem write_value (now minimumTtl : UInt32) (entry : Option (Temporary α)) (value : α) :
    (write now minimumTtl entry value).value = value := by
  unfold write
  split
  · split <;> rfl
  · rfl

@[simp] theorem extend_value (now threshold extendTo : UInt32) (entry : Temporary α) :
    (extend now threshold extendTo entry).value = entry.value := by
  unfold extend
  split <;> rfl

end Temporary

end Perch.Machine
