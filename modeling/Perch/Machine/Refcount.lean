/-
The price of keeping reference counts.

A reference is taken or released, and either writes an entry; the first
reference to a key and the last each write one entry more.  Releasing what is
about to be released before taking anything never costs less, because a key
that is taken first is spared going to zero and back.
-/

import Mathlib.Algebra.Ring.Nat
import Mathlib.Data.List.Count
import Mathlib.Data.List.Perm.Basic
import Mathlib.Logic.Function.Basic

namespace Perch.Machine

inductive RefEvent (κ : Type)
  | register (key : κ)
  | deregister (key : κ)

variable {κ : Type}

namespace Refcount

/-! ### What is released and taken -/

def released : List (RefEvent κ) → List κ
  | [] => []
  | .register _ :: rest => released rest
  | .deregister key :: rest => key :: released rest

def taken : List (RefEvent κ) → List κ
  | [] => []
  | .register key :: rest => key :: taken rest
  | .deregister _ :: rest => taken rest

def take (keys : List κ) : List (RefEvent κ) := keys.map .register

def release (keys : List κ) : List (RefEvent κ) := keys.map .deregister

theorem take_append (first second : List κ) : take (first ++ second) = take first ++ take second :=
  List.map_append

theorem release_append (first second : List κ) :
    release (first ++ second) = release first ++ release second := List.map_append

@[simp] theorem released_append (first second : List (RefEvent κ)) :
    released (first ++ second) = released first ++ released second := by
  induction first with
  | nil => rfl
  | cons event rest ih => cases event <;> simp [released, ih]

@[simp] theorem taken_append (first second : List (RefEvent κ)) :
    taken (first ++ second) = taken first ++ taken second := by
  induction first with
  | nil => rfl
  | cons event rest ih => cases event <;> simp [taken, ih]

@[simp] theorem released_take (keys : List κ) : released (take keys) = [] := by
  induction keys with
  | nil => rfl
  | cons key rest ih => exact ih

@[simp] theorem released_release (keys : List κ) : released (release keys) = keys := by
  induction keys with
  | nil => rfl
  | cons key rest ih => exact congrArg (key :: ·) ih

@[simp] theorem taken_take (keys : List κ) : taken (take keys) = keys := by
  induction keys with
  | nil => rfl
  | cons key rest ih => exact congrArg (key :: ·) ih

@[simp] theorem taken_release (keys : List κ) : taken (release keys) = [] := by
  induction keys with
  | nil => rfl
  | cons key rest ih => exact ih

end Refcount

variable [DecidableEq κ]

namespace RefEvent

def counted (counts : κ → Nat) : RefEvent κ → κ → Nat
  | register key => Function.update counts key (counts key + 1)
  | deregister key => Function.update counts key (counts key - 1)

def price (counts : κ → Nat) : RefEvent κ → Nat
  | register key => if counts key = 0 then 2 else 1
  | deregister key => if counts key ≤ 1 then 2 else 1

end RefEvent

namespace Refcount

def after (counts : κ → Nat) (events : List (RefEvent κ)) : κ → Nat :=
  events.foldl RefEvent.counted counts

def price (counts : κ → Nat) : List (RefEvent κ) → Nat
  | [] => 0
  | event :: rest => event.price counts + price (event.counted counts) rest

def Sound (counts : κ → Nat) : List (RefEvent κ) → Prop
  | [] => True
  | .register key :: rest => Sound (RefEvent.counted counts (.register key)) rest
  | .deregister key :: rest =>
      0 < counts key ∧ Sound (RefEvent.counted counts (.deregister key)) rest

variable {counts : κ → Nat}

@[simp] theorem after_nil : after counts [] = counts := rfl

@[simp] theorem after_cons (event : RefEvent κ) (rest : List (RefEvent κ)) :
    after counts (event :: rest) = after (event.counted counts) rest := rfl

theorem after_append (first second : List (RefEvent κ)) :
    after counts (first ++ second) = after (after counts first) second := List.foldl_append

theorem price_append (first second : List (RefEvent κ)) :
    price counts (first ++ second) = price counts first + price (after counts first) second := by
  induction first generalizing counts with
  | nil => exact (Nat.zero_add _).symm
  | cons event rest ih =>
      rw [List.cons_append, price, price, ih, after_cons, Nat.add_assoc]

theorem sound_append (first second : List (RefEvent κ)) :
    Sound counts (first ++ second) ↔ Sound counts first ∧ Sound (after counts first) second := by
  induction first generalizing counts with
  | nil => simp [Sound]
  | cons event rest ih =>
      cases event with
      | register key => exact ih
      | deregister key =>
          simp only [List.cons_append, Sound, ih, after_cons, and_assoc]

/-! ### What is left -/

/-- The counts cover the keys: each is held as often as it is listed. -/
def Covers (counts : κ → Nat) (keys : List κ) : Prop := ∀ key, keys.count key ≤ counts key

theorem covers_cons {key : κ} {keys : List κ} (covers : Covers counts (key :: keys)) :
    0 < counts key ∧ Covers (RefEvent.counted counts (.deregister key)) keys := by
  have here := covers key
  rw [List.count_cons_self] at here
  refine ⟨Nat.lt_of_lt_of_le (Nat.succ_pos _) here, ?_⟩
  intro other
  have bound := covers other
  simp only [RefEvent.counted, Function.update_apply]
  split
  next same =>
    rw [same]
    exact Nat.le_sub_of_add_le here
  next different => rwa [List.count_cons_of_ne (Ne.symm different)] at bound

theorem covers_register {key : κ} {keys : List κ} (covers : Covers counts keys) :
    Covers (RefEvent.counted counts (.register key)) keys := by
  intro other
  simp only [RefEvent.counted, Function.update_apply]
  split
  next same =>
    rw [same]
    exact Nat.le_succ_of_le (covers key)
  next => exact covers other

/-- Counts that cover all that is released make every release find one. -/
theorem sound_of_covers {events : List (RefEvent κ)} (covers : Covers counts (released events)) :
    Sound counts events := by
  induction events generalizing counts with
  | nil => trivial
  | cons event rest ih =>
      cases event with
      | register key => exact ih (covers_register covers)
      | deregister key =>
          obtain ⟨found, left⟩ := covers_cons covers
          exact ⟨found, ih left⟩

theorem after_balance {events : List (RefEvent κ)} (sound : Sound counts events) (key : κ) :
    after counts events key + (released events).count key =
      counts key + (taken events).count key := by
  induction events generalizing counts with
  | nil => rfl
  | cons event rest ih =>
      cases event with
      | register other =>
          have balance := ih sound
          simp only [RefEvent.counted, Function.update_apply] at balance
          rw [after_cons, released, taken]
          simp only [RefEvent.counted]
          by_cases same : key = other
          · subst same
            rw [if_pos rfl] at balance
            rw [List.count_cons_self]
            omega
          · rw [if_neg same] at balance
            rw [List.count_cons_of_ne (Ne.symm same)]
            exact balance
      | deregister other =>
          obtain ⟨found, sound⟩ := sound
          have balance := ih sound
          simp only [RefEvent.counted, Function.update_apply] at balance
          rw [after_cons, released, taken]
          simp only [RefEvent.counted]
          by_cases same : key = other
          · subst same
            rw [if_pos rfl] at balance
            rw [List.count_cons_self]
            omega
          · rw [if_neg same] at balance
            rw [List.count_cons_of_ne (Ne.symm same)]
            exact balance

theorem after_release {keys : List κ} (covers : Covers counts keys) (key : κ) :
    after counts (release keys) key + keys.count key = counts key := by
  have sound : Sound counts (release keys) := by
    apply sound_of_covers
    rwa [released_release]
  have balance := after_balance sound key
  rwa [released_release, taken_release, List.count_nil, Nat.add_zero] at balance

theorem after_take (keys : List κ) (key : κ) :
    after counts (take keys) key = counts key + keys.count key := by
  have sound : Sound counts (take keys) := by
    apply sound_of_covers
    rw [released_take]
    intro other
    exact Nat.zero_le _
  have balance := after_balance sound key
  rwa [released_take, taken_take, List.count_nil, Nat.add_zero] at balance

theorem covers_after_release {keys more : List κ} (covers : Covers counts (keys ++ more)) :
    Covers (after counts (release keys)) more := by
  intro key
  have all (other : κ) : keys.count other + more.count other ≤ counts other := by
    rw [← List.count_append]
    exact covers other
  have left := after_release (fun other => Nat.le_trans (Nat.le_add_right _ _) (all other)) key
  have bound := all key
  omega

theorem covers_after_take {keys more : List κ} (covers : Covers counts more) :
    Covers (after counts (take keys)) more := by
  intro key
  rw [after_take]
  exact Nat.le_add_right_of_le (covers key)

/-! ### Releasing first -/

/-- A release moved before a take costs no less, and comes to the same counts. -/
theorem release_before_take (x y : κ) (found : 0 < counts y) :
    price counts [.register x, .deregister y] ≤ price counts [.deregister y, .register x] ∧
      after counts [.register x, .deregister y] = after counts [.deregister y, .register x] := by
  by_cases same : x = y
  · subst same
    constructor
    · simp only [price, RefEvent.price, RefEvent.counted, Function.update_self]
      split <;> split <;> split <;> split <;> omega
    · simp only [after, List.foldl, RefEvent.counted, Function.update_self,
        Function.update_idem]
      congr 1
      omega
  · constructor
    · simp only [price, RefEvent.price, RefEvent.counted, Function.update_of_ne same,
        Function.update_of_ne (Ne.symm same)]
      omega
    · simp only [after, List.foldl, RefEvent.counted, Function.update_of_ne same,
        Function.update_of_ne (Ne.symm same)]
      exact Function.update_comm same _ _ _

/-- One sequence costs no more than another, and comes to the same counts. -/
structure Cheaper (counts : κ → Nat) (first second : List (RefEvent κ)) : Prop where
  price : price counts first ≤ price counts second
  after : after counts first = after counts second

theorem Cheaper.refl (events : List (RefEvent κ)) : Cheaper counts events events :=
  ⟨Nat.le_refl _, rfl⟩

theorem Cheaper.trans {first second third : List (RefEvent κ)} (left : Cheaper counts first second)
    (right : Cheaper counts second third) : Cheaper counts first third :=
  ⟨Nat.le_trans left.price right.price, left.after.trans right.after⟩

theorem Cheaper.append_left (before : List (RefEvent κ)) {first second : List (RefEvent κ)}
    (cheaper : Cheaper (Refcount.after counts before) first second) :
    Cheaper counts (before ++ first) (before ++ second) := by
  constructor
  · rw [price_append, price_append]
    exact Nat.add_le_add_left cheaper.price _
  · rw [after_append, after_append, cheaper.after]

theorem Cheaper.append_right {first second : List (RefEvent κ)}
    (cheaper : Cheaper counts first second) (rest : List (RefEvent κ)) :
    Cheaper counts (first ++ rest) (second ++ rest) := by
  constructor
  · rw [price_append, price_append, cheaper.after]
    exact Nat.add_le_add_right cheaper.price _
  · rw [after_append, after_append, cheaper.after]

theorem one_take_after (key : κ) {drops : List κ} (covers : Covers counts drops) :
    Cheaper counts (.register key :: release drops) (release drops ++ [.register key]) := by
  induction drops generalizing counts with
  | nil => exact .refl _
  | cons drop rest ih =>
      obtain ⟨found, left⟩ := covers_cons covers
      obtain ⟨price, after⟩ := release_before_take key drop found
      have swapped : Cheaper counts ([.register key, .deregister drop] ++ release rest)
          ([.deregister drop, .register key] ++ release rest) :=
        Cheaper.append_right ⟨price, after⟩ _
      exact swapped.trans (Cheaper.append_left [.deregister drop] (ih left))

/-- Takes moved after releases cost no less. -/
theorem takes_after (gains : List κ) {drops : List κ} (covers : Covers counts drops) :
    Cheaper counts (take gains ++ release drops) (release drops ++ take gains) := by
  induction gains generalizing counts with
  | nil =>
      rw [take, List.map_nil, List.append_nil]
      exact .refl _
  | cons gain rest ih =>
      have later : Cheaper counts (.register gain :: (take rest ++ release drops))
          (.register gain :: (release drops ++ take rest)) :=
        Cheaper.append_left [.register gain] (ih (covers_register covers))
      have first : Cheaper counts (.register gain :: release drops ++ take rest)
          (release drops ++ [.register gain] ++ take rest) :=
        (one_take_after gain covers).append_right _
      rw [List.append_assoc] at first
      exact later.trans first

/-- Releasing and taking block by block costs no more than releasing everything
first. -/
theorem blocks_cheaper {blocks : List (List κ × List κ)}
    (covers : Covers counts (blocks.flatMap Prod.fst)) :
    Cheaper counts (blocks.flatMap fun block => release block.1 ++ take block.2)
      (release (blocks.flatMap Prod.fst) ++ take (blocks.flatMap Prod.snd)) := by
  induction blocks generalizing counts with
  | nil => exact .refl _
  | cons block rest ih =>
      obtain ⟨drops, gains⟩ := block
      rw [List.flatMap_cons] at covers
      have left := covers_after_release covers
      have blockwise : Cheaper (after counts (release drops ++ take gains))
          (rest.flatMap fun block => release block.1 ++ take block.2)
          (release (rest.flatMap Prod.fst) ++ take (rest.flatMap Prod.snd)) :=
        ih (by rw [after_append]; exact covers_after_take left)
      have step : Cheaper counts
          (release drops ++ (take gains ++ release (rest.flatMap Prod.fst)) ++
            take (rest.flatMap Prod.snd))
          (release drops ++ (release (rest.flatMap Prod.fst) ++ take gains) ++
            take (rest.flatMap Prod.snd)) :=
        Cheaper.append_right (Cheaper.append_left _ (takes_after gains left)) _
      simp only [List.flatMap_cons, release_append, take_append, List.append_assoc] at step ⊢
      refine Cheaper.trans ?_ step
      have moved := Cheaper.append_left (release drops ++ take gains) blockwise
      simpa only [List.append_assoc] using moved

theorem release_perm {first second : List κ} (same : first.Perm second) :
    price counts (release first) = price counts (release second) ∧
      after counts (release first) = after counts (release second) := by
  induction same generalizing counts with
  | nil => exact ⟨rfl, rfl⟩
  | cons key _ ih =>
      obtain ⟨price, after⟩ := @ih (RefEvent.counted counts (.deregister key))
      exact ⟨congrArg (RefEvent.price counts (.deregister key) + ·) price, after⟩
  | swap x y rest =>
      by_cases same : x = y
      · rw [same]
        exact ⟨rfl, rfl⟩
      · have counted : RefEvent.counted (RefEvent.counted counts (.deregister y)) (.deregister x) =
            RefEvent.counted (RefEvent.counted counts (.deregister x)) (.deregister y) := by
          simp only [RefEvent.counted, Function.update_of_ne same,
            Function.update_of_ne (Ne.symm same)]
          exact (Function.update_comm same _ _ _).symm
        constructor
        · simp only [release, List.map_cons, price, counted]
          simp only [RefEvent.price, RefEvent.counted, Function.update_of_ne same,
            Function.update_of_ne (Ne.symm same)]
          omega
        · simp only [release, List.map_cons, after_cons, counted]
  | trans _ _ left right => exact ⟨left.1.trans right.1, left.2.trans right.2⟩

end Refcount

end Perch.Machine
