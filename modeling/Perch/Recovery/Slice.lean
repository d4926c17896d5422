/-
The part of the controller's storage that belongs to one account.

The controller is shared, and no call reads or writes another account's
entries.  Every statement about one account is therefore a statement about its
slice, and the flat storage is only a family of slices.
-/

import Perch.Recovery.Controller

namespace Perch.Recovery

open Machine Document

@[ext]
structure Slice where
  config : Option CompiledRecoveryConfig
  epoch : UInt64
  nextAttempt : UInt64
  invalidateBelow : UInt64
  authorized : Option UInt64
  cancels : Option UInt32
  attempt : UInt64 → Option Attempt
  collecting : UInt64 → Option (Temporary Attempt)
  completing : Option (Temporary CompletionMarker)
  nullifier : Bytes32 → Option Bool
  approval : Bytes32 → Option ChangeApproval
  baseline : Bytes32 → Option Bytes

def Storage.slice (s : Storage) (account : Address) : Slice where
  config := s.config account
  epoch := epochOf s account
  nextAttempt := nextAttemptOf s account
  invalidateBelow := invalidateBelowOf s account
  authorized := s.authorized account
  cancels := s.cancels account
  attempt id := s.attempt (account, id)
  collecting id := s.collecting (account, id)
  completing := s.completing account
  nullifier n := s.nullifier (account, n)
  approval h := s.approval (account, h)
  baseline h := s.baseline (account, h)

namespace Slice

/-! ### Reading a slice -/

def load (now : UInt32) (m : Slice) (id : UInt64) : Option Attempt :=
  (m.attempt id).or (Temporary.read now (m.collecting id))

/-- `isLive` on a slice. -/
def Live (now : UInt32) (m : Slice) (a : Attempt) : Prop :=
  a.epoch = m.epoch ∧
    ((a.state = .collecting ∧ m.invalidateBelow ≤ a.id ∧ now ≤ a.evidenceDeadline) ∨
      (a.state = .authorized ∧ m.authorized = some a.id ∧ now < a.expiresAt))

/-- The attempt that is authorized and live, as `authorizedLive` finds it. -/
def Authorized (now : UInt32) (m : Slice) (a : Attempt) : Prop :=
  ∃ id, m.authorized = some id ∧ m.attempt id = some a ∧ m.Live now a

def Quiet (now : UInt32) (m : Slice) : Prop :=
  ∀ a, ¬m.Authorized now a

/-- A record is stored under an id, readable or already past its lifetime. -/
def Holds (m : Slice) (id : UInt64) (a : Attempt) : Prop :=
  m.attempt id = some a ∨ ∃ entry, m.collecting id = some entry ∧ entry.value = a

theorem Holds.of_load {now : UInt32} {m : Slice} {id : UInt64} {a : Attempt}
    (found : m.load now id = some a) : m.Holds id a := by
  rcases Option.or_eq_some_iff.mp found with persistent | ⟨_, temporary⟩
  · exact .inl persistent
  · obtain ⟨entry, present, _, same⟩ := Temporary.read_eq_some.mp temporary
    exact .inr ⟨entry, present, same⟩

theorem Authorized.unique {now : UInt32} {m : Slice} {a b : Attempt}
    (first : m.Authorized now a) (second : m.Authorized now b) : a = b := by
  obtain ⟨i, pointer, stored, _⟩ := first
  obtain ⟨j, pointer', stored', _⟩ := second
  have same : i = j := Option.some.inj (pointer.symm.trans pointer')
  subst same
  exact Option.some.inj (stored.symm.trans stored')

theorem Live.earlier {now later : UInt32} {m : Slice} {a : Attempt} (forward : now ≤ later)
    (live : m.Live later a) : m.Live now a := by
  obtain ⟨current, ⟨state, above, within⟩ | ⟨state, pointer, within⟩⟩ := live
  · exact ⟨current, .inl ⟨state, above, UInt32.le_trans forward within⟩⟩
  · exact ⟨current, .inr ⟨state, pointer, UInt32.lt_of_le_of_lt forward within⟩⟩

theorem Authorized.earlier {now later : UInt32} {m : Slice} {a : Attempt} (forward : now ≤ later)
    (found : m.Authorized later a) : m.Authorized now a := by
  obtain ⟨id, pointer, stored, live⟩ := found
  exact ⟨id, pointer, stored, live.earlier forward⟩

theorem Quiet.later {now later : UInt32} {m : Slice} (forward : now ≤ later)
    (quiet : m.Quiet now) : m.Quiet later :=
  fun a found => quiet a (found.earlier forward)

theorem load_earlier {now later : UInt32} {m : Slice} {id : UInt64} {a : Attempt}
    (forward : now ≤ later) (found : m.load later id = some a) : m.load now id = some a := by
  rcases Option.or_eq_some_iff.mp found with persistent | ⟨missing, temporary⟩
  · exact Option.or_eq_some_iff.mpr (.inl persistent)
  · exact Option.or_eq_some_iff.mpr
      (.inr ⟨missing, Temporary.read_earlier forward temporary⟩)

/-! ### Writing a record -/

def persists (e : Env) (stored : UInt64 → Option Attempt) (a : Attempt) : Bool :=
  a.state = .authorized || a.state = .completed ||
    e.maxTtl < saturatingAdd (saturatingSub a.evidenceDeadline e.sequence) 1 ||
    (stored a.id).isSome

def temporaryEntry (e : Env) (entry : Option (Temporary Attempt)) (a : Attempt) :
    Temporary Attempt :=
  let evidenceWindow := saturatingAdd (saturatingSub a.evidenceDeadline e.sequence) 1
  (Temporary.write e.sequence e.minTemporaryTtl entry a).extend e.sequence evidenceWindow
    evidenceWindow

/-- `save` on a slice. -/
def put (e : Env) (m : Slice) (a : Attempt) : Slice :=
  { m with
    attempt :=
      if persists e m.attempt a then Function.update m.attempt a.id (some a) else m.attempt
    collecting := Function.update m.collecting a.id
      (if persists e m.attempt a then none else some (temporaryEntry e (m.collecting a.id) a)) }

section Put

variable (e : Env) (m : Slice) (a : Attempt)

@[simp] theorem put_config : (m.put e a).config = m.config := rfl

@[simp] theorem put_epoch : (m.put e a).epoch = m.epoch := rfl

@[simp] theorem put_nextAttempt : (m.put e a).nextAttempt = m.nextAttempt := rfl

@[simp] theorem put_invalidateBelow : (m.put e a).invalidateBelow = m.invalidateBelow := rfl

@[simp] theorem put_authorized : (m.put e a).authorized = m.authorized := rfl

@[simp] theorem put_cancels : (m.put e a).cancels = m.cancels := rfl

@[simp] theorem put_completing : (m.put e a).completing = m.completing := rfl

@[simp] theorem put_nullifier : (m.put e a).nullifier = m.nullifier := rfl

@[simp] theorem put_approval : (m.put e a).approval = m.approval := rfl

@[simp] theorem put_baseline : (m.put e a).baseline = m.baseline := rfl

end Put

section PutRecords

variable {e : Env} {m : Slice} {a : Attempt} {id : UInt64}

theorem put_attempt_of_ne (other : id ≠ a.id) : (m.put e a).attempt id = m.attempt id := by
  change (if persists e m.attempt a then Function.update m.attempt a.id (some a) else _) id = _
  split
  · exact Function.update_of_ne other _ _
  · rfl

theorem put_collecting_of_ne (other : id ≠ a.id) :
    (m.put e a).collecting id = m.collecting id :=
  Function.update_of_ne other _ _

theorem put_attempt_of_persists (persistent : persists e m.attempt a = true) :
    (m.put e a).attempt a.id = some a := by
  change (if persists e m.attempt a then Function.update m.attempt a.id (some a) else _) a.id = _
  rw [if_pos persistent]
  exact Function.update_self _ _ _

/-- A persistent record is only ever replaced by another. -/
theorem put_attempt_of_stored {b : Attempt} (stored : m.attempt a.id = some b) :
    (m.put e a).attempt a.id = some a :=
  put_attempt_of_persists (by simp [persists, stored])

theorem put_attempt_of_state (state : a.state = .authorized ∨ a.state = .completed) :
    (m.put e a).attempt a.id = some a := by
  apply put_attempt_of_persists
  rcases state with state | state <;> simp [persists, state]

theorem holds_put {b : Attempt} :
    (m.put e a).Holds id b ↔ if id = a.id then b = a else m.Holds id b := by
  split
  · rename_i same
    subst same
    by_cases persistent : persists e m.attempt a = true
    · simp [Holds, put, persistent, eq_comm]
    · have absent : m.attempt a.id = none := by
        cases stored : m.attempt a.id with
        | none => rfl
        | some found => simp [persists, stored] at persistent
      simp [Holds, put, persistent, absent, temporaryEntry, eq_comm]
  · rename_i other
    unfold Holds
    rw [put_attempt_of_ne other, put_collecting_of_ne other]

theorem load_put_of_ne {now : UInt32} (other : id ≠ a.id) :
    (m.put e a).load now id = m.load now id := by
  unfold load
  rw [put_attempt_of_ne other, put_collecting_of_ne other]

end PutRecords

def takeMarker (now : UInt32) (m : Slice) : Slice :=
  match Temporary.read now m.completing with
  | none => m
  | some _ => { m with completing := none }

/-- Dropping a marker changes nothing else. -/
theorem takeMarker_eq (now : UInt32) (m : Slice) :
    m.takeMarker now = { m with completing := (m.takeMarker now).completing } := by
  unfold takeMarker
  split <;> rfl

end Slice

/-! ### The storage functions, read on a slice -/

theorem load_eq (now : UInt32) (s : Storage) (account : Address) (id : UInt64) :
    load now s account id = (s.slice account).load now id := rfl

theorem isLive_eq_true {now : UInt32} {s : Storage} {account : Address} {a : Attempt} :
    isLive now s account a = true ↔ (s.slice account).Live now a := by
  unfold isLive Slice.Live Storage.slice
  by_cases current : a.epoch = epochOf s account
  · cases state : a.state <;> simp [current]
  · simp [current]

theorem authorizedLive_eq_some {now : UInt32} {s : Storage} {account : Address} {a : Attempt} :
    authorizedLive now s account = some a ↔ (s.slice account).Authorized now a := by
  unfold authorizedLive Slice.Authorized
  constructor
  · intro found
    cases pointer : s.authorized account with
    | none => simp [pointer] at found
    | some id =>
        cases stored : s.attempt (account, id) with
        | none => simp [pointer, stored] at found
        | some b =>
            simp only [pointer, stored, Option.ite_none_right_eq_some, Option.some.injEq] at found
            obtain ⟨live, rfl⟩ := found
            exact ⟨id, pointer, stored, isLive_eq_true.mp live⟩
  · rintro ⟨id, pointer, stored, live⟩
    change s.authorized account = some id at pointer
    change s.attempt (account, id) = some a at stored
    simp [pointer, stored, isLive_eq_true.mpr live]

theorem authorizedLive_eq_none {now : UInt32} {s : Storage} {account : Address} :
    authorizedLive now s account = none ↔ (s.slice account).Quiet now := by
  rw [Option.eq_none_iff_forall_ne_some]
  exact forall_congr' fun a => not_congr authorizedLive_eq_some

theorem slice_save (e : Env) (s : Storage) (account : Address) (a : Attempt) :
    (save e s account a).slice account = (s.slice account).put e a := by
  have same : savesPersistently e s account a = Slice.persists e (s.slice account).attempt a := rfl
  unfold save Slice.put
  rw [same]
  by_cases persistent : Slice.persists e (s.slice account).attempt a = true
  · simp only [if_pos persistent]
    ext1 <;> try rfl
    · funext id
      by_cases own : id = a.id <;> simp [own, Storage.slice]
    · funext id
      by_cases own : id = a.id <;> simp [own, Storage.slice]
  · simp only [if_neg persistent]
    ext1 <;> try rfl
    funext id
    by_cases own : id = a.id <;> simp [own, Storage.slice, Slice.temporaryEntry]

theorem slice_save_of_ne {e : Env} {s : Storage} {account other : Address} {a : Attempt}
    (distinct : other ≠ account) : (save e s account a).slice other = s.slice other := by
  unfold save
  split
  · unfold Storage.slice
    congr 1
    · funext id
      simp [distinct]
    · funext id
      simp [distinct]
  · unfold Storage.slice
    congr 1
    funext id
    simp [distinct]

end Perch.Recovery
