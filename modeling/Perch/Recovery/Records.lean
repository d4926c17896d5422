/-
The two areas an attempt's record is stored in.

A record lives in the persistent map or in the temporary one, never in both,
and reading tries the persistent map first.  A temporary record is written
with a lifetime that covers its evidence window, so a record is lost only
after the window in which it could still collect evidence.
-/

import Perch.Recovery.Lifetime

namespace Perch.Recovery

open Machine Document

namespace Slice

/-! ### Writing and reading back -/

section Put

variable {e : Env} {m : Slice} {a b : Attempt} {id : UInt64}

theorem le_evidenceWindow (now deadline : UInt32) :
    deadline ≤ saturatingAdd now (saturatingAdd (saturatingSub deadline now) 1) ∧
      now ≤ saturatingAdd now (saturatingAdd (saturatingSub deadline now) 1) := by
  have one : (1 : UInt32).toNat = 1 := rfl
  have bounded := deadline.toNat_lt
  have clock := now.toNat_lt
  constructor
  · rw [UInt32.le_iff_toNat_le, toNat_saturatingAdd, toNat_saturatingAdd, toNat_saturatingSub, one]
    omega
  · rw [UInt32.le_iff_toNat_le, toNat_saturatingAdd, toNat_saturatingAdd, toNat_saturatingSub, one]
    omega

theorem temporaryEntry_lifetime (entry : Option (Temporary Attempt)) :
    a.evidenceDeadline ≤ (temporaryEntry e entry a).liveUntil ∧
      e.sequence ≤ (temporaryEntry e entry a).liveUntil := by
  obtain ⟨deadline, current⟩ := le_evidenceWindow e.sequence a.evidenceDeadline
  have extended := Temporary.le_extend e.sequence
    (saturatingAdd (saturatingSub a.evidenceDeadline e.sequence) 1)
    (Temporary.write e.sequence e.minTemporaryTtl entry a)
  constructor
  · exact UInt32.le_trans deadline extended
  · exact UInt32.le_trans current extended

@[simp] theorem temporaryEntry_value (entry : Option (Temporary Attempt)) :
    (temporaryEntry e entry a).value = a := by
  simp [temporaryEntry]

theorem attempt_eq_none_of_not_persists (temporary : ¬persists e m.attempt a = true) :
    m.attempt a.id = none := by
  cases stored : m.attempt a.id with
  | none => rfl
  | some found => simp [persists, stored] at temporary

theorem put_attempt_of_not_persists (temporary : ¬persists e m.attempt a = true) :
    (m.put e a).attempt = m.attempt :=
  if_neg temporary

theorem put_collecting_of_not_persists (temporary : ¬persists e m.attempt a = true) :
    (m.put e a).collecting a.id = some (temporaryEntry e (m.collecting a.id) a) := by
  change Function.update m.collecting a.id _ a.id = _
  rw [Function.update_self, if_neg temporary]

/-- What was written is what is read, at once and until its window ends. -/
theorem load_put {now : UInt32} (within : now ≤ e.sequence ∨ now ≤ a.evidenceDeadline) :
    (m.put e a).load now a.id = some a := by
  unfold load
  by_cases persistent : persists e m.attempt a = true
  · rw [put_attempt_of_persists persistent]
    rfl
  · rw [put_attempt_of_not_persists persistent, attempt_eq_none_of_not_persists persistent,
      Option.none_or]
    obtain ⟨deadline, current⟩ := temporaryEntry_lifetime (e := e) (a := a) (m.collecting a.id)
    refine Temporary.read_eq_some.mpr
      ⟨_, put_collecting_of_not_persists persistent, ?_, temporaryEntry_value _⟩
    rcases within with past | inWindow
    · exact UInt32.le_trans past current
    · exact UInt32.le_trans inWindow deadline

end Put

/-! ### Temporary records outlive their evidence windows -/

/-- No temporary record's lifetime ends inside its evidence window. -/
def Covered (m : Slice) : Prop :=
  ∀ id entry, m.collecting id = some entry → entry.value.evidenceDeadline ≤ entry.liveUntil

theorem covered_empty (account : Address) : (Storage.empty.slice account).Covered := by
  intro id entry present
  cases present

theorem Covered.put {e : Env} {m : Slice} {a : Attempt} (covered : m.Covered) :
    (m.put e a).Covered := by
  intro id entry present
  by_cases own : id = a.id
  · subst own
    by_cases persistent : persists e m.attempt a = true
    · change Function.update m.collecting a.id _ a.id = _ at present
      rw [Function.update_self, if_pos persistent] at present
      cases present
    · rw [put_collecting_of_not_persists persistent] at present
      obtain rfl := Option.some.inj present
      rw [temporaryEntry_value]
      exact (temporaryEntry_lifetime _).1
  · rw [put_collecting_of_ne own] at present
    exact covered id entry present

theorem Covered.load {m : Slice} {now ledger : UInt32} {id : UInt64} {a : Attempt}
    (covered : m.Covered) (sound : m.Sound now) (held : m.Holds id a)
    (within : ledger ≤ a.evidenceDeadline) : m.load ledger id = some a := by
  rcases held with stored | ⟨entry, present, rfl⟩
  · exact Option.or_eq_some_iff.mpr (.inl stored)
  · have missing : m.attempt id = none := by
      cases stored : m.attempt id with
      | none => rfl
      | some found =>
          rw [sound.single id found stored] at present
          cases present
    refine Option.or_eq_some_iff.mpr (.inr ⟨missing, ?_⟩)
    exact Temporary.read_eq_some.mpr
      ⟨entry, present, UInt32.le_trans within (covered id entry present), rfl⟩

end Slice

/-! ### One move -/

section Move

variable {e : Env} {m m' : Slice}

theorem Move.covered (moved : Move e m m') (covered : m.Covered) : m'.Covered := by
  cases moved with
  | idle => exact covered
  | configured => exact covered
  | opened => exact covered.put
  | recorded => exact covered.put
  | closed => exact covered.put
  | promoted => exact covered.put
  | cancelled => exact covered.put
  | completed => exact covered.put

/-- Writing a record over the one it continues loses none, and takes none out
of the persistent area. -/
theorem Slice.put_continues {a b c : Attempt} {id : UInt64} (sound : m.Sound e.sequence)
    (loaded : m.load e.sequence a.id = some a) (begun : b.asBegun = a.asBegun)
    (held : m.Holds id c) :
    ∃ d, (m.put e b).Holds id d ∧ d.asBegun = c.asBegun ∧
      (m.attempt id = some c → (m.put e b).attempt id = some d) := by
  by_cases own : id = b.id
  · subst own
    have same : b.id = a.id := Attempt.id_of_asBegun begun
    rw [same] at held
    obtain rfl := sound.load_holds loaded held
    refine ⟨b, Slice.holds_put.mpr (by rw [if_pos rfl]), begun, ?_⟩
    exact Slice.put_attempt_of_stored
  · refine ⟨c, Slice.holds_put.mpr (by rwa [if_neg own]), rfl, ?_⟩
    exact (Slice.put_attempt_of_ne own).trans

/-- No move drops a record or takes one out of the persistent area. -/
theorem Move.continues {c : Attempt} {id : UInt64} (moved : Move e m m')
    (sound : m.Sound e.sequence) (held : m.Holds id c) :
    ∃ d, m'.Holds id d ∧ d.asBegun = c.asBegun ∧
      (m.attempt id = some c → m'.attempt id = some d) := by
  cases moved with
  | idle => exact ⟨c, held, rfl, fun stored => stored⟩
  | configured => exact ⟨c, held, rfl, fun stored => stored⟩
  | @opened a _ _ own =>
      have other : id ≠ a.id := by
        rw [own]
        intro same
        exact UInt64.lt_irrefl _ (same ▸ sound.begun id c held)
      refine ⟨c, ?_, rfl, (Slice.put_attempt_of_ne other).trans⟩
      change (m.put e a).Holds id c
      exact Slice.holds_put.mpr (by rwa [if_neg other])
  | recorded loaded _ begun => exact Slice.put_continues sound loaded begun held
  | closed loaded _ begun => exact Slice.put_continues sound loaded begun held
  | promoted loaded _ begun => exact Slice.put_continues sound loaded begun held
  | cancelled loaded _ begun => exact Slice.put_continues sound loaded begun held
  | completed found begun =>
      exact Slice.put_continues sound (sound.load_of_authorized found) begun held

end Move

/-! ### Executions -/

structure Recorded (account : Address) (history : History) (m : Slice) : Prop where
  covered : m.Covered
  sound : ∀ taken ∈ history, (taken.after.slice account).Sound taken.action.env.sequence
  /-- No record that was ever written is gone, and none left the persistent
  area. -/
  kept : ∀ taken ∈ history, ∀ id a, (taken.after.slice account).Holds id a →
    ∃ b, m.Holds id b ∧ b.asBegun = a.asBegun ∧
      ((taken.after.slice account).attempt id = some a → m.attempt id = some b)

theorem Recorded.step {account : Address} {history : History} {m : Slice}
    {taken : ControllerStep} (recorded : Recorded account history m)
    (sound : m.Sound taken.action.env.sequence)
    (moved : Move taken.action.env m (taken.after.slice account)) :
    Recorded account (taken :: history) (taken.after.slice account) where
  covered := moved.covered recorded.covered
  sound := by
    intro other member
    rcases List.mem_cons.mp member with rfl | member
    · exact sound.move moved
    · exact recorded.sound other member
  kept := by
    intro other member id a held
    rcases List.mem_cons.mp member with rfl | member
    · exact ⟨a, held, rfl, fun stored => stored⟩
    · obtain ⟨b, before, begun, stays⟩ := recorded.kept other member id a held
      obtain ⟨c, after, begun', stays'⟩ := moved.continues sound before
      exact ⟨c, after, begun'.trans begun, fun stored => stays' (stays stored)⟩

theorem Run.recorded {d : Deployment} {history : History} {now : UInt32} {s : Storage}
    (run : Run d history now s) (account : Address) :
    Recorded account history (s.slice account) := by
  refine (account_invariant account
    (fun history now m => m.Sound now ∧ Recorded account history m)
    Slice.sound_empty ⟨Slice.sound_empty account, ?_⟩ ?_ ?_ ?_ run).2.2
  · exact { covered := Slice.covered_empty account, sound := by simp, kept := by simp }
  · intro history now later m known forward
    exact ⟨known.1.later forward, known.2⟩
  · intro history taken known passed
    refine ⟨known.1, ?_⟩
    rw [← passed.kept]
    refine known.2.step known.1 ?_
    rw [passed.kept]
    exact .idle _ _ _
  · intro history taken reply gate known sound acted
    exact ⟨sound.move acted.transition.move, known.2.step sound acted.transition.move⟩

/-- The two areas of attempt storage, read as one map over a run. -/
structure OneMap (account : Address) (history : History) (now : UInt32) (s : Storage) :
    Prop where
  single : ∀ id, s.attempt (account, id) = none ∨ s.collecting (account, id) = none
  /-- A saved record is read back, and no other record is touched. -/
  saved : ∀ e a, load e.sequence (save e s account a) account a.id = some a ∧
    ∀ ledger owner id, (owner, id) ≠ (account, a.id) →
      load ledger (save e s account a) owner id = load ledger s owner id
  /-- Authorized and completed records are in the persistent map, and stay
  there whatever becomes of them. -/
  lasting : ∀ taken ∈ history, ∀ id a, (taken.after.slice account).Holds id a →
    a.state = .authorized ∨ a.state = .completed →
    taken.after.attempt (account, id) = some a ∧
      ∃ b, s.attempt (account, id) = some b ∧ b.asBegun = a.asBegun
  /-- A collecting record can be read up to its evidence deadline. -/
  present : ∀ id a, (s.slice account).Holds id a → a.state = .collecting →
    ∀ ledger ≤ a.evidenceDeadline, load ledger s account id = some a
  /-- No record is lost before its evidence deadline, however often it was
  written again. -/
  kept : ∀ taken ∈ history, ∀ id a, (taken.after.slice account).Holds id a →
    now ≤ a.evidenceDeadline → ∃ b, load now s account id = some b ∧ b.asBegun = a.asBegun

theorem load_save {e : Env} {s : Storage} {account : Address} {a : Attempt} :
    load e.sequence (save e s account a) account a.id = some a := by
  rw [load_eq, slice_save]
  exact Slice.load_put (.inl (UInt32.le_refl _))

theorem load_save_of_ne {e : Env} {s : Storage} {account owner : Address} {a : Attempt}
    {id : UInt64} {now : UInt32} (other : (owner, id) ≠ (account, a.id)) :
    load now (save e s account a) owner id = load now s owner id := by
  rw [load_eq, load_eq]
  by_cases own : owner = account
  · subst own
    have distinct : id ≠ a.id := by
      intro same
      exact other (by rw [same])
    rw [slice_save, Slice.load_put_of_ne distinct]
  · rw [slice_save_of_ne own]

/-- Attempt storage behaves as one map in every reachable state. -/
theorem attempt_storage_one_map {d : Deployment} {history : History} {now : UInt32}
    {s : Storage} (run : Run d history now s) (account : Address) :
    OneMap account history now s := by
  have sound := run.sound account
  have recorded := run.recorded account
  constructor
  · intro id
    cases stored : s.attempt (account, id) with
    | none => exact .inl rfl
    | some a => exact .inr (sound.single id a stored)
  · intro e a
    exact ⟨load_save, fun _ _ _ other => load_save_of_ne other⟩
  · intro taken member id a held state
    have stored := (recorded.sound taken member).lasting id a held state
    obtain ⟨b, -, begun, stays⟩ := recorded.kept taken member id a held
    exact ⟨stored, b, stays stored, begun⟩
  · intro id a held _ ledger within
    exact recorded.covered.load sound held within
  · intro taken member id a held within
    obtain ⟨b, held', begun, -⟩ := recorded.kept taken member id a held
    refine ⟨b, recorded.covered.load sound held' ?_, begun⟩
    rw [Attempt.term_eq Attempt.evidenceDeadline (fun _ => rfl) begun]
    exact within

/-- The sample's attempt is read to the last ledger of its window. -/
theorem attempt_storage_one_map_sample :
    OneMap Sample.account ((controller Sample.deployment).play [] .empty Sample.calls).1 104
      Sample.reached :=
  attempt_storage_one_map Sample.run Sample.account

end Perch.Recovery
