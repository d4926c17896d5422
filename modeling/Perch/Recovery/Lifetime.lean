/-
The life of an attempt.

A call writes only records of live attempts and of the one it begins, and no
call makes a dead attempt live: epochs and the invalidation threshold only
grow, windows only close, and the pointer only ever moves to an attempt that
was live.
-/

import Perch.Recovery.Window

namespace Perch.Recovery

open Machine Document

namespace Slice

/-- An attempt is live when the record read under its id is. -/
def LiveAt (now : UInt32) (m : Slice) (id : UInt64) : Prop :=
  ∃ a, m.load now id = some a ∧ m.Live now a

theorem LiveAt.earlier {now later : UInt32} {m : Slice} {id : UInt64} (forward : now ≤ later)
    (live : m.LiveAt later id) : m.LiveAt now id := by
  obtain ⟨a, loaded, within⟩ := live
  exact ⟨a, load_earlier forward loaded, within.earlier forward⟩

end Slice

theorem attemptLive_eq_true {now : UInt32} {s : Storage} {account : Address} {id : UInt64} :
    attemptLive now s account id = true ↔ (s.slice account).LiveAt now id := by
  unfold attemptLive Slice.LiveAt
  rw [load_eq, Option.any_eq_true]
  simp only [isLive_eq_true]

theorem attemptLive_eq_false {now : UInt32} {s : Storage} {account : Address} {id : UInt64} :
    attemptLive now s account id = false ↔ ¬(s.slice account).LiveAt now id := by
  rw [← attemptLive_eq_true, Bool.not_eq_true]

/-! ### One move -/

section Move

variable {e : Env} {m m' : Slice} {id : UInt64}

theorem Move.nextAttempt_le (moved : Move e m m') : m.nextAttempt ≤ m'.nextAttempt := by
  cases moved with
  | opened _ _ _ _ counted => exact UInt64.le_of_lt (lt_checkedSucc counted)
  | _ => exact UInt64.le_refl _

/-- Every write goes to a live attempt or to the next id, so the records of a
dead one are never written again. -/
theorem Move.records_of_dead (moved : Move e m m') (sound : m.Sound e.sequence)
    (begun : id < m.nextAttempt) (dead : ¬m.LiveAt e.sequence id) :
    m'.attempt id = m.attempt id ∧ m'.collecting id = m.collecting id := by
  have other : ∀ {c : Attempt}, id ≠ c.id →
      (m.put e c).attempt id = m.attempt id ∧ (m.put e c).collecting id = m.collecting id :=
    fun distinct => ⟨Slice.put_attempt_of_ne distinct, Slice.put_collecting_of_ne distinct⟩
  have live_ne : ∀ {a c : Attempt}, m.load e.sequence a.id = some a → m.Live e.sequence a →
      c.asBegun = a.asBegun → id ≠ c.id := by
    intro a c loaded live begun same
    rw [Attempt.id_of_asBegun begun] at same
    exact dead ⟨a, same ▸ loaded, live⟩
  cases moved with
  | idle => exact ⟨rfl, rfl⟩
  | configured => exact ⟨rfl, rfl⟩
  | opened _ own _ _ _ =>
      refine other ?_
      rw [own]
      exact fun same => UInt64.lt_irrefl _ (same ▸ begun)
  | recorded loaded live begun _ => exact other (live_ne loaded live begun)
  | closed loaded live begun _ _ => exact other (live_ne loaded live begun)
  | promoted loaded live begun _ _ _ => exact other (live_ne loaded live begun)
  | cancelled loaded live begun _ _ => exact other (live_ne loaded live begun)
  | completed found begun _ _ =>
      obtain ⟨-, -, -, live⟩ := sound.authorized_state found
      exact other (live_ne (sound.load_of_authorized found) live begun)

theorem Move.live_of_live (moved : Move e m m') (sound : m.Sound e.sequence)
    {a : Attempt} (held : m.Holds id a) (dead : ¬m.LiveAt e.sequence id)
    (live : m'.Live e.sequence a) : m.Live e.sequence a := by
  have begun := sound.begun id a held
  have own : a.id = id := sound.keyed id a held
  have old := sound.current id a held
  have bumped_dead : ∀ {epoch : UInt64}, checkedSucc m.epoch = some epoch → a.epoch ≠ epoch := by
    rintro epoch bumped rfl
    exact UInt64.lt_irrefl _ (UInt64.lt_of_lt_of_le (lt_checkedSucc bumped) old)
  cases moved with
  | idle => exact live
  | configured _ bumped _ => exact absurd live.1 (bumped_dead bumped)
  | opened => exact live
  | recorded => exact live
  | closed => exact live
  | promoted loaded window begun' state quiet authorized =>
      obtain ⟨current, ⟨-, above, -⟩ | ⟨-, pointer, -⟩⟩ := live
      · rw [own] at above
        exact absurd (UInt64.lt_of_lt_of_le begun above) (UInt64.lt_irrefl _)
      · refine absurd ⟨_, ?_, window⟩ dead
        rw [← own, ← Option.some.inj pointer]
        exact loaded
  | cancelled =>
      obtain ⟨current, collecting | ⟨-, pointer, -⟩⟩ := live
      · exact ⟨current, .inl collecting⟩
      · cases pointer
  | completed _ _ _ bumped => exact absurd live.1 (bumped_dead bumped)

theorem Move.dead (moved : Move e m m') (sound : m.Sound e.sequence)
    (begun : id < m.nextAttempt) (dead : ¬m.LiveAt e.sequence id) : ¬m'.LiveAt e.sequence id := by
  rintro ⟨a, loaded, live⟩
  obtain ⟨attempts, temporaries⟩ := moved.records_of_dead sound begun dead
  have loaded' : m.load e.sequence id = some a := by
    unfold Slice.load at loaded ⊢
    rwa [attempts, temporaries] at loaded
  exact dead ⟨a, loaded', moved.live_of_live sound (.of_load loaded') dead live⟩

end Move

/-! ### Executions -/

/-- A call assigned an id to an attempt of the account. -/
def Assigned (account : Address) (id : UInt64) (taken : ControllerStep) : Prop :=
  taken.action.call.account = account ∧ ∃ gate, taken.reply = .ok (.begun id, gate)

theorem Passed.not_assigned {account : Address} {taken : ControllerStep} {id : UInt64}
    (passed : Passed account taken) : ¬Assigned account id taken := by
  rintro ⟨named, gate, replied⟩
  obtain ⟨failure, failed⟩ := passed.silent named
  rw [failed] at replied
  cases replied

theorem Acted.assigned {d : Deployment} {account : Address} {taken : ControllerStep}
    {reply : Reply} {gate : Option GateCall} {id : UInt64}
    (acted : Acted d account taken reply gate) (assigned : Assigned account id taken) :
    id = (taken.before.slice account).nextAttempt ∧
      id < (taken.after.slice account).nextAttempt := by
  obtain ⟨-, gate', replied⟩ := assigned
  have same := acted.replied.symm.trans replied
  simp only [Except.ok.injEq, Prod.mk.injEq] at same
  have transition := acted.transition
  rw [same.1] at transition
  generalize taken.action.call = call, taken.after.slice account = m' at transition
  cases transition with
  | begun started known counted =>
      rw [started.record]
      exact ⟨rfl, lt_checkedSucc counted⟩

/-- Ids are assigned in increasing order, below the counter. -/
theorem Run.assignments {d : Deployment} {history : History} {now : UInt32} {s : Storage}
    (run : Run d history now s) (account : Address) :
    (history.Pairwise fun newer older =>
      ∀ i j, Assigned account i newer → Assigned account j older → j < i) ∧
      ∀ taken ∈ history, ∀ id, Assigned account id taken → id < nextAttemptOf s account := by
  refine (account_invariant account
    (fun history _ m =>
      (history.Pairwise fun newer older =>
        ∀ i j, Assigned account i newer → Assigned account j older → j < i) ∧
        ∀ taken ∈ history, ∀ id, Assigned account id taken → id < m.nextAttempt)
    Slice.sound_empty ⟨.nil, by simp⟩ (fun known _ => known) ?_ ?_ run).2
  · rintro history taken ⟨ordered, below⟩ passed
    refine ⟨.cons (fun _ _ i _ assigned => absurd assigned passed.not_assigned) ordered, ?_⟩
    intro other member id assigned
    rcases List.mem_cons.mp member with rfl | member
    · exact absurd assigned passed.not_assigned
    · exact below other member id assigned
  · rintro history taken reply gate ⟨ordered, below⟩ sound acted
    refine ⟨.cons ?_ ordered, ?_⟩
    · intro older member i j newest assigned
      rw [(acted.assigned newest).1]
      exact below older member j assigned
    · intro other member id assigned
      rcases List.mem_cons.mp member with rfl | member
      · exact (acted.assigned assigned).2
      · exact UInt64.lt_of_lt_of_le (below other member id assigned)
          acted.transition.move.nextAttempt_le

theorem dead_stays_dead {d : Deployment} {now later : UInt32} {s final : Storage}
    {history : History} {account : Address} {id : UInt64}
    (sound : ∀ other, (s.slice other).Sound now)
    (execution : Execution (controller d) now s history later final)
    (begun : id < (s.slice account).nextAttempt) (dead : ¬(s.slice account).LiveAt now id) :
    ¬(final.slice account).LiveAt later id := by
  refine (account_invariant account
    (fun _ now m => id < m.nextAttempt ∧ ¬m.LiveAt now id) sound ⟨begun, dead⟩
    ?_ (fun known _ => known) ?_ execution).2.2
  · rintro _ now later m ⟨begun, dead⟩ forward
    exact ⟨begun, fun live => dead (live.earlier forward)⟩
  · rintro _ taken reply gate ⟨begun, dead⟩ sound acted
    have moved := acted.transition.move
    exact ⟨UInt64.lt_of_lt_of_le begun moved.nextAttempt_le, moved.dead sound begun dead⟩

def AttemptState.terminal : AttemptState → Bool
  | .completed | .cancelled | .invalidated => true
  | .collecting | .authorized => false

theorem Slice.not_live_of_terminal {now : UInt32} {m : Slice} {a : Attempt}
    (ended : a.state.terminal = true) : ¬m.Live now a := by
  rintro ⟨-, ⟨state, -⟩ | ⟨state, -⟩⟩
  · rw [state] at ended
    cases ended
  · rw [state] at ended
    cases ended

theorem terminal_absorbing {d : Deployment} {now later : UInt32} {s final : Storage}
    {history : History} {account : Address} {id : UInt64} {a : Attempt}
    (sound : ∀ other, (s.slice other).Sound now)
    (execution : Execution (controller d) now s history later final)
    (loaded : (s.slice account).load now id = some a) (ended : a.state.terminal = true) :
    ∀ b, (final.slice account).Holds id b → b = a := by
  have begun := (sound account).begun id a (.of_load loaded)
  refine (account_invariant account
    (fun _ now m => id < m.nextAttempt ∧ ∀ b, m.Holds id b → b = a) sound
    ⟨begun, fun b held => (sound account).load_holds loaded held⟩
    (fun known _ => known) (fun known _ => known) ?_ execution).2.2
  rintro _ taken reply gate ⟨begun, only⟩ sound acted
  have moved := acted.transition.move
  have dead : ¬(taken.before.slice account).LiveAt taken.action.env.sequence id := by
    rintro ⟨b, loaded, live⟩
    rw [only b (.of_load loaded)] at live
    exact Slice.not_live_of_terminal ended live
  obtain ⟨attempts, temporaries⟩ := moved.records_of_dead sound begun dead
  refine ⟨UInt64.lt_of_lt_of_le begun moved.nextAttempt_le, fun b held => only b ?_⟩
  unfold Slice.Holds at held ⊢
  rwa [attempts, temporaries] at held

/-- Once an attempt that was begun is not live, it is never live again; a
terminal record never changes; and no id is assigned twice. -/
theorem dead_attempts_stay_dead {d : Deployment} {history : History} {now : UInt32} {s : Storage}
    (run : Run d history now s) (account : Address) :
    (∀ id, (∃ taken ∈ history, Assigned account id taken) →
      attemptLive now s account id = false →
      ∀ further later final, Execution (controller d) now s further later final →
        attemptLive later final account id = false) ∧
    (∀ id a, load now s account id = some a → a.state.terminal = true →
      ∀ further later final, Execution (controller d) now s further later final →
        ∀ b, load later final account id = some b → b = a) ∧
    history.Pairwise fun newer older =>
      ∀ i j, Assigned account i newer → Assigned account j older → j < i := by
  obtain ⟨ordered, below⟩ := run.assignments account
  refine ⟨?_, ?_, ordered⟩
  · rintro id ⟨taken, member, assigned⟩ dead further later final execution
    exact attemptLive_eq_false.mpr (dead_stays_dead run.sound execution
      (below taken member id assigned) (attemptLive_eq_false.mp dead))
  · intro id a loaded ended further later final execution b found
    exact terminal_absorbing run.sound execution loaded ended b (.of_load found)

theorem dead_attempts_stay_dead_sample :
    attemptLive 104 Sample.reached Sample.account 0 = true ∧
      attemptLive 214 Sample.reached Sample.account 0 = false ∧
      ∀ further later final,
        Execution (controller Sample.deployment) 214 Sample.reached further later
        final → attemptLive later final Sample.account 0 = false := by
  have expired : attemptLive 214 Sample.reached Sample.account 0 = false := by decide +kernel
  refine ⟨by decide +kernel, expired, ?_⟩
  refine (dead_attempts_stay_dead (Sample.run.wait (by decide)) Sample.account).1 0 ?_ expired
  refine ⟨_, List.getElem_mem (show 3 < _ by decide), ?_, none, ?_⟩
  · decide
  · decide

end Perch.Recovery
