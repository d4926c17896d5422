/-
The shape every account's slice keeps over a run.

The outcomes of `Transition` fall into eight kinds of move.  `Slice.Sound`
collects what the records, counters and the authorized pointer satisfy in
every reachable state; each move keeps it, waiting keeps it, and so every run
does.
-/

import Perch.Recovery.Run

namespace Perch.Recovery

open Machine Document

/-- The attempt as `begin` recorded it: its terms, without evidence, windows,
or progress. -/
def Attempt.asBegun (a : Attempt) : Attempt :=
  { a with
    authorizedAt := 0
    executableAfter := 0
    expiresAt := 0
    state := .collecting
    guardians := []
    zkNullifier := none
    cancelGuardians := []
    cancelZk := false }

theorem Attempt.term_eq {β : Type} {a b : Attempt} (read : Attempt → β)
    (term : ∀ c : Attempt, read c.asBegun = read c) (begun : b.asBegun = a.asBegun) :
    read b = read a := by
  rw [← term b, ← term a, begun]

theorem Attempt.id_of_asBegun {a b : Attempt} (begun : b.asBegun = a.asBegun) : b.id = a.id :=
  Attempt.term_eq Attempt.id (fun _ => rfl) begun

theorem Attempt.epoch_of_asBegun {a b : Attempt} (begun : b.asBegun = a.asBegun) :
    b.epoch = a.epoch :=
  Attempt.term_eq Attempt.epoch (fun _ => rfl) begun

theorem Submission.asBegun {d : Deployment} {e : Env} {account : Address} {m : Slice}
    {config : CompiledRecoveryConfig} {a b : Attempt} {domain : EvidenceDomain} {call : Call}
    (submitted : Submission d e account m config a domain call b) : b.asBegun = a.asBegun := by
  rw [submitted.unchanged]
  rfl

theorem Submission.call_eq {d : Deployment} {e : Env} {account : Address} {m : Slice}
    {config : CompiledRecoveryConfig} {a b : Attempt} {domain : EvidenceDomain} {call : Call}
    (submitted : Submission d e account m config a domain call b) :
    (∃ guardian, call = .submitGuardian account a.id domain guardian) ∨
      ∃ evidence, call = .submitZk account a.id domain evidence := by
  cases submitted with
  | guardian => exact .inl ⟨_, rfl⟩
  | zk => exact .inr ⟨_, rfl⟩

/-! ### The kinds of move -/

inductive Move (e : Env) (m : Slice) : Slice → Prop where
  | idle (completing : Option (Temporary CompletionMarker))
      (approval : Bytes32 → Option ChangeApproval) (baseline : Bytes32 → Option Bytes) :
      Move e m { m with completing := completing, approval := approval, baseline := baseline }
  | configured {config : Option CompiledRecoveryConfig} {epoch : UInt64}
      {pointer : Option UInt64} {completing : Option (Temporary CompletionMarker)}
      (quiet : m.Quiet e.sequence) (bumped : checkedSucc m.epoch = some epoch)
      (dropped : pointer = m.authorized ∨ pointer = none) :
      Move e m
        { m with
          config := config
          epoch := epoch
          authorized := pointer
          completing := completing }
  | opened {a : Attempt} {next : UInt64} (quiet : m.Quiet e.sequence)
      (own : a.id = m.nextAttempt) (current : a.epoch = m.epoch) (state : a.state = .collecting)
      (counted : checkedSucc m.nextAttempt = some next) :
      Move e m { (m.put e a) with nextAttempt := next }
  | recorded {a b : Attempt} (loaded : m.load e.sequence a.id = some a)
      (live : m.Live e.sequence a) (begun : b.asBegun = a.asBegun) (state : b.state = a.state) :
      Move e m (m.put e b)
  | closed {a b : Attempt} (loaded : m.load e.sequence a.id = some a)
      (live : m.Live e.sequence a) (begun : b.asBegun = a.asBegun)
      (state : a.state = .collecting) (ended : b.state = .cancelled ∨ b.state = .invalidated) :
      Move e m (m.put e b)
  | promoted {a b : Attempt} (loaded : m.load e.sequence a.id = some a)
      (live : m.Live e.sequence a) (begun : b.asBegun = a.asBegun)
      (state : a.state = .collecting) (quiet : m.Quiet e.sequence)
      (authorized : b.state = .authorized) :
      Move e m
        { (m.put e b) with
          invalidateBelow := m.nextAttempt
          authorized := some a.id }
  | cancelled {a b : Attempt} {cancels : Option UInt32}
      (loaded : m.load e.sequence a.id = some a) (live : m.Live e.sequence a)
      (begun : b.asBegun = a.asBegun) (state : a.state = .authorized)
      (ended : b.state = .cancelled) :
      Move e m { (m.put e b) with cancels := cancels, authorized := none }
  | completed {a b : Attempt} {config : CompiledRecoveryConfig} {epoch : UInt64}
      {nullifier : Bytes32 → Option Bool} (found : m.Authorized e.sequence a)
      (begun : b.asBegun = a.asBegun) (ended : b.state = .completed)
      (bumped : checkedSucc m.epoch = some epoch) :
      Move e m
        { (m.put e b) with
          completing := none
          nullifier := nullifier
          authorized := none
          config := some config
          epoch := epoch }

theorem CancelCause.asBegun {d : Deployment} {e : Env} {account : Address} {m : Slice}
    {config : CompiledRecoveryConfig} {a b : Attempt} {call : Call} {cancels : Option UInt32}
    (cause : CancelCause d e account m config a call b cancels) :
    b.asBegun = a.asBegun := by
  cases cause with
  | owner => rfl
  | evidence submitted => exact submitted.asBegun

theorem Classified.move {d : Deployment} {e : Env} {account : Address} {m m' : Slice}
    {new : Option CompiledRecoveryConfig} {validUntil : UInt32} {outcome : SyncOutcome}
    (quiet : m.Quiet e.sequence)
    (settled : Classified d e account (m.takeMarker e.sequence) new validUntil outcome m') :
    Move e m m' := by
  have dropped := Slice.takeMarker_eq e.sequence m
  generalize (m.takeMarker e.sequence).completing = completing at dropped
  rw [dropped] at settled
  cases settled with
  | nothing => exact .idle completing m.approval m.baseline
  | same => exact .idle completing m.approval m.baseline
  | enrolled _ _ _ _ _ bumped => exact .configured quiet bumped (.inl rfl)
  | reconfigured _ _ _ _ _ _ _ bumped => exact .configured quiet bumped (.inl rfl)
  | removed _ _ _ bumped => exact .configured quiet bumped (.inr rfl)

theorem Transition.move {d : Deployment} {e : Env} {account : Address} {m m' : Slice}
    {call : Call} {reply : Reply} {gate : Option GateCall}
    (transition : Transition d e account m call reply gate m') : Move e m m' := by
  cases transition with
  | completed _ _ _ _ found _ _ _ _ _ _ _ bumped => exact .completed found rfl rfl bumped
  | classified _ quiet settled => exact settled.move quiet
  | cancelledCollecting _ loaded live state cause =>
      exact .closed loaded live cause.asBegun state (.inl rfl)
  | cancelledAuthorized _ loaded live state cause _ =>
      exact .cancelled loaded live cause.asBegun state rfl
  | upgraded _ _ quiet bumped => exact .configured quiet bumped (.inl rfl)
  | begun started _ counted =>
      refine .opened started.quiet ?_ ?_ ?_ counted
      · rw [started.record]
        rfl
      · rw [started.record]
        rfl
      · rw [started.record]
        rfl
  | recorded _ loaded live _ submitted _ =>
      exact .recorded loaded live submitted.asBegun submitted.state_eq
  | invalidated _ loaded live state submitted _ _ _ =>
      exact .closed loaded live submitted.asBegun state (.inr rfl)
  | authorized _ loaded live state submitted _ quiet _ _ _ _ =>
      exact .promoted loaded live submitted.asBegun state quiet rfl
  | scheduled | installed | uninstalled | renewed =>
      exact .idle m.completing m.approval m.baseline
  | enforced => exact .idle _ m.approval m.baseline
  | approved | proved => exact .idle m.completing _ m.baseline
  | published => exact .idle m.completing m.approval _

/-! ### The invariant -/

namespace Slice

structure Sound (now : UInt32) (m : Slice) : Prop where
  keyed : m.Keyed
  /-- Every record was begun, so the next id is free. -/
  begun : ∀ id a, m.Holds id a → id < m.nextAttempt
  current : ∀ id a, m.Holds id a → a.epoch ≤ m.epoch
  below : m.invalidateBelow ≤ m.nextAttempt
  /-- An attempt that was ever authorized is stored persistently. -/
  lasting : ∀ id a, m.Holds id a → a.state = .authorized ∨ a.state = .completed →
    m.attempt id = some a
  /-- A persistent record leaves no temporary one behind. -/
  single : ∀ id a, m.attempt id = some a → m.collecting id = none
  pointed : ∀ id, m.authorized = some id → ∃ a, m.attempt id = some a ∧ a.state = .authorized
  /-- An authorization invalidated every other attempt. -/
  window : ∀ a, m.Authorized now a → m.invalidateBelow = m.nextAttempt

variable {now : UInt32} {m : Slice}

theorem sound_empty (account : Address) : (Storage.empty.slice account).Sound 0 := by
  constructor <;>
    simp [Keyed, Holds, Authorized, Storage.slice, Storage.empty, invalidateBelowOf, nextAttemptOf]

theorem Sound.later {later : UInt32} (sound : m.Sound now) (forward : now ≤ later) :
    m.Sound later :=
  { sound with window := fun a found => sound.window a (found.earlier forward) }

/-- The pointed attempt is the only authorized one. -/
theorem Sound.authorized_state {a : Attempt} (sound : m.Sound now)
    (found : m.Authorized now a) :
    a.state = .authorized ∧ m.authorized = some a.id ∧ m.attempt a.id = some a ∧
      m.Live now a := by
  obtain ⟨id, pointer, stored, live⟩ := found
  obtain ⟨b, stored', state⟩ := sound.pointed id pointer
  have same : b = a := Option.some.inj (stored'.symm.trans stored)
  have own : a.id = id := sound.keyed id a (.inl stored)
  subst same own
  exact ⟨state, pointer, stored, live⟩

theorem Sound.authorized_of_live {id : UInt64} {a : Attempt} (sound : m.Sound now)
    (held : m.Holds id a) (state : a.state = .authorized) (live : m.Live now a) :
    m.Authorized now a := by
  have own : a.id = id := sound.keyed id a held
  rcases live.2 with ⟨collecting, -⟩ | ⟨-, pointer, -⟩
  · rw [state] at collecting
    cases collecting
  · exact ⟨a.id, pointer, own ▸ sound.lasting id a held (.inl state), live⟩

theorem Sound.load_holds {id : UInt64} {a b : Attempt} (sound : m.Sound now)
    (loaded : m.load now id = some a) (held : m.Holds id b) : b = a := by
  rcases Option.or_eq_some_iff.mp loaded with stored | ⟨missing, read⟩
  · rcases held with stored' | ⟨entry, present, rfl⟩
    · exact Option.some.inj (stored'.symm.trans stored)
    · rw [sound.single id a stored] at present
      cases present
  · rcases held with stored' | ⟨entry, present, rfl⟩
    · rw [missing] at stored'
      cases stored'
    · obtain ⟨entry', present', -, rfl⟩ := Temporary.read_eq_some.mp read
      rw [present] at present'
      cases present'
      rfl

/-- What holds of every record, and of the one written, holds afterwards. -/
theorem holds_put_of {e : Env} {b : Attempt} {property : UInt64 → Attempt → Prop}
    (before : ∀ id a, m.Holds id a → property id a) (written : property b.id b) :
    ∀ id a, (m.put e b).Holds id a → property id a := by
  intro id a held
  have cases' := holds_put.mp held
  by_cases own : id = b.id
  · rw [if_pos own] at cases'
    subst cases'
    rw [own]
    exact written
  · rw [if_neg own] at cases'
    exact before id a cases'

theorem lasting_put {e : Env} {b : Attempt}
    (lasting : ∀ id a, m.Holds id a → a.state = .authorized ∨ a.state = .completed →
      m.attempt id = some a) :
    ∀ id a, (m.put e b).Holds id a → a.state = .authorized ∨ a.state = .completed →
      (m.put e b).attempt id = some a := by
  intro id a held state
  have cases' := holds_put.mp held
  by_cases own : id = b.id
  · rw [if_pos own] at cases'
    subst cases'
    rw [own]
    exact put_attempt_of_state state
  · rw [if_neg own] at cases'
    rw [put_attempt_of_ne own]
    exact lasting id a cases' state

theorem single_put {e : Env} {b : Attempt}
    (single : ∀ id a, m.attempt id = some a → m.collecting id = none) :
    ∀ id a, (m.put e b).attempt id = some a → (m.put e b).collecting id = none := by
  intro id a stored
  by_cases own : id = b.id
  · subst own
    by_cases persistent : persists e m.attempt b = true
    · simp [put, persistent]
    · simp [put, persistent] at stored
      simp [persists, stored] at persistent
  · rw [put_attempt_of_ne own] at stored
    rw [put_collecting_of_ne own]
    exact single id a stored

/-- Writing a live record under the pointer keeps it authorized. -/
theorem pointed_put {e : Env} {a b : Attempt} (sound : m.Sound now)
    (loaded : m.load now a.id = some a) (own : b.id = a.id)
    (state : a.state = .authorized → b.state = .authorized) :
    ∀ id, m.authorized = some id →
      ∃ c, (m.put e b).attempt id = some c ∧ c.state = .authorized := by
  intro id pointer
  obtain ⟨c, stored, authorized⟩ := sound.pointed id pointer
  by_cases same : id = b.id
  · subst same
    rw [own] at stored
    have read : c = a := sound.load_holds loaded (.inl stored)
    subst read
    exact ⟨b, put_attempt_of_stored (own ▸ stored), state authorized⟩
  · exact ⟨c, (put_attempt_of_ne same).trans stored, authorized⟩

theorem Sound.put {e : Env} {a b : Attempt} (sound : m.Sound e.sequence)
    (loaded : m.load e.sequence a.id = some a) (begun : b.asBegun = a.asBegun) :
    (m.put e b).Keyed ∧ (∀ id c, (m.put e b).Holds id c → id < m.nextAttempt) ∧
      (∀ id c, (m.put e b).Holds id c → c.epoch ≤ m.epoch) := by
  have held : m.Holds a.id a := .of_load loaded
  have own : b.id = a.id := Attempt.id_of_asBegun begun
  refine ⟨holds_put_of sound.keyed rfl, holds_put_of sound.begun ?_, holds_put_of sound.current ?_⟩
  · rw [own]
    exact sound.begun a.id a held
  · rw [Attempt.epoch_of_asBegun begun]
    exact sound.current a.id a held

theorem Sound.load_of_authorized {a : Attempt} (sound : m.Sound now)
    (found : m.Authorized now a) : m.load now a.id = some a := by
  obtain ⟨-, -, stored, -⟩ := sound.authorized_state found
  exact Option.or_eq_some_iff.mpr (.inl stored)

/-- No record of an earlier epoch is authorized after a bump. -/
theorem quiet_of_bumped (epoch : UInt64) (bumped : checkedSucc epoch = some m.epoch)
    (records : ∀ id a, m.Holds id a → a.epoch ≤ epoch) : m.Quiet now := by
  rintro a ⟨id, -, stored, current, -⟩
  have old := records id a (.inl stored)
  have new := lt_checkedSucc bumped
  rw [← current] at new
  exact UInt64.lt_irrefl _ (UInt64.lt_of_lt_of_le new old)

theorem Sound.move {e : Env} {m' : Slice} (sound : m.Sound e.sequence) (moved : Move e m m') :
    m'.Sound e.sequence := by
  cases moved with
  | idle completing approval baseline =>
      exact
        { keyed := sound.keyed
          begun := sound.begun
          current := sound.current
          below := sound.below
          lasting := sound.lasting
          single := sound.single
          pointed := sound.pointed
          window := sound.window }
  | configured quiet bumped dropped =>
      have larger := lt_checkedSucc bumped
      exact
        { keyed := sound.keyed
          begun := sound.begun
          current := fun id a held => UInt64.le_of_lt
            (UInt64.lt_of_le_of_lt (sound.current id a held) larger)
          below := sound.below
          lasting := sound.lasting
          single := sound.single
          pointed := by
            intro id pointer
            rcases dropped with rfl | rfl
            · exact sound.pointed id pointer
            · cases pointer
          window := by
            intro a found
            exact absurd found (quiet_of_bumped m.epoch bumped (by exact sound.current) a) }
  | @opened a next quiet own current state counted =>
      have larger := lt_checkedSucc counted
      have free : ∀ id b, m.Holds id b → id ≠ a.id := by
        intro id b held same
        have used := sound.begun id b held
        rw [same, own] at used
        exact UInt64.lt_irrefl _ used
      have pointers : ∀ id, m.authorized = some id → id ≠ a.id := by
        intro id pointer
        obtain ⟨b, stored, -⟩ := sound.pointed id pointer
        exact free id b (.inl stored)
      exact
        { keyed := holds_put_of sound.keyed rfl
          begun := holds_put_of
            (fun id b held => UInt64.lt_trans (sound.begun id b held) larger) (own ▸ larger)
          current := holds_put_of sound.current (current ▸ UInt64.le_refl _)
          below := UInt64.le_of_lt (UInt64.lt_of_le_of_lt sound.below larger)
          lasting := lasting_put sound.lasting
          single := single_put sound.single
          pointed := by
            intro id pointer
            obtain ⟨b, stored, authorized⟩ := sound.pointed id pointer
            exact ⟨b, (put_attempt_of_ne (pointers id pointer)).trans stored, authorized⟩
          window := by
            rintro b ⟨id, pointer, stored, live⟩
            have stored' := (put_attempt_of_ne (pointers id pointer)).symm.trans stored
            exact absurd ⟨id, pointer, stored', live⟩ (quiet b) }
  | @recorded a b loaded live begun state =>
      obtain ⟨keyed, used, epochs⟩ := sound.put loaded begun
      have own : b.id = a.id := Attempt.id_of_asBegun begun
      exact
        { keyed := keyed
          begun := used
          current := epochs
          below := sound.below
          lasting := lasting_put sound.lasting
          single := single_put sound.single
          pointed := pointed_put sound loaded own (fun authorized => state.trans authorized)
          window := by
            rintro c ⟨id, pointer, stored, live'⟩
            by_cases same : id = b.id
            · have authorized : a.state = .authorized := by
                obtain ⟨d, stored', authorized⟩ := sound.pointed id pointer
                rw [same, own] at stored'
                exact sound.load_holds loaded (.inl stored') ▸ authorized
              exact sound.window a
                (sound.authorized_of_live (.of_load loaded) authorized live)
            · have stored' := (put_attempt_of_ne same).symm.trans stored
              exact sound.window c ⟨id, pointer, stored', live'⟩ }
  | @closed a b loaded live begun state ended =>
      obtain ⟨keyed, used, epochs⟩ := sound.put loaded begun
      have own : b.id = a.id := Attempt.id_of_asBegun begun
      have collecting : a.state ≠ .authorized := by
        rw [state]
        decide
      exact
        { keyed := keyed
          begun := used
          current := epochs
          below := sound.below
          lasting := lasting_put sound.lasting
          single := single_put sound.single
          pointed := pointed_put sound loaded own (fun authorized => absurd authorized collecting)
          window := by
            rintro c ⟨id, pointer, stored, live'⟩
            by_cases same : id = b.id
            · obtain ⟨d, stored', authorized⟩ := sound.pointed id pointer
              rw [same, own] at stored'
              exact absurd (sound.load_holds loaded (.inl stored') ▸ authorized) collecting
            · have stored' := (put_attempt_of_ne same).symm.trans stored
              exact sound.window c ⟨id, pointer, stored', live'⟩ }
  | @promoted a b loaded live begun state quiet authorized =>
      obtain ⟨keyed, used, epochs⟩ := sound.put loaded begun
      have own : b.id = a.id := Attempt.id_of_asBegun begun
      exact
        { keyed := keyed
          begun := used
          current := epochs
          below := UInt64.le_refl _
          lasting := lasting_put sound.lasting
          single := single_put sound.single
          pointed := by
            intro id pointer
            have same : id = b.id := (Option.some.inj pointer).symm.trans own.symm
            subst same
            exact ⟨b, put_attempt_of_state (.inl authorized), authorized⟩
          window := fun _ _ => rfl }
  | @cancelled a b cancels loaded live begun state ended =>
      obtain ⟨keyed, used, epochs⟩ := sound.put loaded begun
      exact
        { keyed := keyed
          begun := used
          current := epochs
          below := sound.below
          lasting := lasting_put sound.lasting
          single := single_put sound.single
          pointed := fun id pointer => by cases pointer
          window := by
            rintro c ⟨id, pointer, -⟩
            cases pointer }
  | @completed a b config epoch nullifier found begun ended bumped =>
      obtain ⟨keyed, used, epochs⟩ := sound.put (e := e) (sound.load_of_authorized found) begun
      have larger := lt_checkedSucc bumped
      exact
        { keyed := keyed
          begun := used
          current := fun id c held => UInt64.le_of_lt
            (UInt64.lt_of_le_of_lt (epochs id c held) larger)
          below := sound.below
          lasting := lasting_put sound.lasting
          single := single_put sound.single
          pointed := fun id pointer => by cases pointer
          window := by
            rintro c ⟨id, pointer, -⟩
            cases pointer }

end Slice

/-! ### Runs -/

theorem step_sound {d : Deployment} {s : Storage} (invocation : Invocation)
    (sound : ∀ account, (s.slice account).Sound invocation.env.sequence) (account : Address) :
    (((controller d).step s invocation).after.slice account).Sound invocation.env.sequence := by
  rcases step_passed_or_acted (d := d) invocation account (fun other => (sound other).keyed) with
    passed | ⟨reply, gate, acted⟩
  · rw [passed.kept]
    exact sound account
  · exact (sound account).move acted.transition.move

/-- Induction over executions, seen from one account: a step either passes it
by or makes one of the listed transitions on a sound slice. -/
theorem account_invariant {d : Deployment} (account : Address)
    (holds : History → UInt32 → Slice → Prop) {start : UInt32} {origin : Storage}
    (sound : ∀ other, (origin.slice other).Sound start)
    (initial : holds [] start (origin.slice account))
    (waiting : ∀ {history now later m}, holds history now m → now ≤ later →
      holds history later m)
    (passing : ∀ {history} {taken : ControllerStep},
      holds history taken.action.env.sequence (taken.before.slice account) →
      Passed account taken →
      holds (taken :: history) taken.action.env.sequence (taken.before.slice account))
    (acting : ∀ {history} {taken : ControllerStep} {reply gate},
      holds history taken.action.env.sequence (taken.before.slice account) →
      (taken.before.slice account).Sound taken.action.env.sequence →
      Acted d account taken reply gate →
      holds (taken :: history) taken.action.env.sequence (taken.after.slice account))
    {history : History} {now : UInt32} {s : Storage}
    (execution : Execution (controller d) start origin history now s) :
    (∀ other, (s.slice other).Sound now) ∧ holds history now (s.slice account) := by
  refine Execution.invariant
    (fun history now s =>
      (∀ other, (s.slice other).Sound now) ∧ holds history now (s.slice account))
    ?_ ?_ ?_ execution
  · exact ⟨sound, initial⟩
  · intro history now later s known forward
    exact ⟨fun other => (known.1 other).later forward, waiting known.2 forward⟩
  · intro history s invocation known
    refine ⟨step_sound invocation known.1, ?_⟩
    rcases step_passed_or_acted (d := d) invocation account
      (fun other => (known.1 other).keyed) with passed | ⟨reply, gate, acted⟩
    · rw [passed.kept]
      exact passing known.2 passed
    · exact acting known.2 (known.1 account) acted

/-- Every account's slice is sound in every reachable state. -/
theorem Run.sound {d : Deployment} {history : History} {now : UInt32} {s : Storage}
    (run : Run d history now s) (account : Address) : (s.slice account).Sound now :=
  (account_invariant account (fun _ _ _ => True) Slice.sound_empty trivial
    (fun _ _ => trivial) (fun _ _ => trivial) (fun _ _ _ => trivial) run).1 account

end Perch.Recovery
