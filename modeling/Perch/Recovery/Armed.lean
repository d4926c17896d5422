/-
The attempt an authorization stands for.

An authorization outlives the ledgers in which it can be used: nothing clears
it when its window closes.  Read without its window, it changes only when an
attempt is authorized, is cancelled or completes, or the configuration moves
on; what depends on the window is then a comparison with the ledger.
-/

import Perch.Recovery.Authorization

namespace Perch.Recovery

open Machine Document

namespace Slice

/-- The attempt authorized in the present epoch, whether or not its window is
open. -/
def armed (m : Slice) : Option Attempt :=
  (m.authorized.bind m.attempt).filter fun a => a.epoch = m.epoch

variable {now : UInt32} {m : Slice} {a b : Attempt}

theorem armed_eq_some :
    m.armed = some a ↔
      ∃ id, m.authorized = some id ∧ m.attempt id = some a ∧ a.epoch = m.epoch := by
  simp only [armed, Option.filter_eq_some_iff, Option.bind_eq_some_iff, decide_eq_true_eq]
  constructor
  · rintro ⟨⟨id, pointer, stored⟩, current⟩
    exact ⟨id, pointer, stored, current⟩
  · rintro ⟨id, pointer, stored, current⟩
    exact ⟨⟨id, pointer, stored⟩, current⟩

/-- An authorization can be used until its window closes. -/
theorem Sound.authorized_iff (sound : m.Sound now) {later : UInt32} :
    m.Authorized later a ↔ m.armed = some a ∧ later < a.expiresAt := by
  rw [armed_eq_some]
  constructor
  · rintro ⟨id, pointer, stored, current, window⟩
    refine ⟨⟨id, pointer, stored, current⟩, ?_⟩
    obtain ⟨b, stored', authorized⟩ := sound.pointed id pointer
    obtain rfl : b = a := Option.some.inj (stored'.symm.trans stored)
    rcases window with ⟨collecting, _⟩ | ⟨_, _, within⟩
    · rw [authorized] at collecting
      cases collecting
    · exact within
  · rintro ⟨⟨id, pointer, stored, current⟩, within⟩
    obtain ⟨b, stored', authorized⟩ := sound.pointed id pointer
    obtain rfl : b = a := Option.some.inj (stored'.symm.trans stored)
    have own : b.id = id := sound.keyed id b (.inl stored)
    exact ⟨id, pointer, stored, current, .inr ⟨authorized, own ▸ pointer, within⟩⟩

theorem armed_of_pointer (pointer : m.authorized = none) : m.armed = none := by
  simp [armed, pointer]

theorem armed_of_bumped {epoch : UInt64} (bumped : checkedSucc epoch = some m.epoch)
    (records : ∀ id a, m.Holds id a → a.epoch ≤ epoch) : m.armed = none := by
  cases found : m.armed with
  | none => rfl
  | some a =>
      obtain ⟨id, _, stored, current⟩ := armed_eq_some.mp found
      have old := records id a (.inl stored)
      have new := lt_checkedSucc bumped
      rw [← current] at new
      exact absurd (UInt64.lt_of_lt_of_le new old) (UInt64.lt_irrefl _)

theorem armed_congr {m' : Slice} (pointers : m'.authorized = m.authorized)
    (epochs : m'.epoch = m.epoch)
    (records : ∀ id, m.authorized = some id → m'.attempt id = m.attempt id) :
    m'.armed = m.armed := by
  unfold armed
  rw [pointers, epochs]
  cases pointer : m.authorized with
  | none => rfl
  | some id => rw [Option.bind_some, Option.bind_some, records id pointer]

/-- Writing a record that is not authorized leaves the authorized one. -/
theorem Sound.armed_put {e : Env} (sound : m.Sound e.sequence)
    (loaded : m.load e.sequence a.id = some a) (state : a.state ≠ .authorized)
    (own : b.id = a.id) : (m.put e b).armed = m.armed := by
  refine armed_congr rfl rfl ?_
  intro id pointer
  apply put_attempt_of_ne
  rintro rfl
  obtain ⟨c, stored, authorized⟩ := sound.pointed _ pointer
  rw [own] at stored
  exact state (sound.load_holds loaded (.inl stored) ▸ authorized)

theorem armed_put_self {e : Env} (pointer : m.authorized = some b.id)
    (state : b.state = .authorized) (current : b.epoch = m.epoch) :
    (m.put e b).armed = some b :=
  armed_eq_some.mpr ⟨b.id, pointer, put_attempt_of_state (.inl state), current⟩

theorem Sound.armed_of_live (sound : m.Sound now) (loaded : m.load now a.id = some a)
    (live : m.Live now a) (state : a.state = .authorized) : m.armed = some a :=
  (sound.authorized_iff.mp (sound.authorized_of_live (.of_load loaded) state live)).1

end Slice

/-- What a transition does to the authorization, and the gate call it makes. -/
inductive ArmedEffect (d : Deployment) (e : Env) (account : Address) (m m' : Slice) :
    Option GateCall → Prop where
  | kept (same : m'.armed = m.armed) : ArmedEffect d e account m m' none
  | touched {a b : Attempt} (before : m.armed = some a) (after : m'.armed = some b)
      (begun : b.asBegun = a.asBegun) (window : SameAuthorization a b) :
      ArmedEffect d e account m m' none
  | opened {config : CompiledRecoveryConfig} {a : Attempt} (quiet : m.Quiet e.sequence)
      (enrolled : m.config = some config) (kept : m'.config = m.config)
      (after : m'.armed = some a)
      (expiry : a.expiresAt.toNat =
        e.sequence.toNat + config.delayLedgers.toNat + config.expiryLedgers.toNat)
      (applied : SourceApplied e account a)
      (frozen : config.profile = .protectedProfile →
        (e.account account).rcvGate a.id a.expiresAt = some ()) :
      ArmedEffect d e account m m' (gateCall config a.id a.expiresAt)
  | closed {config : CompiledRecoveryConfig} {a : Attempt} (found : m.Authorized e.sequence a)
      (enrolled : m.config = some config) (kept : m'.config = m.config) (after : m'.armed = none) :
      ArmedEffect d e account m m' (gateCall config a.id 0)
  | moved (quiet : m.Quiet e.sequence) (after : m'.armed = none) :
      ArmedEffect d e account m m' none
  | completed {a : Attempt} (found : m.Authorized e.sequence a) (after : m'.armed = none) :
      ArmedEffect d e account m m' none

section Effect

variable {d : Deployment} {e : Env} {account : Address} {m m' : Slice} {call : Call}
  {reply : Reply} {gate : Option GateCall}

theorem Transition.armedEffect (transition : Transition d e account m call reply gate m')
    (sound : m.Sound e.sequence) : ArmedEffect d e account m m' gate := by
  cases transition with
  | completed _ _ _ _ found => exact .completed found (Slice.armed_of_pointer rfl)
  | classified _ quiet settled =>
      have dropped := Slice.takeMarker_eq e.sequence m
      generalize (m.takeMarker e.sequence).completing = completing at dropped
      rw [dropped] at settled
      cases settled with
      | nothing => exact .kept (Slice.armed_congr rfl rfl fun _ _ => rfl)
      | same => exact .kept (Slice.armed_congr rfl rfl fun _ _ => rfl)
      | enrolled _ _ _ _ _ bumped =>
          exact .moved quiet (Slice.armed_of_bumped bumped sound.current)
      | reconfigured _ _ _ _ _ _ _ bumped =>
          exact .moved quiet (Slice.armed_of_bumped bumped sound.current)
      | removed => exact .moved quiet (Slice.armed_of_pointer rfl)
  | cancelledCollecting _ loaded _ state cause =>
      refine .kept (sound.armed_put loaded ?_ (Attempt.id_of_asBegun cause.asBegun))
      rw [state]
      decide
  | cancelledAuthorized enrolled loaded live state =>
      have found := sound.authorized_of_live (.of_load loaded) state live
      exact .closed found enrolled rfl (Slice.armed_of_pointer rfl)
  | upgraded _ _ quiet bumped =>
      exact .moved quiet (Slice.armed_of_bumped bumped sound.current)
  | begun started =>
      refine .kept (Slice.armed_congr rfl rfl fun id pointer => Slice.put_attempt_of_ne ?_)
      rintro rfl
      obtain ⟨b, stored, _⟩ := sound.pointed _ pointer
      have used := sound.begun _ b (.inl stored)
      rw [started.record] at used
      exact UInt64.lt_irrefl _ used
  | @recorded _ a b _ _ _ loaded live _ submitted =>
      have own := Attempt.id_of_asBegun submitted.asBegun
      by_cases authorized : a.state = .authorized
      · have before := sound.armed_of_live loaded live authorized
        obtain ⟨id, pointer, stored, current⟩ := Slice.armed_eq_some.mp before
        have held : a.id = id := sound.keyed id a (.inl stored)
        refine .touched before ?_ submitted.asBegun submitted.sameAuthorization
        refine Slice.armed_put_self ?_ (submitted.state_eq.trans authorized) ?_
        · rw [own, held]
          exact pointer
        · rw [Attempt.epoch_of_asBegun submitted.asBegun]
          exact current
      · exact .kept (sound.armed_put loaded authorized own)
  | invalidated _ loaded _ state submitted =>
      refine .kept (sound.armed_put loaded ?_ (Attempt.id_of_asBegun submitted.asBegun))
      rw [state]
      decide
  | @authorized config a b _ executableAfter expiresAt enrolled loaded live _ submitted _ quiet
      applied delay expiry frozen =>
      have own : b.id = a.id := Attempt.id_of_asBegun submitted.asBegun
      have action : b.action = a.action :=
        Attempt.term_eq Attempt.action (fun _ => rfl) submitted.asBegun
      have source : b.sourceDocHash = a.sourceDocHash :=
        Attempt.term_eq Attempt.sourceDocHash (fun _ => rfl) submitted.asBegun
      rw [← own] at frozen ⊢
      refine .opened (a := b.authorize e.sequence executableAfter expiresAt) quiet enrolled rfl
        ?_ ?_ ?_ frozen
      · refine Slice.armed_eq_some.mpr ⟨b.id, rfl, ?_, ?_⟩
        · have written : (m.put e (b.authorize e.sequence executableAfter expiresAt)).attempt b.id =
              some (b.authorize e.sequence executableAfter expiresAt) :=
            Slice.put_attempt_of_state (.inl rfl)
          exact written
        · exact (Attempt.epoch_of_asBegun submitted.asBegun).trans live.1
      · change expiresAt.toNat = _
        omega
      · intro lost
        change _ = some (some b.sourceDocHash)
        rw [source]
        exact applied (action.symm.trans lost)
  | scheduled | installed | uninstalled | renewed | enforced | approved | proved | published =>
      exact .kept (Slice.armed_congr rfl rfl fun _ _ => rfl)

end Effect

end Perch.Recovery
