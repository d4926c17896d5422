/-
The relay's requests, step by step, over a key-value store.

A `PUT` gives up control three times: to read what is stored, to have the
entry admitted, and to store it.  Requests may interleave at each.  The store
answers every read and write at one moment, and forgets an approval once its
time to live is over.
-/

import Mathlib.Order.Basic
import Mathlib.Order.Nat
import Perch.Machine.Run
import Perch.PerchRelay.Approval

namespace Perch.PerchRelay

open Machine Machine.Js

inductive AdmittedBy
  | signature
  | simulation
deriving DecidableEq

structure Approval extends ParsedApproval where
  args : List Text
  admittedBy : AdmittedBy
deriving DecidableEq

structure RelayOptions where
  controller : Text
  networkPassphrase : Text
  /-- Whether enforcing simulation is configured. -/
  simulate : Bool
  ttlSeconds : Option Nat
  maxBodyLength : Option Nat

inductive Response
  | error (status : Nat) (message : Text)
  | stored (guardian : Text) (admittedBy : AdmittedBy)
  /-- The handler itself threw. -/
  | thrown
deriving DecidableEq

/-! ### Admission -/

inductive Simulation
  | succeeds
  | refuses (refusal : Text)
  | fails (error : Text)

inductive Admission
  | refused (why : Text)
  | unavailable (why : Text)
  | admitted (admittedBy : AdmittedBy)

/-- Why an approval cannot be stored, or how it was authenticated. -/
def admitEntry (sdk : Sdk) (opts : RelayOptions) (approval : ParsedApproval) (fromStatement : Bool)
    (simulation : Simulation) : Admission :=
  if opts.simulate then
    match simulation with
    | .succeeds => .admitted .simulation
    | .refuses refusal => .refused (utf16 "refused in simulation: " ++ refusal)
    | .fails error => .unavailable (utf16 "simulation failed to run: " ++ error)
  else if signedByGuardianKey sdk approval opts.networkPassphrase = false then
    if approval.guardian.head? = some 71 ∧ approval.credentials ≠ .addressWithDelegates then
      .refused (utf16 ("the entry is not signed by the guardian's key, " ++
        "and this relay has no simulation to check other signers"))
    else
      .refused (utf16 ("only enforcing simulation can authenticate this entry, " ++
        "and this relay has none configured"))
  else if fromStatement = false then
    .refused (utf16 ("without simulation, the call's arguments are authenticated " ++
      "only through the statement: post it with the entry"))
  else .admitted .signature

/-! ### Reading a request -/

structure Posted where
  parsed : ParsedApproval
  args : List ScVal
  fromStatement : Bool

/-- An entry and its call, checked as far as the request goes. -/
def readPosted (sdk : Sdk) (opts : RelayOptions) (digest : Text) (posted : Value) :
    Except Failure Posted := do
  let entry ← match posted.get "entry" with
    | .string entry => .ok entry
    | _ => refuse "entry must be a base64 string"
  let parsed ← parseApproval sdk (trim entry) opts.controller digest
  let args ← parseCallArgs sdk parsed (posted.get "args")
  match posted.get "statement" with
  | .undefined => pure { parsed, args, fromStatement := false }
  | statement => do
      let call ← statementCall sdk statement parsed opts.controller opts.networkPassphrase
      require (args.map sdk.encodeScVal = call)
        (.approval "the arguments are not the call the statement commits to")
      pure { parsed, args, fromStatement := true }

def readBody (sdk : Sdk) (jsonParse : Text → Except Text Value) (opts : RelayOptions)
    (digest body : Text) : Except Response Posted :=
  if opts.maxBodyLength.getD (32 * 1024) < body.length then
    .error (.error 413 (utf16 "body too large"))
  else
    match jsonParse body with
    | .error _ =>
        .error (.error 400 (utf16 "the body must be JSON: \x7b entry, args, statement \x7d"))
    | .ok posted =>
        match readPosted sdk opts digest posted with
        | .ok posted => .ok posted
        | .error (.approval message) => .error (.error 400 (utf16 message))
        | .error (.library _) => .error .thrown

/-! ### Requests over the store -/

/-- A stored approval, the moment it lapses, and its place among all writes. -/
structure Held where
  approval : Approval
  expires : Nat
  order : Nat

/-- Where a request stands.  `seen` counts the writes the store had taken when
the request read it. -/
inductive Stage
  | received (digest body : Text)
  | admitting (name : Text) (posted : Posted) (seen : Nat)
  | writing (name : Text) (approval : Approval) (seen : Nat)
  | answered (response : Response)

structure State where
  kv : Text → Option Held
  writes : Nat
  requests : Nat → Option Stage

def State.get (state : State) (time : Nat) (name : Text) : Option Held :=
  (state.kv name).filter fun held => time < held.expires

def State.put (state : State) (name : Text) (held : Held) : State :=
  { state with
    kv := fun other => if other = name then some held else state.kv other
    writes := state.writes + 1 }

def State.setStage (state : State) (id : Nat) (stage : Stage) : State :=
  { state with requests := fun other => if other = id then some stage else state.requests other }

/-- The key a guardian's approval of a digest is stored under. -/
def keyName (digest guardian : Text) : Text :=
  utf16 "approvals/" ++ digest ++ utf16 "/" ++ guardian

inductive Move
  | arrive (digest body : Text)
  | read
  | admission (simulation : Simulation)
  | write

structure Action where
  time : Nat
  id : Nat
  move : Move

section Relay

variable (sdk : Sdk) (jsonParse : Text → Except Text Value) (opts : RelayOptions)

def afterRead (state : State) (time : Nat) (digest body : Text) : Stage :=
  match readBody sdk jsonParse opts digest body with
  | .error response => .answered response
  | .ok posted =>
      let name := keyName digest posted.parsed.guardian
      match state.get time name with
      | some held =>
          if posted.parsed.expiresAt < held.approval.expiresAt then
            .answered (.error 409 (utf16 "this guardian has a stored approval that expires later"))
          else .admitting name posted state.writes
      | none => .admitting name posted state.writes

def afterAdmission (name : Text) (posted : Posted) (seen : Nat) (simulation : Simulation) : Stage :=
  match admitEntry sdk opts posted.parsed posted.fromStatement simulation with
  | .refused why => .answered (.error 403 why)
  | .unavailable why => .answered (.error 503 why)
  | .admitted admittedBy =>
      .writing name { posted.parsed with args := posted.args.map sdk.encodeScVal, admittedBy } seen

/-- One move.  A move its request is not at does nothing. -/
def respond (state : State) (action : Action) : Option Response × State :=
  match action.move, state.requests action.id with
  | .arrive digest body, none => (none, state.setStage action.id (.received digest body))
  | .read, some (.received digest body) =>
      (none, state.setStage action.id (afterRead sdk jsonParse opts state action.time digest body))
  | .admission simulation, some (.admitting name posted seen) =>
      (none, state.setStage action.id (afterAdmission sdk opts name posted seen simulation))
  | .write, some (.writing name approval _) =>
      let response := Response.stored approval.guardian approval.admittedBy
      let lifetime := opts.ttlSeconds.getD (24 * 60 * 60) * 1000
      (some response,
        (state.put name
          { approval, expires := action.time + lifetime, order := state.writes }).setStage
            action.id (.answered response))
  | _, _ => (none, state)

def relay : System Nat State Action (Option Response) where
  clock := Action.time
  respond := respond sdk jsonParse opts

end Relay

def State.initial (stored : Text → Option (Approval × Nat)) : State where
  kv name := (stored name).map fun (approval, expires) => { approval, expires, order := 0 }
  writes := 1
  requests _ := none

abbrev Taken := Step State Action (Option Response)

/-- No approval held when the move is made gives way to one that expires earlier. -/
def NeverBackwards (taken : Taken) : Prop :=
  ∀ name held held', taken.before.get taken.action.time name = some held →
    taken.after.kv name = some held' → held.approval.expiresAt ≤ held'.approval.expiresAt

/-- A request writes over a held approval that was stored after the request
read the store, and that expires later than its own. -/
def Overtaken (taken : Taken) : Prop :=
  taken.action.move = .write ∧
    ∃ name approval seen held,
      taken.before.requests taken.action.id = some (.writing name approval seen) ∧
        taken.before.get taken.action.time name = some held ∧ seen ≤ held.order ∧
        approval.expiresAt < held.approval.expiresAt

/-! ### What a request knows of the store -/

/-- The name, the expiry, and the reading a request will write by. -/
def Stage.pending : Stage → Option (Text × UInt32 × Nat)
  | .admitting name posted seen => some (name, posted.parsed.expiresAt, seen)
  | .writing name approval seen => some (name, approval.expiresAt, seen)
  | .received _ _ | .answered _ => none

/-- A request past its check expires no earlier than what it saw stored, for
as long as that is held. -/
structure Sound (now : Nat) (state : State) : Prop where
  ordered : ∀ name held, state.kv name = some held → held.order < state.writes
  checked : ∀ id stage name expiresAt seen, state.requests id = some stage →
    stage.pending = some (name, expiresAt, seen) →
    seen ≤ state.writes ∧ ∀ held, state.get now name = some held → held.order < seen →
      held.approval.expiresAt ≤ expiresAt

theorem get_eq_some {state : State} {now : Nat} {name : Text} {held : Held} :
    state.get now name = some held ↔ state.kv name = some held ∧ now < held.expires := by
  simp [State.get, Option.filter_eq_some_iff]

theorem sound_initial (stored : Text → Option (Approval × Nat)) (now : Nat) :
    Sound now (State.initial stored) where
  ordered := by
    intro name held found
    simp only [State.initial, Option.map_eq_some_iff] at found
    obtain ⟨_, _, rfl⟩ := found
    exact Nat.zero_lt_one
  checked := by
    intro id stage name expiresAt seen at_
    cases at_

theorem Sound.wait {now later : Nat} {state : State} (sound : Sound now state)
    (forward : now ≤ later) : Sound later state where
  ordered := sound.ordered
  checked := by
    intro id stage name expiresAt seen at_ waiting
    obtain ⟨bounded, known⟩ := sound.checked id stage name expiresAt seen at_ waiting
    refine ⟨bounded, ?_⟩
    intro held found earlier
    obtain ⟨stored, fresh⟩ := get_eq_some.mp found
    exact known held (get_eq_some.mpr ⟨stored, Nat.lt_of_le_of_lt forward fresh⟩) earlier

theorem Sound.setStage {now : Nat} {state : State} (sound : Sound now state) (id : Nat)
    {stage : Stage}
    (knows : ∀ name expiresAt seen, stage.pending = some (name, expiresAt, seen) →
      seen ≤ state.writes ∧ ∀ held, state.get now name = some held → held.order < seen →
        held.approval.expiresAt ≤ expiresAt) : Sound now (state.setStage id stage) where
  ordered := sound.ordered
  checked := by
    intro other found name expiresAt seen at_ waiting
    simp only [State.setStage] at at_
    split at at_
    · cases at_
      exact knows name expiresAt seen waiting
    · exact sound.checked other found name expiresAt seen at_ waiting

/-- What is written is newer than anything a request has seen. -/
theorem Sound.put {now : Nat} {state : State} (sound : Sound now state) (name : Text)
    {held : Held} (newest : held.order = state.writes) : Sound now (state.put name held) where
  ordered := by
    intro other found stored
    simp only [State.put] at stored
    split at stored
    · cases stored
      rw [newest]
      exact Nat.lt_succ_self _
    · exact Nat.lt_succ_of_lt (sound.ordered other found stored)
  checked := by
    intro id stage other expiresAt seen at_ waiting
    obtain ⟨bounded, known⟩ := sound.checked id stage other expiresAt seen at_ waiting
    refine ⟨Nat.le_succ_of_le bounded, ?_⟩
    intro found stored earlier
    obtain ⟨stored, fresh⟩ := get_eq_some.mp stored
    simp only [State.put] at stored
    split at stored
    · cases stored
      rw [newest] at earlier
      exact absurd bounded (Nat.not_le_of_lt earlier)
    · exact known found (get_eq_some.mpr ⟨stored, fresh⟩) earlier

section Runs

variable {sdk : Sdk} {jsonParse : Text → Except Text Value} {opts : RelayOptions}

inductive Moved (sdk : Sdk) (jsonParse : Text → Except Text Value) (opts : RelayOptions)
    (state : State) (action : Action) : State → Prop
  | arrive {digest body : Text} (is : action.move = .arrive digest body) :
      Moved sdk jsonParse opts state action (state.setStage action.id (.received digest body))
  | read {digest body : Text} (is : action.move = .read)
      (at_ : state.requests action.id = some (.received digest body)) :
      Moved sdk jsonParse opts state action
        (state.setStage action.id (afterRead sdk jsonParse opts state action.time digest body))
  | admission {simulation : Simulation} {name : Text} {posted : Posted} {seen : Nat}
      (is : action.move = .admission simulation)
      (at_ : state.requests action.id = some (.admitting name posted seen)) :
      Moved sdk jsonParse opts state action
        (state.setStage action.id (afterAdmission sdk opts name posted seen simulation))
  | write {name : Text} {approval : Approval} {seen : Nat} {held : Held} (response : Response)
      (is : action.move = .write)
      (at_ : state.requests action.id = some (.writing name approval seen))
      (written : held.approval = approval) (newest : held.order = state.writes)
      (lifetime : held.expires = action.time + opts.ttlSeconds.getD (24 * 60 * 60) * 1000) :
      Moved sdk jsonParse opts state action
        ((state.put name held).setStage action.id (.answered response))
  | idle (nothing : ∀ name approval seen, action.move = .write →
        state.requests action.id ≠ some (.writing name approval seen)) :
      Moved sdk jsonParse opts state action state

theorem respond_moved (state : State) (action : Action) :
    Moved sdk jsonParse opts state action (respond sdk jsonParse opts state action).2 := by
  obtain ⟨time, id, move⟩ := action
  unfold respond
  split
  next is at_ => exact .arrive is
  next is at_ => exact .read is at_
  next is at_ => exact .admission is at_
  next is at_ => exact .write _ is at_ rfl rfl rfl
  next _ _ _ other =>
    apply Moved.idle
    intro name approval seen is at_
    exact other name approval seen is at_

/-- A request that goes on after reading the store was not expiring earlier. -/
theorem afterRead_pending {state : State} {time : Nat} {digest body name : Text}
    {expiresAt : UInt32} {seen : Nat}
    (waiting : (afterRead sdk jsonParse opts state time digest body).pending =
      some (name, expiresAt, seen)) :
    seen = state.writes ∧ ∀ held, state.get time name = some held →
      held.approval.expiresAt ≤ expiresAt := by
  unfold afterRead at waiting
  split at waiting
  next => cases waiting
  next posted _ =>
    dsimp only at waiting
    split at waiting
    next held found =>
      split at waiting
      next => cases waiting
      next notLater =>
        cases waiting
        refine ⟨rfl, ?_⟩
        intro other found'
        obtain rfl : held = other := Option.some.inj (found.symm.trans found')
        exact UInt32.not_lt.mp notLater
    next found =>
      cases waiting
      refine ⟨rfl, ?_⟩
      intro held found'
      rw [found] at found'
      cases found'

theorem afterAdmission_pending {name : Text} {posted : Posted} {seen : Nat}
    {simulation : Simulation} {known : Text × UInt32 × Nat}
    (waiting : (afterAdmission sdk opts name posted seen simulation).pending = some known) :
    known = (name, posted.parsed.expiresAt, seen) := by
  unfold afterAdmission at waiting
  split at waiting
  · cases waiting
  · cases waiting
  · cases waiting
    rfl

theorem Sound.moved {state after : State} {action : Action} (sound : Sound action.time state)
    (moved : Moved sdk jsonParse opts state action after) : Sound action.time after := by
  cases moved with
  | arrive is =>
      apply sound.setStage
      intro name expiresAt seen waiting
      cases waiting
  | read is at_ =>
      apply sound.setStage
      intro name expiresAt seen waiting
      obtain ⟨rfl, checked⟩ := afterRead_pending waiting
      exact ⟨Nat.le_refl _, fun held found _ => checked held found⟩
  | admission is at_ =>
      apply sound.setStage
      intro name expiresAt seen waiting
      have same := afterAdmission_pending waiting
      simp only [Prod.mk.injEq] at same
      obtain ⟨rfl, rfl, rfl⟩ := same
      exact sound.checked _ _ _ _ _ at_ rfl
  | write response is at_ written newest lifetime =>
      apply (sound.put _ newest).setStage
      intro name expiresAt seen waiting
      cases waiting
  | idle => exact sound

theorem run_sound {stored : Text → Option (Approval × Nat)} {history : List Taken} {now : Nat}
    {state : State}
    (run : Execution (relay sdk jsonParse opts) 0 (State.initial stored) history now state) :
    Sound now state := by
  refine Execution.invariant (fun _ now state => Sound now state) (sound_initial stored 0) ?_ ?_ run
  · intro history now later state sound forward
    exact sound.wait forward
  · intro history state action sound
    exact sound.moved (respond_moved state action)

/-! ### Which moves go backwards -/

theorem neverBackwards_of_kv {taken : Taken}
    (same : ∀ name, taken.after.kv name = taken.before.kv name) : NeverBackwards taken := by
  intro name held held' before after
  rw [same name, (get_eq_some.mp before).1] at after
  cases after
  exact UInt32.le_refl _

theorem not_overtaken {taken : Taken}
    (nothing : ∀ name approval seen, taken.action.move = .write →
      taken.before.requests taken.action.id ≠ some (.writing name approval seen)) :
    ¬Overtaken taken := by
  rintro ⟨is, name, approval, seen, held, at_, _⟩
  exact nothing name approval seen is at_

/-- A move goes backwards exactly when its request was overtaken. -/
theorem neverBackwards_iff {state after : State} {action : Action} {reply : Option Response}
    (sound : Sound action.time state) (moved : Moved sdk jsonParse opts state action after) :
    NeverBackwards ⟨state, action, reply, after⟩ ↔ ¬Overtaken ⟨state, action, reply, after⟩ := by
  cases moved with
  | arrive is =>
      apply iff_of_true (neverBackwards_of_kv fun _ => rfl)
      apply not_overtaken
      intro name approval seen write
      rw [is] at write
      cases write
  | read is at_ =>
      apply iff_of_true (neverBackwards_of_kv fun _ => rfl)
      apply not_overtaken
      intro name approval seen write
      rw [is] at write
      cases write
  | admission is at_ =>
      apply iff_of_true (neverBackwards_of_kv fun _ => rfl)
      apply not_overtaken
      intro name approval seen write
      rw [is] at write
      cases write
  | idle nothing =>
      exact iff_of_true (neverBackwards_of_kv fun _ => rfl) (not_overtaken nothing)
  | @write name approval seen written response is at_ same newest lifetime =>
      constructor
      · rintro forward ⟨_, name', approval', seen', held, at', found, newer, later⟩
        cases at_.symm.trans at'
        have stored : ((state.put name written).setStage action.id (.answered response)).kv name =
            some written := if_pos rfl
        have order := forward name held written found stored
        rw [same] at order
        exact absurd later (UInt32.not_lt.mpr order)
      · intro settled other held held' before after
        by_cases named : other = name
        · subst named
          have stored : ((state.put other written).setStage action.id (.answered response)).kv
              other = some written := if_pos rfl
          obtain rfl : written = held' := Option.some.inj (stored.symm.trans after)
          rw [same]
          -- What the request saw it has checked; what came since has not overtaken it.
          by_cases earlier : held.order < seen
          · exact (sound.checked _ _ _ _ _ at_ rfl).2 held before earlier
          · apply UInt32.not_lt.mp
            intro later
            exact settled ⟨is, other, approval, seen, held, at_, before, Nat.not_lt.mp earlier,
                later⟩
        · have kept : ((state.put name written).setStage action.id (.answered response)).kv other =
              state.kv other := if_neg named
          have found := after
          change ((state.put name written).setStage action.id (.answered response)).kv other =
            some held' at found
          rw [kept, (get_eq_some.mp before).1] at found
          cases found
          exact UInt32.le_refl _

/-- In every run, from any stored approvals: no approval gives way to one that
expires earlier, if and only if no request writes over an approval that was
stored since the request read the store and expires later. -/
theorem relay_never_backwards_iff {stored : Text → Option (Approval × Nat)} {history : List Taken}
    {now : Nat} {state : State}
    (run : Execution (relay sdk jsonParse opts) 0 (State.initial stored) history now state) :
    (∀ taken ∈ history, NeverBackwards taken) ↔ ∀ taken ∈ history, ¬Overtaken taken := by
  apply forall₂_congr
  intro taken member
  obtain ⟨later, earlier, rfl⟩ := List.append_of_mem member
  obtain ⟨made, reached, _⟩ := Execution.split later run
  rw [made]
  exact neverBackwards_iff (run_sound reached) (respond_moved taken.before taken.action)

end Runs

/-! ### Two overlapping requests -/

def sampleController : Text := utf16 "CASILLRFPUXM2TWCIAPMHLCQD7MCQV3Q52GXKSAXDPS2XRPDCQF4I7YE"

def sampleDigest : Text :=
  utf16 "17c58dcd1ea7a0c5534705221b4c3e60e68ab8274fcc708961e2853e603c78d2"

def sampleGuardian : Text := utf16 "GD6ROJBYLKQMOW3E7N4M2YBPUHMZD7PL65VRHRMO24BOVSBV5H3BQRSL"

def sampleAccount : Text := utf16 "CDLZFC3SYJYDZT7K67VZ75HPJVIEUVNIXF47ZG2FB2RMQQVU2HHGCYSC"

/-- The guardian's approval of the digest, expiring at ledger 5000000. -/
def earlierEntry : Text :=
  List.flatMap utf16
    ["AAAAAQAAAAAAAAAA/RckOFqgx1tk+3jNYC+h2Z", "H96/drE8WO1wLqyDXp9hgAAAAAAAAAAQBMS0AA",
      "AAAQAAAAAQAAAAEAAAARAAAAAQAAAAIAAAAPAA", "AACnB1YmxpY19rZXkAAAAAAA0AAAAg/RckOFqg",
      "x1tk+3jNYC+h2ZH96/drE8WO1wLqyDXp9hgAAA", "APAAAACXNpZ25hdHVyZQAAAAAAAA0AAABADU0l",
      "uSJyvdjcwavsrpZ+I/5B7Dtj9sN+C07q5EK0aa", "DnaUvmwDzO6U6SHmr+aqzH9YFMFXfDFukreW1I",
      "qBkIDQAAAAAAAAABJIWuJX0uzU7CQB7DrFAf2C", "hXcO6NdUgXG+WrxeMUC8QAAAAPc3VibWl0X2d1",
      "YXJkaWFuAAAAAAEAAAANAAAAIBfFjc0ep6DFU0", "cFIhtMPmDmirgnT8xwiWHihT5gPHjSAAAAAA=="]

/-- The same guardian's approval of the same digest, expiring at ledger 6000000. -/
def laterEntry : Text :=
  List.flatMap utf16
    ["AAAAAQAAAAAAAAAA/RckOFqgx1tk+3jNYC+h2Z", "H96/drE8WO1wLqyDXp9hgAAAAAAAAAAgBbjYAA",
      "AAAQAAAAAQAAAAEAAAARAAAAAQAAAAIAAAAPAA", "AACnB1YmxpY19rZXkAAAAAAA0AAAAg/RckOFqg",
      "x1tk+3jNYC+h2ZH96/drE8WO1wLqyDXp9hgAAA", "APAAAACXNpZ25hdHVyZQAAAAAAAA0AAABAe7km",
      "8PVVD/yHuNB1Wu45m7/T9N2SDZITEhJMQ2LGoz", "bMUkmRXL0AvN6zB6Rh4ugyhpIG+YlIzrK7Ja8P",
      "Iax7DAAAAAAAAAABJIWuJX0uzU7CQB7DrFAf2C", "hXcO6NdUgXG+WrxeMUC8QAAAAPc3VibWl0X2d1",
      "YXJkaWFuAAAAAAEAAAANAAAAIBfFjc0ep6DFU0", "cFIhtMPmDmirgnT8xwiWHihT5gPHjSAAAAAA=="]

def sampleEntry (expiresAt : UInt32) (signature : String) : AuthorizationEntry where
  credentials := .address
    { address := sampleGuardian
      signatureExpirationLedger := expiresAt
      signature := .vec (some [.map
        [(.symbol "public_key", .bytes (hexBytes (utf16
            "fd1724385aa0c75b64fb78cd602fa1d991fdebf76b13c58ed702eac835e9f618"))),
          (.symbol "signature", .bytes (hexBytes (utf16 signature)))]]) }
  function := .contractFn
    { contractAddress := sampleController
      functionName := "submit_guardian"
      args := [.bytes (hexBytes sampleDigest)] }
  subInvocations := 0

def sampleArgs : List (String × ScVal) :=
  [("AAAAEgAAAAHXkotywnA8z+r365/0701QSlWouXn8m0UOoshCtNHOYQ==", .address sampleAccount),
    ("AAAABQAAAAAAAAAH", .u64 7),
    ("AAAAAwAAAAA=", .u32 0),
    ("AAAAEgAAAAAAAAAA/RckOFqgx1tk+3jNYC+h2ZH96/drE8WO1wLqyDXp9hg=", .address sampleGuardian)]

/-- The library, as it answers for these two entries and their arguments. -/
def sampleSdk : Sdk where
  strKey := walletStrKey
  isValidEd25519PublicKey text := text = sampleGuardian
  decodeEntry text :=
    if text = earlierEntry then
      some (sampleEntry 5000000
        ("0d4d25b92272bdd8dcc1abecae967e23fe41ec3b63f6c37e0b4eeae442b469a0" ++
          "e7694be6c03ccee94e921e6afe6aacc7f5814c1577c316e92b796d48a819080d"))
    else if text = laterEntry then
      some (sampleEntry 6000000
        ("7bb926f0f5550ffc87b8d0755aee399bbfd3f4dd920d921312124c4362c6a336" ++
          "cc5249915cbd00bcdeb307a461e2e832869206f98948ceb2bb25af0f21ac7b0c"))
    else none
  decodeScVal text := (sampleArgs.find? fun arg => utf16 arg.1 = text).map Prod.snd
  encodeScVal value :=
    match value with
    | .address strkey =>
        utf16 (if strkey = sampleAccount then
          "AAAAEgAAAAHXkotywnA8z+r365/0701QSlWouXn8m0UOoshCtNHOYQ=="
        else "AAAAEgAAAAAAAAAA/RckOFqgx1tk+3jNYC+h2ZH96/drE8WO1wLqyDXp9hg=")
    | .u64 _ => utf16 "AAAABQAAAAAAAAAH"
    | _ => utf16 "AAAAAwAAAAA="
  addressValue text := .ok (.address text)
  hash bytes := bytes
  authorizationPreimage _ _ _ := []
  signatures _ := none
  rawPublicKey _ := []
  verify _ _ _ := false

def sampleOptions : RelayOptions where
  controller := sampleController
  networkPassphrase := utf16 "Test SDF Network ; September 2015"
  simulate := true
  ttlSeconds := none
  maxBodyLength := none

def sampleBody (entry : Text) : Text :=
  utf16 "\x7b\"entry\":\"" ++ entry ++ utf16 "\",\"args\":[\"" ++
    List.intercalate (utf16 "\",\"") (sampleArgs.map fun arg => utf16 arg.1) ++ utf16 "\"]\x7d"

def sampleJsonParse (body : Text) : Except Text Value :=
  match [earlierEntry, laterEntry].find? fun entry => sampleBody entry = body with
  | some entry =>
      .ok (record
        [("entry", .string entry),
          ("args", .array (sampleArgs.map fun arg => .string (utf16 arg.1)))])
  | none => .error (utf16 "Unexpected token")

/-- The first request is still being admitted while the second, which expires
later, is read, admitted and stored. -/
def overlapping : List Action :=
  [⟨0, 0, .arrive sampleDigest (sampleBody earlierEntry)⟩, ⟨1, 0, .read⟩,
    ⟨2, 1, .arrive sampleDigest (sampleBody laterEntry)⟩, ⟨3, 1, .read⟩,
    ⟨4, 1, .admission .succeeds⟩, ⟨5, 1, .write⟩,
    ⟨6, 0, .admission .succeeds⟩, ⟨7, 0, .write⟩]

def sampleRun : List Taken × State :=
  (relay sampleSdk sampleJsonParse sampleOptions).play [] (State.initial fun _ => none)
    overlapping

/-- The last write finds one expiry, and leaves another. -/
theorem sampleRun_last :
    (sampleRun.1.head?.map fun taken =>
      ((taken.before.get taken.action.time (keyName sampleDigest sampleGuardian)).map
          fun held => held.approval.expiresAt,
        (taken.after.kv (keyName sampleDigest sampleGuardian)).map
          fun held => held.approval.expiresAt)) = some (some 6000000, some 5000000) := by
  decide +kernel

theorem sampleRun_executes :
    Execution (relay sampleSdk sampleJsonParse sampleOptions) 0 (State.initial fun _ => none)
      sampleRun.1 7 sampleRun.2 := by
  apply Execution.play Execution.refl
  decide

theorem overlapping_requests_go_backwards :
    Execution (relay sampleSdk sampleJsonParse sampleOptions) 0 (State.initial fun _ => none)
        sampleRun.1 7 sampleRun.2 ∧
      ¬∀ taken ∈ sampleRun.1, NeverBackwards taken := by
  refine ⟨sampleRun_executes, ?_⟩
  intro forward
  have last := sampleRun_last
  rw [Option.map_eq_some_iff] at last
  obtain ⟨taken, newest, expiries⟩ := last
  simp only [Prod.mk.injEq, Option.map_eq_some_iff] at expiries
  obtain ⟨⟨held, found, later⟩, held', stored, earlier⟩ := expiries
  have order := forward taken (List.mem_of_mem_head? newest) _ held held' found stored
  rw [later, earlier] at order
  exact absurd order (by decide)

theorem relay_never_backwards_iff_overlapping :
    (∀ taken ∈ sampleRun.1, NeverBackwards taken) ↔ ∀ taken ∈ sampleRun.1, ¬Overtaken taken :=
  relay_never_backwards_iff sampleRun_executes

end Perch.PerchRelay
