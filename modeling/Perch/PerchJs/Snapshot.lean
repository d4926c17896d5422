/-
Reading an account at one revision.

Answers come one at a time, from replicas that may lag, and calls that share a
ledger clock may interleave at every answer.  The clock remembers the newest
ledger any of them was answered at.  An attempt whose answers disagree, or of
which one is older than the clock, is thrown away and started over.
-/

import Mathlib.Data.Int.ConditionallyCompleteOrder
import Mathlib.Order.CompleteBooleanAlgebra
import Mathlib.Order.CompletePartialOrder
import Mathlib.Order.Lattice.Nat
import Perch.Host
import Perch.Machine.Fallible
import Perch.Machine.Js
import Perch.Machine.Run

namespace Perch.PerchJs

open Machine Machine.Js

/-! ### What is read -/

/-- A value read from the chain, with the ledger it was answered at. -/
structure Read (α : Type) where
  value : α
  latestLedger : Nat
deriving DecidableEq

inductive SignerKey
  | delegated (address : Text)
  | external (verifier : Text) (key : Bytes)
deriving DecidableEq

structure InstalledPolicy where
  policy : Text
  params : Bytes
deriving DecidableEq

structure InstalledRule where
  id : Nat
  recovery : Bool
  name : Text
  contract : Text
  validUntil : Option Nat
  signers : List SignerKey
  policies : List InstalledPolicy
deriving DecidableEq

structure FreezeGate where
  attemptId : Int
  «until» : Nat
deriving DecidableEq

structure Infra where
  docCompiler : Text
  interpreter : Text
  spendingLimit : Text
deriving DecidableEq

structure AccountConfiguration where
  revision : Int
  docHash : Option Bytes
  rules : List InstalledRule
  recoveryController : Option Text
  recoveryRule : Option Nat
  gate : Option FreezeGate
  recoveryGeneration : Int
  infra : Infra
deriving DecidableEq

structure AccountCapabilities where
  interfaceVersion : Nat
  docIdentity : Text
  authDigest : Text
  applyModes : List Text
  snapshotVersion : Nat
deriving DecidableEq

structure FlatDocLimits where
  maxSigners : Number
  maxRules : Number
  maxCanonicalBytes : Number
  maxRuleNameBytes : Number
deriving DecidableEq

/-- `document()`: the canonical bytes, with the revision they are of. -/
structure AppliedDocument where
  revision : Int
  canonical : Option Bytes
deriving DecidableEq

inductive Answer
  | configuration (read : Read AccountConfiguration)
  | capabilities (read : Read AccountCapabilities)
  | limits (read : Read FlatDocLimits)
  | document (read : Read AppliedDocument)
  | revision (read : Read Int)
deriving DecidableEq

def Answer.ledger : Answer → Nat
  | configuration read => read.latestLedger
  | capabilities read => read.latestLedger
  | limits read => read.latestLedger
  | document read => read.latestLedger
  | revision read => read.latestLedger

/-! ### The clock -/

structure LedgerClock where
  seen : Nat
deriving DecidableEq

namespace LedgerClock

def new : LedgerClock := ⟨0⟩

def observed (clock : LedgerClock) (ledger : Nat) : LedgerClock :=
  if ledger < clock.seen then clock else ⟨ledger⟩

/-- Record an answer's ledger; false if it went backwards. -/
def observe (clock : LedgerClock) (ledger : Nat) : Bool × LedgerClock :=
  (¬ledger < clock.seen, clock.observed ledger)

theorem seen_observed (clock : LedgerClock) (ledger : Nat) :
    (clock.observed ledger).seen = max clock.seen ledger := by
  rw [observed]
  split
  next older => exact (Nat.max_eq_left (Nat.le_of_lt older)).symm
  next newer => exact (Nat.max_eq_right (Nat.not_lt.mp newer)).symm

end LedgerClock

/-! ### Refusals -/

inductive Discarded
  | document (atRevision configuration : Int)
  | older (stale latest : Nat)
  | moved (configuration after : Int)
deriving DecidableEq

inductive ReadFailure
  | inconsistent (attempts : Number) (why : Option Discarded)
  | olderAnswer (call : Text) (ledger latest : Nat)
  | staleRevision (expected actual : Int)
  | accountFrozen (attemptId : Int) («until» : Nat)
  | unsupportedInterface (version : Nat)
  | unsupportedIdentity (identity : Text)
  | unsupportedDigest (digest : Text)
  | unsupportedSnapshot (version : Nat)
  | compilerMismatch (pinned given : Text)
  /-- The reader's own. -/
  | reader (error : Text)
deriving DecidableEq

def Discarded.message : Discarded → Text
  | document atRevision configuration =>
      utf16 "document() at revision " ++ decimalText atRevision ++
        utf16 ", configuration() at " ++ decimalText configuration
  | older stale latest =>
      utf16 "an answer came from ledger " ++ decimalText stale ++
        utf16 ", older than " ++ decimalText latest
  | moved configuration after =>
      utf16 "revision moved from " ++ decimalText configuration ++
        utf16 " to " ++ decimalText after ++ utf16 " during the read"

def ReadFailure.message (numberText : Number → Text) : ReadFailure → Text
  | inconsistent attempts why =>
      utf16 "no consistent read after " ++ numberText attempts ++ utf16 " attempts: " ++
        (why.map Discarded.message).getD []
  | olderAnswer call ledger latest =>
      call ++ utf16 "() answered from ledger " ++ decimalText ledger ++
        utf16 ", older than " ++ decimalText latest
  | staleRevision expected actual =>
      utf16 "prepared at revision " ++ decimalText expected ++
        utf16 ", the account is at " ++ decimalText actual
  | accountFrozen attemptId «until» =>
      utf16 "frozen by recovery attempt " ++ decimalText attemptId ++
        utf16 " until ledger " ++ decimalText «until»
  | unsupportedInterface version => utf16 "account interface " ++ decimalText version
  | unsupportedIdentity identity => utf16 "document identity " ++ identity
  | unsupportedDigest digest => utf16 "authorization digest " ++ digest
  | unsupportedSnapshot version => utf16 "snapshot format " ++ decimalText version
  | compilerMismatch pinned given =>
      utf16 "the account pins compiler " ++ pinned ++ utf16 ", the reader reads " ++ given
  | reader error => error

def checkCapabilities (c : AccountCapabilities) : Except ReadFailure Unit := do
  require (1 ≤ c.interfaceVersion) (.unsupportedInterface c.interfaceVersion)
  require (c.docIdentity = utf16 "canon_v1") (.unsupportedIdentity c.docIdentity)
  require (c.authDigest = utf16 "addr_oz_v1") (.unsupportedDigest c.authDigest)
  require (c.snapshotVersion = 1) (.unsupportedSnapshot c.snapshotVersion)

/-! ### A snapshot, answer by answer -/

structure Snapshot where
  account : Text
  ledger : Nat
  configuration : AccountConfiguration
  capabilities : AccountCapabilities
  limits : FlatDocLimits
  /-- The applied canonical bytes, when requested. -/
  document : Option (Option Bytes)
deriving DecidableEq

structure SnapshotCall where
  account : Text
  compiler : Option Text
  document : Bool
  attempts : Option Number

/-- What an attempt has read, and so what it awaits next. -/
inductive Progress
  | configuration
  | capabilities (config : Read AccountConfiguration)
  | limits (config : Read AccountConfiguration) (capabilities : Read AccountCapabilities)
  | document (config : Read AccountConfiguration) (capabilities : Read AccountCapabilities)
      (limits : Read FlatDocLimits)
  | revision (config : Read AccountConfiguration) (capabilities : Read AccountCapabilities)
      (limits : Read FlatDocLimits) (document : Option (Option Bytes))

inductive Stage
  | reading (call : SnapshotCall) (attempt : Nat) (stale : Option Nat) (progress : Progress)
  | checkingRevision (revision : Int)
  | checkingSignable (revision : Int)
  | returned (call : SnapshotCall) (snapshot : Snapshot)
  /-- A check came back. -/
  | passed
  | thrown (failure : ReadFailure)

/-- `i < attempts`. -/
def attemptsAbove (attempts : Number) (i : Nat) : Bool :=
  match attempts with
  | .finite value => (i : ℚ) < value
  | .infinite negative => !negative
  | .nan => false

def SnapshotCall.allowed (call : SnapshotCall) : Number := call.attempts.getD (.ofNat 3)

/-- The top of the loop. -/
def SnapshotCall.attempt (call : SnapshotCall) (i : Nat) (why : Option Discarded) : Stage :=
  if attemptsAbove call.allowed i then .reading call i none .configuration
  else .thrown (.inconsistent call.allowed why)

def finish (call : SnapshotCall) (i : Nat) (clock : LedgerClock) (stale : Option Nat)
    (config : Read AccountConfiguration) (capabilities : Read AccountCapabilities)
    (limits : Read FlatDocLimits) (document : Option (Option Bytes)) (after : Read Int) : Stage :=
  match stale with
  | some stale => call.attempt (i + 1) (some (.older stale clock.seen))
  | none =>
      if after.value ≠ config.value.revision then
        call.attempt (i + 1) (some (.moved config.value.revision after.value))
      else
        match checkCapabilities capabilities.value with
        | .error failure => .thrown failure
        | .ok () =>
            if call.compiler.any (· ≠ config.value.infra.docCompiler) then
              .thrown (.compilerMismatch config.value.infra.docCompiler (call.compiler.getD []))
            else
              .returned call
                { account := call.account
                  ledger := clock.seen
                  configuration := config.value
                  capabilities := capabilities.value
                  limits := limits.value
                  document }

/-- What an awaited answer leads to, the clock having taken it.  Nothing, for
an answer to another question. -/
def proceed (call : SnapshotCall) (i : Nat) (clock : LedgerClock) (stale : Option Nat)
    (progress : Progress) (answer : Answer) : Option Stage :=
  match progress, answer with
  | .configuration, .configuration config => some (.reading call i stale (.capabilities config))
  | .capabilities config, .capabilities capabilities =>
      some (.reading call i stale (.limits config capabilities))
  | .limits config capabilities, .limits limits =>
      some (.reading call i stale
        (if call.document then .document config capabilities limits
        else .revision config capabilities limits none))
  | .document config capabilities limits, .document d =>
      if d.value.revision ≠ config.value.revision then
        some (call.attempt (i + 1) (some (.document d.value.revision config.value.revision)))
      else
        some (.reading call i stale
          (.revision config capabilities limits (some d.value.canonical)))
  | .revision config capabilities limits document, .revision after =>
      some (finish call i clock stale config capabilities limits document after)
  | _, _ => none

/-- Whether an answer is stale, and the oldest that was. -/
def take (clock : LedgerClock) (stale : Option Nat) (ledger : Nat) : Option Nat :=
  if (clock.observe ledger).1 then stale else some (min (stale.getD ledger) ledger)

/-! ### The checks before signing -/

/-- An answer is refused if the clock, where there is one, has seen a later ledger. -/
def checkLedger (clock : Option LedgerClock) (call : String) (ledger : Nat) :
    Except ReadFailure Unit :=
  match clock with
  | some clock =>
      require ((clock.observe ledger).1 = true) (.olderAnswer (utf16 call) ledger clock.seen)
  | none => .ok ()

def assertRevision (clock : Option LedgerClock) (revision : Int) (now : Read Int) :
    Except ReadFailure Unit := do
  checkLedger clock "revision" now.latestLedger
  require (now.value = revision) (.staleRevision revision now.value)

def frozenAt (config : AccountConfiguration) (ledger : Nat) : Bool :=
  config.gate.any fun gate => ledger < gate.until

/-- The check right before a signature: still at the revision, and not frozen. -/
def assertSignable (clock : Option LedgerClock) (revision : Int)
    (now : Read AccountConfiguration) : Except ReadFailure Unit := do
  checkLedger clock "configuration" now.latestLedger
  require (now.value.revision = revision) (.staleRevision revision now.value.revision)
  match now.value.gate with
  | some gate =>
      require (frozenAt now.value now.latestLedger = false)
        (.accountFrozen gate.attemptId gate.until)
  | none => .ok ()

def checked : Except ReadFailure Unit → Stage
  | .ok () => .passed
  | .error failure => .thrown failure

/-! ### Calls that share a clock -/

structure State where
  clock : LedgerClock
  calls : Nat → Option Stage

inductive Call
  | readSnapshot (call : SnapshotCall)
  | assertRevision (revision : Int)
  | assertSignable (revision : Int)

inductive Action
  | start (id : Nat) (call : Call)
  | answer (id : Nat) (answer : Answer)
  /-- A reader rejects. -/
  | reject (id : Nat) (error : Text)
  /-- Anyone else who holds the clock shows it a ledger. -/
  | observe (ledger : Nat)

def Call.begin : Call → Stage
  | readSnapshot call => call.attempt 0 none
  | assertRevision revision => .checkingRevision revision
  | assertSignable revision => .checkingSignable revision

def resume (clock : LedgerClock) (stage : Stage) (answer : Answer) : Option Stage :=
  match stage, answer with
  | .reading call i stale progress, answer =>
      proceed call i (clock.observed answer.ledger) (take clock stale answer.ledger) progress answer
  | .checkingRevision revision, .revision now =>
      some (checked (assertRevision (some clock) revision now))
  | .checkingSignable revision, .configuration now =>
      some (checked (assertSignable (some clock) revision now))
  | _, _ => none

def State.setCall (state : State) (id : Nat) (stage : Stage) : State :=
  { state with calls := fun other => if other = id then some stage else state.calls other }

def respond (state : State) : Action → Option Nat × State
  | .start id call =>
      match state.calls id with
      | none => (none, state.setCall id call.begin)
      | some _ => (none, state)
  | .answer id answer =>
      match (state.calls id).bind fun stage => resume state.clock stage answer with
      | some stage =>
          (some answer.ledger,
            { state with clock := state.clock.observed answer.ledger }.setCall id stage)
      | none => (none, state)
  | .reject id error =>
      match state.calls id with
      | some (.reading _ _ _ _) | some (.checkingRevision _) | some (.checkingSignable _) =>
          (none, state.setCall id (.thrown (.reader error)))
      | _ => (none, state)
  | .observe ledger => (some ledger, { state with clock := state.clock.observed ledger })

/-- The calls in flight.  No time passes that they could see. -/
def readers : System Unit State Action (Option Nat) where
  clock _ := ()
  respond := respond

def State.initial : State where
  clock := .new
  calls _ := none

/-! ### What a reader can rely on -/

/-- An account's history on chain: its revision by ledger, and what belongs to
each revision. -/
structure Chain where
  revisionAt : Nat → Int
  forward : Monotone revisionAt
  configuration : Int → AccountConfiguration
  named : ∀ revision, (configuration revision).revision = revision
  document : Int → Option Bytes
  capabilities : Int → AccountCapabilities

/-- An answer tells what held at the ledger it reports.  Limits are the
compiler's, not the account's. -/
def Answer.Truthful (chain : Chain) : Answer → Prop
  | configuration read =>
      read.value = chain.configuration (chain.revisionAt read.latestLedger)
  | capabilities read => read.value = chain.capabilities (chain.revisionAt read.latestLedger)
  | limits _ => True
  | document read =>
      read.value.revision = chain.revisionAt read.latestLedger ∧
        read.value.canonical = chain.document (chain.revisionAt read.latestLedger)
  | revision read => read.value = chain.revisionAt read.latestLedger

abbrev Taken := Step State Action (Option Nat)

def observed (history : List Taken) : List Nat := history.filterMap Step.reply

/-- An answer a call took, and the ledgers the clock had been shown before it. -/
structure Heard where
  answer : Answer
  before : List Nat

def Heard.Fresh (one : Heard) : Prop := ∀ ledger ∈ one.before, ledger ≤ one.answer.ledger

def answersTo (id : Nat) : List Taken → List Heard
  | [] => []
  | taken :: earlier =>
      match taken.action, taken.reply with
      | .answer caller answer, some _ =>
          if caller = id then ⟨answer, observed earlier⟩ :: answersTo id earlier
          else answersTo id earlier
      | _, _ => answersTo id earlier

structure AttemptReads where
  config : Read AccountConfiguration
  capabilities : Read AccountCapabilities
  limits : Read FlatDocLimits
  document : Option (Read AppliedDocument)
  after : Read Int

/-- All but the last answer of an attempt, newest first. -/
def leading (config : Read AccountConfiguration) (capabilities : Read AccountCapabilities)
    (limits : Read FlatDocLimits) (document : Option (Read AppliedDocument)) : List Answer :=
  (document.map Answer.document).toList ++
    [.limits limits, .capabilities capabilities, .configuration config]

def AttemptReads.answers (reads : AttemptReads) : List Answer :=
  .revision reads.after ::
    leading reads.config reads.capabilities reads.limits reads.document

/-- A document was read if it was asked for, at the configuration's revision. -/
structure Asked (call : SnapshotCall) (config : Read AccountConfiguration)
    (document : Option (Read AppliedDocument)) : Prop where
  requested : document.isSome = call.document
  agrees : ∀ read ∈ document, read.value.revision = config.value.revision

/-- A snapshot is made of the last answers its call took, all of them fresh. -/
structure Settled (heard : List Heard) (call : SnapshotCall) (snapshot : Snapshot)
    (reads : AttemptReads) : Prop where
  last : ∃ last earlier, heard = last ++ earlier ∧ last.map Heard.answer = reads.answers ∧
    ∀ one ∈ last, one.Fresh
  asked : Asked call reads.config reads.document
  unmoved : reads.after.value = reads.config.value.revision
  configuration : snapshot.configuration = reads.config.value
  capabilities : snapshot.capabilities = reads.capabilities.value
  limits : snapshot.limits = reads.limits.value
  document : snapshot.document = reads.document.map fun read => read.value.canonical

/-! ### What an attempt has heard -/

/-- The answers an attempt's progress is made of, newest first. -/
def MadeOf (call : SnapshotCall) : Progress → List Answer → Prop
  | .configuration, answers => answers = []
  | .capabilities config, answers => answers = [.configuration config]
  | .limits config capabilities, answers =>
      answers = [.capabilities capabilities, .configuration config]
  | .document config capabilities limits, answers =>
      call.document = true ∧ answers = leading config capabilities limits none
  | .revision config capabilities limits canonical, answers =>
      ∃ document, Asked call config document ∧
        canonical = document.map (fun read => read.value.canonical) ∧
        answers = leading config capabilities limits document

def Follows (heard : List Heard) : Stage → Prop
  | .reading call _ stale progress =>
      ∃ last earlier, heard = last ++ earlier ∧ MadeOf call progress (last.map Heard.answer) ∧
        (stale = none → ∀ one ∈ last, one.Fresh)
  | .returned call snapshot => ∃ reads, Settled heard call snapshot reads
  | .checkingRevision _ | .checkingSignable _ | .passed | .thrown _ => True

theorem follows_attempt (heard : List Heard) (call : SnapshotCall) (i : Nat)
    (why : Option Discarded) : Follows heard (call.attempt i why) := by
  unfold SnapshotCall.attempt
  split
  · exact ⟨[], heard, rfl, rfl, fun _ _ member => (List.not_mem_nil member).elim⟩
  · trivial

theorem follows_begin (heard : List Heard) (call : Call) : Follows heard call.begin := by
  cases call with
  | readSnapshot call => exact follows_attempt heard call 0 none
  | assertRevision revision => trivial
  | assertSignable revision => trivial

theorem take_eq_none {clock : LedgerClock} {stale : Option Nat} {ledger : Nat} :
    take clock stale ledger = none ↔ stale = none ∧ clock.seen ≤ ledger := by
  simp only [take, LedgerClock.observe, decide_eq_true_eq]
  split
  next newer => simp [Nat.not_lt.mp newer]
  next older => simp [Nat.not_le.mpr (Decidable.not_not.mp older)]

theorem follows_reading {heard : List Heard} {call : SnapshotCall} {i i' : Nat}
    {stale stale' : Option Nat} {progress progress' : Progress} {one : Heard}
    (follows : Follows heard (.reading call i stale progress))
    (made : ∀ answers, MadeOf call progress answers → MadeOf call progress' (one.answer :: answers))
    (fresh : stale' = none → stale = none ∧ one.Fresh) :
    Follows (one :: heard) (.reading call i' stale' progress') := by
  obtain ⟨last, earlier, rfl, answers, kept⟩ := follows
  refine ⟨one :: last, earlier, rfl, made _ answers, ?_⟩
  intro settled other member
  obtain ⟨before, now⟩ := fresh settled
  cases List.mem_cons.mp member with
  | inl same =>
      rw [same]
      exact now
  | inr older => exact kept before other older

theorem follows_finish {heard : List Heard} {call : SnapshotCall} {i : Nat} {clock : LedgerClock}
    {stale stale' : Option Nat} {config : Read AccountConfiguration}
    {capabilities : Read AccountCapabilities} {limits : Read FlatDocLimits}
    {canonical : Option (Option Bytes)} {after : Read Int} {before : List Nat}
    (follows : Follows heard
      (.reading call i stale (.revision config capabilities limits canonical)))
    (fresh : stale' = none → stale = none ∧ Heard.Fresh ⟨.revision after, before⟩) :
    Follows (⟨.revision after, before⟩ :: heard)
      (finish call i clock stale' config capabilities limits canonical after) := by
  obtain ⟨last, earlier, rfl, ⟨document, asked, held, answers⟩, kept⟩ := follows
  unfold finish
  split
  next => exact follows_attempt _ call _ _
  next =>
    obtain ⟨before_, now⟩ := fresh rfl
    split
    next => exact follows_attempt _ call _ _
    next unmoved =>
      split
      next => trivial
      next =>
        split
        next => trivial
        next =>
          refine ⟨⟨config, capabilities, limits, document, after⟩, ?_⟩
          exact
            { last := by
                refine ⟨⟨.revision after, before⟩ :: last, earlier, rfl, ?_, ?_⟩
                · rw [List.map_cons, answers]
                  rfl
                · intro one member
                  cases List.mem_cons.mp member with
                  | inl same =>
                      rw [same]
                      exact now
                  | inr older => exact kept before_ one older
              asked := asked
              unmoved := Decidable.not_not.mp unmoved
              configuration := rfl
              capabilities := rfl
              limits := rfl
              document := held }

theorem follows_proceed {heard : List Heard} {call : SnapshotCall} {i : Nat} {clock : LedgerClock}
    {stale stale' : Option Nat} {progress : Progress} {answer : Answer} {stage : Stage}
    {before : List Nat} (follows : Follows heard (.reading call i stale progress))
    (fresh : stale' = none → stale = none ∧ Heard.Fresh ⟨answer, before⟩)
    (proceeds : proceed call i clock stale' progress answer = some stage) :
    Follows (⟨answer, before⟩ :: heard) stage := by
  unfold proceed at proceeds
  split at proceeds
  next =>
    cases proceeds
    apply follows_reading follows _ fresh
    rintro answers rfl
    rfl
  next =>
    cases proceeds
    apply follows_reading follows _ fresh
    rintro answers rfl
    rfl
  next =>
    cases proceeds
    apply follows_reading follows _ fresh
    rintro answers rfl
    split
    next requested => exact ⟨requested, rfl⟩
    next unrequested =>
      refine ⟨none, ⟨?_, ?_⟩, rfl, rfl⟩
      · exact (Bool.eq_false_iff.mpr unrequested).symm
      · intro read impossible
        cases impossible
  next config capabilities limits d =>
    split at proceeds
    next =>
      cases proceeds
      exact follows_attempt _ call _ _
    next agrees =>
      cases proceeds
      apply follows_reading follows _ fresh
      rintro answers ⟨requested, rfl⟩
      refine ⟨some d, ⟨?_, ?_⟩, rfl, rfl⟩
      · exact requested.symm
      · intro read same
        cases same
        exact Decidable.not_not.mp agrees
  next =>
    cases proceeds
    exact follows_finish follows fresh
  next => cases proceeds

theorem follows_checked (heard : List Heard) (result : Except ReadFailure Unit) :
    Follows heard (checked result) := by
  cases result <;> trivial

/-- One more answer keeps the account of what a call has taken. -/
theorem follows_resume {heard : List Heard} {clock : LedgerClock} {stage stage' : Stage}
    {answer : Answer} {before : List Nat} (follows : Follows heard stage)
    (seen : ∀ ledger ∈ before, ledger ≤ clock.seen)
    (resumed : resume clock stage answer = some stage') :
    Follows (⟨answer, before⟩ :: heard) stage' := by
  unfold resume at resumed
  split at resumed
  next call i stale progress answer =>
    apply follows_proceed follows _ resumed
    intro settled
    obtain ⟨before_, newest⟩ := take_eq_none.mp settled
    exact ⟨before_, fun ledger member => Nat.le_trans (seen ledger member) newest⟩
  next =>
    cases resumed
    exact follows_checked _ _
  next =>
    cases resumed
    exact follows_checked _ _
  next => cases resumed

/-! ### Runs -/

inductive Moved (state : State) (action : Action) : Option Nat → State → Prop
  | started {id : Nat} {call : Call} (is : action = .start id call) :
      Moved state action none (state.setCall id call.begin)
  | answered {id : Nat} {answer : Answer} {stage stage' : Stage} (is : action = .answer id answer)
      (at_ : state.calls id = some stage)
      (resumed : resume state.clock stage answer = some stage') :
      Moved state action (some answer.ledger)
        ({ state with clock := state.clock.observed answer.ledger }.setCall id stage')
  | rejected {id : Nat} {error : Text} (is : action = .reject id error) :
      Moved state action none (state.setCall id (.thrown (.reader error)))
  | observed {ledger : Nat} (is : action = .observe ledger) :
      Moved state action (some ledger) { state with clock := state.clock.observed ledger }
  | idle : Moved state action none state

theorem respond_moved (state : State) (action : Action) :
    Moved state action (respond state action).1 (respond state action).2 := by
  cases action with
  | start id call =>
      simp only [respond]
      split
      · exact .started rfl
      · exact .idle
  | answer id answer =>
      simp only [respond]
      split
      next stage' resumed =>
        obtain ⟨stage, at_, resumed⟩ := Option.bind_eq_some_iff.mp resumed
        exact .answered rfl at_ resumed
      next => exact .idle
  | reject id error =>
      simp only [respond]
      split
      · exact .rejected rfl
      · exact .rejected rfl
      · exact .rejected rfl
      · exact .idle
  | observe ledger => exact .observed rfl

/-- The clock knows every ledger it was shown, and every call stands where the
answers it took have brought it. -/
structure Tracks (history : List Taken) (state : State) : Prop where
  clock : ∀ ledger ∈ observed history, ledger ≤ state.clock.seen
  calls : ∀ id stage, state.calls id = some stage → Follows (answersTo id history) stage
  heard : ∀ id, ∀ one ∈ answersTo id history, one.answer.ledger ∈ observed history
  ordered : ∀ id, (answersTo id history).Pairwise
    fun newer older => older.answer.ledger ∈ newer.before

theorem tracks_initial : Tracks [] State.initial where
  clock _ member := (List.not_mem_nil member).elim
  calls _ _ at_ := by cases at_
  heard _ _ member := (List.not_mem_nil member).elim
  ordered _ := .nil

theorem answersTo_silent {taken : Taken} (silent : taken.reply = none) (id : Nat)
    (history : List Taken) : answersTo id (taken :: history) = answersTo id history := by
  obtain ⟨before, action, reply, after⟩ := taken
  cases silent
  cases action <;> rfl

theorem observed_silent {taken : Taken} (silent : taken.reply = none) (history : List Taken) :
    observed (taken :: history) = observed history := List.filterMap_cons_none silent

theorem Tracks.silent {history : List Taken} {state : State} {taken : Taken}
    (tracks : Tracks history state) (silent : taken.reply = none) {id : Nat} {stage : Stage}
    (follows : ∀ heard, Follows heard stage) :
    Tracks (taken :: history) (state.setCall id stage) where
  clock := by
    rw [observed_silent silent]
    exact tracks.clock
  calls := by
    intro other found at_
    rw [answersTo_silent silent]
    simp only [State.setCall] at at_
    split at at_
    · cases at_
      exact follows _
    · exact tracks.calls other found at_
  heard := by
    intro other
    rw [answersTo_silent silent, observed_silent silent]
    exact tracks.heard other
  ordered := by
    intro other
    rw [answersTo_silent silent]
    exact tracks.ordered other

theorem Tracks.shown {history : List Taken} {state : State} (tracks : Tracks history state)
    {taken : Taken} {ledger : Nat} (shown : taken.reply = some ledger) :
    ∀ other ∈ observed (taken :: history), other ≤ (state.clock.observed ledger).seen := by
  intro other member
  rw [LedgerClock.seen_observed]
  rw [observed, List.filterMap_cons_some shown] at member
  cases List.mem_cons.mp member with
  | inl same =>
      rw [same]
      exact Nat.le_max_right _ _
  | inr earlier => exact Nat.le_trans (tracks.clock other earlier) (Nat.le_max_left _ _)

theorem Tracks.moved {history : List Taken} {state after : State} {action : Action}
    {reply : Option Nat} (tracks : Tracks history state) (moved : Moved state action reply after) :
    Tracks (⟨state, action, reply, after⟩ :: history) after := by
  cases moved with
  | @started id call is => exact tracks.silent rfl fun heard => follows_begin heard call
  | rejected is => exact tracks.silent rfl fun _ => trivial
  | idle =>
      exact
        { clock := tracks.clock
          calls := by
            intro id stage at_
            rw [answersTo_silent rfl]
            exact tracks.calls id stage at_
          heard := by
            intro id
            rw [answersTo_silent rfl]
            exact tracks.heard id
          ordered := by
            intro id
            rw [answersTo_silent rfl]
            exact tracks.ordered id }
  | @observed ledger is =>
      subst is
      exact
        { clock := tracks.shown rfl
          calls := tracks.calls
          heard := fun id one member => List.mem_cons_of_mem _ (tracks.heard id one member)
          ordered := tracks.ordered }
  | @answered id answer stage stage' is at_ resumed =>
      subst is
      have taken (other : Nat) : answersTo other (⟨state, .answer id answer, some answer.ledger,
          { state with clock := state.clock.observed answer.ledger }.setCall id stage'⟩ ::
            history) = if id = other then ⟨answer, observed history⟩ :: answersTo other history
              else answersTo other history := rfl
      refine
        { clock := tracks.shown rfl
          calls := ?_
          heard := ?_
          ordered := ?_ }
      · intro other found at'
        rw [taken]
        simp only [State.setCall] at at'
        split at at'
        next same =>
          cases at'
          rw [if_pos same.symm, same]
          exact follows_resume (tracks.calls id stage at_) tracks.clock resumed
        next different =>
          rw [if_neg (Ne.symm different)]
          exact tracks.calls other found at'
      · intro other one member
        rw [taken] at member
        split at member
        next same =>
          cases List.mem_cons.mp member with
          | inl same =>
              rw [same]
              exact List.mem_cons_self
          | inr earlier => exact List.mem_cons_of_mem _ (tracks.heard other one earlier)
        next => exact List.mem_cons_of_mem _ (tracks.heard other one member)
      · intro other
        rw [taken]
        split
        · exact List.pairwise_cons.mpr ⟨tracks.heard other, tracks.ordered other⟩
        · exact tracks.ordered other

theorem run_tracks {history : List Taken} {state : State}
    (run : Execution readers () State.initial history () state) : Tracks history state := by
  refine Execution.invariant (fun history _ state => Tracks history state) tracks_initial ?_ ?_ run
  · intro history now later state tracks _
    exact tracks
  · intro history state action tracks
    exact tracks.moved (respond_moved state action)

/-! ### One revision -/

/-- A snapshot shows one revision, at which the account was from the first
read of its attempt to the last. -/
structure Consistent (chain : Chain) (call : SnapshotCall) (snapshot : Snapshot)
    (reads : AttemptReads)
    (revision : Int) : Prop where
  configuration : snapshot.configuration = chain.configuration revision
  capabilities : snapshot.capabilities = chain.capabilities revision
  document :
    snapshot.document = if call.document then some (chain.document revision) else none
  held : ∀ ledger, reads.config.latestLedger ≤ ledger → ledger ≤ reads.after.latestLedger →
    chain.revisionAt ledger = revision

theorem answers_ordered {last earlier : List Heard}
    (ordered : (last ++ earlier).Pairwise fun newer older =>
      older.answer.ledger ∈ newer.before) (fresh : ∀ one ∈ last, one.Fresh) :
    (last.map Heard.answer).Pairwise fun newer older => older.ledger ≤ newer.ledger := by
  rw [List.pairwise_map]
  apply (List.pairwise_append.mp ordered).1.imp_of_mem
  intro newer older inNewer _ shown
  exact fresh newer inNewer _ shown

/-- Every answer of an attempt lies between its first and its last. -/
theorem answers_between {reads : AttemptReads}
    (ordered : reads.answers.Pairwise fun newer older => older.ledger ≤ newer.ledger)
    {answer : Answer} (member : answer ∈ reads.answers) :
    reads.config.latestLedger ≤ answer.ledger ∧ answer.ledger ≤ reads.after.latestLedger := by
  obtain ⟨newest, rest⟩ := List.pairwise_cons.mp ordered
  have oldest : ∀ one ∈ leading reads.config reads.capabilities reads.limits reads.document,
      reads.config.latestLedger ≤ one.ledger := by
    intro one found
    have split : leading reads.config reads.capabilities reads.limits reads.document =
        ((reads.document.map Answer.document).toList ++
          [.limits reads.limits, .capabilities reads.capabilities]) ++
          [.configuration reads.config] := by
      simp [leading]
    rw [split] at found rest
    cases List.mem_append.mp found with
    | inl inner =>
        exact (List.pairwise_append.mp rest).2.2 one inner _ (List.mem_singleton.mpr rfl)
    | inr first =>
        rw [List.mem_singleton.mp first]
        exact Nat.le_refl _
  cases List.mem_cons.mp member with
  | inl same =>
      rw [same]
      refine ⟨?_, Nat.le_refl _⟩
      exact newest (.configuration reads.config) (by simp [leading])
  | inr found => exact ⟨oldest answer found, newest answer found⟩

/-- The account was at the configuration's revision at both ends, and so in
between. -/
theorem Settled.consistent {chain : Chain} {heard : List Heard} {call : SnapshotCall}
    {snapshot : Snapshot} {reads : AttemptReads} (settled : Settled heard call snapshot reads)
    (ordered : heard.Pairwise fun newer older => older.answer.ledger ∈ newer.before)
    (truthful : ∀ one ∈ heard, one.answer.Truthful chain) :
    Consistent chain call snapshot reads reads.config.value.revision := by
  obtain ⟨last, earlier, rfl, answers, fresh⟩ := settled.last
  have sorted := answers_ordered ordered fresh
  rw [answers] at sorted
  have told : ∀ answer ∈ reads.answers, answer.Truthful chain := by
    intro answer member
    rw [← answers] at member
    obtain ⟨one, found, rfl⟩ := List.mem_map.mp member
    exact truthful one (List.mem_append_left _ found)
  have first : reads.config.value =
      chain.configuration (chain.revisionAt reads.config.latestLedger) :=
    told (.configuration reads.config) (by simp [AttemptReads.answers, leading])
  have final : reads.after.value = chain.revisionAt reads.after.latestLedger :=
    told (.revision reads.after) List.mem_cons_self
  have start : chain.revisionAt reads.config.latestLedger = reads.config.value.revision := by
    rw [first, chain.named]
  have held : ∀ ledger, reads.config.latestLedger ≤ ledger → ledger ≤ reads.after.latestLedger →
      chain.revisionAt ledger = reads.config.value.revision := by
    intro ledger lower upper
    apply Int.le_antisymm
    · rw [← settled.unmoved, final]
      exact chain.forward upper
    · rw [← start]
      exact chain.forward lower
  have during {answer : Answer} (member : answer ∈ reads.answers) :
      chain.revisionAt answer.ledger = reads.config.value.revision := by
    obtain ⟨lower, upper⟩ := answers_between sorted member
    exact held _ lower upper
  exact
    { configuration := by rw [settled.configuration, ← start, ← first]
      capabilities := by
        have member : Answer.capabilities reads.capabilities ∈ reads.answers := by
          simp [AttemptReads.answers, leading]
        rw [settled.capabilities, ← during member]
        exact told _ member
      document := by
        have requested := settled.asked.requested
        rw [settled.document]
        cases read : reads.document with
        | none =>
            rw [read] at requested
            rw [← requested]
            rfl
        | some d =>
            have member : Answer.document d ∈ reads.answers := by
              simp [AttemptReads.answers, leading, read]
            rw [read] at requested
            rw [← requested, ← during member]
            exact congrArg some (told _ member).2
      held := held }

/-- A snapshot that is returned shows one revision, whatever else uses the
clock and however many attempts came before: its answers are the last its call
took, and none is older than any ledger the clock was shown before it. -/
theorem readSnapshot_consistent {history : List Taken} {state : State}
    (run : Execution readers () State.initial history () state) {chain : Chain} {id : Nat}
    (truthful : ∀ one ∈ answersTo id history, one.answer.Truthful chain) {call : SnapshotCall}
    {snapshot : Snapshot} (returned : state.calls id = some (.returned call snapshot)) :
    ∃ revision reads last earlier,
      answersTo id history = last ++ earlier ∧ last.map Heard.answer = reads.answers ∧
        (∀ one ∈ last, one.Fresh) ∧ Consistent chain call snapshot reads revision := by
  have tracks := run_tracks run
  obtain ⟨reads, settled⟩ := tracks.calls id _ returned
  obtain ⟨last, earlier, heard, answers, fresh⟩ := settled.last
  exact ⟨_, reads, last, earlier, heard, answers, fresh,
    settled.consistent (tracks.ordered id) truthful⟩

/-- An account that moves from revision 1 to revision 2 at ledger 11. -/
def sampleChain : Chain where
  revisionAt ledger := if ledger < 11 then 1 else 2
  forward := by
    intro earlier later forward
    dsimp only
    split <;> split <;> omega
  configuration revision :=
    { revision
      docHash := none
      rules := []
      recoveryController := none
      recoveryRule := none
      gate := none
      recoveryGeneration := 0
      infra := { docCompiler := utf16 "C", interpreter := utf16 "I", spendingLimit := utf16 "S" } }
  named _ := rfl
  document revision := some [UInt8.ofNat revision.toNat]
  capabilities _ :=
    { interfaceVersion := 1
      docIdentity := utf16 "canon_v1"
      authDigest := utf16 "addr_oz_v1"
      applyModes := []
      snapshotVersion := 1 }

def sampleCall : SnapshotCall where
  account := utf16 "A"
  compiler := none
  document := true
  attempts := none

def sampleReads (ledger : Nat) : List Answer :=
  [.configuration ⟨sampleChain.configuration (sampleChain.revisionAt ledger), ledger⟩,
    .capabilities ⟨sampleChain.capabilities (sampleChain.revisionAt ledger), ledger⟩,
    .limits ⟨⟨.ofNat 1, .ofNat 1, .ofNat 1, .ofNat 1⟩, ledger⟩,
    .document ⟨⟨sampleChain.revisionAt ledger,
        sampleChain.document (sampleChain.revisionAt ledger)⟩,
      ledger⟩,
    .revision ⟨sampleChain.revisionAt ledger, ledger⟩]

theorem sampleReads_truthful {ledger : Nat} {answer : Answer}
    (member : answer ∈ sampleReads ledger) : answer.Truthful sampleChain := by
  simp only [sampleReads, List.mem_cons, List.not_mem_nil, or_false] at member
  rcases member with rfl | rfl | rfl | rfl | rfl
  · rfl
  · rfl
  · trivial
  · exact ⟨rfl, rfl⟩
  · rfl

/-- The account moves during the first attempt, and somebody else shows the
clock ledger 12, behind which the second attempt is not answered. -/
def retried : List Action :=
  .start 0 (.readSnapshot sampleCall) ::
    (((sampleReads 10).take 3 ++ ((sampleReads 11).drop 3).take 1).map (Action.answer 0) ++
      .observe 12 :: (sampleReads 12).map (Action.answer 0))

def sampleRun : List Taken × State := readers.play [] State.initial retried

theorem sampleRun_executes :
    Execution readers () State.initial sampleRun.1 () sampleRun.2 := by
  apply Execution.play Execution.refl
  exact List.pairwise_of_forall fun _ _ => le_refl ()

theorem sampleRun_returned :
    sampleRun.2.calls 0 = some (.returned sampleCall
      { account := utf16 "A"
        ledger := 12
        configuration := sampleChain.configuration 2
        capabilities := sampleChain.capabilities 2
        limits := ⟨.ofNat 1, .ofNat 1, .ofNat 1, .ofNat 1⟩
        document := some (sampleChain.document 2) }) := by
  rfl

theorem sampleRun_truthful :
    ∀ one ∈ answersTo 0 sampleRun.1, one.answer.Truthful sampleChain := by
  have heard : (answersTo 0 sampleRun.1).map Heard.answer =
      (sampleReads 12).reverse ++
        ((sampleReads 10).take 3 ++ ((sampleReads 11).drop 3).take 1).reverse := rfl
  intro one member
  have answered := List.mem_map_of_mem (f := Heard.answer) member
  rw [heard, List.mem_append, List.mem_reverse, List.mem_reverse, List.mem_append] at answered
  rcases answered with second | first | last
  · exact sampleReads_truthful second
  · exact sampleReads_truthful (List.mem_of_mem_take first)
  · exact sampleReads_truthful (List.mem_of_mem_drop (List.mem_of_mem_take last))

theorem readSnapshot_consistent_retried :
    ∃ snapshot revision reads last earlier,
      sampleRun.2.calls 0 = some (.returned sampleCall snapshot) ∧
        answersTo 0 sampleRun.1 = last ++ earlier ∧ last.map Heard.answer = reads.answers ∧
        (∀ one ∈ last, one.Fresh) ∧
        Consistent sampleChain sampleCall snapshot reads revision := by
  obtain ⟨revision, reads, last, earlier, shown⟩ :=
    readSnapshot_consistent sampleRun_executes sampleRun_truthful sampleRun_returned
  exact ⟨_, revision, reads, last, earlier, sampleRun_returned, shown⟩

end Perch.PerchJs
