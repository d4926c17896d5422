/-
Applying a document from the wallet, one answer at a time.

An operation reads the account, prepares one transaction for the revision it
read, has it signed, submits it, and waits for its confirmation.  At every
point where it waits, the chain may move, and what it waits for may fail while
the transaction lands all the same.  After a failure the caller may have it
start over from a fresh read.
-/

import Mathlib.Data.List.Count
import Perch.Machine.Sha256
import Perch.PerchJs.Xdr

namespace Perch.PerchJs.Apply

open Machine Machine.Js

/-! ### What an operation is given -/

/-- What is read of the document: its signers are counted, and its rules named. -/
structure PolicyDoc where
  signers : Nat
  ruleNames : List Text
  canonical : Bytes
  hash : Text

inductive RuleScope
  | selfAdmin
  | contract (address : Text)

structure RuleRef where
  name : Text
  scope : RuleScope

structure RuleSelection where
  account : Text
  revision : Int
  ruleIds : List Nat

structure ApplyOptions where
  rule : Option RuleRef
  approvalValidUntil : Option Number
  maxAttempts : Option Number

inductive ApplyPhase
  | prepare
  | authorize
  | submit
  | confirm
  | done
  | failed
deriving DecidableEq

inductive Limit
  | maxSigners
  | maxRules
  | maxRuleNameBytes
  | maxCanonicalBytes
deriving DecidableEq

inductive ApplyFailure
  | aborted (phase : ApplyPhase)
  | read (failure : ReadFailure)
  | overLimits (limit : Limit) (value : Nat) (cap : Number)
  | ruleNotFound (name scope : Text)
  | payloadLength
  | codec (failure : XdrFailure)
  /-- No read showed the revision of an apply that was confirmed. -/
  | unseen
  /-- What a callback, the reader or the transport throws. -/
  | outside (error : Text)
deriving DecidableEq

def ApplyFailure.isAborted : ApplyFailure → Bool
  | aborted _ => true
  | _ => false

/-- An operation's document, callbacks and backend.  The signatures are over a
SHA-256 digest. -/
structure Operation where
  doc : PolicyDoc
  options : ApplyOptions
  account : Text
  compiler : Option Text
  /-- Whether the callbacks that need not be given are. -/
  onFeeEstimate : Bool
  onError : Bool
  sha256 : Bytes → Bytes

/-! ### The checks before anything is planned -/

def exceeds (count : Nat) : Number → Bool
  | .finite cap => cap < count
  | .infinite negative => negative
  | .nan => false

def checkLimit (limit : Limit) (value : Nat) (cap : Number) : Except ApplyFailure Unit :=
  require (exceeds value cap = false) (.overLimits limit value cap)

/-- The first limit a document exceeds, in the compiler's order. -/
def checkLimits (doc : PolicyDoc) (limits : FlatDocLimits) : Except ApplyFailure Unit := do
  checkLimit .maxSigners doc.signers limits.maxSigners
  checkLimit .maxRules doc.ruleNames.length limits.maxRules
  forM doc.ruleNames fun name =>
    checkLimit .maxRuleNameBytes (encodeText name).length limits.maxRuleNameBytes
  checkLimit .maxCanonicalBytes doc.canonical.length limits.maxCanonicalBytes

def admin : RuleRef := ⟨utf16 "admin", .selfAdmin⟩

def scopeAddress (snapshot : Snapshot) : RuleScope → Text
  | .selfAdmin => snapshot.account
  | .contract address => address

def find (snapshot : Snapshot) (ref : RuleRef) : Except ApplyFailure InstalledRule :=
  let contract := scopeAddress snapshot ref.scope
  orFail (snapshot.configuration.rules.find? fun r =>
    !r.recovery && r.name = ref.name && r.contract = contract) (.ruleNotFound ref.name contract)

/-- The id of the installed rule with that name and scope. -/
def selectRules (snapshot : Snapshot) (ref : RuleRef) : Except ApplyFailure RuleSelection := do
  let rule ← find snapshot ref
  pure { account := snapshot.account
         revision := snapshot.configuration.revision
         ruleIds := [rule.id] }

def checkSnapshot (op : Operation) (snapshot : Snapshot) : Except ApplyFailure RuleSelection := do
  let config := snapshot.configuration
  match config.gate with
  | some gate =>
      require (frozenAt config snapshot.ledger = false)
        (.read (.accountFrozen gate.attemptId gate.until))
  | none => .ok ()
  checkLimits op.doc snapshot.limits
  selectRules snapshot (op.options.rule.getD admin)

/-! ### Signing -/

def authAddrDomain : Bytes := encodeText (utf16 "perch/account/auth-addr-v1")

/-- What a signer signs: the account, the invocation, and the selected rules. -/
def signingDigest (sha256 : Bytes → Bytes) (account : Text) (signaturePayload : Bytes)
    (ruleIds : List Nat) : Except ApplyFailure Bytes := do
  require (signaturePayload.length = 32) .payloadLength
  let (_, accountId) ← (addressPayload account).mapError fun failure => .codec (.codec failure)
  let bound := sha256 (authAddrDomain ++ accountId ++ signaturePayload)
  let ids ← (ruleIdsXdr (ruleIds.map .ofNat)).mapError .codec
  pure (sha256 (bound ++ ids))

def authPayload (selection : RuleSelection) (signatures : List SignerEntry) : AuthPayload where
  contextRuleIds := selection.ruleIds.map .ofNat
  signers := signatures

/-! ### The states of an operation -/

/-- What an attempt has settled once it has read the account. -/
structure Attempt where
  snapshot : Snapshot
  selection : RuleSelection

def Attempt.revision (a : Attempt) : Int := a.snapshot.configuration.revision

/-- A prepared transaction's authorization payload and fee. -/
structure PreparedStep where
  signaturePayload : Bytes
  fee : Nat

structure ApplyResult where
  docHash : Text
  revision : Int
  ran : List Text
  ledger : Nat
deriving DecidableEq

/-- What an operation waits for.  `told` is a progress report. -/
inductive Point
  | reading (stage : Stage)
  | planning (a : Attempt)
  | toldPrepare (a : Attempt)
  | askingDone (a : Attempt)
  | toldAuthorize (a : Attempt)
  | preparing (a : Attempt)
  | estimating (a : Attempt) (prepared : PreparedStep)
  | checking (a : Attempt) (prepared : PreparedStep)
  | signing (a : Attempt)
  | toldSubmit (a : Attempt) (payload : Bytes)
  | submitting (a : Attempt)
  | toldConfirm (a : Attempt)
  | confirming (a : Attempt)
  | rereading (a : Attempt) (read : Nat)
  | toldDone (revision : Int)
  | deciding (error : ApplyFailure)
  | toldRetry
  | ended (result : Except ApplyFailure ApplyResult)

/-- One of the operation's transactions, from when it is handed to the
transport.  It executes at the revision it names, and at no other. -/
structure Transaction where
  expectedRevision : Int
  payload : Bytes
  executed : Bool

structure State where
  clock : LedgerClock
  /-- Which attempt this is, from 1. -/
  attempt : Nat
  phase : ApplyPhase
  aborted : Bool
  landed : Bool
  confirmedAt : Nat
  point : Point
  /-- The account's revision on chain. -/
  revision : Int
  /-- The operation's transactions, newest first. -/
  transactions : List Transaction

/-- What an operation asks of the transport and the signers. -/
inductive Request
  | prepareApplyDoc (account : Text) (docJson : Bytes) (approvalValidUntil : Number)
      (expectedRevision : Int)
  | sign (account : Text) (revision : Int) (ruleIds : List Nat) (signaturePayload digest : Bytes)
  | submit (payload : Bytes)
deriving DecidableEq

inductive Action
  /-- The reader answers. -/
  | answer (answer : Answer)
  /-- What is awaited, or the callback that was called, throws. -/
  | reject (error : ApplyFailure)
  /-- What is awaited comes back without a value that is looked at. -/
  | resolve
  | prepared (prepared : PreparedStep)
  | approve (approved : Bool)
  | signatures (signatures : List SignerEntry)
  | confirmed (ledger : Nat)
  | decide (retry : Bool)
  | abort
  /-- Anyone else who holds the clock shows it a ledger. -/
  | observe (ledger : Nat)
  /-- The chain executes one of the operation's transactions. -/
  | execute (index : Nat)
  /-- Another client's change executes. -/
  | change

namespace State

/-- `n >= max`. -/
def lastAttempt (op : Operation) (n : Nat) : Bool :=
  match op.options.maxAttempts.getD (.ofNat 3) with
  | .finite limit => limit ≤ n
  | .infinite negative => negative
  | .nan => false

/-- An attempt throws: the caller is asked what to do, unless there is nothing to ask. -/
def throw (op : Operation) (s : State) (error : ApplyFailure) : State :=
  if s.aborted || s.landed || error.isAborted || lastAttempt op s.attempt || !op.onError then
    { s with phase := .failed, point := .ended (.error error) }
  else { s with point := .deciding error }

/-- Go on in a phase, unless the operation was aborted. -/
def enter (op : Operation) (s : State) (phase : ApplyPhase) (go : State → State) : State :=
  if s.aborted then s.throw op (.aborted phase) else go { s with phase }

/-- A snapshot goes on being read, is returned, or is given up. -/
def read (op : Operation) (s : State) : Stage → State
  | .returned _ snapshot =>
      match checkSnapshot op snapshot with
      | .ok selection => { s with point := .planning ⟨snapshot, selection⟩ }
      | .error failure => s.throw op failure
  | .thrown failure => s.throw op (.read failure)
  | stage => { s with point := .reading stage }

/-- The top of an attempt. -/
def start (op : Operation) (s : State) : State :=
  s.enter op .prepare fun s =>
    s.read op (SnapshotCall.attempt ⟨op.account, op.compiler, false, none⟩ 0 none)

def finalReadAttempts : Nat := 3

def reread (op : Operation) (s : State) (a : Attempt) (read : Nat) : State :=
  if read < finalReadAttempts then { s with point := .rereading a read } else s.throw op .unseen

/-- The checks right before a signature, and the request for it. -/
def authorize (op : Operation) (s : State) (a : Attempt) (prepared : PreparedStep)
    (now : Read AccountConfiguration) : Option Request × State :=
  let seen := { s with clock := s.clock.observed now.latestLedger }
  match assertSignable (some s.clock) a.revision now with
  | .error failure => (none, seen.throw op (.read failure))
  | .ok () =>
      match signingDigest op.sha256 a.selection.account prepared.signaturePayload
          a.selection.ruleIds with
      | .error failure => (none, seen.throw op failure)
      | .ok digest =>
          (some (.sign a.snapshot.account a.revision a.selection.ruleIds prepared.signaturePayload
            digest), { seen with point := .signing a })

/-- A revision is taken from an answer that is not older than one already seen,
nor than the confirmation, and shows the change. -/
def settle (op : Operation) (s : State) (a : Attempt) (read : Nat) (now : Read Int) : State :=
  let seen := { s with clock := s.clock.observed now.latestLedger }
  if (s.clock.observe now.latestLedger).1 = false ∨ now.latestLedger < s.confirmedAt ∨
      (s.landed = true ∧ now.value ≤ a.revision) then
    seen.reread op a (read + 1)
  else { seen with point := .toldDone now.value }

def answered (op : Operation) (s : State) (answer : Answer) : Option Request × State :=
  match s.point, answer with
  | .reading stage, answer =>
      match resume s.clock stage answer with
      | some stage =>
          (none, { s with clock := s.clock.observed answer.ledger }.read op stage)
      | none => (none, s)
  | .checking a prepared, .configuration now => s.authorize op a prepared now
  | .rereading a read, .revision now => (none, s.settle op a read now)
  | _, _ => (none, s)

def resolved (op : Operation) (s : State) : Option Request × State :=
  match s.point with
  | .planning a => (none, { s with point := .toldPrepare a })
  | .toldPrepare a => (none, { s with point := .askingDone a })
  | .askingDone a => (none, s.enter op .authorize fun s => { s with point := .toldAuthorize a })
  | .toldAuthorize a =>
      (some (.prepareApplyDoc a.snapshot.account op.doc.canonical
        (op.options.approvalValidUntil.getD (.ofNat 0)) a.revision),
        { s with point := .preparing a })
  | .toldSubmit a payload =>
      (some (.submit payload),
        { s with
          point := .submitting a
          transactions := ⟨a.revision, payload, false⟩ :: s.transactions })
  | .submitting a => (none, s.enter op .confirm fun s => { s with point := .toldConfirm a })
  | .toldConfirm a => (none, { s with point := .confirming a })
  | .toldDone revision =>
      (none,
        { s with
          phase := .done
          point := .ended (.ok
            { docHash := op.doc.hash
              revision
              ran := [utf16 "apply_doc:" ++ op.doc.hash]
              ledger := s.confirmedAt }) })
  | .toldRetry => (none, { s with attempt := s.attempt + 1 }.start op)
  | _ => (none, s)

/-- What is awaited throws.  Past the attempt, nothing catches it. -/
def rejected (op : Operation) (s : State) (error : ApplyFailure) : State :=
  match s.point with
  | .planning _ | .askingDone _ | .ended _ => s
  | .deciding _ | .toldRetry => { s with point := .ended (.error error) }
  | _ => s.throw op error

/-- The chain executes a transaction at its revision, once. -/
def executes (s : State) (index : Nat) : State :=
  match s.transactions[index]? with
  | some transaction =>
      if transaction.executed = false ∧ transaction.expectedRevision = s.revision then
        { s with
          revision := s.revision + 1
          transactions := s.transactions.set index { transaction with executed := true } }
      else s
  | none => s

/-- The prepared transaction, on to its fee or straight to the last checks. -/
def estimated (op : Operation) (s : State) (prepared : PreparedStep) : State :=
  match s.point with
  | .preparing a =>
      { s with
        point := if op.onFeeEstimate then .estimating a prepared else .checking a prepared }
  | _ => s

def approved (op : Operation) (s : State) (approved : Bool) : State :=
  match s.point with
  | .estimating a prepared =>
      if approved then { s with point := .checking a prepared }
      else { s with aborted := true }.throw op (.aborted .authorize)
  | _ => s

def signed (op : Operation) (s : State) (signatures : List SignerEntry) : State :=
  match s.point with
  | .signing a =>
      match authPayloadXdr (authPayload a.selection signatures) with
      | .error failure => s.throw op (.codec failure)
      | .ok payload => s.enter op .submit fun s => { s with point := .toldSubmit a payload }
  | _ => s

def confirmed (op : Operation) (s : State) (ledger : Nat) : State :=
  match s.point with
  | .confirming a =>
      { s with confirmedAt := max s.confirmedAt ledger, landed := true }.reread op a 0
  | _ => s

def decided (s : State) (retry : Bool) : State :=
  match s.point with
  | .deciding error =>
      if retry = false ∨ s.aborted = true then
        { s with phase := .failed, point := .ended (.error error) }
      else { s with point := .toldRetry }
  | _ => s

def respond (op : Operation) (s : State) : Action → Option Request × State
  | .answer answer => s.answered op answer
  | .reject error => (none, s.rejected op error)
  | .resolve => s.resolved op
  | .prepared prepared => (none, s.estimated op prepared)
  | .approve approved => (none, s.approved op approved)
  | .signatures signatures => (none, s.signed op signatures)
  | .confirmed ledger => (none, s.confirmed op ledger)
  | .decide retry => (none, s.decided retry)
  | .abort => (none, { s with aborted := true })
  | .observe ledger => (none, { s with clock := s.clock.observed ledger })
  | .execute index => (none, s.executes index)
  | .change => (none, { s with revision := s.revision + 1 })

/-- An operation right after it was started, over any chain and any clock. -/
def initial (op : Operation) (clock : LedgerClock) (revision : Int) : State :=
  start op
    { clock, attempt := 1, phase := .prepare, aborted := false, landed := false, confirmedAt := 0,
      point := .toldRetry, revision, transactions := [] }

end State

/-- An operation and the chain.  No time passes that the operation could see. -/
def applying (op : Operation) : System Unit State Action (Option Request) where
  clock _ := ()
  respond := State.respond op

abbrev Taken := Step State Action (Option Request)

/-! ### What a step does -/

def Point.unsigned : Point → Bool
  | reading _ | planning _ | toldPrepare _ | askingDone _ | toldAuthorize _ | preparing _
  | estimating _ _ | checking _ _ | toldRetry => true
  | signing _ | toldSubmit _ _ | submitting _ | toldConfirm _ | confirming _ | rereading _ _
  | toldDone _ | deciding _ | ended _ => false

/-- The revision of what is being signed, or is about to be submitted. -/
def Point.signedFor : Point → Option Int
  | signing a | toldSubmit a _ => some a.revision
  | _ => none

def Point.undecided : Point → Bool
  | deciding _ => true
  | _ => false

namespace State

def Executed (s : State) : Prop := ∃ t ∈ s.transactions, t.executed = true

instance instDecidableExecuted (s : State) : Decidable s.Executed :=
  inferInstanceAs (Decidable (∃ t ∈ s.transactions, t.executed = true))

/-- The chain stands as it did, and nothing is to be signed that was not. -/
structure Kept (s s' : State) : Prop where
  transactions : s'.transactions = s.transactions
  revision : s'.revision = s.revision
  unsigned : s'.point.unsigned = true → s.point.unsigned = true
  signedFor : ∀ r ∈ s'.point.signedFor, s.point.unsigned = true ∨ r ∈ s.point.signedFor

variable {op : Operation} {s s' : State}

theorem Kept.of_unsigned (unsigned : s.point.unsigned = true)
    (transactions : s'.transactions = s.transactions) (revision : s'.revision = s.revision) :
    Kept s s' :=
  ⟨transactions, revision, fun _ => unsigned, fun _ _ => .inl unsigned⟩

theorem Kept.of_point (transactions : s'.transactions = s.transactions)
    (revision : s'.revision = s.revision) (point : s'.point = s.point) : Kept s s' :=
  ⟨transactions, revision, fun unsigned => point ▸ unsigned, fun _ held => .inr (point ▸ held)⟩

theorem throw_kept (error : ApplyFailure) (transactions : s'.transactions = s.transactions)
    (revision : s'.revision = s.revision) : Kept s (s'.throw op error) := by
  rw [throw]
  split
  · exact ⟨transactions, revision, nofun, nofun⟩
  · exact ⟨transactions, revision, nofun, nofun⟩

theorem enter_kept (phase : ApplyPhase) {go : State → State}
    (going : Kept s (go { s with phase })) : Kept s (s.enter op phase go) := by
  rw [enter]
  split
  · exact throw_kept _ rfl rfl
  · exact going

/-- Reading stays before any signature. -/
theorem read_kept (unsigned : s.point.unsigned = true)
    (transactions : s'.transactions = s.transactions) (revision : s'.revision = s.revision)
    (stage : Stage) : Kept s (s'.read op stage) := by
  cases stage with
  | returned call snapshot =>
      rw [read]
      split
      · exact .of_unsigned unsigned transactions revision
      · exact throw_kept _ transactions revision
  | thrown failure => exact throw_kept _ transactions revision
  | reading | checkingRevision | checkingSignable | passed =>
      exact .of_unsigned unsigned transactions revision

theorem start_kept (unsigned : s.point.unsigned = true)
    (transactions : s'.transactions = s.transactions) (revision : s'.revision = s.revision) :
    Kept s (s'.start op) := by
  rw [start, enter]
  split
  · exact throw_kept _ transactions revision
  · apply read_kept unsigned
    · exact transactions
    · exact revision

theorem reread_kept (a : Attempt) (read : Nat) (transactions : s'.transactions = s.transactions)
    (revision : s'.revision = s.revision) : Kept s (s'.reread op a read) := by
  rw [reread]
  split
  · exact ⟨transactions, revision, nofun, nofun⟩
  · exact throw_kept _ transactions revision

/-- What a step does to the chain and to what is to be signed. -/
inductive Effect (s s' : State) : Action → Prop
  | kept {action : Action} (kept : Kept s s') : Effect s s' action
  | retried (error : ApplyFailure) (deciding : s.point = .deciding error)
      (going : s.aborted = false) (after : s' = { s with point := .toldRetry }) :
      Effect s s' (.decide true)
  | submitted (a : Attempt) (payload : Bytes) (prepared : s.point = .toldSubmit a payload)
      (after : s' = { s with
        point := .submitting a
        transactions := ⟨a.revision, payload, false⟩ :: s.transactions }) :
      Effect s s' .resolve
  | executed (index : Nat) (t : Transaction) (found : s.transactions[index]? = some t)
      (waiting : t.executed = false) (due : t.expectedRevision = s.revision)
      (after : s' = { s with
        revision := s.revision + 1
        transactions := s.transactions.set index { t with executed := true } }) :
      Effect s s' (.execute index)
  | changed (after : s' = { s with revision := s.revision + 1 }) : Effect s s' .change

theorem answered_kept (answer : Answer) : Kept s (s.answered op answer).2 := by
  unfold answered
  split
  · rename_i stage _ point
    have unsigned : s.point.unsigned = true := by rw [point]; rfl
    split
    · apply read_kept unsigned
      · rfl
      · rfl
    · exact .of_unsigned unsigned rfl rfl
  · rename_i a prepared now point
    have unsigned : s.point.unsigned = true := by rw [point]; rfl
    unfold authorize
    split
    · exact throw_kept _ rfl rfl
    · split
      · exact throw_kept _ rfl rfl
      · exact .of_unsigned unsigned rfl rfl
  · rename_i a read now point
    rw [settle]
    split
    · exact reread_kept a (read + 1) rfl rfl
    · exact ⟨rfl, rfl, nofun, nofun⟩
  · exact .of_point rfl rfl rfl

theorem rejected_kept (error : ApplyFailure) : Kept s (s.rejected op error) := by
  rw [rejected]
  split
  · exact .of_point rfl rfl rfl
  · exact .of_point rfl rfl rfl
  · exact .of_point rfl rfl rfl
  · exact ⟨rfl, rfl, nofun, nofun⟩
  · exact ⟨rfl, rfl, nofun, nofun⟩
  · exact throw_kept _ rfl rfl

theorem resolved_effect : Effect s (s.resolved op).2 .resolve := by
  unfold resolved
  split
  · rename_i a point
    exact .kept (.of_unsigned (by rw [point]; rfl) rfl rfl)
  · rename_i a point
    exact .kept (.of_unsigned (by rw [point]; rfl) rfl rfl)
  · rename_i a point
    have unsigned : s.point.unsigned = true := by rw [point]; rfl
    apply Effect.kept
    dsimp only
    apply enter_kept
    exact .of_unsigned unsigned rfl rfl
  · rename_i a point
    exact .kept (.of_unsigned (by rw [point]; rfl) rfl rfl)
  · rename_i a payload point
    exact .submitted a payload point rfl
  · apply Effect.kept
    dsimp only
    apply enter_kept
    exact ⟨rfl, rfl, nofun, nofun⟩
  · exact .kept ⟨rfl, rfl, nofun, nofun⟩
  · exact .kept ⟨rfl, rfl, nofun, nofun⟩
  · rename_i point
    have unsigned : s.point.unsigned = true := by rw [point]; rfl
    apply Effect.kept
    apply start_kept unsigned
    · rfl
    · rfl
  · exact .kept (.of_point rfl rfl rfl)

theorem estimated_kept (prepared : PreparedStep) : Kept s (s.estimated op prepared) := by
  rw [estimated]
  split
  · rename_i a point
    exact .of_unsigned (by rw [point]; rfl) rfl rfl
  · exact .of_point rfl rfl rfl

theorem approved_kept (answer : Bool) : Kept s (s.approved op answer) := by
  rw [approved]
  split
  · rename_i a prepared point
    have unsigned : s.point.unsigned = true := by rw [point]; rfl
    split
    · exact .of_unsigned unsigned rfl rfl
    · exact throw_kept _ rfl rfl
  · exact .of_point rfl rfl rfl

theorem signed_kept (signatures : List SignerEntry) : Kept s (s.signed op signatures) := by
  rw [signed]
  split
  · rename_i a point
    split
    · exact throw_kept _ rfl rfl
    · apply enter_kept
      constructor
      · rfl
      · rfl
      · exact nofun
      · intro r held
        right
        rw [point]
        exact held
  · exact .of_point rfl rfl rfl

theorem confirmed_kept (ledger : Nat) : Kept s (s.confirmed op ledger) := by
  rw [confirmed]
  split
  · rename_i a point
    exact reread_kept a 0 rfl rfl
  · exact .of_point rfl rfl rfl

theorem decided_effect (retry : Bool) : Effect s (s.decided retry) (.decide retry) := by
  rw [decided]
  split
  · rename_i error point
    split
    · exact .kept ⟨rfl, rfl, nofun, nofun⟩
    · rename_i going
      simp only [not_or, Bool.not_eq_false, Bool.not_eq_true] at going
      obtain ⟨again, running⟩ := going
      subst again
      exact .retried error point running rfl
  · exact .kept (.of_point rfl rfl rfl)

theorem executes_effect (index : Nat) : Effect s (s.executes index) (.execute index) := by
  rw [executes]
  split
  · rename_i t found
    split
    · rename_i able
      exact .executed index t found able.1 able.2 rfl
    · exact .kept (.of_point rfl rfl rfl)
  · exact .kept (.of_point rfl rfl rfl)

theorem respond_effect (op : Operation) (s : State) (action : Action) :
    Effect s (s.respond op action).2 action := by
  cases action with
  | answer answer => exact .kept (answered_kept answer)
  | reject error => exact .kept (rejected_kept error)
  | resolve => exact resolved_effect
  | prepared prepared => exact .kept (estimated_kept prepared)
  | approve approved => exact .kept (approved_kept approved)
  | signatures signatures => exact .kept (signed_kept signatures)
  | confirmed ledger => exact .kept (confirmed_kept ledger)
  | decide retry => exact decided_effect retry
  | abort => exact .kept (.of_point rfl rfl rfl)
  | observe ledger => exact .kept (.of_point rfl rfl rfl)
  | execute index => exact executes_effect index
  | change => exact .changed rfl

/-- A transaction is prepared, and a signature asked for, before the attempt is signed. -/
theorem respond_asks {action : Action} {request : Request}
    (asked : (s.respond op action).1 = some request) :
    s.point.unsigned = true ∨ ∃ payload, request = .submit payload := by
  cases action with
  | answer answer =>
      left
      simp only [respond, answered] at asked
      split at asked
      · rename_i stage _ point
        rw [point]
        rfl
      · rename_i a prepared now point
        rw [point]
        rfl
      · cases asked
      · cases asked
  | resolve =>
      simp only [respond, resolved] at asked
      split at asked
      all_goals first | cases asked; done | skip
      · rename_i a point
        left
        rw [point]
        rfl
      · exact .inr ⟨_, (Option.some.inj asked).symm⟩
  | _ => cases asked

/-! ### At most one execution -/

/-- Nothing is started over once a transaction of the operation has executed,
and none executes while a later attempt is still to be signed, or names a
later revision. -/
def Safe (s : State) : Action → Prop
  | .decide true => s.point.undecided = true → s.aborted = false → ¬s.Executed
  | .execute index => ∀ t ∈ s.transactions[index]?, t.executed = false →
      t.expectedRevision = s.revision →
      s.point.unsigned = false ∧ (∀ r ∈ s.point.signedFor, r ≤ t.expectedRevision) ∧
        ∀ other ∈ s.transactions, other.expectedRevision ≤ t.expectedRevision
  | _ => True

instance instDecidableSafe (s : State) : (action : Action) → Decidable (s.Safe action)
  | .decide true => inferInstanceAs (Decidable (_ → _ → ¬_))
  | .execute index => inferInstanceAs (Decidable (∀ t ∈ s.transactions[index]?, _))
  | .decide false | .answer _ | .reject _ | .resolve | .prepared _ | .approve _ | .signatures _
  | .confirmed _ | .abort | .observe _ | .change => inferInstanceAs (Decidable True)

/-- What has executed is alone, and nothing can follow it. -/
structure Settled (s : State) : Prop where
  once : s.transactions.countP Transaction.executed ≤ 1
  signed : s.Executed → s.point.unsigned = false
  last : ∀ t ∈ s.transactions, t.executed = true → t.expectedRevision < s.revision ∧
    (∀ other ∈ s.transactions, other.expectedRevision ≤ t.expectedRevision) ∧
    ∀ r ∈ s.point.signedFor, r ≤ t.expectedRevision

theorem Settled.kept (settled : Settled s) (kept : Kept s s') : Settled s' := by
  have executed : s'.Executed → s.Executed := by
    rw [Executed, kept.transactions]
    exact id
  constructor
  · rw [kept.transactions]
    exact settled.once
  · intro landed
    have before := settled.signed (executed landed)
    rw [Bool.eq_false_iff] at before ⊢
    exact mt kept.unsigned before
  · intro t member landed
    have before := settled.signed (executed ⟨t, member, landed⟩)
    rw [kept.transactions] at member ⊢
    obtain ⟨past, others, prepared⟩ := settled.last t member landed
    rw [kept.revision]
    refine ⟨past, others, ?_⟩
    intro r held
    rcases kept.signedFor r held with unsigned | held
    · rw [before] at unsigned
      cases unsigned
    · exact prepared r held

/-- A step keeps this, where it is safe. -/
theorem Settled.respond (settled : Settled s) {action : Action} (safe : Safe s action) :
    Settled (s.respond op action).2 := by
  cases respond_effect op s action with
  | kept kept => exact settled.kept kept
  | retried error deciding going after =>
      have none := safe (by rw [deciding]; rfl) going
      rw [after]
      constructor
      · exact settled.once
      · exact fun landed => absurd landed none
      · exact fun t member landed => absurd ⟨t, member, landed⟩ none
  | submitted a payload prepared after =>
      rw [after]
      have held : a.revision ∈ s.point.signedFor := by rw [prepared]; rfl
      constructor
      · exact settled.once
      · exact fun _ => rfl
      · intro t member landed
        rcases List.mem_cons.mp member with same | member
        · rw [same] at landed
          cases landed
        · obtain ⟨past, others, bounded⟩ := settled.last t member landed
          refine ⟨past, ?_, nofun⟩
          rw [List.forall_mem_cons]
          exact ⟨bounded _ held, others⟩
  | executed index t found waiting due after =>
      obtain ⟨signed, prepared, others⟩ := safe t found waiting due
      have member := List.mem_of_getElem? found
      -- Whatever had executed named a revision that is past, and `t` one as late.
      have first : ∀ other ∈ s.transactions, ¬other.executed = true := by
        intro other member' landed
        obtain ⟨past, bounded, _⟩ := settled.last other member' landed
        have later := bounded t member
        omega
      have revisions : ∀ other ∈ s.transactions.set index { t with executed := true },
          other.expectedRevision ≤ t.expectedRevision := by
        intro other member'
        rcases List.mem_or_eq_of_mem_set member' with old | same
        · exact others other old
        · rw [same]
      rw [after]
      constructor
      · have none : s.transactions.countP Transaction.executed = 0 :=
          List.countP_eq_zero.mpr first
        obtain ⟨bound, _⟩ := List.getElem?_eq_some_iff.mp found
        change (s.transactions.set index _).countP Transaction.executed ≤ 1
        rw [List.countP_set bound, none, Nat.zero_sub, Nat.zero_add]
        split
        · exact Nat.le_refl 1
        · exact Nat.zero_le 1
      · exact fun _ => signed
      · intro other member' landed
        rcases List.mem_or_eq_of_mem_set member' with old | same
        · exact absurd landed (first other old)
        · subst same
          refine ⟨?_, revisions, prepared⟩
          change t.expectedRevision < s.revision + 1
          omega
  | changed after =>
      rw [after]
      constructor
      · exact settled.once
      · exact settled.signed
      · intro t member landed
        obtain ⟨past, rest⟩ := settled.last t member landed
        refine ⟨?_, rest⟩
        change t.expectedRevision < s.revision + 1
        omega

theorem settled_initial (op : Operation) (clock : LedgerClock) (revision : Int) :
    Settled (initial op clock revision) := by
  have started : Kept _ (initial op clock revision) := start_kept rfl rfl rfl
  apply Settled.kept _ started
  constructor
  · exact Nat.zero_le 1
  · intro landed
    obtain ⟨t, member, _⟩ := landed
    cases member
  · intro t member
    cases member

end State

/-- A request that begins an apply: its transaction is prepared, or its signature asked for. -/
def Request.begins : Request → Bool
  | prepareApplyDoc _ _ _ _ | sign _ _ _ _ _ => true
  | submit _ => false

/-- No more than one transaction of the operation has executed, and after it
none was prepared or signed. -/
def AppliedOnce (history : List Taken) (s : State) : Prop :=
  s.transactions.countP Transaction.executed ≤ 1 ∧
    ∀ taken ∈ history, taken.before.Executed → ∀ request ∈ taken.reply, request.begins = false

/-- An operation none of whose attempts is started over once it has executed
applies its document once. -/
theorem applyDocument_once {op : Operation} {clock : LedgerClock} {revision : Int}
    {history : List Taken} {s : State}
    (run : Execution (applying op) () (State.initial op clock revision) history () s)
    (safe : ∀ taken ∈ history, taken.before.Safe taken.action) : AppliedOnce history s := by
  have holds : (∀ taken ∈ history, taken.before.Safe taken.action) →
      s.Settled ∧ ∀ taken ∈ history, taken.before.Executed →
        ∀ request ∈ taken.reply, request.begins = false := by
    refine run.invariant (fun history _ s => (∀ taken ∈ history, taken.before.Safe taken.action) →
      s.Settled ∧ ∀ taken ∈ history, taken.before.Executed →
        ∀ request ∈ taken.reply, request.begins = false) ?_ ?_ ?_
    · intro _
      exact ⟨State.settled_initial op clock revision, fun _ member => nomatch member⟩
    · exact fun earlier _ => earlier
    · intro history s action earlier safe
      obtain ⟨now, past⟩ := List.forall_mem_cons.mp safe
      obtain ⟨settled, requests⟩ := earlier past
      refine ⟨settled.respond now, ?_⟩
      rw [List.forall_mem_cons]
      refine ⟨?_, requests⟩
      intro landed request asked
      rcases State.respond_asks (Option.mem_def.mp asked) with unsigned | ⟨payload, rfl⟩
      · have signed : s.point.unsigned = false := settled.signed landed
        rw [signed] at unsigned
        cases unsigned
      · rfl
  obtain ⟨settled, requests⟩ := holds safe
  exact ⟨settled.once, requests⟩

/-! ### An operation to evaluate on -/

def sampleOperation : Operation where
  doc := ⟨1, [utf16 "admin"], [123, 125], utf16 "d0c"⟩
  options := ⟨none, none, none⟩
  account := sampleVerifier
  compiler := none
  onFeeEstimate := false
  onError := true
  sha256 bytes := Machine.Sha256.hash bytes

/-- The account's configuration at a revision: one rule, its own `admin`. -/
def sampleConfiguration (revision : Int) : AccountConfiguration :=
  { sampleChain.configuration revision with
    rules := [⟨0, false, utf16 "admin", sampleVerifier, none, [], []⟩] }

/-- One attempt at a revision, read at a ledger, up to what it hands to the transport. -/
def sampleAttempt (revision : Int) (ledger : Nat) : List Action :=
  [.answer (.configuration ⟨sampleConfiguration revision, ledger⟩),
    .answer (.capabilities ⟨sampleChain.capabilities revision, ledger⟩),
    .answer (.limits ⟨⟨.ofNat 8, .ofNat 8, .ofNat 4096, .ofNat 32⟩, ledger⟩),
    .answer (.revision ⟨revision, ledger⟩),
    .resolve, .resolve, .resolve, .resolve,
    .prepared ⟨List.replicate 32 9, 100⟩,
    .answer (.configuration ⟨sampleConfiguration revision, ledger⟩),
    .signatures [⟨.external sampleVerifier [1, 2, 3], [4, 5, 6]⟩],
    .resolve]

/-- The first submission times out before the transaction executes, and the
caller starts over; the second transaction executes and is confirmed. -/
def retrying : List Action :=
  sampleAttempt 0 10 ++ [.reject (.outside (utf16 "timeout")), .decide true, .resolve] ++
    sampleAttempt 0 20 ++ [.execute 0, .resolve, .resolve, .confirmed 21,
    .answer (.revision ⟨1, 21⟩), .resolve]

/-- The transaction executes, but its submission times out.  Another client's
change executes at the revision it left, and the caller starts over. -/
def timedOut : List Action :=
  sampleAttempt 0 10 ++ [.execute 0, .reject (.outside (utf16 "timeout")), .change, .decide true,
    .resolve] ++ sampleAttempt 2 20 ++ [.execute 0]

def sampleRun (actions : List Action) : List Taken × State :=
  (applying sampleOperation).play [] (State.initial sampleOperation .new 0) actions

theorem sampleRun_executes (actions : List Action) :
    Execution (applying sampleOperation) () (State.initial sampleOperation .new 0)
      (sampleRun actions).1 () (sampleRun actions).2 := by
  apply Execution.play Execution.refl
  exact List.pairwise_of_forall fun _ _ => le_refl ()

theorem retrying_executes : (sampleRun retrying).2.transactions.map Transaction.executed =
    [true, false] := by
  decide +kernel

theorem applyDocument_once_retried :
    (sampleRun retrying).2.transactions.map Transaction.executed = [true, false] ∧
      AppliedOnce (sampleRun retrying).1 (sampleRun retrying).2 :=
  ⟨retrying_executes, applyDocument_once (sampleRun_executes retrying) (by decide +kernel)⟩

/-- Started over after a timeout, an operation applies its document twice, and
over another client's change. -/
theorem applyDocument_twice :
    ∃ op clock revision history s,
      Execution (applying op) () (State.initial op clock revision) history () s ∧
        ¬AppliedOnce history s := by
  refine ⟨sampleOperation, .new, 0, _, _, sampleRun_executes timedOut, ?_⟩
  intro once
  have twice : (sampleRun timedOut).2.transactions.countP Transaction.executed = 2 := by
    decide +kernel
  have bound := once.1
  omega

end Perch.PerchJs.Apply
