/-
The pool indexer, under every interleaving of what is asked of it.

A request waits for one operation at a time: on the store, or on the source of
pages.  A step performs the operation one request waits for and runs that
request up to its next one, and between two steps of it any other may take
any number.  Syncs take turns, and so do the parts of requests that use the
witness index; looking up an enrollment comes before and takes no turn.
-/

import Mathlib.Order.CompleteBooleanAlgebra
import Mathlib.Order.CompletePartialOrder
import Perch.PerchZk.Index

namespace Perch.PerchZk.Indexer

open Machine Machine.Js Zk
open Machine.WitnessTree hiding siblings Tree

/-! ### Requests -/

/-- What the source serves after a cursor, and the cursor to resume from. -/
structure Page where
  records : List LeafRecord
  cursor : Option Text

structure Witness where
  treeId : Nat
  index : Nat
  leaf : Bytes32
  siblings : List Bytes32
  root : Bytes32
deriving DecidableEq

structure SyncResult where
  inserted : Nat
  conflicts : List LeafRecord
deriving DecidableEq

def SyncResult.add (out : SyncResult) (record : LeafRecord) : PutResult → SyncResult
  | .inserted => { out with inserted := out.inserted + 1 }
  | .duplicate => out
  | .conflict => { out with conflicts := out.conflicts ++ [record] }

inductive Refusal
  | source
  | notIndexed (account : Text) (enrollmentId : Bytes32)
  | gap (treeId index : Nat)
  | notStored (treeId index : Nat)
  | ingest (failure : IngestFailure)
  | tree (failure : Failure)
deriving DecidableEq

inductive Outcome
  | synced (result : SyncResult)
  | root (treeId : Nat) (root : Bytes32)
  | witness (account : Text) (enrollmentId : Bytes32) (witness : Witness)
  | failed (refusal : Refusal)
deriving DecidableEq

inductive Pull
  | starting (maxPages : Nat)
  | paging (remaining : Nat) (cursor : Option Text) (out : SyncResult)
  | putting (remaining : Nat) (cursor : Option Text) (page : Page) (rest : List LeafRecord)
      (out : SyncResult)
  | moving (remaining : Nat) (page : Page) (next : Text) (out : SyncResult)
  | indexing (out : SyncResult)

/-- What is run inside `indexing`, once the index has advanced. -/
inductive Task
  | sync
  | root (treeId : Nat)
  | witness (account : Text) (enrollmentId : Bytes32) (record : LeafRecord)

inductive Work
  | advancing
  | reading (treeId start count : Nat) (got : List Bytes32)
      (next : List Bytes32 → Reading Bytes32 Outcome)

/-- The first of `syncing` and the first of `indexing` have their turn. -/
structure State where
  store : MemoryStore
  index : PoolWitnessIndex
  syncing : List Pull
  finding : List (Text × Bytes32)
  indexing : List Task
  work : Work

def State.empty : State where
  store := .empty
  index := .empty
  syncing := []
  finding := []
  indexing := []
  work := .advancing

/-! ### Syncing -/

def again (state : State) (remaining : Nat) (cursor : Option Text) (out : SyncResult)
    (waiting : List Pull) : State :=
  match remaining with
  | 0 =>
      { state with
        syncing := .indexing out :: waiting
        indexing := state.indexing ++ [.sync] }
  | remaining + 1 => { state with syncing := .paging remaining cursor out :: waiting }

/-- The end of a page.  An empty one, or one without a cursor, is the last. -/
def pageEnd (state : State) (remaining : Nat) (cursor : Option Text) (page : Page)
    (out : SyncResult) (waiting : List Pull) : State :=
  if page.records.length = 0 ∨ page.cursor = none then again state 0 cursor out waiting
  else again state remaining cursor out waiting

/-- The next record of a page; after the last one the cursor moves. -/
def putNext (state : State) (remaining : Nat) (cursor : Option Text) (page : Page)
    (rest : List LeafRecord) (out : SyncResult) (waiting : List Pull) : State :=
  match rest with
  | _ :: _ => { state with syncing := .putting remaining cursor page rest out :: waiting }
  | [] =>
      match page.cursor with
      | none => pageEnd state remaining cursor page out waiting
      | some next =>
          if some next = cursor then pageEnd state remaining cursor page out waiting
          else { state with syncing := .moving remaining page next out :: waiting }

def pull (state : State) : Option Outcome × State :=
  match state.syncing with
  | .starting maxPages :: waiting =>
      (none, again state maxPages state.store.cursor ⟨0, []⟩ waiting)
  | .putting remaining cursor page (record :: rest) out :: waiting =>
      let (result, store) := state.store.put record
      (none, putNext { state with store := store } remaining cursor page rest
        (out.add record result) waiting)
  | .moving remaining page next out :: waiting =>
      (none, pageEnd { state with store := state.store.setCursor next } remaining (some next) page
        out waiting)
  | _ => (none, state)

/-- The source's answer to the running sync, if it waits for one. -/
def answer (state : State) (page : Option Page) : Option Outcome × State :=
  match state.syncing, page with
  | .paging remaining cursor out :: waiting, some page =>
      (none, putNext state remaining cursor page page.records out waiting)
  | .paging _ _ _ :: waiting, none => (some (.failed .source), { state with syncing := waiting })
  | _, _ => (none, state)

/-! ### Indexing -/

def finish (state : State) (task : Task) (others : List Task) (outcome : Outcome) :
    Option Outcome × State :=
  (some outcome,
    { state with
      syncing := (match task with
        | .sync => state.syncing.tail
        | _ => state.syncing)
      indexing := others
      work := .advancing })

/-- Up to the next leaf to be read.  Reading none waits for nothing. -/
def proceed (treeId : Nat) : Reading Bytes32 Outcome → Work ⊕ Outcome
  | .done outcome => .inr outcome
  | .failed failure => .inr (.failed (.tree failure))
  | .ask question next =>
      if question.2 = 0 then proceed treeId (next [])
      else .inl (.reading treeId question.1 question.2 [] next)

def resume (state : State) (task : Task) (others : List Task) (treeId : Nat)
    (computation : Reading Bytes32 Outcome) : Option Outcome × State :=
  match proceed treeId computation with
  | .inl work => (none, { state with work := work })
  | .inr outcome => finish state task others outcome

/-- What the sync whose index has been advanced returns. -/
def syncResult (state : State) : SyncResult :=
  match state.syncing with
  | .indexing out :: _ => out
  | _ => ⟨0, []⟩

section Index

variable (barretenberg : Poseidon2) (options : IndexOptions)

def rootOf (index : PoolWitnessIndex) (treeId : Nat) : Reading Bytes32 Outcome := do
  let root ← (index.tree barretenberg options treeId).root (hashing barretenberg)
  pure (.root treeId root)

def witnessOf (index : PoolWitnessIndex) (account : Text) (enrollmentId : Bytes32)
    (record : LeafRecord) : Reading Bytes32 Outcome := do
  let path ← (index.tree barretenberg options record.treeId).witness (hashing barretenberg)
    record.index
  pure (.witness account enrollmentId
    { treeId := record.treeId
      index := record.index
      leaf := record.leaf
      siblings := path.siblings
      root := path.root })

def advanced (state : State) (task : Task) (others : List Task) : Option Outcome × State :=
  match task with
  | .sync => finish state task others (.synced (syncResult state))
  | .root treeId =>
      resume { state with index := state.index.opened barretenberg options treeId } task others
        treeId (rootOf barretenberg options state.index treeId)
  | .witness account enrollmentId record =>
      if state.index.size record.treeId ≤ record.index then
        finish state task others (.failed (.gap record.treeId record.index))
      else
        resume { state with index := state.index.opened barretenberg options record.treeId } task
          others record.treeId
          (witnessOf barretenberg options state.index account enrollmentId record)

/-- The leaf at the next place of the pool, if it is stored. -/
def advance (state : State) (task : Task) (others : List Task) : Option Outcome × State :=
  let treeId := state.index.current
  let position := state.index.size treeId
  match state.store.get treeId position with
  | none => advanced barretenberg options state task others
  | some record =>
      match state.index.ingest barretenberg options treeId position record.leaf with
      | .ok index => (none, { state with index := index })
      | .error failure =>
          finish { state with index := state.index.opened barretenberg options treeId } task
            others (.failed (.ingest failure))

def read (state : State) (task : Task) (others : List Task) (treeId start count : Nat)
    (got : List Bytes32) (next : List Bytes32 → Reading Bytes32 Outcome) :
    Option Outcome × State :=
  match state.store.get treeId (start + got.length) with
  | none => finish state task others (.failed (.notStored treeId (start + got.length)))
  | some record =>
      let got := got ++ [record.leaf]
      if got.length < count then
        (none, { state with work := .reading treeId start count got next })
      else resume state task others treeId (next got)

/-- The store's operation the task whose turn it is waits for. -/
def index (state : State) : Option Outcome × State :=
  match state.indexing with
  | [] => (none, state)
  | task :: others =>
      match state.work with
      | .advancing => advance barretenberg options state task others
      | .reading treeId start count got next =>
          read state task others treeId start count got next

end Index

/-! ### The indexer -/

/-- The lookup of an enrollment, of those being looked up. -/
def find (state : State) (k : Nat) : Option Outcome × State :=
  match state.finding[k]? with
  | none => (none, state)
  | some (account, enrollmentId) =>
      let state := { state with finding := state.finding.eraseIdx k }
      match state.store.find account enrollmentId with
      | none => (some (.failed (.notIndexed account enrollmentId)), state)
      | some record =>
          (none, { state with
            indexing := state.indexing ++ [.witness account enrollmentId record] })

/-- Requests that are made, and operations that are performed. -/
inductive Event
  | sync (maxPages : Nat)
  | root (treeId : Nat)
  | witness (account : Text) (enrollmentId : Bytes32)
  | pulled
  | answered (page : Option Page)
  | found (k : Nat)
  | indexed

abbrev IndexerStep := Step State Event (Option Outcome)

def indexer (barretenberg : Poseidon2) (options : IndexOptions) :
    System Unit State Event (Option Outcome) where
  clock _ := ()
  respond state
    | .sync maxPages => (none, { state with syncing := state.syncing ++ [.starting maxPages] })
    | .root treeId => (none, { state with indexing := state.indexing ++ [.root treeId] })
    | .witness account enrollmentId =>
        (none, { state with finding := state.finding ++ [(account, enrollmentId)] })
    | .pulled => pull state
    | .answered page => answer state page
    | .found k => find state k
    | .indexed => index barretenberg options state

/-! ### What a state holds -/

section Holding

variable (barretenberg : Poseidon2) (options : IndexOptions)

def Prefix (store : MemoryStore) (ingested : List LeafRecord) : Prop :=
  ∀ n record, ingested[n]? = some record →
    store.byTree (placeOf options.height n) = some record

structure Names (store : MemoryStore) (account : Text) (enrollmentId : Bytes32)
    (record : LeafRecord) : Prop where
  account : record.account = account
  enrollmentId : record.enrollmentId = enrollmentId
  stored : store.byTree record.place = some record

def rootAt (ingested : List LeafRecord) (treeId : Nat) : Bytes32 :=
  Merkle.root (node barretenberg) (zeroHash barretenberg 0) options.height
    (treeLeaves options.height ingested treeId)

def witnessAt (ingested : List LeafRecord) (record : LeafRecord) : Witness where
  treeId := record.treeId
  index := record.index
  leaf := record.leaf
  siblings := WitnessTree.siblings (hashing barretenberg) options.height
    (treeLeaves options.height ingested record.treeId) record.index
  root := rootAt barretenberg options ingested record.treeId

def Due (ingested : List LeafRecord) (treeId : Nat) : Task → Outcome → Prop
  | .sync, _ => False
  | .root asked, outcome =>
      asked = treeId ∧ outcome = .root treeId (rootAt barretenberg options ingested treeId)
  | .witness account enrollmentId record, outcome =>
      record.treeId = treeId ∧
        record.index < (treeLeaves options.height ingested treeId).length ∧
        outcome = .witness account enrollmentId (witnessAt barretenberg options ingested record)

/-- A task has read the first of the leaves asked for, and on being given all
of them returns what it is to return. -/
inductive Working (ingested : List LeafRecord) : List Task → Work → Prop
  | advancing (tasks : List Task) : Working ingested tasks .advancing
  | reading {task : Task} {others : List Task} {treeId start count : Nat}
      {next : List Bytes32 → Reading Bytes32 Outcome} {outcome : Outcome} {had : Nat}
      (due : Due barretenberg options ingested treeId task outcome) (partly : had < count)
      (gives : Asking.Gives (slice (treeLeaves options.height ingested treeId))
        (Within (treeLeaves options.height ingested treeId)) (.ask (start, count) next)
        outcome) :
      Working ingested (task :: others) (.reading treeId start count
        (slice (treeLeaves options.height ingested treeId) (start, had)) next)

structure Sound (ingested : List LeafRecord) (state : State) : Prop where
  kept : state.store.Kept
  holds : Ingested barretenberg options ingested state.index
  stored : Prefix options state.store ingested
  asked : ∀ account enrollmentId record, .witness account enrollmentId record ∈ state.indexing →
    Names state.store account enrollmentId record
  working : Working barretenberg options ingested state.indexing state.work

/-- How a request may end, with the index over the records ingested, and the
running sync's result. -/
inductive Right (ingested : List LeafRecord) (store : MemoryStore) (out : SyncResult) :
    Outcome → Prop
  | synced : Right ingested store out (.synced out)
  | root (treeId : Nat) :
      Right ingested store out (.root treeId (rootAt barretenberg options ingested treeId))
  | witness {account : Text} {enrollmentId : Bytes32} {record : LeafRecord}
      (names : Names store account enrollmentId record)
      (bound : record.index < (treeLeaves options.height ingested record.treeId).length) :
      Right ingested store out
        (.witness account enrollmentId (witnessAt barretenberg options ingested record))
  | source : Right ingested store out (.failed .source)
  | notIndexed {account : Text} {enrollmentId : Bytes32}
      (absent : store.find account enrollmentId = none) :
      Right ingested store out (.failed (.notIndexed account enrollmentId))
  | gap {account : Text} {enrollmentId : Bytes32} {record : LeafRecord}
      (names : Names store account enrollmentId record)
      (whole : store.byTree (placeOf options.height ingested.length) = none)
      (beyond : (treeLeaves options.height ingested record.treeId).length ≤ record.index) :
      Right ingested store out (.failed (.gap record.treeId record.index))

/-- What a step keeps, of a state over the records ingested before it. -/
structure Advances (ingested : List LeafRecord) (before : State)
    (result : Option Outcome × State) : Prop where
  grown : before.store.Grown result.2.store
  sound : ∃ more, Sound barretenberg options (ingested ++ more) result.2 ∧
    ∀ outcome, result.1 = some outcome →
      Right barretenberg options (ingested ++ more) result.2.store (syncResult before) outcome

end Holding

section Holds

variable {barretenberg : Poseidon2} {options : IndexOptions} {ingested : List LeafRecord}
  {state : State}

theorem sound_empty : Sound barretenberg options [] .empty := by
  constructor
  · exact MemoryStore.kept_empty
  · exact ingested_empty
  · intro n record held
    cases held
  · intro account enrollmentId record member
    cases member
  · exact .advancing _

theorem Names.grown {store store' : MemoryStore} {account : Text} {enrollmentId : Bytes32}
    {record : LeafRecord} (names : Names store account enrollmentId record)
    (grown : store.Grown store') : Names store' account enrollmentId record := by
  constructor
  · exact names.account
  · exact names.enrollmentId
  · exact grown _ _ names.stored

theorem Prefix.grown {store store' : MemoryStore} (stored : Prefix options store ingested)
    (grown : store.Grown store') : Prefix options store' ingested :=
  fun n record held => grown _ _ (stored n record held)

theorem Working.append {tasks : List Task} {work : Work}
    (working : Working barretenberg options ingested tasks work) (more : List Task) :
    Working barretenberg options ingested (tasks ++ more) work := by
  cases working with
  | advancing => exact .advancing _
  | reading due partly gives => exact .reading due partly gives

/-- A record of a leaf in a tree is the one ingested there. -/
theorem Prefix.leaf {store : MemoryStore} (stored : Prefix options store ingested)
    {treeId index : Nat} (bound : index < (treeLeaves options.height ingested treeId).length) :
    ∃ record, store.get treeId index = some record ∧
      (treeLeaves options.height ingested treeId)[index]? = some record.leaf := by
  rw [treeLeaves_length, Nat.lt_min] at bound
  have within : treeId * 2 ^ options.height + index < ingested.length := by omega
  have held := stored _ _ (List.getElem?_eq_getElem within)
  rw [placeOf_mul_add bound.1] at held
  exact ⟨_, held, treeLeaves_getElem? within bound.1⟩

/-- The leaf at the place of a record that is named is the record's. -/
theorem Prefix.named {store : MemoryStore} (stored : Prefix options store ingested)
    {account : Text} {enrollmentId : Bytes32} {record : LeafRecord}
    (names : Names store account enrollmentId record)
    (bound : record.index < (treeLeaves options.height ingested record.treeId).length) :
    (treeLeaves options.height ingested record.treeId)[record.index] = record.leaf := by
  obtain ⟨held, found, leaf⟩ := stored.leaf bound
  have mine : store.get record.treeId record.index = some record := names.stored
  rw [mine, Option.some.injEq] at found
  rw [← found] at leaf
  exact (List.getElem?_eq_some_iff.mp leaf).2

/-- A witness leads from its leaf to its root. -/
theorem Prefix.climbs {store : MemoryStore} (stored : Prefix options store ingested)
    {account : Text} {enrollmentId : Bytes32} {record : LeafRecord}
    (names : Names store account enrollmentId record)
    (bound : record.index < (treeLeaves options.height ingested record.treeId).length) :
    rootFromPath barretenberg record.leaf record.index
        (witnessAt barretenberg options ingested record).siblings =
      rootAt barretenberg options ingested record.treeId := by
  rw [← stored.named names bound]
  exact @rootFromPath_siblings _ (hashing barretenberg) options.height record.index _
    treeLeaves_fits bound

/-! ### Steps of a sync -/

/-- Requests take their places, and the index is left alone. -/
structure Queues (state state' : State) : Prop where
  store : state'.store = state.store
  index : state'.index = state.index
  work : state'.work = state.work
  indexing : ∃ more, state'.indexing = state.indexing ++ more ∧
    ∀ account enrollmentId record, .witness account enrollmentId record ∈ more →
      Names state.store account enrollmentId record

theorem Queues.rfl {syncing : List Pull} {finding : List (Text × Bytes32)} :
    Queues state { state with syncing := syncing, finding := finding } := by
  refine ⟨Eq.refl _, Eq.refl _, Eq.refl _, [], (List.append_nil _).symm, ?_⟩
  intro account enrollmentId record member
  cases member

theorem again_queues (state : State) (remaining : Nat) (cursor : Option Text) (out : SyncResult)
    (waiting : List Pull) : Queues state (again state remaining cursor out waiting) := by
  cases remaining with
  | zero =>
      refine ⟨rfl, rfl, rfl, [.sync], rfl, ?_⟩
      intro account enrollmentId record member
      simp at member
  | succ remaining => exact .rfl

theorem pageEnd_queues (state : State) (remaining : Nat) (cursor : Option Text) (page : Page)
    (out : SyncResult) (waiting : List Pull) :
    Queues state (pageEnd state remaining cursor page out waiting) := by
  rw [pageEnd]
  split
  · exact again_queues state 0 cursor out waiting
  · exact again_queues state remaining cursor out waiting

theorem putNext_queues (state : State) (remaining : Nat) (cursor : Option Text) (page : Page)
    (rest : List LeafRecord) (out : SyncResult) (waiting : List Pull) :
    Queues state (putNext state remaining cursor page rest out waiting) := by
  cases rest with
  | cons record rest => exact .rfl
  | nil =>
      rw [putNext]
      cases page.cursor with
      | none => exact pageEnd_queues state remaining cursor page out waiting
      | some next =>
          dsimp only
          split
          · exact pageEnd_queues state remaining cursor page out waiting
          · exact .rfl

theorem Sound.advances {result : Option Outcome × State}
    (grown : state.store.Grown result.2.store)
    (after : Sound barretenberg options ingested result.2)
    (right : ∀ outcome, result.1 = some outcome →
      Right barretenberg options ingested result.2.store (syncResult state) outcome) :
    Advances barretenberg options ingested state result := by
  constructor
  · exact grown
  · refine ⟨[], ?_⟩
    rw [List.append_nil]
    exact ⟨after, right⟩

theorem Sound.queued (sound : Sound barretenberg options ingested state) {store : MemoryStore}
    (kept : store.Kept) (grown : state.store.Grown store) {reply : Option Outcome}
    {state' : State} (queues : Queues { state with store := store } state')
    (right : ∀ outcome, reply = some outcome →
      Right barretenberg options ingested store (syncResult state) outcome) :
    Advances barretenberg options ingested state (reply, state') := by
  have stored : state'.store = store := queues.store
  obtain ⟨more, joined, named⟩ := queues.indexing
  refine Sound.advances (stored ▸ grown) ?_ (stored ▸ right)
  constructor
  · exact stored ▸ kept
  · rw [queues.index]
    exact sound.holds
  · exact sound.stored.grown (stored ▸ grown)
  · intro account enrollmentId record member
    rw [joined] at member
    rw [stored]
    rcases List.mem_append.mp member with earlier | newest
    · exact (sound.asked account enrollmentId record earlier).grown grown
    · exact named account enrollmentId record newest
  · rw [queues.work, joined]
    exact sound.working.append more

theorem Sound.pull (sound : Sound barretenberg options ingested state) :
    Advances barretenberg options ingested state (pull state) := by
  have silent (store : MemoryStore) (outcome : Outcome) (replied : none = some outcome) :
      Right barretenberg options ingested store (syncResult state) outcome := by
    cases replied
  rw [Indexer.pull]
  split
  · exact sound.queued sound.kept (.refl _) (again_queues state _ _ _ _) (silent _)
  · rename_i record _ _ _ _
    exact sound.queued (sound.kept.put record) (state.store.put_grown record)
      (putNext_queues _ _ _ _ _ _ _) (silent _)
  · rename_i next _ _ _
    have kept : (state.store.setCursor next).Kept :=
      ⟨sound.kept.placed, sound.kept.named, sound.kept.findable⟩
    exact sound.queued kept (fun _ _ stored => stored) (pageEnd_queues _ _ _ _ _ _) (silent _)
  · exact sound.queued sound.kept (.refl _) .rfl (silent _)

theorem Sound.answer (sound : Sound barretenberg options ingested state) (page : Option Page) :
    Advances barretenberg options ingested state (answer state page) := by
  unfold Indexer.answer
  split
  · refine sound.queued sound.kept (.refl _) (putNext_queues _ _ _ _ _ _ _) ?_
    intro outcome replied
    cases replied
  · refine sound.queued sound.kept (.refl _) .rfl ?_
    intro outcome replied
    cases replied
    exact .source
  · refine sound.queued sound.kept (.refl _) .rfl ?_
    intro outcome replied
    cases replied

theorem Sound.find (sound : Sound barretenberg options ingested state) (k : Nat) :
    Advances barretenberg options ingested state (find state k) := by
  rw [Indexer.find]
  split
  · refine sound.queued sound.kept (.refl _) .rfl ?_
    intro outcome replied
    cases replied
  · rename_i account enrollmentId _
    dsimp only
    split
    · rename_i absent
      refine sound.queued sound.kept (.refl _) .rfl ?_
      intro outcome replied
      cases replied
      exact .notIndexed absent
    · rename_i record found
      refine sound.queued sound.kept (.refl _) ⟨rfl, rfl, rfl, _, rfl, ?_⟩ ?_
      · intro account' enrollmentId' record' member
        cases List.mem_singleton.mp member
        obtain ⟨accounts, ids, stored⟩ := sound.kept.found found
        exact ⟨accounts, ids, stored⟩
      · intro outcome replied
        cases replied

/-! ### Steps of the index -/

variable {task : Task} {others : List Task}

/-- The next task finds the index as it was left. -/
theorem Sound.finish (sound : Sound barretenberg options ingested state)
    (turn : state.indexing = task :: others) {outcome : Outcome}
    (right : Right barretenberg options ingested state.store (syncResult state) outcome) :
    Advances barretenberg options ingested state (finish state task others outcome) := by
  refine Sound.advances (.refl _) ?_ ?_
  · constructor
    · exact sound.kept
    · exact sound.holds
    · exact sound.stored
    · intro account enrollmentId record member
      apply sound.asked account enrollmentId record
      rw [turn]
      exact List.mem_cons_of_mem _ member
    · exact .advancing _
  · intro outcome' replied
    cases replied
    exact right

/-- A computation that is given what it asks for waits for more, or is done. -/
theorem proceed_spec {leaves : List Bytes32} {computation : Reading Bytes32 Outcome}
    {outcome : Outcome} (treeId : Nat)
    (gives : Asking.Gives (slice leaves) (Within leaves) computation outcome) :
    proceed treeId computation = .inr outcome ∨
      ∃ start count next, proceed treeId computation = .inl (.reading treeId start count [] next) ∧
        0 < count ∧ Asking.Gives (slice leaves) (Within leaves) (.ask (start, count) next)
          outcome := by
  induction computation with
  | done value =>
      cases gives.returns
      exact Or.inl rfl
  | failed failure => cases gives.returns
  | ask question next ih =>
      obtain ⟨start, count⟩ := question
      rw [proceed]
      split
      · rename_i none
        have empty : slice leaves (start, count) = [] := by
          rw [slice, none, List.take_zero]
        apply ih
        rw [← empty]
        constructor
        · exact gives.returns
        · intro asked member
          exact gives.asks asked (List.mem_cons_of_mem _ member)
      · rename_i some
        exact Or.inr ⟨start, count, next, rfl, Nat.pos_of_ne_zero some, gives⟩

theorem Due.right {treeId : Nat} {outcome : Outcome}
    (due : Due barretenberg options ingested treeId task outcome)
    (sound : Sound barretenberg options ingested state)
    (turn : state.indexing = task :: others) :
    Right barretenberg options ingested state.store (syncResult state) outcome := by
  cases task with
  | sync => exact due.elim
  | root asked =>
      obtain ⟨rfl, rfl⟩ := due
      exact .root asked
  | witness account enrollmentId record =>
      obtain ⟨rfl, bound, rfl⟩ := due
      exact .witness (sound.asked account enrollmentId record (turn ▸ List.mem_cons_self)) bound

theorem Sound.reading (sound : Sound barretenberg options ingested state)
    (turn : state.indexing = task :: others) {treeId start count had : Nat}
    {next : List Bytes32 → Reading Bytes32 Outcome} {outcome : Outcome}
    (due : Due barretenberg options ingested treeId task outcome) (partly : had < count)
    (gives : Asking.Gives (slice (treeLeaves options.height ingested treeId))
      (Within (treeLeaves options.height ingested treeId)) (.ask (start, count) next) outcome) :
    Sound barretenberg options ingested { state with
      work := .reading treeId start count
        (slice (treeLeaves options.height ingested treeId) (start, had)) next } := by
  constructor
  · exact sound.kept
  · exact sound.holds
  · exact sound.stored
  · exact sound.asked
  · rw [turn]
    exact .reading due partly gives

theorem Sound.resume (sound : Sound barretenberg options ingested state)
    (turn : state.indexing = task :: others) {treeId : Nat} {outcome : Outcome}
    (due : Due barretenberg options ingested treeId task outcome)
    {computation : Reading Bytes32 Outcome}
    (gives : Asking.Gives (slice (treeLeaves options.height ingested treeId))
      (Within (treeLeaves options.height ingested treeId)) computation outcome) :
    Advances barretenberg options ingested state
      (resume state task others treeId computation) := by
  rw [Indexer.resume]
  rcases proceed_spec treeId gives with done | ⟨start, count, next, waits, some, rest⟩
  · rw [done]
    exact sound.finish turn (due.right sound turn)
  · rw [waits]
    refine Sound.advances (.refl _) (sound.reading turn due some rest) ?_
    intro outcome' replied
    cases replied

/-- The root of each tree is what it should be, of the leaves ingested. -/
theorem Sound.rootOf (sound : Sound barretenberg options ingested state) (treeId : Nat) :
    Asking.Gives (slice (treeLeaves options.height ingested treeId))
      (Within (treeLeaves options.height ingested treeId))
      (rootOf barretenberg options state.index treeId)
      (.root treeId (rootAt barretenberg options ingested treeId)) :=
  ((sound.holds.trees treeId).root (zeroChain _ _) fun _ _ => rfl).bind (.pure _)

theorem Sound.witnessOf (sound : Sound barretenberg options ingested state) (account : Text)
    (enrollmentId : Bytes32) {record : LeafRecord}
    (bound : record.index < (treeLeaves options.height ingested record.treeId).length) :
    Asking.Gives (slice (treeLeaves options.height ingested record.treeId))
      (Within (treeLeaves options.height ingested record.treeId))
      (witnessOf barretenberg options state.index account enrollmentId record)
      (.witness account enrollmentId (witnessAt barretenberg options ingested record)) :=
  ((sound.holds.trees record.treeId).witness (zeroChain _ _) (fun _ => rfl) (fun _ _ => rfl)
    (Nat.min_le_right _ _) bound).bind (.pure _)

theorem Sound.opened (sound : Sound barretenberg options ingested state) (treeId : Nat) :
    Sound barretenberg options ingested
      { state with index := state.index.opened barretenberg options treeId } :=
  { sound with holds := sound.holds.opened treeId }

/-- With nothing stored at the next place, the index has advanced. -/
theorem Sound.advanced (sound : Sound barretenberg options ingested state)
    (turn : state.indexing = task :: others)
    (whole : state.store.byTree (placeOf options.height ingested.length) = none) :
    Advances barretenberg options ingested state
      (advanced barretenberg options state task others) := by
  unfold Indexer.advanced
  cases task with
  | sync => exact sound.finish turn .synced
  | root treeId =>
      obtain ⟨grown, after⟩ := (sound.opened treeId).resume turn ⟨rfl, rfl⟩ (sound.rootOf treeId)
      exact ⟨grown, after⟩
  | witness account enrollmentId record =>
      have names := sound.asked account enrollmentId record (turn ▸ List.mem_cons_self)
      dsimp only
      rw [sound.holds.size]
      split
      · rename_i beyond
        exact sound.finish turn (.gap names whole beyond)
      · rename_i below
        have bound := Nat.lt_of_not_le below
        obtain ⟨grown, after⟩ := (sound.opened record.treeId).resume turn ⟨rfl, bound, rfl⟩
          (sound.witnessOf account enrollmentId bound)
        exact ⟨grown, after⟩

theorem Sound.ingest (sound : Sound barretenberg options ingested state) {record : LeafRecord}
    (held : state.store.byTree (placeOf options.height ingested.length) = some record)
    (working : state.work = .advancing) :
    ∃ next, state.index.ingest barretenberg options state.index.current
        (state.index.size state.index.current) record.leaf = .ok next ∧
      Sound barretenberg options (ingested ++ [record]) { state with index := next } := by
  obtain ⟨next, ingests, holds⟩ := sound.holds.ingest record
  refine ⟨next, ingests, ?_⟩
  constructor
  · exact sound.kept
  · exact holds
  · intro n stored found
    rcases Nat.lt_trichotomy n ingested.length with before | rfl | beyond
    · rw [List.getElem?_append_left before] at found
      exact sound.stored n stored found
    · rw [List.getElem?_concat_length, Option.some.injEq] at found
      exact found ▸ held
    · rw [List.getElem?_eq_none (by simp; omega)] at found
      cases found
  · exact sound.asked
  · change Working _ _ _ state.indexing state.work
    rw [working]
    exact .advancing _

theorem Sound.advance (sound : Sound barretenberg options ingested state)
    (turn : state.indexing = task :: others) (working : state.work = .advancing) :
    Advances barretenberg options ingested state
      (advance barretenberg options state task others) := by
  have next : state.store.get state.index.current (state.index.size state.index.current) =
      state.store.byTree (placeOf options.height ingested.length) := by
    rw [MemoryStore.get, sound.holds.next]
  rw [Indexer.advance]
  split
  · rename_i whole
    rw [next] at whole
    exact sound.advanced turn whole
  · rename_i record held
    rw [next] at held
    obtain ⟨index, ingests, after⟩ := sound.ingest held working
    rw [ingests]
    constructor
    · exact .refl _
    · refine ⟨[record], after, ?_⟩
      intro outcome replied
      cases replied

/-- The leaves asked for are stored, in their places. -/
theorem Sound.read_eq (sound : Sound barretenberg options ingested state)
    {treeId start count had : Nat} {next : List Bytes32 → Reading Bytes32 Outcome}
    {outcome : Outcome} (partly : had < count)
    (gives : Asking.Gives (slice (treeLeaves options.height ingested treeId))
      (Within (treeLeaves options.height ingested treeId)) (.ask (start, count) next) outcome)
    (task : Task) (others : List Task) :
    read state task others treeId start count
        (slice (treeLeaves options.height ingested treeId) (start, had)) next =
      let got := slice (treeLeaves options.height ingested treeId) (start, had + 1)
      if had + 1 < count then (none, { state with work := .reading treeId start count got next })
      else Indexer.resume state task others treeId (next got) := by
  have within : start + count ≤ (treeLeaves options.height ingested treeId).length :=
    gives.asks _ List.mem_cons_self
  have sized : (slice (treeLeaves options.height ingested treeId) (start, had)).length = had := by
    rw [slice, List.length_take, List.length_drop]
    omega
  have below : start + had < (treeLeaves options.height ingested treeId).length := by omega
  obtain ⟨record, held, leaf⟩ := sound.stored.leaf below
  have more : slice (treeLeaves options.height ingested treeId) (start, had) ++ [record.leaf] =
      slice (treeLeaves options.height ingested treeId) (start, had + 1) := by
    rw [slice, slice, List.take_add_one, List.getElem?_drop, leaf]
    rfl
  have longer :
      (slice (treeLeaves options.height ingested treeId) (start, had + 1)).length = had + 1 := by
    rw [← more, List.length_append, sized, List.length_singleton]
  rw [Indexer.read, sized, held]
  dsimp only
  rw [more, longer]

theorem Sound.read (sound : Sound barretenberg options ingested state)
    (turn : state.indexing = task :: others) {treeId start count had : Nat}
    {next : List Bytes32 → Reading Bytes32 Outcome} {outcome : Outcome}
    (due : Due barretenberg options ingested treeId task outcome) (partly : had < count)
    (gives : Asking.Gives (slice (treeLeaves options.height ingested treeId))
      (Within (treeLeaves options.height ingested treeId)) (.ask (start, count) next) outcome) :
    Advances barretenberg options ingested state
      (read state task others treeId start count
        (slice (treeLeaves options.height ingested treeId) (start, had)) next) := by
  rw [sound.read_eq partly gives]
  dsimp only
  split
  · rename_i still
    refine Sound.advances (.refl _) (sound.reading turn due still gives) ?_
    intro outcome' replied
    cases replied
  · rename_i whole
    obtain rfl : count = had + 1 := by omega
    apply sound.resume turn due
    constructor
    · exact gives.returns
    · intro asked member
      exact gives.asks asked (List.mem_cons_of_mem _ member)

theorem Sound.index (sound : Sound barretenberg options ingested state) :
    Advances barretenberg options ingested state (index barretenberg options state) := by
  rw [Indexer.index]
  split
  · exact sound.queued sound.kept (.refl _) .rfl (by simp)
  · rename_i task others turn
    have working := sound.working
    rw [turn] at working
    generalize at_ : state.work = work at working
    cases working with
    | advancing => exact sound.advance turn at_
    | reading due partly gives => exact sound.read turn due partly gives

/-- Every step leaves the index over the first records of the store. -/
theorem Sound.step (sound : Sound barretenberg options ingested state) (event : Event) :
    Advances barretenberg options ingested state
      ((indexer barretenberg options).respond state event) := by
  have silent (outcome : Outcome) (replied : none = some outcome) :
      Right barretenberg options ingested state.store (syncResult state) outcome := by
    cases replied
  cases event with
  | sync maxPages => exact sound.queued sound.kept (.refl _) .rfl silent
  | root treeId =>
      refine sound.queued sound.kept (.refl _) ⟨rfl, rfl, rfl, _, rfl, ?_⟩ silent
      intro account enrollmentId record member
      simp at member
  | witness account enrollmentId => exact sound.queued sound.kept (.refl _) .rfl silent
  | pulled => exact sound.pull
  | answered page => exact sound.answer page
  | found k => exact sound.find k
  | indexed => exact sound.index

/-! ### Runs -/

variable {history : List IndexerStep}

theorem ingested_length {earlier later : List LeafRecord} {index : PoolWitnessIndex}
    (first : Ingested barretenberg options earlier index)
    (second : Ingested barretenberg options later index) : earlier.length = later.length :=
  placeOf_injective (first.next.symm.trans second.next)

theorem sound_of_run
    (run : Execution (indexer barretenberg options) () .empty history () state) :
    ∃ ingested, Sound barretenberg options ingested state := by
  refine run.invariant (fun _ _ state => ∃ ingested, Sound barretenberg options ingested state)
    ⟨[], sound_empty⟩ (fun holds _ => holds) ?_
  intro history state event ⟨ingested, sound⟩
  obtain ⟨more, after, _⟩ := (sound.step event).sound
  exact ⟨ingested ++ more, after⟩

theorem sound_before
    (run : Execution (indexer barretenberg options) () .empty history () state)
    {taken : IndexerStep} (member : taken ∈ history) :
    ∃ ingested, Sound barretenberg options ingested taken.before ∧
      Advances barretenberg options ingested taken.before (taken.reply, taken.after) := by
  obtain ⟨later, earlier, rfl⟩ := List.append_of_mem member
  obtain ⟨executed, before, _⟩ := run.split later
  obtain ⟨ingested, sound⟩ := sound_of_run before
  refine ⟨ingested, sound, ?_⟩
  rw [executed]
  exact sound.step taken.action

/-- An advance that takes no record has come to a place where none is stored. -/
theorem Sound.stops (sound : Sound barretenberg options ingested state)
    (turn : state.indexing ≠ []) (working : state.work = .advancing)
    (still : Ingested barretenberg options ingested
      (Indexer.index barretenberg options state).2.index) :
    state.store.byTree (placeOf options.height ingested.length) = none := by
  cases held : state.store.byTree (placeOf options.height ingested.length) with
  | none => rfl
  | some record =>
      obtain ⟨task, others, tasks⟩ := List.exists_cons_of_ne_nil turn
      obtain ⟨next, ingests, holds⟩ := sound.holds.ingest record
      have taken : (Indexer.index barretenberg options state).2.index = next := by
        rw [Indexer.index, tasks]
        dsimp only
        rw [working]
        dsimp only
        rw [Indexer.advance, MemoryStore.get, sound.holds.next, held]
        dsimp only
        rw [ingests]
      rw [taken] at still
      have longer := ingested_length still holds
      rw [List.length_append, List.length_singleton] at longer
      omega

section Results

variable (barretenberg options)

end Results

/-- Every witness returned leads from the leaf stored for the enrollment to the
root of its tree over the leaves indexed. -/
theorem witness_leads_to_root
    (run : Execution (indexer barretenberg options) () .empty history () state)
    {taken : IndexerStep} (member : taken ∈ history) {account : Text} {enrollmentId : Bytes32}
    {w : Witness} (replied : taken.reply = some (.witness account enrollmentId w)) :
    ∃ ingested record, Ingested barretenberg options ingested taken.after.index ∧
      Prefix options taken.after.store ingested ∧
      record.account = account ∧ record.enrollmentId = enrollmentId ∧
      taken.after.store.get w.treeId w.index = some record ∧ record.leaf = w.leaf ∧
      w.index < taken.after.index.size w.treeId ∧
      w.root = rootAt barretenberg options ingested w.treeId ∧
      w.siblings.length = options.height ∧
      rootFromPath barretenberg w.leaf w.index w.siblings = w.root := by
  obtain ⟨_, _, _, more, after, right⟩ := sound_before run member
  cases right _ replied with
  | @witness _ _ record names bound =>
      refine ⟨_, record, after.holds, after.stored, names.account, names.enrollmentId,
        names.stored, rfl, ?_, rfl, ?_, after.stored.climbs names bound⟩
      · rw [after.holds.size]
        exact bound
      · rw [witnessAt, WitnessTree.siblings, List.length_map, List.length_range]

end Holds

/-! ### A run in which a leaf is stored while a witness is made -/

namespace Indexed

def options : IndexOptions := { depth := some 1, chunkLevel := some 0 }

/-- The records of a pool whose trees have two leaves each. -/
def record (n : Nat) : LeafRecord where
  treeId := n / 2
  index := n % 2
  leaf := be32 (n + 8)
  root := be32 0
  account := utf16 "C"
  enrollmentId := be32 n
  ledger := some n

/-- The first record is served after the third, and the second after both. -/
def events : List Event :=
  [.sync 2, .pulled, .answered (some ⟨[record 2, record 0], some (utf16 "1")⟩), .pulled, .pulled,
    .witness (utf16 "C") (be32 0), .pulled, .found 0, .indexed, .indexed,
    .answered (some ⟨[record 1, record 0], none⟩), .pulled, .indexed]

def reached : List IndexerStep × State :=
  (indexer Filled.poseidon2 options).play [] .empty events

theorem run : Execution (indexer Filled.poseidon2 options) () .empty reached.1 () reached.2 :=
  Execution.refl.play (List.pairwise_of_forall fun _ _ => trivial)

def before : State :=
  ((indexer Filled.poseidon2 options).play [] .empty (events.take 12)).2

def answered : IndexerStep := (indexer Filled.poseidon2 options).step before .indexed

theorem answered_listed : answered ∈ reached.1 := List.mem_cons_self

def path : Witness where
  treeId := 0
  index := 0
  leaf := be32 8
  siblings := [be32 0]
  root := node Filled.poseidon2 (be32 8) (be32 0)

theorem replied : answered.reply = some (.witness (utf16 "C") (be32 0) path) := by
  decide +kernel

end Indexed

/-- By then the second leaf was stored, and not yet indexed. -/
theorem witness_leads_to_root_sample :
    (Indexed.answered.before.store.get 0 1).isSome = true ∧
      Indexed.answered.after.index.size 0 = 1 ∧
      rootFromPath Filled.poseidon2 Indexed.path.leaf 0 Indexed.path.siblings =
        Indexed.path.root := by
  obtain ⟨_, _, _, _, _, _, _, _, _, _, _, climbs⟩ :=
    witness_leads_to_root Indexed.run Indexed.answered_listed Indexed.replied
  exact ⟨by decide +kernel, by decide +kernel, climbs⟩

end Perch.PerchZk.Indexer
