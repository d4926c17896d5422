/-
What becomes of the records a source serves.

A page is put into the store record by record, and only then does the cursor
move past it.  So no interleaving loses a record: each one served is stored, or
its place was taken, or the sync running has it still to put.  A record that
contradicts what is stored is told of by the sync that met it.
-/

import Perch.PerchZk.Indexer

namespace Perch.PerchZk.Indexer

open Machine Machine.Js Zk
open Machine.WitnessTree hiding siblings Tree

variable {barretenberg : Poseidon2} {options : IndexOptions} {history : List IndexerStep}
  {state : State}

/-! ### Turns -/

def Task.isSync : Task → Bool
  | .sync => true
  | _ => false

/-- A step of the index leaves the store, and ends the first task or none. -/
structure Turn (state : State) (result : Option Outcome × State) : Prop where
  store : result.2.store = state.store
  ends : (result.2.syncing = state.syncing ∧ result.2.indexing = state.indexing) ∨
    ∃ task others, state.indexing = task :: others ∧ result.2.indexing = others ∧
      result.2.syncing = if task.isSync then state.syncing.tail else state.syncing

theorem Turn.finish {task : Task} {others : List Task} (turn : state.indexing = task :: others)
    (index : PoolWitnessIndex) (outcome : Outcome) :
    Turn state (finish { state with index := index } task others outcome) := by
  constructor
  · rfl
  · right
    refine ⟨task, others, turn, rfl, ?_⟩
    cases task with
    | sync => rfl
    | root treeId => rfl
    | witness account enrollmentId record => rfl

theorem Turn.resume {task : Task} {others : List Task} (turn : state.indexing = task :: others)
    (index : PoolWitnessIndex) (treeId : Nat) (computation : Reading Bytes32 Outcome) :
    Turn state (resume { state with index := index } task others treeId computation) := by
  rw [Indexer.resume]
  split
  · exact ⟨rfl, Or.inl ⟨rfl, rfl⟩⟩
  · exact .finish turn index _

theorem turn_advanced {task : Task} {others : List Task} (turn : state.indexing = task :: others) :
    Turn state (advanced barretenberg options state task others) := by
  unfold advanced
  cases task with
  | sync => exact .finish turn state.index _
  | root treeId => exact .resume turn _ _ _
  | witness account enrollmentId record =>
      dsimp only
      split
      · exact .finish turn state.index _
      · exact .resume turn _ _ _

theorem turn_index (state : State) : Turn state (index barretenberg options state) := by
  rw [index]
  split
  · exact ⟨rfl, Or.inl ⟨rfl, rfl⟩⟩
  · rename_i task others turn
    split
    · rw [advance]
      split
      · exact turn_advanced turn
      · split
        · exact ⟨rfl, Or.inl ⟨rfl, rfl⟩⟩
        · exact .finish turn _ _
    · rw [read]
      split
      · exact .finish turn state.index _
      · dsimp only
        split
        · exact ⟨rfl, Or.inl ⟨rfl, rfl⟩⟩
        · exact .resume turn state.index _ _

/-! ### Pages -/

def Served (history : List IndexerStep) (cursor : Option Text) (page : Page) : Prop :=
  ∃ taken ∈ history, taken.action = .answered (some page) ∧
    ∃ remaining out waiting, taken.before.syncing = .paging remaining cursor out :: waiting

/-- A record is stored, or the sync's result tells of it. -/
def Settled (store : MemoryStore) (out : SyncResult) (record : LeafRecord) : Prop :=
  ∃ held, store.byTree record.place = some held ∧
    (same held record = true ∨ record ∈ out.conflicts)

/-- A sync tells only of records that contradict what is stored. -/
def Contradicted (store : MemoryStore) (out : SyncResult) : Prop :=
  ∀ record ∈ out.conflicts, ∃ held, store.byTree record.place = some held ∧
    same held record = false

def Pull.rest : Pull → List LeafRecord
  | .putting _ _ _ rest _ => rest
  | _ => []

def Pull.waits : Pull → Bool
  | .indexing _ => true
  | _ => false

def At (history : List IndexerStep) (store : MemoryStore) : Pull → Prop
  | .starting _ => True
  | .paging _ cursor out => cursor = store.cursor ∧ Contradicted store out
  | .putting _ cursor page rest out =>
      cursor = store.cursor ∧ Contradicted store out ∧ Served history cursor page ∧
        ∃ done, page.records = done ++ rest ∧ ∀ record ∈ done, Settled store out record
  | .moving _ page next out =>
      Contradicted store out ∧ Served history store.cursor page ∧ page.cursor = some next ∧
        ∀ record ∈ page.records, Settled store out record
  | .indexing out => Contradicted store out

/-- Every record served is settled or still to be put, and none is made up. -/
structure Pages (history : List IndexerStep) (state : State) : Prop where
  waiting : ∀ pull ∈ state.syncing.tail, ∃ maxPages, pull = .starting maxPages
  head : ∀ pull, state.syncing.head? = some pull → At history state.store pull
  turns : state.indexing.countP Task.isSync =
    ((state.syncing.head?.map Pull.waits).getD false).toNat
  settled : ∀ cursor page, Served history cursor page → ∀ record ∈ page.records,
    (state.store.byTree record.place).isSome = true ∨
      record ∈ (state.syncing.head?.map Pull.rest).getD []
  served : ∀ place record, state.store.byTree place = some record →
    ∃ cursor page, Served history cursor page ∧ record ∈ page.records

theorem pages_empty : Pages [] .empty := by
  constructor
  · intro pull member
    cases member
  · intro pull first
    cases first
  · rfl
  · intro cursor page ⟨taken, member, _⟩
    cases member
  · intro place record stored
    cases stored

theorem Served.cons {cursor : Option Text} {page : Page} (served : Served history cursor page)
    (taken : IndexerStep) : Served (taken :: history) cursor page := by
  obtain ⟨earlier, member, answered⟩ := served
  exact ⟨earlier, List.mem_cons_of_mem _ member, answered⟩

theorem Served.earlier {cursor : Option Text} {page : Page} {taken : IndexerStep}
    (served : Served (taken :: history) cursor page)
    (other : taken.action ≠ .answered (some page)) : Served history cursor page := by
  obtain ⟨earlier, member, answered, asking⟩ := served
  rcases List.mem_cons.mp member with rfl | before
  · exact absurd answered other
  · exact ⟨earlier, before, answered, asking⟩

section Stores

variable {store store' : MemoryStore} {out : SyncResult}

theorem Settled.grown {record : LeafRecord} (settled : Settled store out record)
    (grown : store.Grown store') : Settled store' out record := by
  obtain ⟨held, stored, told⟩ := settled
  exact ⟨held, grown _ _ stored, told⟩

theorem Contradicted.grown (contradicted : Contradicted store out) (grown : store.Grown store') :
    Contradicted store' out := by
  intro record told
  obtain ⟨held, stored, differs⟩ := contradicted record told
  exact ⟨held, grown _ _ stored, differs⟩

theorem At.cons {pull : Pull} (at_ : At history store pull) (taken : IndexerStep) :
    At (taken :: history) store pull := by
  cases pull with
  | starting maxPages => trivial
  | paging remaining cursor out => exact at_
  | putting remaining cursor page rest out =>
      obtain ⟨here, contradicted, served, done⟩ := at_
      exact ⟨here, contradicted, served.cons taken, done⟩
  | moving remaining page next out =>
      obtain ⟨contradicted, served, moves⟩ := at_
      exact ⟨contradicted, served.cons taken, moves⟩
  | indexing out => exact at_

/-- Putting a record settles it, and what was settled stays so. -/
theorem put_settles (store : MemoryStore) (out : SyncResult) (record : LeafRecord) :
    Settled (store.put record).2 (out.add record (store.put record).1) record ∧
      (∀ other, Settled store out other →
        Settled (store.put record).2 (out.add record (store.put record).1) other) ∧
      (Contradicted store out →
        Contradicted (store.put record).2 (out.add record (store.put record).1)) := by
  have grown := store.put_grown record
  rcases store.put_cases record with ⟨_, put⟩ | ⟨existing, held, unchanged, result⟩
  · rw [put] at grown ⊢
    have here : (store.insert record).byTree record.place = some record :=
      Function.update_self ..
    refine ⟨⟨record, here, Or.inl (same_iff.mpr rfl)⟩, ?_, ?_⟩
    · intro other settled
      exact settled.grown grown
    · intro contradicted
      exact contradicted.grown grown
  · rw [unchanged]
    rcases result with ⟨agrees, duplicate⟩ | ⟨differs, conflict⟩
    · rw [duplicate]
      exact ⟨⟨existing, held, Or.inl agrees⟩, fun _ settled => settled, fun unsettled => unsettled⟩
    · rw [conflict]
      refine ⟨⟨existing, held, Or.inr (by simp [SyncResult.add])⟩, ?_, ?_⟩
      · intro other ⟨stored, found, told⟩
        refine ⟨stored, found, told.imp_right ?_⟩
        intro earlier
        exact List.mem_append_left _ earlier
      · intro contradicted other told
        rcases List.mem_append.mp told with earlier | newest
        · exact contradicted other earlier
        · rw [List.mem_singleton.mp newest]
          exact ⟨existing, held, differs⟩

end Stores

/-! ### Steps -/

/-- The running sync goes on, with some records of its page still to put. -/
structure Goes (history : List IndexerStep) (rest : List LeafRecord) (waiting : List Pull)
    (state state' : State) : Prop where
  store : state'.store = state.store
  pull : ∃ pull, state'.syncing = pull :: waiting ∧ At history state.store pull ∧
    pull.rest = rest ∧ state'.indexing.countP Task.isSync =
      state.indexing.countP Task.isSync + pull.waits.toNat

section Goes

variable {cursor : Option Text} {page : Page} {rest : List LeafRecord} {out : SyncResult}

theorem again_goes (remaining : Nat) (waiting : List Pull) (here : cursor = state.store.cursor)
    (contradicted : Contradicted state.store out) :
    Goes history [] waiting state (again state remaining cursor out waiting) := by
  cases remaining with
  | zero =>
      refine ⟨rfl, .indexing out, rfl, contradicted, rfl, ?_⟩
      rw [again, List.countP_append]
      rfl
  | succ remaining => exact ⟨rfl, .paging remaining cursor out, rfl, ⟨here, contradicted⟩, rfl, rfl⟩

theorem pageEnd_goes (remaining : Nat) (page : Page) (waiting : List Pull)
    (here : cursor = state.store.cursor) (contradicted : Contradicted state.store out) :
    Goes history [] waiting state (pageEnd state remaining cursor page out waiting) := by
  rw [pageEnd]
  split
  · exact again_goes 0 waiting here contradicted
  · exact again_goes remaining waiting here contradicted

theorem putNext_goes (remaining : Nat) (waiting : List Pull) (here : cursor = state.store.cursor)
    (contradicted : Contradicted state.store out) (served : Served history cursor page)
    {done : List LeafRecord} (split : page.records = done ++ rest)
    (settled : ∀ record ∈ done, Settled state.store out record) :
    Goes history rest waiting state (putNext state remaining cursor page rest out waiting) := by
  cases rest with
  | cons record rest =>
      exact ⟨rfl, .putting remaining cursor page (record :: rest) out, rfl,
        ⟨here, contradicted, served, done, split, settled⟩, rfl, rfl⟩
  | nil =>
      rw [List.append_nil] at split
      rw [putNext]
      cases moves : page.cursor with
      | none => exact pageEnd_goes remaining page waiting here contradicted
      | some next =>
          dsimp only
          split
          · exact pageEnd_goes remaining page waiting here contradicted
          · refine ⟨rfl, .moving remaining page next out, rfl, ?_, rfl, rfl⟩
            exact ⟨contradicted, here ▸ served, moves, split ▸ settled⟩

end Goes

theorem Pages.quiet (pages : Pages history state) {taken : IndexerStep} {state' : State}
    (silent : ∀ cursor page, Served (taken :: history) cursor page → Served history cursor page)
    (store : state'.store = state.store) (head : state'.syncing.head? = state.syncing.head?)
    (waiting : ∀ pull ∈ state'.syncing.tail, ∃ maxPages, pull = .starting maxPages)
    (turns : state'.indexing.countP Task.isSync = state.indexing.countP Task.isSync) :
    Pages (taken :: history) state' := by
  constructor
  · exact waiting
  · intro pull first
    rw [head] at first
    rw [store]
    exact (pages.head pull first).cons taken
  · rw [turns, head]
    exact pages.turns
  · intro cursor page served record member
    rw [store, head]
    exact pages.settled cursor page (silent cursor page served) record member
  · intro place record stored
    rw [store] at stored
    obtain ⟨cursor, page, served, member⟩ := pages.served place record stored
    exact ⟨cursor, page, served.cons taken, member⟩

/-- The running sync ends, with nothing left to put, and the next one starts. -/
theorem Pages.drops (pages : Pages history state) {taken : IndexerStep} {pull : Pull}
    {waiting : List Pull} (first : state.syncing = pull :: waiting) (done : pull.rest = [])
    (silent : ∀ cursor page, Served (taken :: history) cursor page → Served history cursor page)
    {state' : State} (store : state'.store = state.store) (syncing : state'.syncing = waiting)
    (turns : state'.indexing.countP Task.isSync = 0) : Pages (taken :: history) state' := by
  have starts : ∀ pull ∈ waiting, ∃ maxPages, pull = Pull.starting maxPages := by
    intro pull member
    apply pages.waiting
    rw [first]
    exact member
  constructor
  · intro other member
    rw [syncing] at member
    exact starts other (List.mem_of_mem_tail member)
  · intro other head
    rw [syncing] at head
    obtain ⟨maxPages, rfl⟩ := starts other (List.mem_of_mem_head? head)
    trivial
  · rw [turns, syncing]
    cases waiting with
    | nil => rfl
    | cons next waiting =>
        obtain ⟨maxPages, rfl⟩ := starts next List.mem_cons_self
        rfl
  · intro cursor page served record member
    rw [store]
    rcases pages.settled cursor page (silent cursor page served) record member with stored | mine
    · exact Or.inl stored
    · rw [first, List.head?_cons, Option.map_some, Option.getD_some, done] at mine
      cases mine
  · intro place record stored
    rw [store] at stored
    obtain ⟨cursor, page, served, member⟩ := pages.served place record stored
    exact ⟨cursor, page, served.cons taken, member⟩

theorem Pages.goes (pages : Pages history state) {taken : IndexerStep} {pull : Pull}
    {waiting : List Pull} (first : state.syncing = pull :: waiting) (acts : pull.waits = false)
    {store : MemoryStore} (grown : state.store.Grown store) {rest : List LeafRecord}
    {state' : State}
    (goes : Goes (taken :: history) rest waiting { state with store := store } state')
    (settled : ∀ cursor page, Served (taken :: history) cursor page → ∀ record ∈ page.records,
      (state.store.byTree record.place).isSome = true ∨ record ∈ pull.rest ∨ record ∈ rest)
    (puts : ∀ record ∈ pull.rest, (store.byTree record.place).isSome = true ∨ record ∈ rest)
    (served : ∀ place record, store.byTree place = some record →
      state.store.byTree place = some record ∨
        ∃ cursor page, Served (taken :: history) cursor page ∧ record ∈ page.records) :
    Pages (taken :: history) state' := by
  have none : state.indexing.countP Task.isSync = 0 := by
    rw [pages.turns, first, List.head?_cons, Option.map_some, acts]
    rfl
  have stored : state'.store = store := goes.store
  obtain ⟨next, syncing, at_, left, turns⟩ := goes.pull
  constructor
  · intro other member
    rw [syncing] at member
    apply pages.waiting
    rw [first]
    exact member
  · intro other head
    rw [syncing] at head
    cases head
    exact stored ▸ at_
  · rw [turns, none, Nat.zero_add, syncing]
    rfl
  · intro cursor page answered record member
    rw [stored, syncing]
    change _ ∨ record ∈ next.rest
    rw [left]
    rcases settled cursor page answered record member with earlier | mine | later
    · left
      obtain ⟨held, found⟩ := Option.isSome_iff_exists.mp earlier
      rw [grown _ _ found]
      rfl
    · exact puts record mine
    · exact Or.inr later
  · intro place record found
    rw [stored] at found
    rcases served place record found with earlier | newest
    · obtain ⟨cursor, page, answered, member⟩ := pages.served place record earlier
      exact ⟨cursor, page, answered.cons taken, member⟩
    · exact newest

theorem Pages.pull (pages : Pages history state) {taken : IndexerStep}
    (action : taken.action = .pulled) : Pages (taken :: history) (pull state).2 := by
  have silent (cursor : Option Text) (page : Page) (served : Served (taken :: history) cursor page) :
      Served history cursor page :=
    served.earlier (by rw [action]; simp)
  have settled {first : Pull} {waiting : List Pull} (head : state.syncing = first :: waiting)
      (rest : List LeafRecord) (cursor : Option Text) (page : Page)
      (served : Served (taken :: history) cursor page) (record : LeafRecord)
      (member : record ∈ page.records) :
      (state.store.byTree record.place).isSome = true ∨ record ∈ first.rest ∨ record ∈ rest := by
    rcases pages.settled cursor page (silent cursor page served) record member with done | mine
    · exact Or.inl done
    · rw [head] at mine
      exact Or.inr (Or.inl mine)
  unfold Indexer.pull
  split
  · rename_i maxPages waiting head
    refine pages.goes head rfl (.refl _)
      (again_goes maxPages waiting rfl fun _ member => by cases member) (settled head [])
      (fun _ member => by cases member) fun _ _ stored => Or.inl stored
  · rename_i remaining cursor page record rest out waiting head
    obtain ⟨here, contradicted, served, done, split, settles⟩ :=
      (pages.head _ (by rw [head]; rfl)).cons taken
    obtain ⟨mine, others, still⟩ := put_settles state.store out record
    have kept : (state.store.put record).2.cursor = state.store.cursor := by
      rcases state.store.put_cases record with ⟨_, put⟩ | ⟨_, _, unchanged, _⟩
      · rw [put]
        rfl
      · rw [unchanged]
    refine pages.goes head rfl (state.store.put_grown record)
      (putNext_goes remaining waiting (here.trans kept.symm) (still contradicted) served
        (split.trans (List.append_cons done record rest)) ?_) (settled head rest) ?_ ?_
    · intro other member
      rcases List.mem_append.mp member with earlier | newest
      · exact others other (settles other earlier)
      · rw [List.mem_singleton.mp newest]
        exact mine
    · intro other member
      rcases List.mem_cons.mp member with rfl | later
      · obtain ⟨held, stored, _⟩ := mine
        exact Or.inl (Option.isSome_iff_exists.mpr ⟨held, stored⟩)
      · exact Or.inr later
    · intro place stored found
      rcases state.store.put_cases record with ⟨_, put⟩ | ⟨_, _, unchanged, _⟩
      · rw [put, MemoryStore.insert_byTree, Function.update_apply] at found
        split at found
        · cases found
          exact Or.inr ⟨cursor, page, served, by simp [split]⟩
        · exact Or.inl found
      · exact Or.inl (unchanged ▸ found)
  · rename_i remaining page next out waiting head
    obtain ⟨contradicted, _, _, _⟩ := pages.head _ (by rw [head]; rfl)
    have goes : Goes (taken :: history) [] waiting
        { state with store := state.store.setCursor next }
        (pageEnd { state with store := state.store.setCursor next } remaining (some next) page out
          waiting) :=
      pageEnd_goes remaining page waiting rfl contradicted
    have grown : state.store.Grown (state.store.setCursor next) := fun _ _ stored => stored
    exact pages.goes head rfl grown goes (settled head [])
      (fun _ member => by cases member) fun _ _ stored => Or.inl stored
  · exact pages.quiet silent rfl rfl pages.waiting rfl

theorem Pages.answer (pages : Pages history state) {taken : IndexerStep} {page : Option Page}
    (action : taken.action = .answered page) (before : taken.before = state) :
    Pages (taken :: history) (answer state page).2 := by
  have silent (idle : page = none ∨ ∀ remaining cursor out waiting,
      state.syncing ≠ .paging remaining cursor out :: waiting) (cursor : Option Text)
      (served : Page) (answered : Served (taken :: history) cursor served) :
      Served history cursor served := by
    obtain ⟨earlier, member, replied, remaining, out, waiting, asking⟩ := answered
    rcases List.mem_cons.mp member with rfl | older
    · rw [before] at asking
      rcases idle with none | still
      · rw [none] at action
        cases action.symm.trans replied
      · exact absurd asking (still remaining cursor out waiting)
    · exact ⟨earlier, older, replied, remaining, out, waiting, asking⟩
  unfold Indexer.answer
  split
  · rename_i remaining cursor out waiting page head
    obtain ⟨here, contradicted⟩ := pages.head _ (by rw [head]; rfl)
    have served : Served (taken :: history) cursor page :=
      ⟨taken, List.mem_cons_self, action, remaining, out, waiting, before ▸ head⟩
    refine pages.goes head rfl (.refl _)
      (putNext_goes remaining waiting here contradicted served (List.nil_append _).symm
        fun _ member => by cases member) ?_ (fun _ member => by cases member)
      fun _ _ stored => Or.inl stored
    intro other answered newest record member
    obtain ⟨earlier, listed, replied, _, _, _, asking⟩ := newest
    rcases List.mem_cons.mp listed with rfl | older
    · cases action.symm.trans replied
      exact Or.inr (Or.inr member)
    · rcases pages.settled other answered ⟨earlier, older, replied, _, _, _, asking⟩ record member
        with done | mine
      · exact Or.inl done
      · rw [head] at mine
        cases mine
  · rename_i remaining cursor out waiting head
    exact pages.drops head rfl (silent (Or.inl rfl)) rfl rfl (by rw [pages.turns, head]; rfl)
  · rename_i given _ _ answered refused
    refine pages.quiet (silent (Or.inr ?_)) rfl rfl pages.waiting rfl
    intro remaining cursor out waiting head
    cases given with
    | none => exact refused remaining cursor out waiting head rfl
    | some page => exact answered remaining cursor out waiting page head rfl

/-- A sync ends with its task, and only the running one has a task. -/
theorem Pages.index (pages : Pages history state) {taken : IndexerStep}
    (action : taken.action = .indexed) :
    Pages (taken :: history) (index barretenberg options state).2 := by
  have silent (cursor : Option Text) (page : Page) (served : Served (taken :: history) cursor page) :
      Served history cursor page :=
    served.earlier (by rw [action]; simp)
  obtain ⟨store, unchanged | ⟨task, others, turn, left, syncing⟩⟩ :=
    @turn_index barretenberg options state
  · obtain ⟨syncing, indexing⟩ := unchanged
    exact pages.quiet silent store (by rw [syncing]) (by rw [syncing]; exact pages.waiting)
      (by rw [indexing])
  · have counted := pages.turns
    rw [turn, List.countP_cons] at counted
    cases sync : task.isSync with
    | false =>
        rw [sync] at counted syncing
        refine pages.quiet silent store (by rw [syncing]; rfl) ?_ (by rw [left, turn]; simp [sync])
        rw [syncing]
        exact pages.waiting
    | true =>
        rw [sync] at counted syncing
        cases head : state.syncing with
        | nil =>
            rw [head] at counted
            simp at counted
        | cons pull waiting =>
            rw [head] at counted syncing
            cases waits : pull.waits with
            | false => simp [waits] at counted
            | true =>
                have alone : others.countP Task.isSync = 0 := by
                  simpa [waits] using counted
                have done : pull.rest = [] := by
                  cases pull with
                  | indexing out => rfl
                  | _ => cases waits
                exact pages.drops head done silent store syncing (left ▸ alone)

theorem Pages.step (pages : Pages history state) (event : Event) :
    Pages ((indexer barretenberg options).step state event :: history)
      ((indexer barretenberg options).step state event).after := by
  have silent (calm : ∀ page, event ≠ .answered (some page)) (cursor : Option Text) (page : Page)
      (served : Served ((indexer barretenberg options).step state event :: history) cursor page) :
      Served history cursor page :=
    served.earlier (calm page)
  cases event with
  | sync maxPages =>
      cases head : state.syncing with
      | cons pull waiting =>
          refine pages.quiet (silent (by simp)) rfl ?_ ?_ rfl
          · simp [System.step, indexer, head]
          · intro other member
            have among : other ∈ waiting ++ [.starting maxPages] := by
              simpa [System.step, indexer, head] using member
            rcases List.mem_append.mp among with earlier | newest
            · apply pages.waiting
              rw [head]
              exact earlier
            · exact ⟨maxPages, List.mem_singleton.mp newest⟩
      | nil =>
          have after : ((indexer barretenberg options).step state (.sync maxPages)).after.syncing =
              [.starting maxPages] := by
            simp [System.step, indexer, head]
          constructor
          · intro other member
            rw [after] at member
            cases member
          · intro other first
            rw [after] at first
            cases first
            trivial
          · rw [after]
            have none := pages.turns
            rw [head] at none
            exact none
          · intro cursor page served record member
            rcases pages.settled cursor page (silent (by simp) cursor page served) record member
              with stored | mine
            · exact Or.inl stored
            · rw [head] at mine
              cases mine
          · intro place record stored
            obtain ⟨cursor, page, served, member⟩ := pages.served place record stored
            exact ⟨cursor, page, served.cons _, member⟩
  | root treeId =>
      refine pages.quiet (silent (by simp)) rfl rfl pages.waiting ?_
      simp [System.step, indexer, Task.isSync]
  | witness account enrollmentId =>
      exact pages.quiet (silent (by simp)) rfl rfl pages.waiting rfl
  | pulled => exact pages.pull rfl
  | answered page => exact pages.answer rfl rfl
  | found k =>
      change Pages _ (find state k).2
      rw [find]
      split
      · exact pages.quiet (silent (by simp)) rfl rfl pages.waiting rfl
      · dsimp only
        split
        · exact pages.quiet (silent (by simp)) rfl rfl pages.waiting rfl
        · exact pages.quiet (silent (by simp)) rfl rfl pages.waiting (by simp [Task.isSync])
  | indexed => exact pages.index rfl

theorem pages_of_run
    (run : Execution (indexer barretenberg options) () .empty history () state) :
    Pages history state :=
  run.invariant (fun history _ state => Pages history state) pages_empty (fun pages _ => pages)
    fun event pages => pages.step event

/-! ### Nothing served is lost -/

/-- The step moves the cursor past a page, all of which is settled. -/
def Passes (earlier : List IndexerStep) (taken : IndexerStep) : Prop :=
  ∃ remaining page next out waiting,
    taken.before.syncing = .moving remaining page next out :: waiting ∧
      Served earlier taken.before.store.cursor page ∧ page.cursor = some next ∧
      taken.after.store.cursor = some next ∧
      ∀ record ∈ page.records, Settled taken.before.store out record

theorem put_cursor (store : MemoryStore) (record : LeafRecord) :
    (store.put record).2.cursor = store.cursor := by
  rcases store.put_cases record with ⟨_, put⟩ | ⟨_, _, unchanged, _⟩
  · rw [put]
    rfl
  · rw [unchanged]

/-- A sync moves the cursor at one place only. -/
theorem pull_cursor (state : State) :
    (pull state).2.store.cursor = state.store.cursor ∨
      ∃ remaining page next out waiting,
        state.syncing = .moving remaining page next out :: waiting ∧
          (pull state).2.store.cursor = some next := by
  unfold pull
  split
  · exact Or.inl (congrArg MemoryStore.cursor (again_queues state _ _ _ _).store)
  · rename_i remaining cursor page record rest out waiting _
    left
    have kept := (putNext_queues { state with store := (state.store.put record).2 } remaining
      cursor page rest (out.add record (state.store.put record).1) waiting).store
    exact (congrArg MemoryStore.cursor kept).trans (put_cursor state.store record)
  · rename_i remaining page next out waiting head
    right
    have kept := (pageEnd_queues { state with store := state.store.setCursor next } remaining
      (some next) page out waiting).store
    exact ⟨remaining, page, next, out, waiting, head, congrArg MemoryStore.cursor kept⟩
  · exact Or.inl rfl

/-- A step that moves the cursor moves it past a page that is settled. -/
theorem Pages.passes (pages : Pages history state) {event : Event}
    (moved : ((indexer barretenberg options).step state event).after.store.cursor ≠
      state.store.cursor) : Passes history ((indexer barretenberg options).step state event) := by
  cases event with
  | sync maxPages => exact absurd rfl moved
  | root treeId => exact absurd rfl moved
  | witness account enrollmentId => exact absurd rfl moved
  | pulled =>
      rcases pull_cursor state with kept | ⟨remaining, page, next, out, waiting, head, after⟩
      · exact absurd kept moved
      · obtain ⟨_, served, ends, settled⟩ := pages.head _ (by rw [head]; rfl)
        exact ⟨remaining, page, next, out, waiting, head, served, ends, after, settled⟩
  | answered page =>
      refine absurd ?_ moved
      change (Indexer.answer state page).2.store.cursor = _
      unfold Indexer.answer
      split
      · exact congrArg MemoryStore.cursor (putNext_queues state _ _ _ _ _ _).store
      · rfl
      · rfl
  | found k =>
      refine absurd ?_ moved
      change (Indexer.find state k).2.store.cursor = _
      rw [Indexer.find]
      split
      · rfl
      · dsimp only
        split
        · rfl
        · rfl
  | indexed =>
      exact absurd (congrArg MemoryStore.cursor (turn_index state).store) moved

theorem passes_of_run {later earlier : List IndexerStep} {taken : IndexerStep}
    (run : Execution (indexer barretenberg options) () .empty (later ++ taken :: earlier) () state)
    (moved : taken.after.store.cursor ≠ taken.before.store.cursor) : Passes earlier taken := by
  obtain ⟨executed, before, _⟩ := run.split later
  rw [executed] at moved ⊢
  exact (pages_of_run before).passes moved

/-- However requests interleave, and whatever the source serves, every record
it served is stored, or contradicts what is stored in its place, or is still to
be put by the sync running; nothing else is stored; the cursor moves only past
pages every record of which is stored or told of, to where the page after the
cursor ended; and a sync tells only of records that contradict what is stored. -/
theorem served_settled
    (run : Execution (indexer barretenberg options) () .empty history () state) :
    (∀ cursor page, Served history cursor page → ∀ record ∈ page.records,
      (state.store.byTree record.place).isSome = true ∨
        record ∈ (state.syncing.head?.map Pull.rest).getD []) ∧
    (∀ place record, state.store.byTree place = some record →
      ∃ cursor page, Served history cursor page ∧ record ∈ page.records) ∧
    (∀ later taken earlier, history = later ++ taken :: earlier →
      taken.after.store.cursor ≠ taken.before.store.cursor → Passes earlier taken) ∧
    ∀ taken ∈ history, ∀ out, taken.reply = some (.synced out) →
      Contradicted taken.after.store out := by
  have pages := pages_of_run run
  refine ⟨pages.settled, pages.served, ?_, ?_⟩
  · intro later taken earlier split moved
    rw [split] at run
    exact passes_of_run run moved
  · intro taken member out replied
    obtain ⟨_, _, grown, _, _, right⟩ := sound_before run member
    cases right _ replied
    obtain ⟨later, earlier, rfl⟩ := List.append_of_mem member
    obtain ⟨_, before, _⟩ := run.split later
    have head := (pages_of_run before).head
    rw [syncResult]
    split
    · rename_i out waiting first
      have told : Contradicted taken.before.store out := head (.indexing out) (by rw [first]; rfl)
      exact told.grown grown
    · intro record none
      cases none

/-- In the run above the second page was served after the first one's cursor,
and the sync has one record of it still to put. -/
theorem served_settled_sample :
    Served Indexed.reached.1 (some (utf16 "1")) ⟨[Indexed.record 1, Indexed.record 0], none⟩ ∧
      (Indexed.reached.2.syncing.head?.map Pull.rest).getD [] = [Indexed.record 0] ∧
      ∀ record ∈ [Indexed.record 1, Indexed.record 0],
        (Indexed.reached.2.store.byTree record.place).isSome = true ∨
          record ∈ (Indexed.reached.2.syncing.head?.map Pull.rest).getD [] := by
  have served : Served Indexed.reached.1 (some (utf16 "1"))
      ⟨[Indexed.record 1, Indexed.record 0], none⟩ :=
    ⟨_, List.mem_cons_of_mem _ (List.mem_cons_of_mem _ List.mem_cons_self), rfl, 0, ⟨2, []⟩, [], rfl⟩
  exact ⟨served, by decide +kernel, (served_settled Indexed.run).1 _ _ served⟩

end Perch.PerchZk.Indexer
