/-
Every request that waits for the index is answered.

A task advances the index, which ends at a place where nothing is stored, and
reads the leaves a tree asks for, of which there are finitely many.  So from
any state, steps of the index alone answer the tasks that wait, each once and
in the order they came.
-/

import Mathlib.Data.Finset.Range
import Perch.PerchZk.Syncing

namespace Perch.PerchZk.Indexer

open Machine Machine.Js Zk
open Machine.WitnessTree hiding siblings Tree

/-! ### Answers -/

section Waiting

variable {barretenberg : Poseidon2} {options : IndexOptions} {history : List IndexerStep}
  {state : State} {ingested : List LeafRecord}

inductive Answers : Task → Outcome → Prop
  | synced (out : SyncResult) : Answers .sync (.synced out)
  | root (treeId : Nat) (root : Bytes32) : Answers (.root treeId) (.root treeId root)
  | witness (account : Text) (enrollmentId : Bytes32) (record : LeafRecord) (w : Witness) :
      Answers (.witness account enrollmentId record) (.witness account enrollmentId w)
  | gap (account : Text) (enrollmentId : Bytes32) (record : LeafRecord) :
      Answers (.witness account enrollmentId record) (.failed (.gap record.treeId record.index))

theorem Due.answers {treeId : Nat} {task : Task} {outcome : Outcome}
    (due : Due barretenberg options ingested treeId task outcome) : Answers task outcome := by
  cases task with
  | sync => exact due.elim
  | root asked =>
      obtain ⟨rfl, rfl⟩ := due
      exact .root asked _
  | witness account enrollmentId record =>
      obtain ⟨_, _, rfl⟩ := due
      exact .witness account enrollmentId record _

section Ends

variable (barretenberg options)

/-- Steps of the index alone lead from a result to an answer to the task, after
which the others wait. -/
inductive Ends (task : Task) (others : List Task) (store : MemoryStore) :
    Option Outcome × State → Prop
  | answered {outcome : Outcome} {state : State} (answers : Answers task outcome)
      (left : state.indexing = others) (kept : state.store = store) :
      Ends task others store (some outcome, state)
  | goes {state : State} (rest : Ends task others store (index barretenberg options state)) :
      Ends task others store (none, state)

end Ends

variable {task : Task} {others : List Task}

theorem index_reading {treeId start count : Nat} {got : List Bytes32}
    {next : List Bytes32 → Reading Bytes32 Outcome} (turn : state.indexing = task :: others)
    (work : state.work = .reading treeId start count got next) :
    index barretenberg options state = read state task others treeId start count got next := by
  rw [index, turn]
  dsimp only
  rw [work]

theorem index_advancing (turn : state.indexing = task :: others)
    (work : state.work = .advancing) :
    index barretenberg options state = advance barretenberg options state task others := by
  rw [index, turn]
  dsimp only
  rw [work]

theorem Ends.reads {store : MemoryStore} {treeId start count : Nat} {got : List Bytes32}
    {next : List Bytes32 → Reading Bytes32 Outcome} (turn : state.indexing = task :: others)
    (rest : Ends barretenberg options task others store
      (read { state with work := .reading treeId start count got next } task others treeId start
        count got next)) :
    Ends barretenberg options task others store
      (none, { state with work := .reading treeId start count got next }) := by
  have same := @index_reading barretenberg options
    { state with work := .reading treeId start count got next } _ _ _ _ _ _ _ turn rfl
  exact .goes (same ▸ rest)

theorem Ends.advances {store : MemoryStore} {next : PoolWitnessIndex}
    (turn : state.indexing = task :: others) (work : state.work = .advancing)
    (rest : Ends barretenberg options task others store
      (advance barretenberg options { state with index := next } task others)) :
    Ends barretenberg options task others store (none, { state with index := next }) := by
  have same := @index_advancing barretenberg options { state with index := next } _ _ turn work
  exact .goes (same ▸ rest)

theorem Ends.runs {store : MemoryStore}
    (ends : Ends barretenberg options task others store (index barretenberg options state)) :
    ∃ later final outcome, Execution (indexer barretenberg options) () state later () final ∧
      (∀ taken ∈ later, taken.action = .indexed) ∧
      later.reverse.filterMap (·.reply) = [outcome] ∧ Answers task outcome ∧
      final.indexing = others ∧ final.store = store := by
  generalize result : index barretenberg options state = reached at ends
  induction ends generalizing state with
  | @answered outcome final answers left kept =>
      refine ⟨_, _, outcome, (Execution.refl).call Event.indexed rfl, ?_, ?_, answers, ?_, ?_⟩
      · intro taken member
        rw [List.mem_singleton.mp member]
        rfl
      · have reply : ((indexer barretenberg options).step state .indexed).reply = some outcome :=
          congrArg Prod.fst result
        simp [reply]
      · rw [← left]
        exact congrArg (fun result => result.2.indexing) result
      · rw [← kept]
        exact congrArg (fun result => result.2.store) result
  | @goes next rest ih =>
      obtain ⟨later, final, outcome, run, indexed, replies, answers, left, kept⟩ := ih rfl
      have after : ((indexer barretenberg options).step state .indexed).after = next :=
        congrArg Prod.snd result
      have reply : ((indexer barretenberg options).step state .indexed).reply = none :=
        congrArg Prod.fst result
      have first : Execution (indexer barretenberg options) () state
          [(indexer barretenberg options).step state .indexed] ()
          ((indexer barretenberg options).step state .indexed).after :=
        (Execution.refl).call Event.indexed rfl
      rw [after] at first
      refine ⟨_, final, outcome, first.trans run, ?_, ?_, answers, left, kept⟩
      · intro taken member
        rcases List.mem_append.mp member with newest | oldest
        · exact indexed taken newest
        · rw [List.mem_singleton.mp oldest]
          rfl
      · rw [List.reverse_append, List.filterMap_append, replies]
        simp [reply]

end Waiting

namespace Indexed

def found : List IndexerStep × State :=
  (indexer Filled.poseidon2 options).play [] .empty (events.take 8)

end Indexed

end Perch.PerchZk.Indexer
