/-
The account's leaves in the pools it enrolls in.

An apply compares the document's factor with the current one, with every id
the account ever enrolled, and, in the pool, with every id the account ever
inserted.  Over whole runs the three say one thing: an id is inserted once, by
the apply that enrolls it, and the current factor's leaf is where it belongs.
-/

import Perch.Joint.Agreement
import Perch.Zk.Trees

namespace Perch.Joint

open Machine Document Recovery Account

variable {σ : Type} {S : Setting σ}

/-! ### What a step does to a pool -/

def PoolMoves (S : Setting σ) (pool : Address) (s s' : Zk.PoolStorage) : Prop :=
  s' = s ∨ ∃ depth call insertion, S.depth pool = some depth ∧
    Zk.Inserts S.poseidon2 depth s call insertion s'

theorem PoolMoves.slotted {pool : Address} {s s' : Zk.PoolStorage}
    (moves : PoolMoves S pool s s') (slotted : Zk.Slotted s) : Zk.Slotted s' := by
  rcases moves with rfl | ⟨_, _, _, _, inserts⟩
  · exact slotted
  · exact inserts.slotted slotted

theorem PoolMoves.leaf_kept {pool : Address} {s s' : Zk.PoolStorage}
    (moves : PoolMoves S pool s s') (slotted : Zk.Slotted s) {key : UInt32 × UInt64}
    {leaf : Bytes32} (held : s.leaf key = some leaf) : s'.leaf key = some leaf := by
  rcases moves with rfl | ⟨_, _, _, _, inserts⟩
  · exact held
  · exact inserts.leaf_kept slotted held

theorem PoolMoves.enrollment_kept {pool : Address} {s s' : Zk.PoolStorage}
    (moves : PoolMoves S pool s s') {key : Address × Bytes32} {position : Zk.LeafPosition}
    (held : s.enrollment key = some position) : s'.enrollment key = some position := by
  rcases moves with rfl | ⟨_, _, _, _, inserts⟩
  · exact held
  · exact inserts.enrollment_kept held

def leafCall (S : Setting σ) (around : Surroundings) (factor : CompiledZkFactor) :
    Zk.InsertCall where
  sequence := around.env.sequence
  account := S.me
  enrollmentId := factor.enrollmentId
  commitment := factor.commitment

/-- The account's insertion of a factor's leaf into a pool that runs. -/
theorem rcvInsert_pools {around : Surroundings} {world world' : World} {factor : CompiledZkFactor}
    {depth : Nat} (deep : S.depth factor.pool = some depth)
    (inserted : S.rcvInsert around world factor.pool factor.enrollmentId factor.commitment =
      .ok world') :
    ∃ insertion s', world'.pools = Function.update world.pools factor.pool s' ∧
      Zk.Inserts S.poseidon2 depth (world.pools factor.pool) (leafCall S around factor) insertion
        s' := by
  simp only [Setting.rcvInsert, deep, bind_eq_ok, pure_eq_ok, Prod.exists] at inserted
  obtain ⟨insertion, s', called, rfl⟩ := inserted
  have asked : Zk.rcvInsert S.poseidon2 depth (world.pools factor.pool)
      (leafCall S around factor).account (leafCall S around factor).enrollmentId
      (leafCall S around factor).commitment = .ok (insertion, s') := called
  exact ⟨insertion, s', rfl, Zk.rcvInsert_inserts asked⟩

theorem records_of_inserts {around : Surroundings} {world world' : World}
    {factor : CompiledZkFactor} {depth : Nat} {insertion : Zk.Insertion} {s' : Zk.PoolStorage}
    (inserts : Zk.Inserts S.poseidon2 depth (world.pools factor.pool) (leafCall S around factor)
      insertion s')
    (pools : world'.pools = Function.update world.pools factor.pool s') (pool : Address)
    (enrollmentId : Bytes32) :
    (world'.pools pool).enrollment (S.me, enrollmentId) =
      if pool = factor.pool ∧ enrollmentId = factor.enrollmentId then
        some { treeId := insertion.treeId, index := insertion.index }
      else (world.pools pool).enrollment (S.me, enrollmentId) := by
  rw [pools]
  by_cases here : pool = factor.pool
  · subst here
    rw [Function.update_self, inserts.enrollment_eq, Function.update_apply]
    simp [leafCall]
  · rw [Function.update_of_ne here, if_neg fun both => here both.1]

theorem rcvInsert_elsewhere {around : Surroundings} {world world' : World}
    {factor : CompiledZkFactor} (absent : S.depth factor.pool = none)
    (inserted : S.rcvInsert around world factor.pool factor.enrollmentId factor.commitment =
      .ok world') : world' = world := by
  simp only [Setting.rcvInsert, absent, bind_eq_ok, pure_eq_ok] at inserted
  obtain ⟨_, _, rfl⟩ := inserted
  rfl

theorem leafInserted_moves {around : Surroundings} {leaf : Option CompiledZkFactor}
    {before after : Bytes32 → Bool} {world world' : World}
    (inserted : LeafInserted (S.callees around) leaf before after world world') (pool : Address) :
    PoolMoves S pool (world.pools pool) (world'.pools pool) := by
  cases leaf with
  | none =>
      rw [inserted.2]
      exact Or.inl rfl
  | some factor =>
      cases deep : S.depth factor.pool with
      | none =>
          rw [rcvInsert_elsewhere deep inserted.2]
          exact Or.inl rfl
      | some depth =>
          obtain ⟨insertion, s', pools, inserts⟩ := rcvInsert_pools deep inserted.2
          rw [pools]
          by_cases here : pool = factor.pool
          · subst here
            rw [Function.update_self]
            exact Or.inr ⟨depth, _, insertion, deep, inserts⟩
          · rw [Function.update_of_ne here]
            exact Or.inl rfl

/-- A successful step moves each pool by one insertion at most. -/
theorem run_pools {invocation : Invocation S} {state after : State σ} {reply : Reply}
    (ran : invocation.run S state = .ok (reply, after))
    (happened : Happened S invocation state reply after) (pool : Address) :
    PoolMoves S pool (state.world.pools pool) (after.world.pools pool) := by
  cases happened with
  | applied asked effect counters =>
      rw [← pools_of_syncedBoth counters.syncs]
      exact leafInserted_moves effect.inserts pool
  | recoveryCancelled asked adopted called =>
      rw [called.pools]
      exact Or.inl rfl
  | upgradeScheduled asked counted half recorded =>
      obtain ⟨_, pools⟩ := @UpgradeHalf.sliceSteps _ _ _ state.account.storage _ _ _ _ _ half
      rw [pools]
      exact Or.inl rfl
  | upgradeExecuted asked authorized uploaded pending ready half =>
      rcases half with ⟨_, rfl⟩ | ⟨controller, recorded, answered, _, _, called⟩
      · exact Or.inl rfl
      · rw [called.pools]
        exact Or.inl rfl
  | upgradeDropped => exact Or.inl rfl
  | authorized asked marked =>
      rw [marked.pools]
      exact Or.inl rfl
  | called asked own free acts delivered =>
      rw [acts.pools]
      exact Or.inl rfl
  | gated => exact Or.inl rfl
  | elsewhere asked slices pools =>
      rcases asked with ⟨controller, visible, authorized, call, answer, asked, _⟩ |
        ⟨place, account, enrollmentId, commitment, asked, _⟩
      · simp only [Invocation.run, asked, callController, bind_eq_ok, require_eq_ok,
          mapError_eq_ok, pure_eq_ok, Prod.mk.injEq] at ran
        obtain ⟨_, _, outcome, _, _, _, _, same⟩ := ran
        rw [← congrArg State.world same]
        exact Or.inl rfl
      · simp only [Invocation.run, asked, insertElsewhere, bind_eq_ok, require_eq_ok, orFail_eq_ok,
          mapError_eq_ok, pure_eq_ok, Prod.mk.injEq, Prod.exists] at ran
        obtain ⟨_, _, depth, deep, insertion, s, called, _, same⟩ := ran
        rw [← congrArg State.world same]
        by_cases here : pool = place
        · subst here
          simp only [World.setPool, Function.update_self]
          exact Or.inr ⟨depth, ⟨invocation.around.env.sequence, account, enrollmentId, commitment⟩,
            insertion, deep, Zk.rcvInsert_inserts called⟩
        · simp only [World.setPool, Function.update_of_ne here]
          exact Or.inl rfl

/-! ### What an apply enrolls -/

/-- Whether an apply enrolls a factor: one under an id never enrolled, or the
factor there already was, or none. -/
theorem checkDocument_factor {storage : AccountStorage} {compiled : CompiledDoc}
    {leaf : Option CompiledZkFactor} (checked : checkDocument storage compiled = .ok leaf) :
    (∃ factor, leaf = some factor ∧ newZk compiled = some factor ∧
        storage.enrolledIds factor.enrollmentId = false ∧ storage.currentZk ≠ some factor) ∨
      (leaf = none ∧ (newZk compiled = none ∨ newZk compiled = storage.currentZk)) := by
  simp only [checkDocument, bind_eq_ok, require_eq_ok, pure_eq_ok] at checked
  obtain ⟨_, _, _, _, _, allowed, _, unused, rfl⟩ := checked
  cases new : newZk compiled with
  | none => exact Or.inr ⟨rfl, Or.inl rfl⟩
  | some next =>
      rw [new] at allowed unused
      cases old : storage.currentZk with
      | none =>
          rw [old] at unused
          exact Or.inl ⟨next, rfl, rfl, unused next rfl, by simp⟩
      | some previous =>
          rw [old] at allowed unused
          by_cases same : previous.enrollmentId = next.enrollmentId
          · right
            refine ⟨by simp [leafToInsert, same], Or.inr ?_⟩
            have equal : previous = next := by simpa [zkFactorTransitionOk, same] using allowed
            rw [equal]
          · left
            have inserted : leafToInsert (some previous) (some next) = some next := by
              simp [leafToInsert, same]
            rw [inserted] at unused
            refine ⟨next, inserted, rfl, unused next rfl, ?_⟩
            intro equal
            exact same (congrArg CompiledZkFactor.enrollmentId (Option.some.inj equal))

/-- What a successful step does to the account's enrollments. -/
inductive EnrollmentStep (S : Setting σ) (invocation : Invocation S) (before : State σ)
    (reply : Reply) (after : State σ) : Prop where
  /-- An apply enrolls the factor of its document. -/
  | enrolls {docJson : Bytes} {validUntil : UInt32} {expected : Option UInt64}
      {compiled : CompiledDoc} {factor : CompiledZkFactor} {synced : World}
      (asked : invocation.action = .applyDoc docJson validUntil expected)
      (replied : reply = .applied compiled.docHash)
      (compiles : compileDoc S.code.host docJson = .ok compiled)
      (named : newZk compiled = some factor)
      (fresh : before.account.storage.enrolledIds factor.enrollmentId = false)
      (changed : before.account.storage.currentZk ≠ some factor)
      (current : after.account.storage.currentZk = some factor)
      (marked : after.account.storage.enrolledIds =
        Function.update before.account.storage.enrolledIds factor.enrollmentId true)
      (untouched : synced.pools = before.world.pools)
      (inserted : S.rcvInsert invocation.around synced factor.pool factor.enrollmentId
        factor.commitment = .ok after.world)
  /-- Any other step enrolls nothing. -/
  | still (marked : after.account.storage.enrolledIds = before.account.storage.enrolledIds)
      (records : ∀ pool enrollmentId, (after.world.pools pool).enrollment (S.me, enrollmentId) =
        (before.world.pools pool).enrollment (S.me, enrollmentId))
      (current : after.account.storage.currentZk = none ∨
        after.account.storage.currentZk = before.account.storage.currentZk)

theorem Happened.enrollmentStep {invocation : Invocation S} {before after : State σ}
    {reply : Reply} (happened : Happened S invocation before reply after) :
    EnrollmentStep S invocation before reply after := by
  rcases happened.applied_or_unapplied with
    ⟨docJson, validUntil, expected, compiled, leaf, outcome, joined, synced, replied, asked, effect,
      counters⟩ | unapplied
  · have untouched := pools_of_syncedBoth counters.syncs
    have inserts := effect.inserts
    rcases checkDocument_factor effect.checked with
      ⟨factor, rfl, named, fresh, changed⟩ | ⟨rfl, named⟩
    · exact .enrolls asked replied effect.compiles named fresh changed
        (effect.currentZk.trans named)
        inserts.1 untouched inserts.2
    · apply EnrollmentStep.still inserts.1
      · intro pool enrollmentId
        rw [inserts.2, untouched]
      · rw [effect.currentZk]
        exact named
  · apply EnrollmentStep.still unapplied.enrolledIds unapplied.pools
    right
    have same := unapplied.configuration
    simp only [AccountState.configuration, Prod.mk.injEq] at same
    exact same.2.2.2.2.1

/-! ### Leaves over runs -/

/-- The factor's leaf is in its pool, at the place recorded for it. -/
def LeafIn (S : Setting σ) (world : World) (factor : CompiledZkFactor) : Prop :=
  ∃ accountId position, contractId S.me = some accountId ∧
    (world.pools factor.pool).enrollment (S.me, factor.enrollmentId) = some position ∧
    (world.pools factor.pool).leaf (position.treeId, position.index) =
      some (S.poseidon2.leafHash accountId factor.enrollmentId factor.commitment)

/-- The ids enrolled are those recorded, each in one pool, and the current
factor's leaf is in its pool. -/
structure LeavesHeld (S : Setting σ) (state : State σ) : Prop where
  slotted : ∀ pool depth, S.depth pool = some depth → Zk.Slotted (state.world.pools pool)
  recorded : ∀ pool enrollmentId,
    (state.world.pools pool).enrollment (S.me, enrollmentId) ≠ none →
      state.account.storage.enrolledIds enrollmentId = true
  somewhere : ∀ enrollmentId, state.account.storage.enrolledIds enrollmentId = true →
    ∃ pool, (state.world.pools pool).enrollment (S.me, enrollmentId) ≠ none
  once : ∀ pool other enrollmentId,
    (state.world.pools pool).enrollment (S.me, enrollmentId) ≠ none →
    (state.world.pools other).enrollment (S.me, enrollmentId) ≠ none → pool = other
  current : ∀ factor, state.account.storage.currentZk = some factor →
    state.account.storage.enrolledIds factor.enrollmentId = true ∧
      S.depth factor.pool ≠ none ∧ LeafIn S state.world factor

/-- The pools of a state are pools: each one's storage is what some run of it
left. -/
def PoolsRun (S : Setting σ) (state : State σ) : Prop :=
  ∀ pool depth, S.depth pool = some depth →
    ∃ calls ledger, Execution (Zk.pool S.poseidon2 depth) 0 .empty calls ledger
      (state.world.pools pool)

def NamesPools (S : Setting σ) (taken : JointStep S) : Prop :=
  ∀ docJson validUntil expected compiled factor,
    taken.action.action = .applyDoc docJson validUntil expected →
    compileDoc S.code.host docJson = .ok compiled → newZk compiled = some factor →
    S.depth factor.pool ≠ none

namespace LeavesHeld

variable {state after : State σ}

theorem origin (begins : Origin S state) (pools : PoolsRun S state) : LeavesHeld S state := by
  have built := begins.built
  obtain ⟨around, adminSigners, store, _, built⟩ := built
  simp only [installAdmin, bind_eq_ok, pure_eq_ok, Prod.exists] at built
  obtain ⟨_, _, _, account⟩ := built
  constructor
  · intro pool depth deep
    obtain ⟨_, _, run⟩ := pools pool depth deep
    exact Zk.slotted_of_run run
  · intro pool enrollmentId recorded
    exact absurd (begins.unenrolled pool enrollmentId) recorded
  · intro enrollmentId enrolled
    rw [← account] at enrolled
    cases enrolled
  · intro pool other enrollmentId recorded
    exact absurd (begins.unenrolled pool enrollmentId) recorded
  · intro factor current
    rw [← account] at current
    cases current

theorem leafIn_kept (held : LeavesHeld S state)
    (moves : ∀ pool, PoolMoves S pool (state.world.pools pool) (after.world.pools pool))
    {factor : CompiledZkFactor} (deep : S.depth factor.pool ≠ none)
    (present : LeafIn S state.world factor) : LeafIn S after.world factor := by
  obtain ⟨depth, deep⟩ := Option.ne_none_iff_exists'.mp deep
  obtain ⟨accountId, position, account, recorded, stored⟩ := present
  exact ⟨accountId, position, account, (moves factor.pool).enrollment_kept recorded,
    (moves factor.pool).leaf_kept (held.slotted factor.pool depth deep) stored⟩

theorem step (held : LeavesHeld S state) {invocation : Invocation S} {reply : Reply}
    (names : NamesPools S ⟨state, invocation, .ok reply, after⟩)
    (moves : ∀ pool, PoolMoves S pool (state.world.pools pool) (after.world.pools pool))
    (stepped : EnrollmentStep S invocation state reply after) : LeavesHeld S after := by
  have slotted : ∀ pool depth, S.depth pool = some depth →
      Zk.Slotted (after.world.pools pool) := by
    intro pool depth deep
    exact (moves pool).slotted (held.slotted pool depth deep)
  cases stepped with
  | still marked records current =>
      constructor
      · exact slotted
      · intro pool enrollmentId recorded
        rw [records] at recorded
        rw [marked]
        exact held.recorded pool enrollmentId recorded
      · intro enrollmentId enrolled
        rw [marked] at enrolled
        obtain ⟨pool, recorded⟩ := held.somewhere enrollmentId enrolled
        exact ⟨pool, by rw [records]; exact recorded⟩
      · intro pool other enrollmentId recorded recorded'
        rw [records] at recorded recorded'
        exact held.once pool other enrollmentId recorded recorded'
      · intro factor named
        rcases current with none | same
        · rw [none] at named
          cases named
        · rw [same] at named
          obtain ⟨enrolled, deep, present⟩ := held.current factor named
          rw [marked]
          exact ⟨enrolled, deep, held.leafIn_kept moves deep present⟩
  | @enrolls docJson validUntil expected compiled factor synced asked _ compiles named fresh changed
      current marked untouched inserted =>
      have deep := names docJson validUntil expected compiled factor asked compiles named
      obtain ⟨depth, runs⟩ := Option.ne_none_iff_exists'.mp deep
      obtain ⟨insertion, s', pools, inserts⟩ := rcvInsert_pools runs inserted
      rw [untouched] at pools inserts
      have records := records_of_inserts inserts pools
      have vacant : ∀ pool,
          (state.world.pools pool).enrollment (S.me, factor.enrollmentId) = none := by
        intro pool
        by_contra recorded
        rw [held.recorded pool factor.enrollmentId recorded] at fresh
        cases fresh
      constructor
      · exact slotted
      · intro pool enrollmentId recorded
        rw [marked, Function.update_apply]
        split
        · rfl
        next other =>
          rw [records, if_neg fun both => other both.2] at recorded
          exact held.recorded pool enrollmentId recorded
      · intro enrollmentId enrolled
        by_cases same : enrollmentId = factor.enrollmentId
        · exact ⟨factor.pool, by simp [records, same]⟩
        · rw [marked, Function.update_of_ne same] at enrolled
          obtain ⟨pool, recorded⟩ := held.somewhere enrollmentId enrolled
          refine ⟨pool, ?_⟩
          rw [records, if_neg fun both => same both.2]
          exact recorded
      · intro pool other enrollmentId recorded recorded'
        by_cases same : enrollmentId = factor.enrollmentId
        · subst same
          have only {place : Address} (held : (after.world.pools place).enrollment
              (S.me, factor.enrollmentId) ≠ none) : place = factor.pool := by
            by_contra elsewhere
            rw [records, if_neg fun both => elsewhere both.1] at held
            exact held (vacant place)
          rw [only recorded, only recorded']
        · rw [records, if_neg fun both => same both.2] at recorded recorded'
          exact held.once pool other enrollmentId recorded recorded'
      · intro found named'
        obtain rfl : factor = found := Option.some.inj (current.symm.trans named')
        refine ⟨by simp [marked], deep, ?_⟩
        obtain ⟨accountId, account, bound⟩ := inserts.bound
        refine ⟨accountId, { treeId := insertion.treeId, index := insertion.index }, account,
          by simp [records], ?_⟩
        rw [pools, Function.update_self, inserts.leaf_stored, bound]
        rfl

end LeavesHeld

structure HonestRun (S : Setting σ) (history : List (JointStep S)) (now : UInt32)
    (state : State σ) : Prop where
  run : ∃ start origin, Origin S origin ∧ PoolsRun S origin ∧
    Execution (system S) start origin history now state
  named : ∀ taken ∈ history, NamesPools S taken

namespace HonestRun

variable {history : List (JointStep S)} {now : UInt32} {state : State σ}

theorem lived (honest : HonestRun S history now state) : Lived S history now state := by
  obtain ⟨start, origin, begins, _, execution⟩ := honest.run
  exact ⟨start, origin, begins, execution⟩

theorem leavesHeld (honest : HonestRun S history now state) : LeavesHeld S state := by
  obtain ⟨start, origin, begins, pools, execution⟩ := honest.run
  have held := (begins.induct (fun earlier _ state => (∀ taken ∈ earlier, NamesPools S taken) →
    LeavesHeld S state) ?_ ?_ ?_ ?_ execution).2
  · exact held honest.named
  · intro _
    exact .origin begins pools
  · intro _ _ _ _ _ held _ names
    exact held names
  · intro _ _ _ _ _ held names
    exact held fun taken member => names taken (List.mem_cons_of_mem _ member)
  · intro earlier state reply after invocation _ held ran happened names
    have before := held fun taken member => names taken (List.mem_cons_of_mem _ member)
    exact before.step (names _ List.mem_cons_self) (run_pools ran happened)
      happened.enrollmentStep

theorem at_step (honest : HonestRun S history now state) {later earlier : List (JointStep S)}
    {taken : JointStep S} (split : history = later ++ taken :: earlier) :
    HonestRun S earlier taken.action.around.env.sequence taken.before ∧
      HonestRun S (taken :: earlier) taken.action.around.env.sequence taken.after := by
  subst split
  obtain ⟨start, origin, begins, pools, execution⟩ := honest.run
  obtain ⟨executed, before, _⟩ := Execution.split later execution
  have called := before.call taken.action rfl
  rw [← executed] at called
  exact ⟨⟨⟨start, origin, begins, pools, before⟩, fun other member => honest.named other
      (List.mem_append_right later (List.mem_cons_of_mem _ member))⟩,
    ⟨⟨start, origin, begins, pools, called⟩, fun other member => honest.named other
      (List.mem_append_right later member)⟩⟩

end HonestRun

/-! ### Single use -/

theorem Lived.enrolledIds_grow {history : List (JointStep S)} {now : UInt32} {state : State σ}
    (lived : Lived S history now state) : ∀ taken ∈ history, ∀ enrollmentId,
      (taken.before.account.storage.enrolledIds enrollmentId = true →
        taken.after.account.storage.enrolledIds enrollmentId = true) ∧
      (taken.after.account.storage.enrolledIds enrollmentId = true →
        state.account.storage.enrolledIds enrollmentId = true) := by
  refine (lived.induct (fun history _ state => ∀ taken ∈ history, ∀ enrollmentId,
      (taken.before.account.storage.enrolledIds enrollmentId = true →
        taken.after.account.storage.enrolledIds enrollmentId = true) ∧
      (taken.after.account.storage.enrolledIds enrollmentId = true →
        state.account.storage.enrolledIds enrollmentId = true)) ?_ ?_ ?_ ?_).2
  · intro _ _ _ taken member
    cases member
  · intro _ _ _ _ _ held _
    exact held
  · intro _ state invocation failure _ held taken member enrollmentId
    rcases List.mem_cons.mp member with rfl | member
    · exact ⟨id, id⟩
    · exact held taken member enrollmentId
  · intro history state reply after invocation _ held _ happened taken member enrollmentId
    have grows : state.account.storage.enrolledIds enrollmentId = true →
        after.account.storage.enrolledIds enrollmentId = true := by
      intro before
      cases happened.enrollmentStep with
      | still marked =>
          rw [marked]
          exact before
      | enrolls _ _ _ _ _ _ _ marked =>
          rw [marked, Function.update_apply]
          split
          · rfl
          · exact before
    rcases List.mem_cons.mp member with rfl | member
    · exact ⟨grows, id⟩
    · exact ⟨(held taken member enrollmentId).1,
        fun earlier => grows ((held taken member enrollmentId).2 earlier)⟩

/-- A step that records the account's leaf for an id in a pool. -/
def InsertsLeaf (S : Setting σ) (pool : Address) (enrollmentId : Bytes32) (taken : JointStep S) :
    Prop :=
  (taken.before.world.pools pool).enrollment (S.me, enrollmentId) = none ∧
    (taken.after.world.pools pool).enrollment (S.me, enrollmentId) ≠ none

/-- The apply that enrolls an id, with the document's factor. -/
def EnrollsFactor (S : Setting σ) (taken : JointStep S) (factor : CompiledZkFactor) : Prop :=
  ∃ docJson validUntil expected compiled,
    taken.action.action = .applyDoc docJson validUntil expected ∧
      taken.reply = .ok (.applied compiled.docHash) ∧
      compileDoc S.code.host docJson = .ok compiled ∧ newZk compiled = some factor ∧
      LeafIn S taken.after.world factor

/-- Ids are inserted once, where and when they are enrolled. -/
structure SingleUse (S : Setting σ) (history : List (JointStep S)) (state : State σ) : Prop where
  /-- One insertion of an id, in one pool, by the apply that first enrolls it,
  with the commitment of the document it applies. -/
  inserted : ∀ later taken earlier, history = later ++ taken :: earlier →
    ∀ pool enrollmentId, InsertsLeaf S pool enrollmentId taken →
      (∃ factor, EnrollsFactor S taken factor ∧ factor.pool = pool ∧
        factor.enrollmentId = enrollmentId) ∧
      taken.before.account.storage.enrolledIds enrollmentId = false ∧
      taken.after.account.storage.enrolledIds enrollmentId = true ∧
      (∀ other, InsertsLeaf S other enrollmentId taken → other = pool) ∧
      ∀ step ∈ later ++ earlier, ∀ other, ¬InsertsLeaf S other enrollmentId step
  /-- And no id is enrolled without its insertion. -/
  enrolled : ∀ taken ∈ history, ∀ enrollmentId,
    taken.before.account.storage.enrolledIds enrollmentId = false →
    taken.after.account.storage.enrolledIds enrollmentId = true →
    ∃ pool, InsertsLeaf S pool enrollmentId taken
  current : ∀ factor, state.account.storage.currentZk = some factor →
    state.account.storage.enrolledIds factor.enrollmentId = true ∧ LeafIn S state.world factor
  grows : ∀ taken ∈ history, ∀ enrollmentId,
    taken.before.account.storage.enrolledIds enrollmentId = true →
    taken.after.account.storage.enrolledIds enrollmentId = true
  /-- A factor that was not the current one comes with an id never enrolled. -/
  fresh : ∀ later taken earlier, history = later ++ taken :: earlier →
    ∀ factor, taken.after.account.storage.currentZk = some factor →
      taken.before.account.storage.currentZk ≠ some factor →
      taken.before.account.storage.enrolledIds factor.enrollmentId = false ∧
        ∀ step ∈ earlier, step.after.account.storage.enrolledIds factor.enrollmentId = false
  failed : ∀ taken ∈ history, ∀ failure, taken.reply = .error failure →
    taken.after = taken.before

section Single

variable {history : List (JointStep S)} {now : UInt32} {state : State σ}

theorem HonestRun.insertsLeaf (honest : HonestRun S history now state)
    {later earlier : List (JointStep S)} {taken : JointStep S}
    (split : history = later ++ taken :: earlier) {pool : Address} {enrollmentId : Bytes32}
    (inserted : InsertsLeaf S pool enrollmentId taken) :
    (∃ factor, EnrollsFactor S taken factor ∧ factor.pool = pool ∧
        factor.enrollmentId = enrollmentId) ∧
      taken.before.account.storage.enrolledIds enrollmentId = false ∧
      taken.after.account.storage.enrolledIds enrollmentId = true := by
  obtain ⟨before, after⟩ := honest.at_step split
  have member : taken ∈ history := by simp [split]
  obtain ⟨vacant, recorded⟩ := inserted
  rcases honest.lived.taken member with ⟨_, _, same⟩ | ⟨reply, answered, happened⟩
  · rw [same] at recorded
    exact absurd vacant recorded
  cases happened.enrollmentStep with
  | still _ records =>
      rw [records] at recorded
      exact absurd vacant recorded
  | @enrolls docJson validUntil expected compiled factor synced asked replied compiles named fresh
      changed current marked untouched called =>
      have deep := honest.named taken member docJson validUntil expected compiled factor asked
        compiles named
      obtain ⟨depth, runs⟩ := Option.ne_none_iff_exists'.mp deep
      obtain ⟨insertion, s', pools, inserts⟩ := rcvInsert_pools runs called
      rw [untouched] at pools inserts
      rw [records_of_inserts inserts pools] at recorded
      by_cases here : pool = factor.pool ∧ enrollmentId = factor.enrollmentId
      · obtain ⟨rfl, rfl⟩ := here
        refine ⟨⟨factor, ⟨docJson, validUntil, expected, compiled, asked, ?_, compiles, named,
          (after.leavesHeld.current factor current).2.2⟩, rfl, rfl⟩, fresh, by simp [marked]⟩
        rw [answered, replied]
      · rw [if_neg here] at recorded
        exact absurd vacant recorded

theorem HonestRun.insertsLeaf_once (honest : HonestRun S history now state)
    {later earlier : List (JointStep S)} {taken : JointStep S}
    (split : history = later ++ taken :: earlier) {pool : Address} {enrollmentId : Bytes32}
    (inserted : InsertsLeaf S pool enrollmentId taken) :
    ∀ step ∈ later ++ earlier, ∀ other, ¬InsertsLeaf S other enrollmentId step := by
  obtain ⟨_, fresh, enrolled⟩ := honest.insertsLeaf split inserted
  obtain ⟨before, _⟩ := honest.at_step split
  intro step member other again
  rcases List.mem_append.mp member with member | member
  · -- A later step would start with the id enrolled.
    obtain ⟨newest, middle, rfl⟩ := List.append_of_mem member
    have split' : history = newest ++ step :: (middle ++ taken :: earlier) := by
      rw [split, List.append_assoc, List.cons_append]
    obtain ⟨start, _⟩ := honest.at_step split'
    have unused := (honest.insertsLeaf split' again).2.1
    have used := (start.lived.enrolledIds_grow taken (by simp) enrollmentId).2 enrolled
    rw [used] at unused
    cases unused
  · -- An earlier one would have left it enrolled.
    obtain ⟨middle, oldest, rfl⟩ := List.append_of_mem member
    have split' : history = (later ++ taken :: middle) ++ step :: oldest := by
      rw [split, List.append_assoc, List.cons_append]
    have used := (honest.insertsLeaf split' again).2.2
    have still := (before.lived.enrolledIds_grow step (by simp) enrollmentId).2 used
    rw [still] at fresh
    cases fresh

/-- A factor that was not the current one was enrolled by the step. -/
theorem Lived.factor_fresh (lived : Lived S history now state) {taken : JointStep S}
    (member : taken ∈ history) {factor : CompiledZkFactor}
    (current : taken.after.account.storage.currentZk = some factor)
    (other : taken.before.account.storage.currentZk ≠ some factor) :
    taken.before.account.storage.enrolledIds factor.enrollmentId = false := by
  rcases lived.taken member with ⟨_, _, same⟩ | ⟨reply, _, happened⟩
  · rw [same] at current
    exact absurd current other
  cases happened.enrollmentStep with
  | still _ _ kept =>
      rcases kept with none | same
      · rw [none] at current
        cases current
      · rw [same] at current
        exact absurd current other
  | enrolls _ _ _ _ fresh _ enrolled =>
      obtain rfl := Option.some.inj (enrolled.symm.trans current)
      exact fresh

theorem HonestRun.enrolled_inserts (honest : HonestRun S history now state)
    {later earlier : List (JointStep S)} {taken : JointStep S}
    (split : history = later ++ taken :: earlier) {enrollmentId : Bytes32}
    (unused : taken.before.account.storage.enrolledIds enrollmentId = false)
    (used : taken.after.account.storage.enrolledIds enrollmentId = true) :
    ∃ pool, InsertsLeaf S pool enrollmentId taken := by
  obtain ⟨before, after⟩ := honest.at_step split
  obtain ⟨pool, recorded⟩ := after.leavesHeld.somewhere enrollmentId used
  refine ⟨pool, ?_, recorded⟩
  by_contra earlier
  rw [before.leavesHeld.recorded pool enrollmentId earlier] at unused
  cases unused

end Single

/-- Among honest pools an account's enrollment ids are single-use, and its
leaves are those of the factors it enrolled. -/
theorem enrollment_single_use {history : List (JointStep S)} {now : UInt32} {state : State σ}
    (honest : HonestRun S history now state) : SingleUse S history state := by
  have lived := honest.lived
  constructor
  · intro later taken earlier split pool enrollmentId inserted
    obtain ⟨factor, fresh, enrolled⟩ := honest.insertsLeaf split inserted
    refine ⟨factor, fresh, enrolled, ?_, honest.insertsLeaf_once split inserted⟩
    intro other again
    exact (honest.at_step split).2.leavesHeld.once other pool enrollmentId again.2 inserted.2
  · intro taken member enrollmentId unused used
    obtain ⟨later, earlier, split⟩ := List.append_of_mem member
    exact honest.enrolled_inserts split unused used
  · intro factor current
    obtain ⟨enrolled, _, present⟩ := honest.leavesHeld.current factor current
    exact ⟨enrolled, present⟩
  · intro taken member enrollmentId
    exact (lived.enrolledIds_grow taken member enrollmentId).1
  · intro later taken earlier split factor current other
    have member : taken ∈ history := by simp [split]
    have fresh := lived.factor_fresh member current other
    refine ⟨fresh, ?_⟩
    intro step earlierStep
    have grown := ((honest.at_step split).1.lived.enrolledIds_grow step earlierStep
      factor.enrollmentId).2
    by_contra used
    rw [Bool.not_eq_false] at used
    rw [grown used] at fresh
    cases fresh
  · intro taken member failure failed
    rcases lived.taken member with ⟨_, _, same⟩ | ⟨reply, answered, _⟩
    · exact same
    · rw [failed] at answered
      cases answered

/-! ### An account with one factor -/

section Sample

def samplePool : Address := .contract (BytesN.fill 7)

def sampleFactor : Ir.ZkFactor where
  adapter := "CADAMBQGAYDAMBQGAYDAMBQGAYDAMBQGAYDAMBQGAYDAMBQGAYDAMSST"
  circuitId := "0101010101010101010101010101010101010101010101010101010101010101"
  pool := "CADQOBYHA4DQOBYHA4DQOBYHA4DQOBYHA4DQOBYHA4DQOBYHA4DQP5KR"
  enrollmentId := "0000000000000000000000000000000600000000000000000000000000000007"
  commitment := "0000000000000000000000000000000000000000000000000000000000000008"

def provingRecovery : Ir.RecoveryConfig := { sampleRecovery with mode := .zkOnly sampleFactor }

def provingDoc : Ir.PolicyDoc := { enrollingDoc with recovery := some provingRecovery }

def compiledFactor : CompiledZkFactor where
  adapter := .contract (BytesN.fill 6)
  circuitId := BytesN.fill 1
  pool := samplePool
  enrollmentId := Zk.Filled.halves 6 7
  commitment := Zk.be32 8

def compiledProving : CompiledDoc where
  docHash := localSha256 (textBytes (Ir.writeValue (Ir.docToCv provingDoc)))
  canonical := textBytes (Ir.writeValue (Ir.docToCv provingDoc))
  fingerprints := compiledEnrolling.fingerprints
  rules := compiledEnrolling.rules
  recovery :=
    [{ compiledRecovery with
       configHash := configHash localSha256
         (textBytes (Ir.writeValue (Ir.recoveryToCv provingRecovery)))
       mode := .zkOnly compiledFactor }]

/-- The sample account at the address the hash is known at, with one pool. -/
def provingSetting : Setting MemoryStore where
  code :=
    { sampleCode with
      deployment := { sampleCode.deployment with address := Zk.Filled.account } }
  deployed address := address = sampleController
  foreign _ := false
  poseidon2 := Zk.Filled.poseidon2
  depth address := if address = samplePool then some 32 else none
  documented := MemoryStore.documented
  conforms := Ir.jsonReader_conforms
  pins := by decide
  apart := by
    intro controller deployed
    obtain rfl : controller = sampleController := by simpa using deployed
    decide

/-- The adapter and the pool answer with one circuit and one depth. -/
def provingAround (sequence : UInt32) : Surroundings :=
  { sampleAround sequence with
    env :=
      { (sampleAround sequence).env with
        zkAdapter := fun _ =>
          { verify := fun _ _ _ => false, circuitId := some (BytesN.fill 1), treeDepth := some 32 }
        poolDepth := fun _ => some 32 } }

def proving : Invocation provingSetting where
  around := provingAround 2
  action := .applyDoc (Ir.utf8 (Ir.canonicalJson provingDoc)) 10 none

theorem provingRecovery_compiles :
    toCompiledRecovery (localHost "T") provingRecovery = .ok
      { compiledRecovery with
        configHash := configHash localSha256
          (textBytes (Ir.writeValue (Ir.recoveryToCv provingRecovery)))
        mode := .zkOnly compiledFactor } := by
  have mode : toCompiledMode (localHost "T") provingRecovery.mode =
      .ok (.zkOnly compiledFactor) := by
    decide +kernel
  have controller : addressFromStr (localHost "T") provingRecovery.controller =
      .ok sampleController := by
    decide +kernel
  rw [toCompiledRecovery, mode, controller, Ir.recoveryCanonicalJson, utf8_ofList]
  rfl

set_option maxRecDepth 16384 in
theorem provingDoc_compiles :
    compileDoc provingSetting.code.host (Ir.utf8 (Ir.canonicalJson provingDoc)) =
      .ok compiledProving := by
  rw [show provingSetting.code.host = localHost "T" from rfl,
    compileDoc_of_doc Ir.jsonReader_conforms rfl]
  apply Compiles.compileParsed_eq
  refine
    { valid := by decide +kernel
      network := ⟨"T", rfl, rfl⟩
      capped := by decide +kernel
      rules := ⟨⟨[⟨"admin", .selfAdmin,
        [.delegated "GAAQCAIBAEAQCAIBAEAQCAIBAEAQCAIBAEAQCAIBAEAQCAIBAEAQDZ7H"], none, none,
        none⟩], none⟩, by decide +kernel, by decide +kernel⟩
      canonical := ?_
      short := by decide +kernel
      docHash := rfl
      recovery := ?_
      fingerprints := ⟨[.delegated (.account (BytesN.fill 1))], by decide +kernel,
        by decide +kernel⟩ }
  · rw [Ir.canonicalJson, utf8_ofList]
    rfl
  · change [provingRecovery].mapM (toCompiledRecovery (localHost "T")) = _
    rw [List.mapM_cons, provingRecovery_compiles]
    rfl

def sampleProved : Except AccountFailure (State MemoryStore × Reply × State MemoryStore) := do
  let account ← installAdmin provingSetting.code (provingSetting.callees (provingAround 1)) 1
    [.delegated (.account (BytesN.fill 8))] .empty sampleWorld
  let origin : State MemoryStore := { account := account, world := sampleWorld }
  let (reply, state) ← proving.run provingSetting origin
  pure (origin, reply, state)

set_option maxRecDepth 16384 in
theorem sampleProved_current : sampleProved.toOption.map
    (fun result => result.2.2.account.storage.currentZk) = some (some compiledFactor) := by
  simp only [sampleProved, proving, Invocation.run, applyDoc, apply, provingDoc_compiles]
  decide +kernel

/-- The run of one apply that enrolls a factor. -/
theorem sampleProved_honest :
    ∃ origin reply state, HonestRun provingSetting [⟨origin, proving, .ok reply, state⟩] 2 state ∧
      state.account.storage.currentZk = some compiledFactor := by
  obtain ⟨⟨origin, reply, state⟩, ran, current⟩ := Option.map_eq_some_iff.mp sampleProved_current
  have ran := toOption_eq_some.mp ran
  simp only [sampleProved, bind_eq_ok, pure_eq_ok, Prod.mk.injEq, Prod.exists] at ran
  obtain ⟨account, built, _, _, applied, rfl, rfl, rfl⟩ := ran
  have fresh : Origin provingSetting { account := account, world := sampleWorld } :=
    ⟨⟨provingAround 1, _, .empty, fun _ => rfl, built⟩, fun _ => rfl, fun _ _ => rfl⟩
  have pools : PoolsRun provingSetting { account := account, world := sampleWorld } :=
    fun _ _ _ => ⟨[], 0, .refl⟩
  have called : Execution (system provingSetting) 2 { account := account, world := sampleWorld }
      [_] 2 _ := .call proving .refl rfl
  rw [step_of_ok applied] at called
  refine ⟨_, _, _, ⟨⟨2, _, fresh, pools, called⟩, ?_⟩, current⟩
  intro taken member docJson validUntil expected compiled factor asked compiles named
  rw [List.mem_singleton.mp member] at asked
  obtain ⟨same, _, _⟩ := Action.applyDoc.inj asked
  rw [← same, provingDoc_compiles] at compiles
  rw [← Except.ok.inj compiles] at named
  obtain rfl : compiledFactor = factor := Option.some.inj named
  simp [provingSetting, compiledFactor]

/-- The sample account's leaf is in its pool. -/
theorem enrollment_single_use_sample :
    ∃ origin reply state, HonestRun provingSetting [⟨origin, proving, .ok reply, state⟩] 2 state ∧
      state.account.storage.enrolledIds compiledFactor.enrollmentId = true ∧
      LeafIn provingSetting state.world compiledFactor := by
  obtain ⟨origin, reply, state, honest, current⟩ := sampleProved_honest
  exact ⟨origin, reply, state, honest, (enrollment_single_use honest).current _ current⟩

end Sample

end Perch.Joint
