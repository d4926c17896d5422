/-
The rule store with everything it documents refusing, and the interpreter behind
it.

Each operation asks for its documented preconditions first, and calls the
interpreter's hooks as it attaches or detaches the interpreter.  A hook that
panics fails the operation here, an `uninstall` too, although the store would
go on.  The hooks are reserved names, so nothing else calls them for the account.
-/

import Perch.Account.Hooks

namespace Perch.Account

open Machine Recovery Program

/-! ### The store behind its preconditions -/

/-- A store, what the interpreter keeps, the ids of the rules in place, and the
most that ever were. -/
structure Held (σ : Type) where
  store : σ
  programs : Programs
  inPlace : List UInt32
  most : Nat

/-- A new rule as documented: not empty, within the store's limits, its signers
and policies distinct, and not past. -/
structure RuleFits (sequence : UInt32) (name : SString) (validUntil : Option UInt32)
    (signers : List Signer) (policies : List (Address × Val)) : Prop where
  nonempty : signers ≠ [] ∨ policies ≠ []
  fewSigners : signers.length ≤ maxSigners
  distinctSigners : signers.Nodup
  fewPolicies : policies.length ≤ maxPolicies
  distinctPolicies : (policies.map Prod.fst).Nodup
  shortName : name.length ≤ maxNameSize
  current : ∀ last ∈ validUntil, sequence ≤ last

instance (sequence : UInt32) (name : SString) (validUntil : Option UInt32)
    (signers : List Signer) (policies : List (Address × Val)) :
    Decidable (RuleFits sequence name validUntil signers policies) :=
  decidable_of_iff
    ((signers ≠ [] ∨ policies ≠ []) ∧ signers.length ≤ maxSigners ∧ signers.Nodup ∧
      policies.length ≤ maxPolicies ∧ (policies.map Prod.fst).Nodup ∧
      name.length ≤ maxNameSize ∧ ∀ last ∈ validUntil, sequence ≤ last)
    ⟨fun ⟨a, b, c, d, e, f, g⟩ => ⟨a, b, c, d, e, f, g⟩,
      fun ⟨a, b, c, d, e, f, g⟩ => ⟨a, b, c, d, e, f, g⟩⟩

section Operations

variable {σ : Type} (oz : RuleStore σ) (i : Interpreting)

/-- A hook that panics fails the operation. -/
def hooked (computed : Except InterpreterError Programs) : Except OzFailure Programs :=
  computed.mapError fun _ => .refused

namespace Held

def addContextRule (env : OzEnv) (held : Held σ) (contextType : ContextRuleType) (name : SString)
    (validUntil : Option UInt32) (signers : List Signer) (policies : List (Address × Val)) :
    Except OzFailure (UInt32 × Held σ) := do
  require (RuleFits env.sequence name validUntil signers policies) .refused
  let (id, store) ←
    oz.addContextRule env held.store contextType name validUntil signers policies
  let programs ← hooked (i.attachAll id held.programs policies)
  pure (id,
    { store := store
      programs := programs
      inPlace := id :: held.inPlace
      most := max held.most (held.inPlace.length + 1) })

def removeContextRule (held : Held σ) (id : UInt32) : Except OzFailure (Held σ) := do
  let rule ← orFail (oz.getContextRule held.store id) .refused
  let programs ← hooked (i.detachAll id held.programs rule.attached)
  let store ← oz.removeContextRule held.store id
  pure
    { held with
      store := store
      programs := programs
      inPlace := held.inPlace.erase id }

def addPolicy (env : OzEnv) (held : Held σ) (id : UInt32) (policy : Address) (param : Val) :
    Except OzFailure (Held σ) := do
  let rule ← orFail (oz.getContextRule held.store id) .refused
  require (policy ∉ rule.policies.map AttachedPolicy.policy ∧ rule.policies.length < maxPolicies)
    .refused
  let store ← oz.addPolicy env held.store id policy param
  let programs ← hooked (i.attach id held.programs (policy, param))
  pure { held with store := store, programs := programs }

def removePolicy (held : Held σ) (id policyId : UInt32) : Except OzFailure (Held σ) := do
  let rule ← orFail (oz.getContextRule held.store id) .refused
  let entry ← orFail (rule.policies.find? fun entry => entry.policyId = policyId) .refused
  require (rule.signers ≠ [] ∨ 1 < rule.policies.length) .refused
  let programs ← hooked (i.detach id held.programs (entry.policy, entry.param))
  let store ← oz.removePolicy held.store id policyId
  pure { held with store := store, programs := programs }

def reconcileSigners (held : Held σ) (id : UInt32) (signers : List Signer) :
    Except OzFailure (Held σ) := do
  let rule ← orFail (oz.getContextRule held.store id) .refused
  require (signers.length ≤ maxSigners ∧ signers.Nodup ∧ (signers ≠ [] ∨ rule.policies ≠ []))
    .refused
  let store ← oz.reconcileSigners held.store id signers
  pure { held with store := store }

def updateContextRuleValidUntil (env : OzEnv) (held : Held σ) (id : UInt32)
    (validUntil : Option UInt32) : Except OzFailure (Held σ) := do
  let _ ← orFail (oz.getContextRule held.store id) .refused
  require (∀ last ∈ validUntil, env.sequence ≤ last) .refused
  let store ← oz.updateContextRuleValidUntil env held.store id validUntil
  pure { held with store := store }

end Held

/-- The interpreter keeps the programs of the rules in place, which are at most
as many as ever were. -/
structure Kept (held : Held σ) : Prop where
  programs : ∀ id, held.programs i.account id =
    (oz.getContextRule held.store id).bind fun rule => i.program rule.attached
  distinct : held.inPlace.Nodup
  inPlace : ∀ id, id ∈ held.inPlace ↔ (oz.getContextRule held.store id).isSome = true

end Operations

/-! ### What every operation keeps -/

section Keeping

variable {σ : Type} {oz : RuleStore σ} {i : Interpreting} {held held' : Held σ} {id : UInt32}
  {rule rule' : StoredRule} {store : σ} {env : OzEnv}

theorem Kept.stored (kept : Kept oz i held) (found : oz.getContextRule held.store id = some rule) :
    held.programs i.account id = i.program rule.attached := by
  rw [kept.programs, found]
  rfl

/-- A rule that changes keeps its place. -/
theorem Kept.changed (kept : Kept oz i held) (found : oz.getContextRule held.store id = some rule)
    (updated : oz.getContextRule store =
      Function.update (oz.getContextRule held.store) id (some rule')) :
    Kept oz i
      { held with
        store := store
        programs := held.programs.set i.account id (i.program rule'.attached) } where
  programs other := by
    rw [updated]
    by_cases own : other = id
    · rw [own, Function.update_self]
      simp [Programs.set]
    · rw [Function.update_of_ne own, ← kept.programs]
      simp [Programs.set, own]
  distinct := kept.distinct
  inPlace other := by
    rw [updated, kept.inPlace]
    by_cases own : other = id
    · rw [own, Function.update_self, found]
      simp
    · rw [Function.update_of_ne own]

theorem Kept.unattached (kept : Kept oz i held)
    (found : oz.getContextRule held.store id = some rule)
    (updated : oz.getContextRule store =
      Function.update (oz.getContextRule held.store) id (some rule'))
    (same : rule'.attached = rule.attached) : Kept oz i { held with store := store } := by
  have changed := kept.changed found updated
  rwa [same, Interpreting.set_self (kept.stored found)] at changed

theorem addContextRule_eq_ok {contextType : ContextRuleType} {name : SString}
    {validUntil : Option UInt32} {signers : List Signer} {policies : List (Address × Val)} :
    Held.addContextRule oz i env held contextType name validUntil signers policies =
        .ok (id, held') ↔
      RuleFits env.sequence name validUntil signers policies ∧ ∃ store programs,
        oz.addContextRule env held.store contextType name validUntil signers policies =
          .ok (id, store) ∧
        i.attachAll id held.programs policies = .ok programs ∧
        held' = ⟨store, programs, id :: held.inPlace,
          max held.most (held.inPlace.length + 1)⟩ := by
  simp only [Held.addContextRule, hooked, bind_eq_ok, require_eq_ok, mapError_eq_ok, pure_eq_ok,
    Prod.exists, Prod.mk.injEq]
  constructor
  · rintro ⟨_, fits, _, store, added, programs, attached, rfl, rfl⟩
    exact ⟨fits, store, programs, added, attached, rfl⟩
  · rintro ⟨fits, store, programs, added, attached, rfl⟩
    exact ⟨(), fits, id, store, added, programs, attached, rfl, rfl⟩

theorem addContextRule_kept (documented : oz.Documented) (kept : Kept oz i held)
    {contextType : ContextRuleType} {name : SString} {validUntil : Option UInt32}
    {signers : List Signer} {policies : List (Address × Val)} {added : UInt32 × Held σ}
    (ran : Held.addContextRule oz i env held contextType name validUntil signers policies =
      .ok added) : Kept oz i added.2 := by
  obtain ⟨id, held'⟩ := added
  obtain ⟨fits, store, programs, stored, attached, rfl⟩ := addContextRule_eq_ok.mp ran
  have distinct := fits.distinctPolicies
  obtain ⟨fresh, _, entries, listed, updated⟩ := documented.addContextRule_sound distinct stored
  have absent : oz.getContextRule held.store id = none := by
    cases found : oz.getContextRule held.store id with
    | none => rfl
    | some rule =>
        have below := documented.id_lt_nextId found
        rw [fresh] at below
        exact absurd below (UInt32.lt_irrefl _)
  have empty : held.programs i.account id = none := by rw [kept.programs, absent]; rfl
  rw [Interpreting.attachAll_eq distinct empty, Except.ok.injEq] at attached
  subst attached
  constructor
  · intro other
    dsimp only
    rw [updated]
    by_cases own : other = id
    · rw [own, Function.update_self]
      have same : i.program policies =
          i.program (entries.map fun entry => (entry.policy, entry.param)) :=
        Interpreting.program_perm listed.symm distinct
      simpa [Programs.set, StoredRule.attached] using same
    · rw [Function.update_of_ne own, ← kept.programs]
      simp [Programs.set, own]
  · refine List.nodup_cons.mpr ⟨fun present => ?_, kept.distinct⟩
    rw [kept.inPlace, absent] at present
    cases present
  · intro other
    dsimp only
    rw [updated, List.mem_cons, kept.inPlace]
    by_cases own : other = id
    · simp [own]
    · simp [own]

theorem removeContextRule_eq_ok :
    Held.removeContextRule oz i held id = .ok held' ↔ ∃ rule programs store,
      oz.getContextRule held.store id = some rule ∧
      i.detachAll id held.programs rule.attached = .ok programs ∧
      oz.removeContextRule held.store id = .ok store ∧
      held' = ⟨store, programs, held.inPlace.erase id, held.most⟩ := by
  simp only [Held.removeContextRule, hooked, bind_eq_ok, orFail_eq_ok, mapError_eq_ok, pure_eq_ok]
  constructor
  · rintro ⟨rule, found, programs, detached, store, removed, rfl⟩
    exact ⟨rule, programs, store, found, detached, removed, rfl⟩
  · rintro ⟨rule, programs, store, found, detached, removed, rfl⟩
    exact ⟨rule, found, programs, detached, store, removed, rfl⟩

theorem attached_nodup (documented : oz.Documented)
    (found : oz.getContextRule store id = some rule) : (rule.attached.map Prod.fst).Nodup := by
  have distinct := documented.policies_nodup found
  rwa [StoredRule.attached, List.map_map]

theorem removeContextRule_kept (documented : oz.Documented) (kept : Kept oz i held)
    (ran : Held.removeContextRule oz i held id = .ok held') : Kept oz i held' := by
  obtain ⟨rule, programs, store, found, detached, removed, rfl⟩ := removeContextRule_eq_ok.mp ran
  obtain ⟨_, updated⟩ := documented.removeContextRule_sound removed
  rw [Interpreting.detachAll_eq (attached_nodup documented found) (kept.stored found),
    Except.ok.injEq] at detached
  subst detached
  constructor
  · intro other
    dsimp only
    rw [updated]
    by_cases own : other = id
    · simp [own, Programs.set]
    · rw [Function.update_of_ne own, ← kept.programs]
      simp [Programs.set, own]
  · exact kept.distinct.erase id
  · intro other
    dsimp only
    rw [updated, kept.distinct.mem_erase_iff, kept.inPlace]
    by_cases own : other = id
    · simp [own]
    · simp [own]

theorem addPolicy_eq_ok {policy : Address} {param : Val} :
    Held.addPolicy oz i env held id policy param = .ok held' ↔ ∃ rule store programs,
      oz.getContextRule held.store id = some rule ∧
      (policy ∉ rule.policies.map AttachedPolicy.policy ∧ rule.policies.length < maxPolicies) ∧
      oz.addPolicy env held.store id policy param = .ok store ∧
      i.attach id held.programs (policy, param) = .ok programs ∧
      held' = { held with store := store, programs := programs } := by
  simp only [Held.addPolicy, hooked, bind_eq_ok, orFail_eq_ok, require_eq_ok, mapError_eq_ok,
    pure_eq_ok]
  constructor
  · rintro ⟨rule, found, _, fits, store, added, programs, attached, rfl⟩
    exact ⟨rule, store, programs, found, fits, added, attached, rfl⟩
  · rintro ⟨rule, store, programs, found, fits, added, attached, rfl⟩
    exact ⟨rule, found, (), fits, store, added, programs, attached, rfl⟩

theorem addPolicy_kept (documented : oz.Documented) (kept : Kept oz i held) {policy : Address}
    {param : Val} (ran : Held.addPolicy oz i env held id policy param = .ok held') :
    Kept oz i held' := by
  obtain ⟨rule, store, programs, found, ⟨absent, _⟩, added, attached, rfl⟩ :=
    addPolicy_eq_ok.mp ran
  obtain ⟨_, entries, policyId, listed, updated⟩ := documented.addPolicy_sound found added
  have apart : (policy, param).1 ∉ rule.attached.map Prod.fst :=
    fun present => absent (StoredRule.policy_mem.mpr present)
  rw [Interpreting.attach_more apart (kept.stored found), Except.ok.injEq] at attached
  subst attached
  have more : (entries.map fun entry => (entry.policy, entry.param)).Perm
      ((policy, param) :: rule.attached) := listed.map _
  rw [Interpreting.program_perm more.symm
    (List.nodup_cons.mpr ⟨apart, attached_nodup documented found⟩)]
  exact kept.changed found updated

theorem removePolicy_eq_ok {policyId : UInt32} :
    Held.removePolicy oz i held id policyId = .ok held' ↔ ∃ rule entry programs store,
      oz.getContextRule held.store id = some rule ∧
      rule.policies.find? (fun entry => entry.policyId = policyId) = some entry ∧
      (rule.signers ≠ [] ∨ 1 < rule.policies.length) ∧
      i.detach id held.programs (entry.policy, entry.param) = .ok programs ∧
      oz.removePolicy held.store id policyId = .ok store ∧
      held' = { held with store := store, programs := programs } := by
  simp only [Held.removePolicy, hooked, bind_eq_ok, orFail_eq_ok, require_eq_ok, mapError_eq_ok,
    pure_eq_ok]
  constructor
  · rintro ⟨rule, found, entry, located, _, nonempty, programs, detached, store, removed, rfl⟩
    exact ⟨rule, entry, programs, store, found, located, nonempty, detached, removed, rfl⟩
  · rintro ⟨rule, entry, programs, store, found, located, nonempty, detached, removed, rfl⟩
    exact ⟨rule, found, entry, located, (), nonempty, programs, detached, store, removed, rfl⟩

/-- A policy is one entry, whether found by number or by address. -/
theorem attached_filter (documented : oz.Documented)
    (found : oz.getContextRule store id = some rule) {entry : AttachedPolicy}
    (member : entry ∈ rule.policies) :
    (rule.policies.filter fun other => other.policyId ≠ entry.policyId).map
        (fun other => (other.policy, other.param)) =
      rule.attached.filter fun other => other.1 ≠ entry.policy := by
  rw [StoredRule.attached, List.filter_map]
  congr 1
  refine List.filter_congr fun other present => decide_eq_decide.mpr (not_congr ⟨?_, ?_⟩)
  · intro equal
    rw [List.inj_on_of_nodup_map (documented.policyIds_nodup found) present member equal]
  · intro equal
    rw [List.inj_on_of_nodup_map (documented.policies_nodup found) present member equal]

theorem detach_stored (documented : oz.Documented) (kept : Kept oz i held)
    (found : oz.getContextRule held.store id = some rule) {entry : AttachedPolicy}
    (member : entry ∈ rule.policies) :
    i.detach id held.programs (entry.policy, entry.param) = .ok (held.programs.set i.account id
      (i.program (rule.attached.filter fun other => other.1 ≠ entry.policy))) :=
  Interpreting.detach_one (attached_nodup documented found) (List.mem_map_of_mem member)
    (kept.stored found)

theorem removePolicy_kept (documented : oz.Documented) (kept : Kept oz i held)
    {policyId : UInt32} (ran : Held.removePolicy oz i held id policyId = .ok held') :
    Kept oz i held' := by
  obtain ⟨rule, entry, programs, store, found, located, _, detached, removed, rfl⟩ :=
    removePolicy_eq_ok.mp ran
  have member := List.mem_of_find?_eq_some located
  obtain rfl : entry.policyId = policyId := by simpa using List.find?_some located
  obtain ⟨_, entries, listed, updated⟩ := documented.removePolicy_sound found removed
  rw [detach_stored documented kept found member, Except.ok.injEq] at detached
  subst detached
  have left : (entries.map fun other => (other.policy, other.param)).Perm
      (rule.attached.filter fun other => other.1 ≠ entry.policy) := by
    rw [← attached_filter documented found member]
    exact listed.map _
  have distinct := (attached_nodup documented found).sublist
    ((List.filter_sublist (p := fun other => decide (other.1 ≠ entry.policy))).map Prod.fst)
  rw [Interpreting.program_perm left.symm distinct]
  exact kept.changed found updated

theorem reconcileSigners_eq_ok {signers : List Signer} :
    Held.reconcileSigners oz held id signers = .ok held' ↔ ∃ rule store,
      oz.getContextRule held.store id = some rule ∧
      (signers.length ≤ maxSigners ∧ signers.Nodup ∧ (signers ≠ [] ∨ rule.policies ≠ [])) ∧
      oz.reconcileSigners held.store id signers = .ok store ∧
      held' = { held with store := store } := by
  simp only [Held.reconcileSigners, bind_eq_ok, orFail_eq_ok, require_eq_ok, pure_eq_ok]
  constructor
  · rintro ⟨rule, found, _, fits, store, changed, rfl⟩
    exact ⟨rule, store, found, fits, changed, rfl⟩
  · rintro ⟨rule, store, found, fits, changed, rfl⟩
    exact ⟨rule, found, (), fits, store, changed, rfl⟩

theorem reconcileSigners_kept (documented : oz.Documented) (kept : Kept oz i held)
    {signers : List Signer} (ran : Held.reconcileSigners oz held id signers = .ok held') :
    Kept oz i held' := by
  obtain ⟨rule, store, found, _, changed, rfl⟩ := reconcileSigners_eq_ok.mp ran
  exact kept.unattached found (documented.reconcileSigners_sound found changed).2 rfl

theorem updateContextRuleValidUntil_eq_ok {validUntil : Option UInt32} :
    Held.updateContextRuleValidUntil oz env held id validUntil = .ok held' ↔ ∃ rule store,
      oz.getContextRule held.store id = some rule ∧
      (∀ last ∈ validUntil, env.sequence ≤ last) ∧
      oz.updateContextRuleValidUntil env held.store id validUntil = .ok store ∧
      held' = { held with store := store } := by
  simp only [Held.updateContextRuleValidUntil, bind_eq_ok, orFail_eq_ok, require_eq_ok,
    pure_eq_ok]
  constructor
  · rintro ⟨rule, found, _, current, store, changed, rfl⟩
    exact ⟨rule, store, found, current, changed, rfl⟩
  · rintro ⟨rule, store, found, current, changed, rfl⟩
    exact ⟨rule, found, (), current, store, changed, rfl⟩

theorem updateContextRuleValidUntil_kept (documented : oz.Documented) (kept : Kept oz i held)
    {validUntil : Option UInt32}
    (ran : Held.updateContextRuleValidUntil oz env held id validUntil = .ok held') :
    Kept oz i held' := by
  obtain ⟨rule, store, found, _, changed, rfl⟩ := updateContextRuleValidUntil_eq_ok.mp ran
  exact kept.unattached found (documented.updateContextRuleValidUntil_sound found changed).2 rfl

end Keeping

/-! ### The store -/

section Watched

variable {σ : Type} {oz : RuleStore σ}

abbrev Watched (oz : RuleStore σ) (i : Interpreting) := {held : Held σ // Kept oz i held}

/-- The store that asks for its documented preconditions, and in which no hook
may panic. -/
def watched (documented : oz.Documented) (i : Interpreting) : RuleStore (Watched oz i) where
  getContextRule held := oz.getContextRule held.1.store
  nextId held := oz.nextId held.1.store
  acceptsSigners signers := decide signers.Nodup && oz.acceptsSigners signers
  addContextRule env held contextType name validUntil signers policies := do
    let added ← keeping
      (held.1.addContextRule oz i env contextType name validUntil signers policies)
      fun _ ran => addContextRule_kept documented held.2 ran
    pure (added.1.1, ⟨added.1.2, added.2⟩)
  removeContextRule held id :=
    keeping (held.1.removeContextRule oz i id) fun _ => removeContextRule_kept documented held.2
  addPolicy env held id policy param :=
    keeping (held.1.addPolicy oz i env id policy param) fun _ => addPolicy_kept documented held.2
  removePolicy held id policyId :=
    keeping (held.1.removePolicy oz i id policyId) fun _ => removePolicy_kept documented held.2
  reconcileSigners held id signers :=
    keeping (held.1.reconcileSigners oz id signers) fun _ =>
      reconcileSigners_kept documented held.2
  updateContextRuleValidUntil env held id validUntil :=
    keeping (held.1.updateContextRuleValidUntil oz env id validUntil) fun _ =>
      updateContextRuleValidUntil_kept documented held.2

variable {documented : oz.Documented} {i : Interpreting} {env : OzEnv} {held : Watched oz i}

theorem watched_addContextRule_eq_ok {contextType : ContextRuleType} {name : SString}
    {validUntil : Option UInt32} {signers : List Signer} {policies : List (Address × Val)}
    {id : UInt32} {held' : Watched oz i} :
    (watched documented i).addContextRule env held contextType name validUntil signers policies =
        .ok (id, held') ↔
      held.1.addContextRule oz i env contextType name validUntil signers policies =
        .ok (id, held'.1) := by
  simp only [watched, bind_eq_ok, keeping_eq_ok, pure_eq_ok, Prod.mk.injEq]
  constructor
  · rintro ⟨added, ran, rfl, rfl⟩
    exact ran
  · intro ran
    exact ⟨⟨(id, held'.1), held'.2⟩, ran, rfl, rfl⟩

/-- A refusal of the watching store's own is no policy's. -/
theorem hooked_ne_install {computed : Except InterpreterError Programs} {policy : Address}
    {failure : Failure} : hooked computed ≠ .error (.install policy failure) := by
  intro raised
  cases computed <;> cases raised

theorem attachAll_fresh (documented : oz.Documented) (kept : Kept oz i held.1)
    {policies : List (Address × Val)} (distinct : (policies.map Prod.fst).Nodup) :
    i.attachAll (oz.nextId held.1.store) held.1.programs policies =
      .ok (held.1.programs.set i.account (oz.nextId held.1.store) (i.program policies)) := by
  apply Interpreting.attachAll_eq distinct
  rw [kept.programs]
  cases found : oz.getContextRule held.1.store (oz.nextId held.1.store) with
  | none => rfl
  | some rule => exact absurd (documented.id_lt_nextId found) (UInt32.lt_irrefl _)

theorem watched_documented (documented : oz.Documented) (i : Interpreting) :
    (watched documented i).Documented where
  id_lt_nextId found := documented.id_lt_nextId found
  policies_nodup found := documented.policies_nodup found
  policyIds_nodup found := documented.policyIds_nodup found
  addContextRule_sound distinct ran := by
    obtain ⟨_, store, _, added, _, same⟩ :=
      addContextRule_eq_ok.mp (watched_addContextRule_eq_ok.mp ran)
    have sound := documented.addContextRule_sound distinct added
    simp only [watched, same]
    exact sound
  addContextRule_total {env held contextType name validUntil signers policies} distinct admits
      room := by
    obtain ⟨few, accepted⟩ := admits.signersFit
    obtain ⟨apart, accepted⟩ := Bool.and_eq_true_iff.mp accepted
    obtain ⟨⟨id, store⟩, added⟩ := documented.addContextRule_total distinct
      { admits with signersFit := ⟨few, accepted⟩ } room
    obtain ⟨rfl, _⟩ := documented.addContextRule_sound distinct added
    have fits : RuleFits env.sequence name validUntil signers policies :=
      { nonempty := admits.nonempty
        fewSigners := few
        distinctSigners := of_decide_eq_true apart
        fewPolicies := admits.few
        distinctPolicies := distinct
        shortName := admits.shortName
        current := admits.current }
    have ran := addContextRule_eq_ok.mpr
      ⟨fits, store, _, added, attachAll_fresh documented held.2 distinct, rfl⟩
    exact ⟨(_, ⟨_, addContextRule_kept documented held.2 ran⟩),
      watched_addContextRule_eq_ok.mpr ran⟩
  addContextRule_install raised := by
    simp [-bind_pure_comp, watched, Held.addContextRule, hooked_ne_install] at raised
    exact documented.addContextRule_install raised.2
  removeContextRule_sound ran := by
    obtain ⟨_, _, _, _, _, removed, same⟩ := removeContextRule_eq_ok.mp (keeping_eq_ok.mp ran)
    simp only [watched, same]
    exact documented.removeContextRule_sound removed
  removeContextRule_total {held id rule} found := by
    obtain ⟨store, removed⟩ := documented.removeContextRule_total found
    have detached := Interpreting.detachAll_eq (attached_nodup documented found)
      (held.2.stored found)
    exact keeping_total ⟨_, removeContextRule_eq_ok.mpr
      ⟨rule, _, store, found, detached, removed, rfl⟩⟩
  removeContextRule_install := by
    simp [-bind_pure_comp, watched, Held.removeContextRule, hooked_ne_install,
      documented.removeContextRule_install]
  addPolicy_sound found ran := by
    obtain ⟨rule, _, _, before, _, added, _, same⟩ := addPolicy_eq_ok.mp (keeping_eq_ok.mp ran)
    obtain rfl := Option.some.inj (before.symm.trans found)
    simp only [watched, same]
    exact documented.addPolicy_sound before added
  addPolicy_total {env held id policy param rule} found absent few accepts := by
    obtain ⟨store, added⟩ := documented.addPolicy_total found absent few accepts
    have apart : (policy, param).1 ∉ rule.attached.map Prod.fst :=
      fun present => absent (StoredRule.policy_mem.mpr present)
    have attached := Interpreting.attach_more apart (held.2.stored found)
    exact keeping_total ⟨_, addPolicy_eq_ok.mpr
      ⟨rule, store, _, found, ⟨absent, few⟩, added, attached, rfl⟩⟩
  addPolicy_install raised := by
    simp [-bind_pure_comp, watched, Held.addPolicy, hooked_ne_install] at raised
    obtain ⟨_, _, _, refused⟩ := raised
    exact documented.addPolicy_install refused
  removePolicy_sound found ran := by
    obtain ⟨rule, _, _, _, before, _, _, _, removed, same⟩ :=
      removePolicy_eq_ok.mp (keeping_eq_ok.mp ran)
    obtain rfl := Option.some.inj (before.symm.trans found)
    simp only [watched, same]
    exact documented.removePolicy_sound before removed
  removePolicy_total {held id policyId rule} found listed nonempty := by
    obtain ⟨store, removed⟩ := documented.removePolicy_total found listed nonempty
    obtain ⟨entry, member, same⟩ := List.mem_map.mp listed
    have present : (rule.policies.find? fun entry => entry.policyId = policyId).isSome := by
      rw [List.find?_isSome]
      exact ⟨entry, member, decide_eq_true same⟩
    obtain ⟨first, located⟩ := Option.isSome_iff_exists.mp present
    have detached := detach_stored documented held.2 found (List.mem_of_find?_eq_some located)
    exact keeping_total ⟨_, removePolicy_eq_ok.mpr
      ⟨rule, first, _, store, found, located, nonempty, detached, removed, rfl⟩⟩
  removePolicy_install := by
    simp [-bind_pure_comp, watched, Held.removePolicy, hooked_ne_install,
      documented.removePolicy_install]
  reconcileSigners_sound found ran := by
    obtain ⟨rule, _, before, _, changed, same⟩ :=
      reconcileSigners_eq_ok.mp (keeping_eq_ok.mp ran)
    obtain rfl := Option.some.inj (before.symm.trans found)
    simp only [watched, same]
    exact documented.reconcileSigners_sound before changed
  reconcileSigners_total {held id signers rule} found fit nonempty := by
    obtain ⟨few, accepted⟩ := fit
    obtain ⟨apart, accepted⟩ := Bool.and_eq_true_iff.mp accepted
    obtain ⟨store, changed⟩ := documented.reconcileSigners_total found ⟨few, accepted⟩ nonempty
    exact keeping_total ⟨_, reconcileSigners_eq_ok.mpr
      ⟨rule, store, found, ⟨few, of_decide_eq_true apart, nonempty⟩, changed, rfl⟩⟩
  reconcileSigners_install := by
    simp [-bind_pure_comp, watched, Held.reconcileSigners, documented.reconcileSigners_install]
  updateContextRuleValidUntil_sound found ran := by
    obtain ⟨rule, _, before, _, changed, same⟩ :=
      updateContextRuleValidUntil_eq_ok.mp (keeping_eq_ok.mp ran)
    obtain rfl := Option.some.inj (before.symm.trans found)
    simp only [watched, same]
    exact documented.updateContextRuleValidUntil_sound before changed
  updateContextRuleValidUntil_total {env held id validUntil rule} found current := by
    obtain ⟨store, changed⟩ := documented.updateContextRuleValidUntil_total found current
    exact keeping_total ⟨_, updateContextRuleValidUntil_eq_ok.mpr
      ⟨rule, store, found, current, changed, rfl⟩⟩
  updateContextRuleValidUntil_install := by
    simp [-bind_pure_comp, watched, Held.updateContextRuleValidUntil,
      documented.updateContextRuleValidUntil_install]

end Watched

end Perch.Account
