/-
A context-rule store kept in memory.

The laws the account relies on describe another library.  Here they are met:
a store that keeps its rules by id, checks what the library documents that it
checks, and numbers a rule's policies itself.  Every fixed run of an account
stands on it.
-/

import Mathlib.Data.List.NodupEquivFin
import Perch.Account.RuleStore
import Perch.Machine.Fallible

namespace Perch.Account

open Machine Recovery

/-- A rule names a policy once, by address and by number. -/
def StoredRule.Distinct (rule : StoredRule) : Prop :=
  (rule.policies.map AttachedPolicy.policy).Nodup ∧
    (rule.policies.map AttachedPolicy.policyId).Nodup

instance (rule : StoredRule) : Decidable rule.Distinct :=
  inferInstanceAs (Decidable (_ ∧ _))

structure MemoryStore where
  rules : UInt32 → Option StoredRule
  nextId : UInt32
  bounded : ∀ id rule, rules id = some rule → id < nextId
  distinct : ∀ id rule, rules id = some rule → rule.Distinct

namespace MemoryStore

def empty : MemoryStore where
  rules _ := none
  nextId := 0
  bounded := by simp
  distinct := by simp

def shown (id : UInt32) (rule : StoredRule) : ContextRule where
  id := id
  contextType := rule.contextType
  name := rule.name
  signers := rule.signers
  policies := rule.policies.map AttachedPolicy.policy
  validUntil := rule.validUntil

def acceptsSigners (signers : List Signer) : Bool := decide signers.Nodup

def freeId (rule : StoredRule) : Option UInt32 :=
  ((List.range maxPolicies).map UInt32.ofNat).find? fun id =>
    id ∉ rule.policies.map AttachedPolicy.policyId

def put (s : MemoryStore) (id : UInt32) (rule : StoredRule) (below : id < s.nextId)
    (distinct : rule.Distinct) : MemoryStore where
  rules := Function.update s.rules id (some rule)
  nextId := s.nextId
  bounded := by
    intro other held found
    rw [Function.update_apply] at found
    split at found
    · rename_i same
      exact same ▸ below
    · exact s.bounded other held found
  distinct := by
    intro other held found
    rw [Function.update_apply] at found
    split at found
    · exact Option.some.inj found ▸ distinct
    · exact s.distinct other held found

/-- Change one rule, if there is one and it stays a rule. -/
def rewrite (s : MemoryStore) (id : UInt32) (change : StoredRule → Except OzFailure StoredRule) :
    Except OzFailure MemoryStore :=
  match held : s.rules id with
  | none => .error .refused
  | some rule => do
      let next ← change rule
      if distinct : next.Distinct then
        pure (s.put id next (s.bounded id rule held) distinct)
      else .error .refused

def installAll (env : OzEnv) (rule : ContextRule) (policies : List (Address × Val)) :
    Except OzFailure Unit :=
  forM policies fun (policy, param) =>
    (env.install policy param rule).mapError (OzFailure.install policy)

def numbered (policies : List (Address × Val)) : List AttachedPolicy :=
  policies.zipIdx.map fun ((policy, param), index) => ⟨policy, UInt32.ofNat index, param⟩

def addContextRule (env : OzEnv) (s : MemoryStore) (contextType : ContextRuleType) (name : SString)
    (validUntil : Option UInt32) (signers : List Signer) (policies : List (Address × Val)) :
    Except OzFailure (UInt32 × MemoryStore) := do
  require ((signers ≠ [] ∨ policies ≠ []) ∧ signers.length ≤ maxSigners ∧
    acceptsSigners signers = true ∧ policies.length ≤ maxPolicies ∧ name.length ≤ maxNameSize)
    OzFailure.refused
  require (∀ last ∈ validUntil, env.sequence ≤ last) OzFailure.refused
  let rule : StoredRule := ⟨contextType, name, validUntil, signers, numbered policies⟩
  installAll env (shown s.nextId rule) policies
  if fits : rule.Distinct ∧ s.nextId.toNat + 1 < 4294967296 then
    let grown : MemoryStore :=
      { s with
        nextId := s.nextId + 1
        bounded := fun id held found => by
          have before := s.bounded id held found
          rw [UInt32.lt_iff_toNat_lt] at before ⊢
          rw [UInt32.toNat_add, UInt32.toNat_one, Nat.mod_eq_of_lt fits.2]
          omega }
    pure (s.nextId, grown.put s.nextId rule (by
      rw [UInt32.lt_iff_toNat_lt, UInt32.toNat_add, UInt32.toNat_one, Nat.mod_eq_of_lt fits.2]
      omega) fits.1)
  else .error .refused

def removeContextRule (s : MemoryStore) (id : UInt32) : Except OzFailure MemoryStore := do
  require ((s.rules id).isSome = true) OzFailure.refused
  pure
    { s with
      rules := Function.update s.rules id none
      bounded := fun other held found => by
        rw [Function.update_apply] at found
        split at found
        · cases found
        · exact s.bounded other held found
      distinct := fun other held found => by
        rw [Function.update_apply] at found
        split at found
        · cases found
        · exact s.distinct other held found }

def addPolicy (env : OzEnv) (s : MemoryStore) (id : UInt32) (policy : Address) (param : Val) :
    Except OzFailure MemoryStore :=
  s.rewrite id fun rule => do
    require (rule.policies.length < maxPolicies) OzFailure.refused
    (env.install policy param (shown id rule)).mapError (OzFailure.install policy)
    let policyId ← orFail (freeId rule) OzFailure.refused
    pure { rule with policies := rule.policies ++ [⟨policy, policyId, param⟩] }

def removePolicy (s : MemoryStore) (id policyId : UInt32) : Except OzFailure MemoryStore :=
  s.rewrite id fun rule => do
    require (policyId ∈ rule.policies.map AttachedPolicy.policyId ∧
      (rule.signers ≠ [] ∨ 1 < rule.policies.length)) OzFailure.refused
    pure { rule with policies := rule.policies.filter fun entry => entry.policyId ≠ policyId }

def reconcileSigners (s : MemoryStore) (id : UInt32) (signers : List Signer) :
    Except OzFailure MemoryStore :=
  s.rewrite id fun rule => do
    require (signers.length ≤ maxSigners ∧ acceptsSigners signers = true ∧
      (signers ≠ [] ∨ rule.policies ≠ [])) OzFailure.refused
    pure { rule with signers := signers }

def updateContextRuleValidUntil (env : OzEnv) (s : MemoryStore) (id : UInt32)
    (validUntil : Option UInt32) : Except OzFailure MemoryStore :=
  s.rewrite id fun rule => do
    require (∀ last ∈ validUntil, env.sequence ≤ last) OzFailure.refused
    pure { rule with validUntil := validUntil }

def store : RuleStore MemoryStore where
  getContextRule := rules
  nextId := nextId
  acceptsSigners := acceptsSigners
  addContextRule := addContextRule
  removeContextRule := removeContextRule
  addPolicy := addPolicy
  removePolicy := removePolicy
  reconcileSigners := reconcileSigners
  updateContextRuleValidUntil := updateContextRuleValidUntil

/-! ### It behaves as documented -/

section Rewrite

variable {s s' : MemoryStore} {id : UInt32} {rule : StoredRule}
  {change : StoredRule → Except OzFailure StoredRule}

theorem rewrite_held (held : s.rules id = some rule) :
    s.rewrite id change = (do
      let next ← change rule
      if distinct : next.Distinct then
        pure (s.put id next (s.bounded id rule held) distinct)
      else .error .refused) := by
  unfold rewrite
  split
  · rename_i absent
    rw [absent] at held
    cases held
  · rename_i found present
    obtain rfl := Option.some.inj (present.symm.trans held)
    rfl

theorem rewrite_eq_ok (held : s.rules id = some rule) (rewrote : s.rewrite id change = .ok s') :
    ∃ next, change rule = .ok next ∧ s'.nextId = s.nextId ∧
      s'.rules = Function.update s.rules id (some next) := by
  rw [rewrite_held held, bind_eq_ok] at rewrote
  obtain ⟨next, changed, wrote⟩ := rewrote
  split at wrote
  · rw [pure_eq_ok] at wrote
    subst wrote
    exact ⟨next, changed, rfl, rfl⟩
  · cases wrote

theorem rewrite_total (held : s.rules id = some rule) (next : StoredRule)
    (changed : change rule = .ok next) (distinct : next.Distinct) :
    ∃ s', s.rewrite id change = .ok s' := by
  rw [rewrite_held held, changed, ok_bind, dif_pos distinct]
  exact ⟨_, rfl⟩

theorem rewrite_install {policy : Address} {failure : Failure}
    (refused : s.rewrite id change = .error (.install policy failure)) :
    ∃ rule, change rule = .error (.install policy failure) := by
  cases held : s.rules id with
  | none =>
      unfold rewrite at refused
      split at refused
      · cases refused
      · rename_i present
        rw [held] at present
        cases present
  | some rule =>
      rw [rewrite_held held, bind_eq_error] at refused
      rcases refused with early | ⟨next, _, late⟩
      · exact ⟨rule, early⟩
      · split at late <;> cases late

end Rewrite

section Install

variable {env : OzEnv} {rule : ContextRule} {policies : List (Address × Val)}

theorem installAll_total
    (accepted : ∀ attached ∈ policies, env.install attached.1 attached.2 rule = .ok ()) :
    installAll env rule policies = .ok () := by
  unfold installAll
  induction policies with
  | nil => rfl
  | cons first rest ih =>
      rw [List.forM_cons, bind_eq_ok]
      refine ⟨(), ?_, ?_⟩
      · exact mapError_eq_ok.mpr (accepted first List.mem_cons_self)
      · exact ih fun attached member => accepted attached (List.mem_cons_of_mem _ member)

theorem mapError_install {policy refusing : Address} {failure : Failure}
    {computed : Except Failure Unit}
    (raised : computed.mapError (OzFailure.install policy) = .error (.install refusing failure)) :
    refusing = policy ∧ computed = .error failure := by
  cases computed with
  | ok value => cases raised
  | error cause =>
      have same : OzFailure.install policy cause = .install refusing failure :=
        Except.error.inj raised
      injection same with samePolicy sameFailure
      exact ⟨samePolicy.symm, congrArg Except.error sameFailure⟩

theorem installAll_install {policy : Address} {failure : Failure}
    (refused : installAll env rule policies = .error (.install policy failure)) :
    ∃ param, (policy, param) ∈ policies ∧ env.install policy param rule = .error failure := by
  unfold installAll at refused
  induction policies with
  | nil => cases refused
  | cons first rest ih =>
      rw [List.forM_cons, bind_eq_error] at refused
      rcases refused with early | ⟨_, _, late⟩
      · obtain ⟨rfl, raised⟩ := mapError_install early
        exact ⟨first.2, List.mem_cons_self, raised⟩
      · obtain ⟨param, member, raised⟩ := ih late
        exact ⟨param, List.mem_cons_of_mem _ member, raised⟩

theorem numbered_attached (policies : List (Address × Val)) :
    (numbered policies).map (fun entry => (entry.policy, entry.param)) = policies := by
  unfold numbered
  rw [List.map_map]
  exact List.zipIdx_map_fst 0 policies

theorem numbered_distinct (distinct : (policies.map Prod.fst).Nodup)
    (few : policies.length ≤ maxPolicies) :
    ((numbered policies).map AttachedPolicy.policy).Nodup ∧
      ((numbered policies).map AttachedPolicy.policyId).Nodup := by
  constructor
  · have named := congrArg (List.map Prod.fst) (numbered_attached policies)
    rw [List.map_map] at named
    change (numbered policies).map AttachedPolicy.policy = policies.map Prod.fst at named
    rw [named]
    exact distinct
  · have numbers : (numbered policies).map AttachedPolicy.policyId =
        (List.range policies.length).map UInt32.ofNat := by
      unfold numbered
      rw [List.map_map, List.range_eq_range', ← List.zipIdx_map_snd 0 policies, List.map_map]
      rfl
    have small : ∀ n ≤ maxPolicies, ((List.range n).map UInt32.ofNat).Nodup := by decide
    rw [numbers]
    exact small _ few

end Install

theorem freeId_total {rule : StoredRule} (room : rule.policies.length < maxPolicies) :
    ∃ id, freeId rule = some id ∧ id ∉ rule.policies.map AttachedPolicy.policyId := by
  have found : (freeId rule).isSome = true := by
    rw [freeId, List.find?_isSome]
    by_contra taken
    have within : (List.range maxPolicies).map UInt32.ofNat ⊆
        rule.policies.map AttachedPolicy.policyId := by
      intro id candidate
      by_contra free
      exact taken ⟨id, candidate, by simpa using free⟩
    have distinct : ((List.range maxPolicies).map UInt32.ofNat).Nodup := by decide
    have enough := (List.subperm_of_subset distinct within).length_le
    rw [List.length_map, List.length_map, List.length_range] at enough
    omega
  obtain ⟨id, chosen⟩ := Option.isSome_iff_exists.mp found
  refine ⟨id, chosen, ?_⟩
  have free := List.find?_some chosen
  simpa using free

theorem distinct_filter {rule : StoredRule} (distinct : rule.Distinct)
    (keep : AttachedPolicy → Bool) :
    StoredRule.Distinct { rule with policies := rule.policies.filter keep } :=
  ⟨distinct.1.sublist (List.filter_sublist.map _), distinct.2.sublist (List.filter_sublist.map _)⟩

theorem distinct_append {rule : StoredRule} (distinct : rule.Distinct)
    {entry : AttachedPolicy} (newPolicy : entry.policy ∉ rule.policies.map AttachedPolicy.policy)
    (newId : entry.policyId ∉ rule.policies.map AttachedPolicy.policyId) :
    StoredRule.Distinct { rule with policies := rule.policies ++ [entry] } := by
  simp only [StoredRule.Distinct, List.map_append, List.map_cons, List.map_nil]
  exact ⟨List.nodup_append_comm.mp (List.nodup_cons.mpr ⟨newPolicy, distinct.1⟩),
    List.nodup_append_comm.mp (List.nodup_cons.mpr ⟨newId, distinct.2⟩)⟩

/-- The laws hold of the store in memory. -/
theorem documented : store.Documented where
  id_lt_nextId := fun {s id rule} held => s.bounded id rule held
  policies_nodup := fun {s id rule} held => (s.distinct id rule held).1
  policyIds_nodup := fun {s id rule} held => (s.distinct id rule held).2
  addContextRule_sound := by
    intro env s contextType name validUntil signers policies id s' _ added
    simp only [store, addContextRule, bind_eq_ok] at added
    obtain ⟨_, _, _, _, _, _, added⟩ := added
    split at added
    · rename_i fits
      rw [pure_eq_ok, Prod.mk.injEq] at added
      obtain ⟨rfl, rfl⟩ := added
      refine ⟨rfl, ?_, numbered policies, ?_, rfl⟩
      · change (s.nextId + 1).toNat = s.nextId.toNat + 1
        rw [UInt32.toNat_add, UInt32.toNat_one, Nat.mod_eq_of_lt fits.2]
      · rw [numbered_attached]
    · cases added
  addContextRule_total := by
    intro env s contextType name validUntil signers policies distinct admits room
    have fits : (⟨contextType, name, validUntil, signers, numbered policies⟩ :
        StoredRule).Distinct ∧ s.nextId.toNat + 1 < 4294967296 :=
      ⟨numbered_distinct distinct admits.few, room⟩
    have installs : installAll env (shown s.nextId ⟨contextType, name, validUntil, signers,
        numbered policies⟩) policies = .ok () := by
      apply installAll_total
      intro attached member
      exact admits.installs attached member _ rfl rfl
    simp only [store, addContextRule, bind_eq_ok, require_eq_ok, dif_pos fits, pure_eq_ok]
    exact ⟨_, (), ⟨admits.nonempty, admits.signersFit.few, admits.signersFit.accepted, admits.few,
      admits.shortName⟩, (), admits.current, (), installs, rfl⟩
  addContextRule_install := by
    intro env s contextType name validUntil signers policies policy failure refused
    simp only [store, addContextRule, bind_eq_error, require_eq_error] at refused
    rcases refused with ⟨_, impossible⟩ | ⟨_, _, ⟨_, impossible⟩ | ⟨_, _, early | ⟨_, _, late⟩⟩⟩
    · cases impossible
    · cases impossible
    · obtain ⟨param, member, raised⟩ := installAll_install early
      exact ⟨param, _, member, raised⟩
    · split at late <;> cases late
  removeContextRule_sound := by
    intro s id s' removed
    simp only [store, removeContextRule, bind_eq_ok, pure_eq_ok] at removed
    obtain ⟨_, _, rfl⟩ := removed
    exact ⟨rfl, rfl⟩
  removeContextRule_total := by
    intro s id rule held
    simp only [store, removeContextRule, bind_eq_ok, require_eq_ok, pure_eq_ok]
    exact ⟨_, (), Option.isSome_iff_exists.mpr ⟨rule, held⟩, rfl⟩
  removeContextRule_install := by
    intro s id policy failure refused
    simp only [store, removeContextRule, bind_eq_error, require_eq_error, pure_ne_error, and_false,
      exists_false, or_false] at refused
    cases refused.2
  addPolicy_sound := by
    intro env s id policy param s' rule held added
    obtain ⟨next, changed, counter, wrote⟩ := rewrite_eq_ok held added
    simp only [bind_eq_ok, pure_eq_ok] at changed
    obtain ⟨_, _, _, _, policyId, _, rfl⟩ := changed
    exact ⟨counter, _, policyId, List.perm_append_singleton _ _, wrote⟩
  addPolicy_total := by
    intro env s id policy param rule held fresh room accepts
    obtain ⟨policyId, chosen, free⟩ := freeId_total room
    have kept : ({ rule with policies := rule.policies ++ [⟨policy, policyId, param⟩] } :
        StoredRule).Distinct :=
      distinct_append (s.distinct id rule held) fresh free
    refine rewrite_total held _ ?_ kept
    simp only [bind_eq_ok, require_eq_ok, mapError_eq_ok, orFail_eq_ok, pure_eq_ok]
    exact ⟨(), room, (), accepts _ rfl rfl, policyId, chosen, rfl⟩
  addPolicy_install := by
    intro env s id policy param refusing failure refused
    obtain ⟨rule, raised⟩ := rewrite_install refused
    simp only [bind_eq_error, require_eq_error, orFail_eq_error, pure_ne_error, and_false,
      exists_false, or_false] at raised
    rcases raised with ⟨_, impossible⟩ | ⟨_, _, early | ⟨_, _, _, impossible⟩⟩
    · cases impossible
    · obtain ⟨same, raised⟩ := mapError_install early
      exact ⟨same, _, raised⟩
    · cases impossible
  removePolicy_sound := by
    intro s id policyId s' rule held removed
    obtain ⟨next, changed, counter, wrote⟩ := rewrite_eq_ok held removed
    simp only [bind_eq_ok, pure_eq_ok] at changed
    obtain ⟨_, _, rfl⟩ := changed
    exact ⟨counter, _, .refl _, wrote⟩
  removePolicy_total := by
    intro s id policyId rule held present remains
    have kept := distinct_filter (s.distinct id rule held)
      fun entry => entry.policyId ≠ policyId
    refine rewrite_total held _ ?_ kept
    simp only [bind_eq_ok, require_eq_ok, pure_eq_ok]
    exact ⟨(), ⟨present, remains⟩, trivial⟩
  removePolicy_install := by
    intro s id policyId policy failure refused
    obtain ⟨rule, raised⟩ := rewrite_install refused
    simp only [bind_eq_error, require_eq_error, pure_ne_error, and_false, exists_false, or_false]
      at raised
    cases raised.2
  reconcileSigners_sound := by
    intro s id signers s' rule held reconciled
    obtain ⟨next, changed, counter, wrote⟩ := rewrite_eq_ok held reconciled
    simp only [bind_eq_ok, pure_eq_ok] at changed
    obtain ⟨_, _, rfl⟩ := changed
    exact ⟨counter, wrote⟩
  reconcileSigners_total := by
    intro s id signers rule held fits remains
    refine rewrite_total held { rule with signers := signers } ?_ (s.distinct id rule held)
    simp only [bind_eq_ok, require_eq_ok, pure_eq_ok]
    exact ⟨(), ⟨fits.few, fits.accepted, remains⟩, trivial⟩
  reconcileSigners_install := by
    intro s id signers policy failure refused
    obtain ⟨rule, raised⟩ := rewrite_install refused
    simp only [bind_eq_error, require_eq_error, pure_ne_error, and_false, exists_false, or_false]
      at raised
    cases raised.2
  updateContextRuleValidUntil_sound := by
    intro env s id validUntil s' rule held updated
    obtain ⟨next, changed, counter, wrote⟩ := rewrite_eq_ok held updated
    simp only [bind_eq_ok, pure_eq_ok] at changed
    obtain ⟨_, _, rfl⟩ := changed
    exact ⟨counter, wrote⟩
  updateContextRuleValidUntil_total := by
    intro env s id validUntil rule held future
    refine rewrite_total held { rule with validUntil := validUntil } ?_ (s.distinct id rule held)
    simp only [bind_eq_ok, require_eq_ok, pure_eq_ok]
    exact ⟨(), future, trivial⟩
  updateContextRuleValidUntil_install := by
    intro env s id validUntil policy failure refused
    obtain ⟨rule, raised⟩ := rewrite_install refused
    simp only [bind_eq_error, require_eq_error, pure_ne_error, and_false, exists_false, or_false]
      at raised
    cases raised.2

end MemoryStore

end Perch.Account
