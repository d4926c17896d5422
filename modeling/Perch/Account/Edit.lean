/-
What an in-place edit leaves of a rule.

A rule is followed through an edit by its shape, which forgets registry ids
and the order its policies are stored in.  Each operation changes the shape in
one way, and the three orders an edit can take all end in the desired rule's
shape, because they remove exactly the policies that differ and add exactly
the ones that are missing.  Policies are compared by their digests: where two
parameters share one, an edit leaves the parameter that is installed.
-/

import Mathlib.Data.List.Perm.Basic
import Perch.Account.Rules
import Perch.Machine.Lists
import Perch.Machine.Triple

namespace Perch.Account

open Machine Document Recovery

/-! ### Shapes -/

structure RuleShape where
  contextType : ContextRuleType
  name : SString
  validUntil : Option UInt32
  signers : List Signer
  attached : List (Address × Val)
deriving DecidableEq

/-- A stored rule says what a shape says, its policies in any order. -/
structure StoredRule.Has (rule : StoredRule) (shape : RuleShape) : Prop where
  contextType : rule.contextType = shape.contextType
  name : rule.name = shape.name
  validUntil : rule.validUntil = shape.validUntil
  signers : rule.signers = shape.signers
  attached : rule.attached.Perm shape.attached

def StoredRule.shape (rule : StoredRule) : RuleShape where
  contextType := rule.contextType
  name := rule.name
  validUntil := rule.validUntil
  signers := rule.signers
  attached := rule.attached

theorem StoredRule.has_shape (rule : StoredRule) : rule.Has rule.shape :=
  { contextType := rfl, name := rfl, validUntil := rfl, signers := rfl, attached := .refl _ }

theorem StoredRule.Has.length_policies {rule : StoredRule} {shape : RuleShape}
    (has : rule.Has shape) : rule.policies.length = shape.attached.length := by
  rw [← has.attached.length_eq, StoredRule.attached, List.length_map]

theorem StoredRule.policy_mem {rule : StoredRule} {policy : Address} :
    policy ∈ rule.policies.map AttachedPolicy.policy ↔ policy ∈ rule.attached.map Prod.fst := by
  simp [StoredRule.attached]

/-! ### What a wanted rule's policies are -/

def AccountDeployment.record (d : AccountDeployment) (attached : Address × Val) :
    InstalledPolicy :=
  ⟨attached.1, d.digest attached.2⟩

@[simp] theorem AccountDeployment.record_policy (d : AccountDeployment)
    (attached : Address × Val) : (d.record attached).policy = attached.1 := rfl

section Wanted

variable {d : AccountDeployment}

theorem zip_map_of_digests {policies : List InstalledPolicy} {params : List Val}
    (digests : policies.map InstalledPolicy.params = params.map d.digest) :
    policies = ((policies.zip params).map fun (p, param) => (p.policy, param)).map d.record := by
  induction policies generalizing params with
  | nil => rfl
  | cons policy rest ih =>
      cases params with
      | nil => simp at digests
      | cons param params =>
          simp only [List.map_cons, List.cons.injEq] at digests
          obtain ⟨same, digests⟩ := digests
          have head : policy = d.record (policy.policy, param) := by
            cases policy
            exact congrArg (InstalledPolicy.mk _) same
          simp only [List.zip_cons_cons, List.map_cons, List.cons.injEq]
          exact ⟨head, ih digests⟩

theorem Wanted.policies_eq (wanted : Wanted d) :
    wanted.rule.policies = wanted.attached.map d.record :=
  zip_map_of_digests wanted.digests

def Wanted.shape (wanted : Wanted d) : RuleShape where
  contextType := wanted.rule.contextType
  name := wanted.rule.name
  validUntil := wanted.rule.validUntil
  signers := wanted.rule.signers
  attached := wanted.attached

theorem zip_filter_of_digests {policies : List InstalledPolicy} {params : List Val}
    (digests : policies.map InstalledPolicy.params = params.map d.digest)
    (kept : InstalledPolicy → Bool) :
    ((policies.zip params).filter fun (p, _) => kept p).map (fun (p, param) => (p.policy, param)) =
      ((policies.zip params).map fun (p, param) => (p.policy, param)).filter
        fun attached => kept (d.record attached) := by
  induction policies generalizing params with
  | nil => rfl
  | cons policy rest ih =>
      cases params with
      | nil => simp at digests
      | cons param params =>
          simp only [List.map_cons, List.cons.injEq] at digests
          obtain ⟨same, digests⟩ := digests
          have head : d.record (policy.policy, param) = policy := by
            cases policy
            exact congrArg (InstalledPolicy.mk _) same.symm
          cases chosen : kept policy with
          | false => simp [head, chosen, ih digests]
          | true => simp [head, chosen, ih digests]

/-- The additions of an edit are the attached policies the record lacks. -/
theorem changes_addPolicies (c : InstalledRule) (wanted : Wanted d) :
    (changes c wanted.rule wanted.params).addPolicies =
      wanted.attached.filter fun attached => d.record attached ∉ c.policies :=
  zip_filter_of_digests wanted.digests fun p => p ∉ c.policies

end Wanted

/-! ### The policies an edit ends with -/

/-- What an edit of `c` into `wanted` may rely on: the record is what is
stored, and no policy stands twice in a rule. -/
structure Diff {d : AccountDeployment} (stored : List (Address × Val)) (c : InstalledRule)
    (wanted : Wanted d) : Prop where
  recorded : (stored.map d.record).Perm c.policies
  distinct : (c.policies.map InstalledPolicy.policy).Nodup
  wantedDistinct : (wanted.rule.policies.map InstalledPolicy.policy).Nodup

/-- Policies that are recorded as the wanted ones, each of them wanted or known
before. -/
structure Mixes {d : AccountDeployment} (known : Address × Val → Prop) (wanted : Wanted d)
    (attached : List (Address × Val)) : Prop where
  recorded : (attached.map d.record).Perm wanted.rule.policies
  sources : ∀ policy ∈ attached, policy ∈ wanted.attached ∨ known policy

namespace Mixes

variable {d : AccountDeployment} {known : Address × Val → Prop} {wanted : Wanted d}
  {attached : List (Address × Val)}

theorem mono {wider : Address × Val → Prop} (mixes : Mixes known wanted attached)
    (includes : ∀ policy, known policy → wider policy) : Mixes wider wanted attached where
  recorded := mixes.recorded
  sources policy member := (mixes.sources policy member).imp_right (includes policy)

theorem of_perm {other : List (Address × Val)} (mixes : Mixes known wanted attached)
    (same : other.Perm attached) : Mixes known wanted other :=
  { recorded := (same.map _).trans mixes.recorded
    sources := fun policy member => mixes.sources policy (same.mem_iff.mp member) }

theorem of_wanted (same : attached.Perm wanted.attached) : Mixes known wanted attached where
  recorded := by
    rw [wanted.policies_eq]
    exact same.map _
  sources policy member := .inl (same.mem_iff.mp member)

/-- If equal digests mean equal parameters, these are the wanted policies. -/
theorem perm (mixes : Mixes known wanted attached)
    (distinct : (wanted.rule.policies.map InstalledPolicy.policy).Nodup)
    (injective : ∀ old, known old → ∀ new ∈ wanted.attached,
      d.digest old.2 = d.digest new.2 → old.2 = new.2) : attached.Perm wanted.attached := by
  have addresses : (wanted.attached.map Prod.fst).Nodup := by
    rw [wanted.policies_eq, List.map_map] at distinct
    exact distinct
  have standing : (attached.map Prod.fst).Nodup := by
    have same : (attached.map Prod.fst).Perm
        (wanted.rule.policies.map InstalledPolicy.policy) := by
      simpa [Function.comp_def] using mixes.recorded.map InstalledPolicy.policy
    exact same.nodup_iff.mpr distinct
  have recorded := mixes.recorded
  rw [wanted.policies_eq] at recorded
  have identical : ∀ old ∈ attached, ∀ new ∈ wanted.attached, d.record old = d.record new →
      old = new := by
    intro old member new asked same
    obtain ⟨address, digest⟩ := InstalledPolicy.mk.inj same
    rcases mixes.sources old member with among | before
    · exact List.inj_on_of_nodup_map addresses among asked address
    · exact Prod.ext address (injective old before new asked digest)
  rw [List.perm_ext_iff_of_nodup (standing.of_map _) (addresses.of_map _)]
  intro policy
  constructor
  · intro member
    obtain ⟨new, asked, same⟩ := List.mem_map.mp
      (recorded.mem_iff.mp (List.mem_map_of_mem member))
    exact identical policy member new asked same.symm ▸ asked
  · intro asked
    obtain ⟨old, member, same⟩ := List.mem_map.mp
      (recorded.mem_iff.mpr (List.mem_map_of_mem asked))
    exact identical old member policy asked same ▸ member

end Mixes

namespace Diff

variable {d : AccountDeployment} {stored : List (Address × Val)} {c : InstalledRule}
  {wanted : Wanted d}

theorem stored_nodup (diff : Diff stored c wanted) : (stored.map Prod.fst).Nodup := by
  have same : (stored.map Prod.fst).Perm (c.policies.map InstalledPolicy.policy) := by
    simpa [Function.comp_def] using diff.recorded.map InstalledPolicy.policy
  exact same.nodup_iff.mpr diff.distinct

theorem attached_nodup (diff : Diff stored c wanted) : (wanted.attached.map Prod.fst).Nodup := by
  have distinct := diff.wantedDistinct
  rw [wanted.policies_eq, List.map_map] at distinct
  exact distinct

theorem length_stored (diff : Diff stored c wanted) : stored.length = c.policies.length := by
  rw [← diff.recorded.length_eq, List.length_map]

/-- A stored policy stays exactly when it is wanted as it is recorded. -/
theorem kept_iff (diff : Diff stored c wanted) {old : Address × Val} (present : old ∈ stored) :
    old.1 ∉ (changes c wanted.rule wanted.params).removePolicies ↔
      d.record old ∈ wanted.rule.policies := by
  have inRecord : d.record old ∈ c.policies :=
    diff.recorded.mem_iff.mp (List.mem_map_of_mem present)
  have removed : old.1 ∈ (changes c wanted.rule wanted.params).removePolicies ↔
      d.record old ∉ wanted.rule.policies := by
    simp only [changes, List.mem_map, List.mem_filter, decide_eq_true_eq]
    constructor
    · rintro ⟨policy, ⟨held, dropped⟩, address⟩
      have same : policy = d.record old :=
        List.inj_on_of_nodup_map diff.distinct held inRecord address
      exact same ▸ dropped
    · intro dropped
      exact ⟨d.record old, ⟨inRecord, dropped⟩, rfl⟩
  rw [removed, not_not]

/-- Removing what differs and adding what is missing gives what is wanted, as
far as the digests tell. -/
theorem merged (diff : Diff stored c wanted) :
    ((stored.filter (fun old => old.1 ∉ (changes c wanted.rule wanted.params).removePolicies) ++
      (changes c wanted.rule wanted.params).addPolicies).map d.record).Perm
        wanted.rule.policies := by
  have kept : (stored.filter
      (fun old => old.1 ∉ (changes c wanted.rule wanted.params).removePolicies)).map d.record =
        (stored.map d.record).filter fun policy => policy ∈ wanted.rule.policies := by
    rw [List.filter_map]
    congr 1
    exact List.filter_congr fun old present => decide_eq_decide.mpr (diff.kept_iff present)
  have added : (changes c wanted.rule wanted.params).addPolicies.map d.record =
      wanted.rule.policies.filter fun policy => !decide (policy ∈ c.policies) := by
    rw [changes_addPolicies, wanted.policies_eq, List.filter_map]
    congr 1
    apply List.filter_congr
    intro attached _
    rw [Function.comp_apply, ← decide_not]
  have shared : (c.policies.filter fun policy => policy ∈ wanted.rule.policies).Perm
      (wanted.rule.policies.filter fun policy => policy ∈ c.policies) := by
    rw [List.perm_ext_iff_of_nodup (diff.distinct.of_map _ |>.filter _)
      (diff.wantedDistinct.of_map _ |>.filter _)]
    intro policy
    simp [and_comm]
  rw [List.map_append, kept, added]
  exact (((diff.recorded.filter _).trans shared).append_right _).trans
    (List.filter_append_perm _ _)

theorem added_wanted {attached : Address × Val}
    (member : attached ∈ (changes c wanted.rule wanted.params).addPolicies) :
    attached ∈ wanted.attached := by
  rw [changes_addPolicies] at member
  exact List.mem_of_mem_filter member

theorem mixes (diff : Diff stored c wanted) : Mixes (fun policy => policy ∈ stored) wanted
    (stored.filter (fun old => old.1 ∉ (changes c wanted.rule wanted.params).removePolicies) ++
      (changes c wanted.rule wanted.params).addPolicies) where
  recorded := diff.merged
  sources policy member := by
    rcases List.mem_append.mp member with kept | added
    · exact .inr (List.mem_of_mem_filter kept)
    · exact .inl (added_wanted added)

def readded {c : InstalledRule} {wanted : Wanted d} (_ : Diff stored c wanted) :
    List (Address × Val) :=
  (changes c wanted.rule wanted.params).addPolicies.filter fun (p, _) =>
    p ∉ (changes c wanted.rule wanted.params).fresh.map Prod.fst

theorem fresh_not_recorded {attached : Address × Val}
    (member : attached ∈ (changes c wanted.rule wanted.params).fresh) :
    attached.1 ∉ c.policies.map InstalledPolicy.policy := by
  simpa [changes] using (List.mem_filter.mp member).2

theorem fresh_sublist (c : InstalledRule) (wanted : Wanted d) :
    (changes c wanted.rule wanted.params).fresh.Sublist wanted.attached := by
  have added : (changes c wanted.rule wanted.params).addPolicies.Sublist wanted.attached := by
    rw [changes_addPolicies]
    exact List.filter_sublist
  exact List.filter_sublist.trans added

theorem removed_recorded {policy : Address}
    (member : policy ∈ (changes c wanted.rule wanted.params).removePolicies) :
    policy ∈ c.policies.map InstalledPolicy.policy := by
  obtain ⟨recorded, present, rfl⟩ := List.mem_map.mp member
  exact List.mem_map_of_mem (List.mem_of_mem_filter present)

/-- Adding the new addresses first makes no difference to the result. -/
theorem merged_fresh (diff : Diff stored c wanted) :
    ((stored ++ (changes c wanted.rule wanted.params).fresh).filter
        (fun old => old.1 ∉ (changes c wanted.rule wanted.params).removePolicies) ++
      diff.readded).Perm
      (stored.filter (fun old => old.1 ∉ (changes c wanted.rule wanted.params).removePolicies) ++
        (changes c wanted.rule wanted.params).addPolicies) := by
  have freshStays : (changes c wanted.rule wanted.params).fresh.filter
      (fun old => old.1 ∉ (changes c wanted.rule wanted.params).removePolicies) =
        (changes c wanted.rule wanted.params).fresh := by
    rw [List.filter_eq_self]
    intro attached member
    apply decide_eq_true
    intro removed
    exact fresh_not_recorded member (removed_recorded removed)
  have readded : diff.readded = (changes c wanted.rule wanted.params).addPolicies.filter
      fun attached => !decide (attached.1 ∉ c.policies.map InstalledPolicy.policy) := by
    apply List.filter_congr
    intro attached member
    rw [← decide_not]
    apply decide_eq_decide.mpr
    apply not_congr
    constructor
    · intro freshAddress
      obtain ⟨first, present, same⟩ := List.mem_map.mp freshAddress
      exact same ▸ fresh_not_recorded present
    · intro unrecorded
      apply List.mem_map_of_mem
      exact List.mem_filter.mpr ⟨member, decide_eq_true unrecorded⟩
  rw [List.filter_append, freshStays, readded, List.append_assoc]
  exact (List.filter_append_perm _ _).append_left _

theorem mixes_fresh (diff : Diff stored c wanted) : Mixes (fun policy => policy ∈ stored) wanted
    ((stored ++ (changes c wanted.rule wanted.params).fresh).filter
        (fun old => old.1 ∉ (changes c wanted.rule wanted.params).removePolicies) ++
      diff.readded) :=
  diff.mixes.of_perm diff.merged_fresh

end Diff

/-! ### One operation on a rule -/

section Operations

variable {σ : Type} {oz : RuleStore σ} {env : OzEnv}

/-- While a rule is edited, it has a shape and every other rule is untouched. -/
structure Editing (oz : RuleStore σ) (origin : Apply σ) (id : UInt32) (shape : RuleShape)
    (apply : Apply σ) : Prop where
  stored : ∃ rule, oz.getContextRule apply.store id = some rule ∧ rule.Has shape
  elsewhere : ∀ other, other ≠ id →
    oz.getContextRule apply.store other = oz.getContextRule origin.store other
  nextId : oz.nextId apply.store = oz.nextId origin.store
  cache : ∀ cached ∈ apply.rule, cached ∈ origin.rule ∨ cached.1 = id

def Uncached (id : UInt32) (apply : Apply σ) : Prop :=
  ∀ cached ∈ apply.rule, cached.1 ≠ id

variable {origin : Apply σ} {id : UInt32} {shape : RuleShape} {apply : Apply σ} {ready : Prop}

theorem Editing.rewrite (editing : Editing oz origin id shape apply) {after : Apply σ}
    {rule : StoredRule} {shape' : RuleShape}
    (updated : oz.getContextRule after.store =
      Function.update (oz.getContextRule apply.store) id (some rule))
    (has : rule.Has shape') (counter : oz.nextId after.store = oz.nextId apply.store)
    (cache : after.rule = apply.rule) : Editing oz origin id shape' after := by
  refine
    { stored := ⟨rule, ?_, has⟩
      elsewhere := ?_
      nextId := counter.trans editing.nextId
      cache := fun cached held => editing.cache cached (cache ▸ held) }
  · rw [updated, Function.update_self]
  · intro other distinct
    rw [updated, Function.update_of_ne distinct, editing.elsewhere other distinct]

theorem Editing.reshape (editing : Editing oz origin id shape apply) {shape' : RuleShape}
    (same : ∀ rule : StoredRule, rule.Has shape → rule.Has shape') :
    Editing oz origin id shape' apply := by
  obtain ⟨rule, stored, has⟩ := editing.stored
  exact { editing with stored := ⟨rule, stored, same rule has⟩ }

theorem setValidUntil_meets (documented : oz.Documented) {c : InstalledRule}
    {validUntil : Option UInt32} (editing : Editing oz origin c.id shape apply)
    (current : ready → notPast env.sequence validUntil) :
    Meets ready (((performer oz env).setValidUntil c validUntil).run apply)
      fun reached => Editing oz origin c.id { shape with validUntil := validUntil } reached.2 := by
  obtain ⟨rule, stored, has⟩ := editing.stored
  apply Meets.andThen
  · intro prepared
    exact documented.updateContextRuleValidUntil_total stored (current prepared)
  · intro store returned
    obtain ⟨counter, updated⟩ := documented.updateContextRuleValidUntil_sound stored returned
    exact Meets.pure (editing.rewrite updated { has with validUntil := rfl } counter rfl)

theorem reconcileSigners_meets (documented : oz.Documented) {c : InstalledRule}
    {signers : List Signer} (editing : Editing oz origin c.id shape apply)
    (fits : ready → oz.SignersFit signers ∧ (signers ≠ [] ∨ shape.attached ≠ [])) :
    Meets ready (((performer oz env).reconcileSigners c signers).run apply) fun reached =>
      Editing oz origin c.id { shape with signers := signers } reached.2 ∧
        reached.2.rule = apply.rule := by
  obtain ⟨rule, stored, has⟩ := editing.stored
  apply Meets.andThen
  · intro prepared
    obtain ⟨fit, nonempty⟩ := fits prepared
    refine documented.reconcileSigners_total stored fit (nonempty.imp_right fun attached => ?_)
    intro empty
    have length := has.length_policies
    rw [empty] at length
    exact attached (List.length_eq_zero_iff.mp length.symm)
  · intro store returned
    obtain ⟨counter, updated⟩ := documented.reconcileSigners_sound stored returned
    exact Meets.pure ⟨editing.rewrite updated { has with signers := rfl } counter rfl, rfl⟩

theorem swapSigners_meets (documented : oz.Documented) {c target : InstalledRule}
    (editing : Editing oz origin c.id shape apply) (recorded : c.signers = shape.signers)
    (fits : ready → oz.SignersFit target.signers ∧
      (target.signers ≠ [] ∨ shape.attached ≠ [])) :
    Meets ready ((swapSigners (performer oz env) c target).run apply) fun reached =>
      Editing oz origin c.id { shape with signers := target.signers } reached.2 ∧
        reached.2.rule = apply.rule := by
  unfold swapSigners
  split
  · exact reconcileSigners_meets documented editing fits
  · rename_i same
    rw [not_not] at same
    rw [StateT.run_pure, ← same, recorded]
    exact Meets.pure ⟨editing, rfl⟩

theorem addPolicy_meets (documented : oz.Documented) {c : InstalledRule} {attached : Address × Val}
    (editing : Editing oz origin c.id shape apply)
    (fits : ready → attached.1 ∉ shape.attached.map Prod.fst ∧
      shape.attached.length < maxPolicies ∧
      env.Accepts shape.contextType shape.signers attached) :
    Meets ready (((performer oz env).addPolicy c attached.1 attached.2).run apply) fun reached =>
      Editing oz origin c.id { shape with attached := shape.attached ++ [attached] } reached.2 ∧
        reached.2.rule = apply.rule := by
  obtain ⟨rule, stored, has⟩ := editing.stored
  apply Meets.andThen
  · intro prepared
    obtain ⟨absent, few, accepted⟩ := fits prepared
    apply documented.addPolicy_total stored
    · rw [StoredRule.policy_mem, (has.attached.map Prod.fst).mem_iff]
      exact absent
    · rw [has.length_policies]
      exact few
    · rw [has.contextType, has.signers]
      exact accepted
  · intro store returned
    obtain ⟨counter, policies, policyId, extended, updated⟩ :=
      documented.addPolicy_sound stored returned
    refine Meets.pure ⟨editing.rewrite updated { has with attached := ?_ } counter rfl, rfl⟩
    have listed : (policies.map fun entry => (entry.policy, entry.param)).Perm
        (attached :: rule.attached) := extended.map _
    exact listed.trans ((has.attached.cons attached).trans (List.perm_append_singleton _ _).symm)

/-! ### Adding and removing several policies -/

theorem addPolicies_meets (documented : oz.Documented) {c : InstalledRule}
    {added : List (Address × Val)} (editing : Editing oz origin c.id shape apply)
    (fits : ready → ((shape.attached ++ added).map Prod.fst).Nodup ∧
      (shape.attached ++ added).length ≤ maxPolicies ∧
      ∀ attached ∈ added, env.Accepts shape.contextType shape.signers attached) :
    Meets ready ((addPolicies (performer oz env) c added).run apply) fun reached =>
      Editing oz origin c.id { shape with attached := shape.attached ++ added } reached.2 ∧
        reached.2.rule = apply.rule := by
  apply (Meets.loop (fun rest after => ∃ done, done ++ rest = added ∧
    Editing oz origin c.id { shape with attached := shape.attached ++ done } after ∧
      after.rule = apply.rule) ?_ ?_).imp
  · rintro reached ⟨done, rfl, edited, cache⟩
    rw [List.append_nil]
    exact ⟨edited, cache⟩
  · rintro attached rest after ⟨done, rfl, edited, cache⟩
    refine (addPolicy_meets documented edited fun prepared => ?_).imp ?_
    · obtain ⟨distinct, few, accepted⟩ := fits prepared
      refine ⟨?_, ?_, accepted attached (by simp)⟩
      · simp only [← List.append_assoc] at distinct
        rw [List.map_append, List.map_cons] at distinct
        intro present
        exact (List.nodup_middle.mp distinct).notMem (List.mem_append_left _ present)
      · simp only [List.length_append, List.length_cons] at few ⊢
        omega
    · rintro reached ⟨edited', kept⟩
      refine ⟨done ++ [attached], by simp, ?_, kept.trans cache⟩
      rwa [← List.append_assoc]
  · exact ⟨[], rfl, by simpa using editing, rfl⟩

/-- A rule some of whose policies were removed, `done` so far.  Removals read
registry ids from the rule as it was before the first of them. -/
structure Removing (oz : RuleStore σ) (origin : Apply σ) (id : UInt32) (rule : StoredRule)
    (done : List Address) (apply : Apply σ) : Prop where
  stored : ∃ policies, oz.getContextRule apply.store id = some { rule with policies := policies } ∧
    policies.Perm (rule.policies.filter fun entry => entry.policy ∉ done)
  elsewhere : ∀ other, other ≠ id →
    oz.getContextRule apply.store other = oz.getContextRule origin.store other
  nextId : oz.nextId apply.store = oz.nextId origin.store
  cache : ∀ cached ∈ apply.rule, cached ∈ origin.rule ∨ cached.1 = id
  read : (done = [] ∧ Uncached id apply) ∨
    ∃ cached, apply.rule = some (id, cached) ∧ cached.policies.Perm rule.policies

theorem Removing.oz_meets {rule : StoredRule} {done : List Address}
    (removing : Removing oz origin id rule done apply) :
    Meets ready (Apply.oz oz apply id) fun read =>
      read.1.policies.Perm rule.policies ∧ read.2.rule = some (id, read.1) ∧
        read.2.store = apply.store := by
  unfold Apply.oz
  rcases removing.read with ⟨rfl, uncached⟩ | ⟨cached, held, same⟩
  · have miss : apply.rule.filter (fun cached => decide (cached.1 = id)) = none := by
      rw [Option.filter_eq_none_iff]
      intro cached held
      simpa using uncached cached held
    obtain ⟨policies, stored, remaining⟩ := removing.stored
    rw [miss]
    apply Meets.bind (Meets.orFail ⟨_, stored, rfl⟩)
    intro read equal
    subst equal
    exact Meets.pure ⟨by simpa using remaining, rfl, rfl⟩
  · have hit : apply.rule.filter (fun cached => decide (cached.1 = id)) = some (id, cached) := by
      rw [held]
      simp [Option.filter]
    rw [hit]
    exact Meets.pure ⟨same, held, rfl⟩

theorem removePolicy_meets (documented : oz.Documented) {c : InstalledRule} {rule : StoredRule}
    {done : List Address} {policy : Address}
    (removing : Removing oz origin c.id rule done apply)
    (addresses : (rule.policies.map AttachedPolicy.policy).Nodup)
    (ids : (rule.policies.map AttachedPolicy.policyId).Nodup)
    (fits : ready → policy ∉ done ∧ policy ∈ rule.policies.map AttachedPolicy.policy ∧
      (rule.signers ≠ [] ∨ ∃ other ∈ rule.policies, other.policy ∉ policy :: done)) :
    Meets ready (((performer oz env).removePolicy c policy).run apply) fun reached =>
      Removing oz origin c.id rule (policy :: done) reached.2 := by
  obtain ⟨policies, stored, remaining⟩ := removing.stored
  apply Meets.bind removing.oz_meets
  rintro ⟨read, after⟩ ⟨same, cached, kept⟩
  apply Meets.andThen
  · intro prepared
    obtain ⟨_, present, _⟩ := fits prepared
    obtain ⟨entry, member, address⟩ := List.mem_map.mp present
    have found : (read.policies.find? fun p => p.policy = policy).isSome := by
      rw [List.find?_isSome]
      exact ⟨entry, same.mem_iff.mpr member, decide_eq_true address⟩
    obtain ⟨first, located⟩ := Option.isSome_iff_exists.mp found
    exact ⟨first, orFail_eq_ok.mpr located⟩
  · intro entry located
    rw [orFail_eq_ok] at located
    have address : entry.policy = policy := by simpa using List.find?_some located
    have member : entry ∈ rule.policies := same.mem_iff.mp (List.mem_of_find?_eq_some located)
    apply Meets.andThen
    · intro prepared
      obtain ⟨notDone, _, nonempty⟩ := fits prepared
      have standing : entry ∈ policies := by
        rw [remaining.mem_iff, List.mem_filter]
        exact ⟨member, decide_eq_true (address ▸ notDone)⟩
      rw [kept]
      refine documented.removePolicy_total stored (List.mem_map_of_mem standing)
        (nonempty.imp_right ?_)
      rintro ⟨other, present, notRemoved⟩
      have alsoStanding : other ∈ policies := by
        rw [remaining.mem_iff, List.mem_filter]
        exact ⟨present, decide_eq_true fun d => notRemoved (List.mem_cons_of_mem _ d)⟩
      have different : entry ≠ other := by
        rintro rfl
        exact notRemoved (address ▸ List.mem_cons_self)
      exact one_lt_length_of_mem standing alsoStanding different
    · intro store returned
      rw [kept] at returned
      obtain ⟨counter, policies', filtered, updated⟩ :=
        documented.removePolicy_sound stored returned
      have byAddress : ∀ other ∈ rule.policies,
          (other.policyId ≠ entry.policyId ↔ other.policy ≠ policy) := by
        intro other present
        apply not_congr
        constructor
        · intro equal
          exact address ▸ congrArg AttachedPolicy.policy
            (List.inj_on_of_nodup_map ids present member equal)
        · intro equal
          exact congrArg AttachedPolicy.policyId
            (List.inj_on_of_nodup_map addresses present member (equal.trans address.symm))
      refine Meets.pure
        { stored := ⟨policies', ?_, ?_⟩
          elsewhere := ?_
          nextId := counter.trans removing.nextId
          cache := ?_
          read := .inr ⟨read, cached, same⟩ }
      · rw [updated, Function.update_self]
      · refine filtered.trans ((remaining.filter _).trans ?_)
        rw [List.filter_filter]
        apply List.Perm.of_eq
        apply List.filter_congr
        intro other present
        have distinct := byAddress other present
        simp only [ne_eq, List.mem_cons, not_or] at distinct ⊢
        simp [distinct]
      · intro other distinct
        rw [updated, Function.update_of_ne distinct, removing.elsewhere other distinct]
      · intro held present
        right
        rw [cached] at present
        exact (Option.some.inj present) ▸ rfl

theorem removePolicies_meets (documented : oz.Documented) {c : InstalledRule}
    {removed : List Address} (editing : Editing oz origin c.id shape apply)
    (uncached : Uncached c.id apply)
    (fits : ready → removed.Nodup ∧ (∀ policy ∈ removed, policy ∈ shape.attached.map Prod.fst) ∧
      (shape.signers ≠ [] ∨ ∃ attached ∈ shape.attached, attached.1 ∉ removed)) :
    Meets ready ((removePolicies (performer oz env) c removed).run apply) fun reached =>
      Editing oz origin c.id
        { shape with attached := shape.attached.filter fun attached => attached.1 ∉ removed }
        reached.2 := by
  obtain ⟨rule, stored, has⟩ := editing.stored
  apply (Meets.loop (fun rest after => ∃ done, done.reverse ++ rest = removed ∧
    Removing oz origin c.id rule done after) ?_ ?_).imp
  · rintro reached ⟨done, whole, removing⟩
    rw [List.append_nil] at whole
    obtain ⟨policies, stored, remaining⟩ := removing.stored
    refine { removing with stored := ⟨_, stored, { has with attached := ?_ }⟩ }
    have listed := remaining.map fun entry => (entry.policy, entry.param)
    refine listed.trans (List.Perm.trans (List.Perm.of_eq ?_) (has.attached.filter _))
    rw [StoredRule.attached, List.filter_map]
    congr 1
    apply List.filter_congr
    intro entry _
    simp [← whole]
  · rintro policy rest after ⟨done, rfl, removing⟩
    refine (removePolicy_meets documented removing (documented.policies_nodup stored)
      (documented.policyIds_nodup stored) fun prepared => ?_).imp ?_
    · obtain ⟨distinct, present, nonempty⟩ := fits prepared
      refine ⟨?_, ?_, ?_⟩
      · intro again
        exact (List.nodup_middle.mp distinct).notMem
          (List.mem_append_left _ (List.mem_reverse.mpr again))
      · rw [StoredRule.policy_mem, (has.attached.map Prod.fst).mem_iff]
        exact present policy (by simp)
      · rw [has.signers]
        refine nonempty.imp_right ?_
        rintro ⟨attached, member, standing⟩
        obtain ⟨entry, held, rfl⟩ := List.mem_map.mp (has.attached.mem_iff.mpr member)
        refine ⟨entry, held, fun among => standing ?_⟩
        rcases List.mem_cons.mp among with same | earlier
        · simp [same]
        · simp [earlier]
    · intro reached removing'
      exact ⟨policy :: done, by simp, removing'⟩
  · exact ⟨[], rfl,
      { stored := ⟨rule.policies, stored, by simp⟩
        elsewhere := editing.elsewhere
        nextId := editing.nextId
        cache := editing.cache
        read := .inl ⟨rfl, uncached⟩ }⟩

end Operations

/-! ### The three orders -/

/-- A stored rule is the one a record says was installed. -/
structure StoredRule.Records (d : AccountDeployment) (rule : StoredRule) (record : InstalledRule) :
    Prop where
  contextType : rule.contextType = record.contextType
  name : rule.name = record.name
  validUntil : rule.validUntil = record.validUntil
  signers : rule.signers = record.signers
  policies : (rule.attached.map d.record).Perm record.policies

/-- A record no rule of the account breaks: its policies stand once, and only
the recovery rule is flagged, with its own name and no signer. -/
structure InstalledRule.Sound (record : InstalledRule) : Prop where
  policies : (record.policies.map InstalledPolicy.policy).Nodup
  recovery : record.recovery = true → record.name = recoveryName ∧ record.signers = []

/-- A desired rule the store accepts, whichever signers an edit finds on it. -/
structure Wanted.Installable {σ : Type} {d : AccountDeployment} (oz : RuleStore σ) (env : OzEnv)
    (wanted : Wanted d) : Prop where
  nonempty : wanted.rule.signers ≠ [] ∨ wanted.attached ≠ []
  signersFit : oz.SignersFit wanted.rule.signers
  few : wanted.attached.length ≤ maxPolicies
  shortName : wanted.rule.name.length ≤ maxNameSize
  current : notPast env.sequence wanted.rule.validUntil
  installs : ∀ signers, (wanted.rule.recovery = true → signers = []) →
    ∀ attached ∈ wanted.attached, env.Accepts wanted.rule.contextType signers attached

/-- What an edit starts from: a stored rule, its record, and a desired rule in
the record's slot. -/
structure Editable {d : AccountDeployment} (rule : StoredRule) (c : InstalledRule)
    (wanted : Wanted d) : Prop where
  diff : Diff rule.attached c wanted
  recorded : rule.Records d c
  recovery : c.recovery = wanted.rule.recovery
  name : c.name = wanted.rule.name
  contextType : c.contextType = wanted.rule.contextType
  sound : c.Sound
  wantedSound : wanted.rule.Sound

section Orders

variable {σ : Type} {oz : RuleStore σ} {env : OzEnv} {d : AccountDeployment}
  {origin apply : Apply σ} {rule : StoredRule} {c : InstalledRule} {wanted : Wanted d}

theorem Editable.removed_nodup (editable : Editable rule c wanted) :
    (changes c wanted.rule wanted.params).removePolicies.Nodup :=
  editable.sound.policies.sublist (List.Sublist.map _ List.filter_sublist)

theorem Editable.removed_stored (editable : Editable rule c wanted) {policy : Address}
    (removed : policy ∈ (changes c wanted.rule wanted.params).removePolicies) :
    policy ∈ rule.attached.map Prod.fst := by
  have same := editable.diff.recorded.map InstalledPolicy.policy
  rw [List.map_map] at same
  exact same.mem_iff.mpr (Diff.removed_recorded removed)

theorem Editable.merged_nodup {attached : List (Address × Val)}
    (editable : Editable rule c wanted)
    (same : (attached.map d.record).Perm wanted.rule.policies) :
    (attached.map Prod.fst).Nodup := by
  have addresses : (attached.map Prod.fst).Perm
      (wanted.rule.policies.map InstalledPolicy.policy) := by
    simpa [Function.comp_def] using same.map InstalledPolicy.policy
  exact addresses.nodup_iff.mpr editable.diff.wantedDistinct

/-- When nothing wanted signs, what is kept are policies. -/
theorem Editable.kept_policy (editable : Editable rule c wanted)
    (unsigned : wanted.rule.signers = [])
    (kept : 0 < (changes c wanted.rule wanted.params).kept) :
    ∃ attached ∈ rule.attached,
      attached.1 ∉ (changes c wanted.rule wanted.params).removePolicies := by
  have fewer : (c.policies.filter fun p => decide (p ∉ wanted.rule.policies)).length <
      c.policies.length := by
    have counted : 0 < (c.signers.length - (missing c.signers wanted.rule.signers).length) +
        (c.policies.length - ((c.policies.filter fun p => decide (p ∉ wanted.rule.policies)).map
          InstalledPolicy.policy).length) := kept
    rw [unsigned, List.length_map] at counted
    simp only [missing, List.not_mem_nil, not_false_eq_true, decide_true, List.filter_true,
      Nat.sub_self, Nat.zero_add] at counted
    omega
  obtain ⟨policy, held, standing⟩ := List.length_filter_lt_length_iff_exists.mp fewer
  obtain ⟨attached, present, rfl⟩ := List.mem_map.mp (editable.diff.recorded.mem_iff.mpr held)
  refine ⟨attached, present, fun removed => standing (decide_eq_true ?_)⟩
  obtain ⟨other, among, address⟩ := List.mem_map.mp removed
  obtain ⟨otherHeld, dropped⟩ := List.mem_filter.mp among
  have same : other = d.record attached :=
    List.inj_on_of_nodup_map editable.sound.policies otherHeld held address
  exact same ▸ of_decide_eq_true dropped

/-- The rule with the desired signers and, in some order, policies. -/
def Merged (oz : RuleStore σ) (origin : Apply σ) (rule : StoredRule) (c : InstalledRule)
    (wanted : Wanted d) (apply : Apply σ) : Prop :=
  ∃ attached, Mixes (fun policy => policy ∈ rule.attached) wanted attached ∧
    Editing oz origin c.id
      { rule.shape with signers := wanted.rule.signers, attached := attached } apply

variable {ready : Prop}

theorem Editable.removes (editable : Editable rule c wanted) {shape : RuleShape}
    (documented : oz.Documented) (editing : Editing oz origin c.id shape apply)
    (uncached : Uncached c.id apply)
    (stored : ∀ attached ∈ rule.attached, attached ∈ shape.attached)
    (nonempty : ready → shape.signers ≠ [] ∨ ∃ attached ∈ shape.attached,
      attached.1 ∉ (changes c wanted.rule wanted.params).removePolicies) :
    Meets ready ((removePolicies (performer oz env) c
        (changes c wanted.rule wanted.params).removePolicies).run apply) fun reached =>
      Editing oz origin c.id { shape with attached := shape.attached.filter fun attached =>
        attached.1 ∉ (changes c wanted.rule wanted.params).removePolicies } reached.2 := by
  apply removePolicies_meets documented editing uncached
  intro prepared
  refine ⟨editable.removed_nodup, ?_, nonempty prepared⟩
  intro policy removed
  obtain ⟨attached, present, same⟩ := List.mem_map.mp (editable.removed_stored removed)
  exact same ▸ List.mem_map_of_mem (stored attached present)

/-- The last additions of an order bring the rule to the wanted policies. -/
theorem Editable.adds (editable : Editable rule c wanted) {shape : RuleShape}
    {added : List (Address × Val)} (documented : oz.Documented)
    (editing : Editing oz origin c.id shape apply)
    (scope : shape.contextType = wanted.rule.contextType)
    (signers : wanted.rule.recovery = true → shape.signers = [])
    (whole : ((shape.attached ++ added).map d.record).Perm wanted.rule.policies)
    (among : ∀ attached ∈ added, attached ∈ wanted.attached)
    (installable : ready → wanted.Installable oz env) :
    Meets ready ((addPolicies (performer oz env) c added).run apply) fun reached =>
      Editing oz origin c.id { shape with attached := shape.attached ++ added } reached.2 ∧
        reached.2.rule = apply.rule := by
  apply addPolicies_meets documented editing
  intro prepared
  refine ⟨editable.merged_nodup whole, ?_, ?_⟩
  · have length := whole.length_eq
    rw [wanted.policies_eq, List.length_map, List.length_map] at length
    rw [length]
    exact (installable prepared).few
  · intro attached member
    rw [scope]
    exact (installable prepared).installs _ signers attached (among attached member)

theorem Editable.contextType_eq (editable : Editable rule c wanted) :
    rule.contextType = wanted.rule.contextType :=
  editable.recorded.contextType.trans editable.contextType

theorem Editable.unsigned (editable : Editable rule c wanted)
    (recovery : wanted.rule.recovery = true) : rule.signers = [] :=
  editable.recorded.signers.trans (editable.sound.recovery (editable.recovery.trans recovery)).2

theorem Editable.signersFirst (editable : Editable rule c wanted) (documented : oz.Documented)
    (editing : Editing oz origin c.id rule.shape apply) (uncached : Uncached c.id apply)
    (installable : ready → wanted.Installable oz env) (signed : wanted.rule.signers ≠ []) :
    Meets ready ((editPolicies (performer oz env) c wanted.rule wanted.params .signersFirst).run
      apply) fun reached => Merged oz origin rule c wanted reached.2 := by
  apply Meets.bindState _ (swapSigners_meets documented editing editable.recorded.signers.symm
    fun prepared => ⟨(installable prepared).signersFit, .inl signed⟩)
  rintro _ swapped ⟨editing, cache⟩
  apply Meets.bindState _ (editable.removes documented editing
    (fun cached held => uncached cached (cache ▸ held)) (fun _ present => present)
    fun _ => .inl signed)
  intro _ removed editing
  apply (editable.adds documented editing editable.contextType_eq
    (fun recovery => (editable.wantedSound.recovery recovery).2) editable.diff.merged
    (fun _ => Diff.added_wanted) installable).imp
  rintro reached ⟨editing, _⟩
  exact ⟨_, editable.diff.mixes, editing⟩

theorem Editable.policiesFirst (editable : Editable rule c wanted) (documented : oz.Documented)
    (editing : Editing oz origin c.id rule.shape apply) (uncached : Uncached c.id apply)
    (installable : ready → wanted.Installable oz env) (unsigned : wanted.rule.signers = [])
    (nonempty : c.signers ≠ [] ∨ 0 < (changes c wanted.rule wanted.params).kept) :
    Meets ready ((editPolicies (performer oz env) c wanted.rule wanted.params .policiesFirst).run
      apply) fun reached => Merged oz origin rule c wanted reached.2 := by
  apply Meets.bindState _ (editable.removes documented editing uncached
    (fun _ present => present) fun _ => ?_)
  · intro _ removed editing
    apply Meets.bindState _ (editable.adds documented editing editable.contextType_eq
      editable.unsigned editable.diff.merged (fun _ => Diff.added_wanted) installable)
    rintro _ added ⟨editing, _⟩
    apply (swapSigners_meets documented editing editable.recorded.signers.symm fun prepared =>
      ⟨(installable prepared).signersFit, ?_⟩).imp
    · rintro reached ⟨editing, _⟩
      exact ⟨_, editable.diff.mixes, editing⟩
    · right
      intro empty
      have wanting := (installable prepared).nonempty.resolve_left (not_not.mpr unsigned)
      have length := editable.diff.merged.length_eq
      rw [wanted.policies_eq, List.length_map, List.length_map] at length
      exact wanting (List.length_eq_zero_iff.mp (length.symm.trans (congrArg List.length empty)))
  · rcases nonempty with signed | kept
    · left
      exact fun none => signed (editable.recorded.signers.symm.trans none)
    · right
      exact editable.kept_policy unsigned kept

theorem Editable.freshFirst (editable : Editable rule c wanted) (documented : oz.Documented)
    (editing : Editing oz origin c.id rule.shape apply) (uncached : Uncached c.id apply)
    (installable : ready → wanted.Installable oz env) (unsigned : wanted.rule.signers = [])
    (noSigner : c.signers = []) (fresh : (changes c wanted.rule wanted.params).fresh ≠ [])
    (room : c.policies.length + (changes c wanted.rule wanted.params).fresh.length ≤ maxPolicies) :
    Meets ready ((editPolicies (performer oz env) c wanted.rule wanted.params .freshFirst).run
      apply) fun reached => Merged oz origin rule c wanted reached.2 := by
  have bare : rule.signers = [] := editable.recorded.signers.trans noSigner
  have freshDistinct : (rule.attached.map Prod.fst ++
      (changes c wanted.rule wanted.params).fresh.map Prod.fst).Nodup := by
    refine List.nodup_append'.mpr ⟨editable.diff.stored_nodup, ?_, ?_⟩
    · exact editable.diff.attached_nodup.sublist ((Diff.fresh_sublist c wanted).map _)
    · intro address stored added
      obtain ⟨attached, member, rfl⟩ := List.mem_map.mp added
      apply Diff.fresh_not_recorded member
      have same := editable.diff.recorded.map InstalledPolicy.policy
      rw [List.map_map] at same
      exact same.mem_iff.mp stored
  apply Meets.bindState _ (addPolicies_meets documented editing fun prepared => ?_)
  · rintro _ added ⟨editing, cache⟩
    apply Meets.bindState _ (editable.removes documented editing
      (fun cached held => uncached cached (cache ▸ held))
      (fun _ present => List.mem_append_left _ present) fun _ => .inr ?_)
    · intro _ removed editing
      apply (editable.adds documented editing editable.contextType_eq editable.unsigned
        editable.diff.mixes_fresh.recorded
        (fun _ member => Diff.added_wanted (List.mem_of_mem_filter member)) installable).imp
      rintro reached ⟨editing, _⟩
      refine ⟨_, editable.diff.mixes_fresh, ?_⟩
      rw [unsigned, ← bare]
      exact editing
    · obtain ⟨attached, member⟩ := List.exists_mem_of_ne_nil _ fresh
      exact ⟨attached, List.mem_append_right _ member, fun removed =>
        Diff.fresh_not_recorded member (Diff.removed_recorded removed)⟩
  · refine ⟨by rw [List.map_append]; exact freshDistinct, ?_, ?_⟩
    · rw [List.length_append]
      have stored := editable.diff.length_stored
      change rule.attached.length + _ ≤ _
      omega
    · intro attached member
      rw [show rule.shape.contextType = _ from editable.contextType_eq]
      exact (installable prepared).installs _ (fun _ => bare) attached
        ((Diff.fresh_sublist c wanted).subset member)

/-- Whichever order is chosen, the rule ends with the wanted signers and
policies. -/
theorem Editable.editPolicies (editable : Editable rule c wanted) (documented : oz.Documented)
    (editing : Editing oz origin c.id rule.shape apply) (uncached : Uncached c.id apply)
    (installable : ready → wanted.Installable oz env) {order : EditOrder}
    (chosen : editOrder c wanted.rule wanted.params = some order) :
    Meets ready ((Account.editPolicies (performer oz env) c wanted.rule wanted.params order).run
      apply) fun reached => Merged oz origin rule c wanted reached.2 := by
  unfold editOrder at chosen
  split at chosen
  · rename_i signed
    cases chosen
    exact editable.signersFirst documented editing uncached installable signed
  · rename_i unsigned
    rw [not_not] at unsigned
    split at chosen
    · rename_i nonempty
      cases chosen
      exact editable.policiesFirst documented editing uncached installable unsigned nonempty
    · rename_i bare
      rw [not_or, not_not] at bare
      split at chosen
      · rename_i room
        cases chosen
        exact editable.freshFirst documented editing uncached installable unsigned bare.1 room.1
          room.2
      · cases chosen

/-- An edit that has an order turns the stored rule into the wanted one, as far as
the digests tell. -/
theorem Editable.edit (editable : Editable rule c wanted) (documented : oz.Documented)
    (editing : Editing oz origin c.id rule.shape apply) (uncached : Uncached c.id apply)
    (installable : ready → wanted.Installable oz env)
    (ordered : (editOrder c wanted.rule wanted.params).isSome = true) :
    Meets ready ((Account.edit (performer oz env) c wanted.rule wanted.params).run apply)
      fun reached => ∃ attached, Mixes (fun policy => policy ∈ rule.attached) wanted attached ∧
        Editing oz origin c.id { wanted.shape with attached := attached } reached.2 := by
  obtain ⟨order, chosen⟩ := Option.isSome_iff_exists.mp ordered
  unfold Account.edit
  rw [chosen]
  apply Meets.bindState _
    (editable.editPolicies documented editing uncached installable chosen)
  rintro _ merged ⟨attached, whole, editing⟩
  have finish : ∀ {after : Apply σ}, Editing oz origin c.id
      { rule.shape with
        validUntil := wanted.rule.validUntil
        signers := wanted.rule.signers
        attached := attached } after →
      Editing oz origin c.id { wanted.shape with attached := attached } after := by
    intro after edited
    apply edited.reshape
    intro stored has
    exact
      { contextType := has.contextType.trans editable.contextType_eq
        name := has.name.trans (editable.recorded.name.trans editable.name)
        validUntil := has.validUntil
        signers := has.signers
        attached := has.attached }
  apply Meets.bindState (fun reached =>
    Editing oz origin c.id { wanted.shape with attached := attached } reached.2)
  · split
    · apply (setValidUntil_meets documented editing fun prepared =>
        (installable prepared).current).imp
      intro reached edited
      exact finish edited
    · rename_i same
      rw [not_not] at same
      rw [StateT.run_pure]
      apply Meets.pure
      apply finish
      rw [← same, ← editable.recorded.validUntil]
      exact editing
  · intro _ after edited
    exact Meets.pure ⟨attached, whole, edited⟩

end Orders

end Perch.Account
