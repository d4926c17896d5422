/-
The operations of an in-place edit, one by one.

An edit is run against a recorder, which keeps the operations in the order
they are issued.  What each makes of the rule's record is followed from the
current rule: the rule never loses its last signer or policy, never holds more
policies than a rule may, and ends as the desired rule.
-/

import Perch.Account.Edit
import Perch.Machine.Guarded

namespace Perch.Account

open Machine Document Recovery

inductive Operation
  | reconcileSigners (id : UInt32) (signers : List Signer)
  | addPolicy (id : UInt32) (policy : Address) (param : Val)
  | removePolicy (id : UInt32) (policy : Address)
  | setValidUntil (id : UInt32) (validUntil : Option UInt32)
  | removeRule (id : UInt32)
  | addRule (rule : InstalledRule) (params : List Val)

def recorder : Effects (StateM (List Operation)) where
  reconcileSigners rule signers := modify (· ++ [.reconcileSigners rule.id signers])
  addPolicy rule policy param := modify (· ++ [.addPolicy rule.id policy param])
  removePolicy rule policy := modify (· ++ [.removePolicy rule.id policy])
  setValidUntil rule validUntil := modify (· ++ [.setValidUntil rule.id validUntil])
  removeRule rule := modify (· ++ [.removeRule rule.id])
  addRule rule params := do
    modify (· ++ [.addRule rule params])
    pure 0

/-- What an edit answers, and the operations it issues. -/
def editSteps (c d : InstalledRule) (params : List Val) : Bool × List Operation :=
  ((edit recorder c d params).run []).run

def InstalledRule.addresses (rule : InstalledRule) : List Address :=
  rule.policies.map InstalledPolicy.policy

def InstalledRule.Nonempty (rule : InstalledRule) : Prop :=
  rule.signers ≠ [] ∨ rule.policies ≠ []

section Steps

variable (d : AccountDeployment)

def InstalledRule.perform (rule : InstalledRule) : Operation → InstalledRule
  | .reconcileSigners _ signers => { rule with signers := signers }
  | .addPolicy _ policy param =>
      { rule with policies := rule.policies ++ [⟨policy, d.digest param⟩] }
  | .removePolicy _ policy =>
      { rule with policies := rule.policies.filter fun p => p.policy ≠ policy }
  | .setValidUntil _ validUntil => { rule with validUntil := validUntil }
  | .removeRule _ | .addRule _ _ => rule

/-- An operation of an edit: on this rule, adding only what is absent and
removing only what is present. -/
def InstalledRule.Allows (rule : InstalledRule) : Operation → Prop
  | .addPolicy id policy _ => id = rule.id ∧ policy ∉ rule.addresses
  | .removePolicy id policy => id = rule.id ∧ policy ∈ rule.addresses
  | .reconcileSigners id _ | .setValidUntil id _ => id = rule.id
  | .removeRule _ | .addRule _ _ => False

def editing : Guarded InstalledRule Operation where
  step := InstalledRule.perform d
  holds rule := rule.Nonempty ∧ rule.policies.length ≤ maxPolicies
  allowed := InstalledRule.Allows

end Steps

/-! ### What is issued -/

def removals (id : UInt32) (policies : List Address) : List Operation :=
  policies.map fun policy => .removePolicy id policy

def additions (id : UInt32) (policies : List (Address × Val)) : List Operation :=
  policies.map fun attached => .addPolicy id attached.1 attached.2

def swap (c d : InstalledRule) : List Operation :=
  if c.signers ≠ d.signers then [.reconcileSigners c.id d.signers] else []

def expiry (c d : InstalledRule) : List Operation :=
  if c.validUntil ≠ d.validUntil then [.setValidUntil c.id d.validUntil] else []

def Changes.readded (changes : Changes) : List (Address × Val) :=
  changes.addPolicies.filter fun (p, _) => p ∉ changes.fresh.map Prod.fst

def ordered (c d : InstalledRule) (changes : Changes) : EditOrder → List Operation
  | .signersFirst =>
      swap c d ++ removals c.id changes.removePolicies ++ additions c.id changes.addPolicies
  | .policiesFirst =>
      removals c.id changes.removePolicies ++ additions c.id changes.addPolicies ++ swap c d
  | .freshFirst =>
      additions c.id changes.fresh ++ removals c.id changes.removePolicies ++
        additions c.id changes.readded

theorem removePolicies_recorded (c : InstalledRule) (policies : List Address)
    (log : List Operation) :
    (removePolicies recorder c policies).run log = ((), log ++ removals c.id policies) := by
  induction policies generalizing log with
  | nil => simp [removePolicies, removals]; rfl
  | cons policy rest ih =>
      rw [removePolicies, List.forM_cons]
      change (removePolicies recorder c rest).run (log ++ [.removePolicy c.id policy]) = _
      rw [ih, List.append_assoc]
      rfl

theorem addPolicies_recorded (c : InstalledRule) (policies : List (Address × Val))
    (log : List Operation) :
    (addPolicies recorder c policies).run log = ((), log ++ additions c.id policies) := by
  induction policies generalizing log with
  | nil => simp [addPolicies, additions]; rfl
  | cons attached rest ih =>
      rw [addPolicies, List.forM_cons]
      change (addPolicies recorder c rest).run (log ++ [.addPolicy c.id attached.1 attached.2]) = _
      rw [ih, List.append_assoc]
      rfl

theorem swapSigners_recorded (c d : InstalledRule) (log : List Operation) :
    (swapSigners recorder c d).run log = ((), log ++ swap c d) := by
  by_cases same : c.signers = d.signers
  · rw [swapSigners, if_neg (not_not.mpr same), swap, if_neg (not_not.mpr same), List.append_nil]
    rfl
  · rw [swapSigners, if_pos same, swap, if_pos same]
    rfl

theorem editPolicies_recorded (c d : InstalledRule) (params : List Val) (order : EditOrder)
    (log : List Operation) :
    (editPolicies recorder c d params order).run log =
      ((), log ++ ordered c d (changes c d params) order) := by
  cases order with
  | signersFirst =>
      simp only [editPolicies, StateT.run_bind, swapSigners_recorded, removePolicies_recorded,
        addPolicies_recorded]
      change ((), log ++ swap c d ++ removals c.id _ ++ additions c.id _) = _
      simp only [ordered, List.append_assoc]
  | policiesFirst =>
      simp only [editPolicies, StateT.run_bind, swapSigners_recorded, removePolicies_recorded,
        addPolicies_recorded]
      change ((), log ++ removals c.id _ ++ additions c.id _ ++ swap c d) = _
      simp only [ordered, List.append_assoc]
  | freshFirst =>
      simp only [editPolicies, StateT.run_bind, removePolicies_recorded, addPolicies_recorded]
      change ((), log ++ additions c.id _ ++ removals c.id _ ++ additions c.id _) = _
      simp only [ordered, Changes.readded, List.append_assoc]

theorem editSteps_eq (c d : InstalledRule) (params : List Val) :
    editSteps c d params =
      match editOrder c d params with
      | none => (false, [])
      | some order => (true, ordered c d (changes c d params) order ++ expiry c d) := by
  unfold editSteps edit
  cases editOrder c d params with
  | none => rfl
  | some order =>
      simp only [StateT.run_bind, editPolicies_recorded, List.nil_append]
      by_cases same : c.validUntil = d.validUntil
      · simp [expiry, same]
        rfl
      · simp [expiry, same]
        rfl

/-! ### The policies an edit leaves -/

section Policies

variable {d : AccountDeployment} {c : InstalledRule} {wanted : Wanted d}

theorem addPolicies_records (c : InstalledRule) (wanted : Wanted d) :
    (changes c wanted.rule wanted.params).addPolicies.map d.record =
      wanted.rule.policies.filter fun p => p ∉ c.policies := by
  rw [changes_addPolicies, wanted.policies_eq, List.filter_map]
  rfl

theorem kept_policy_iff (distinct : c.addresses.Nodup) {p : InstalledPolicy}
    (held : p ∈ c.policies) :
    p.policy ∉ (changes c wanted.rule wanted.params).removePolicies ↔
      p ∈ wanted.rule.policies := by
  rw [← not_iff_not, not_not]
  simp only [changes, List.mem_map, List.mem_filter, decide_eq_true_eq]
  constructor
  · rintro ⟨other, ⟨otherHeld, dropped⟩, address⟩
    have same : other = p := List.inj_on_of_nodup_map distinct otherHeld held address
    exact same ▸ dropped
  · intro dropped
    exact ⟨p, ⟨held, dropped⟩, rfl⟩

theorem merged_policies (distinct : c.addresses.Nodup)
    (wantedDistinct : wanted.rule.addresses.Nodup) :
    (c.policies.filter (fun p =>
        p.policy ∉ (changes c wanted.rule wanted.params).removePolicies) ++
      (changes c wanted.rule wanted.params).addPolicies.map d.record).Perm
        wanted.rule.policies := by
  have kept : c.policies.filter (fun p =>
      p.policy ∉ (changes c wanted.rule wanted.params).removePolicies) =
        c.policies.filter fun p => p ∈ wanted.rule.policies :=
    List.filter_congr fun p held => decide_eq_decide.mpr (kept_policy_iff distinct held)
  have shared : (c.policies.filter fun p => p ∈ wanted.rule.policies).Perm
      (wanted.rule.policies.filter fun p => p ∈ c.policies) := by
    rw [List.perm_ext_iff_of_nodup (distinct.of_map _ |>.filter _)
      (wantedDistinct.of_map _ |>.filter _)]
    intro p
    simp [and_comm]
  have added : (wanted.rule.policies.filter fun p => p ∉ c.policies) =
      wanted.rule.policies.filter fun p => !decide (p ∈ c.policies) :=
    List.filter_congr fun p _ => decide_not
  rw [kept, addPolicies_records, added]
  exact (shared.append_right _).trans (List.filter_append_perm _ _)

theorem fresh_absent {attached : Address × Val}
    (member : attached ∈ (changes c wanted.rule wanted.params).fresh) :
    attached.1 ∉ c.addresses := by
  exact of_decide_eq_true (List.mem_filter.mp member).2

theorem removed_present {policy : Address}
    (member : policy ∈ (changes c wanted.rule wanted.params).removePolicies) :
    policy ∈ c.addresses := by
  obtain ⟨p, held, rfl⟩ := List.mem_map.mp member
  exact List.mem_map_of_mem (List.mem_of_mem_filter held)

theorem removed_nodup (distinct : c.addresses.Nodup) :
    (changes c wanted.rule wanted.params).removePolicies.Nodup :=
  distinct.sublist (List.filter_sublist.map _)

theorem dropped_removed {p : InstalledPolicy} (held : p ∈ c.policies)
    (dropped : p ∉ wanted.rule.policies) :
    p.policy ∈ (changes c wanted.rule wanted.params).removePolicies :=
  List.mem_map_of_mem (List.mem_filter.mpr ⟨held, decide_eq_true dropped⟩)

theorem added_nodup (wantedDistinct : wanted.rule.addresses.Nodup) :
    ((changes c wanted.rule wanted.params).addPolicies.map Prod.fst).Nodup := by
  have records := congrArg (List.map InstalledPolicy.policy) (addPolicies_records c wanted)
  rw [List.map_map] at records
  have same : (changes c wanted.rule wanted.params).addPolicies.map Prod.fst =
      (wanted.rule.policies.filter fun p => p ∉ c.policies).map InstalledPolicy.policy := records
  rw [same]
  exact wantedDistinct.sublist (List.filter_sublist.map _)

theorem added_removed {attached : Address × Val} (wantedDistinct : wanted.rule.addresses.Nodup)
    (member : attached ∈ (changes c wanted.rule wanted.params).addPolicies)
    (present : attached.1 ∈ c.addresses) :
    attached.1 ∈ (changes c wanted.rule wanted.params).removePolicies := by
  have record : d.record attached ∈ wanted.rule.policies.filter fun p => p ∉ c.policies := by
    rw [← addPolicies_records]
    exact List.mem_map_of_mem member
  obtain ⟨asked, lacking⟩ := List.mem_filter.mp record
  obtain ⟨p, held, address⟩ := List.mem_map.mp present
  rw [← address]
  apply dropped_removed held
  intro wantedAsIs
  have same : p = d.record attached :=
    List.inj_on_of_nodup_map wantedDistinct wantedAsIs asked address
  exact of_decide_eq_true lacking (same ▸ held)

end Policies

/-! ### Phases -/

section Phases

variable {d : AccountDeployment}

structure Removes (rule : InstalledRule) (operations : List Operation) : Prop where
  few : rule.policies.length ≤ maxPolicies
  issued : ∃ policies, operations = removals rule.id policies ∧ policies.Nodup ∧
    (∀ policy ∈ policies, policy ∈ rule.addresses) ∧
    (rule.signers ≠ [] ∨ ∃ p ∈ rule.policies, p.policy ∉ policies)

theorem removes_safe {rule : InstalledRule} {operations : List Operation}
    (removes : Removes rule operations) : (editing d).Safe rule operations := by
  apply Guarded.safe_of_phase Removes _ _ removes
  · rintro rule ⟨few, policies, _, _, _, left⟩
    refine ⟨?_, few⟩
    rcases left with signed | ⟨p, held, _⟩
    · exact Or.inl signed
    · exact Or.inr (List.ne_nil_of_mem held)
  · rintro rule operation rest ⟨few, policies, issued, distinct, present, left⟩
    cases policies with
    | nil => cases issued
    | cons policy policies =>
        obtain ⟨rfl, rfl⟩ := List.cons.inj issued
        obtain ⟨once, distinct⟩ := List.nodup_cons.mp distinct
        refine ⟨⟨?_, few⟩, ⟨rfl, present policy List.mem_cons_self⟩, ?_⟩
        · rcases left with signed | ⟨p, held, _⟩
          · exact Or.inl signed
          · exact Or.inr (List.ne_nil_of_mem held)
        · refine ⟨(List.length_filter_le _ _).trans few, policies, rfl, distinct, ?_, ?_⟩
          · intro other member
            obtain ⟨p, held, rfl⟩ := List.mem_map.mp (present other (List.mem_cons_of_mem _ member))
            apply List.mem_map_of_mem
            refine List.mem_filter.mpr ⟨held, decide_eq_true ?_⟩
            rintro rfl
            exact once member
          · rcases left with signed | ⟨p, held, stays⟩
            · exact Or.inl signed
            · rw [List.mem_cons, not_or] at stays
              exact Or.inr ⟨p, List.mem_filter.mpr ⟨held, decide_eq_true stays.1⟩, stays.2⟩

theorem run_removals (rule : InstalledRule) (policies : List Address) :
    (editing d).run rule (removals rule.id policies) =
      { rule with policies := rule.policies.filter fun p => p.policy ∉ policies } := by
  induction policies generalizing rule with
  | nil => simp [removals]
  | cons policy rest ih =>
      change (editing d).run (rule.perform d (.removePolicy rule.id policy))
        (removals rule.id rest) = _
      have step := ih (rule.perform d (.removePolicy rule.id policy))
      change (editing d).run (rule.perform d (.removePolicy rule.id policy))
        (removals rule.id rest) = _ at step
      rw [step]
      simp only [InstalledRule.perform, List.filter_filter, List.mem_cons, not_or]
      congr 1
      apply List.filter_congr
      intro p _
      rw [Bool.and_comm]
      simp

/-- Additions, all absent and within what a rule may hold. -/
structure Adds (rule : InstalledRule) (operations : List Operation) : Prop where
  nonempty : rule.Nonempty
  issued : ∃ policies, operations = additions rule.id policies ∧ (policies.map Prod.fst).Nodup ∧
    (∀ attached ∈ policies, attached.1 ∉ rule.addresses) ∧
    rule.policies.length + policies.length ≤ maxPolicies

theorem adds_safe {rule : InstalledRule} {operations : List Operation}
    (adds : Adds rule operations) : (editing d).Safe rule operations := by
  apply Guarded.safe_of_phase Adds _ _ adds
  · rintro rule ⟨nonempty, policies, _, _, _, room⟩
    exact ⟨nonempty, (Nat.le_add_right _ _).trans room⟩
  · rintro rule operation rest ⟨nonempty, policies, issued, distinct, absent, room⟩
    cases policies with
    | nil => cases issued
    | cons attached policies =>
        obtain ⟨rfl, rfl⟩ := List.cons.inj issued
        obtain ⟨once, distinct⟩ := List.nodup_cons.mp distinct
        refine ⟨⟨nonempty, (Nat.le_add_right _ _).trans room⟩,
          ⟨rfl, absent attached List.mem_cons_self⟩, ?_⟩
        refine ⟨Or.inr (by simp [editing, InstalledRule.perform]), policies, rfl, distinct, ?_, ?_⟩
        · intro other member
          change other.1 ∉ (rule.policies ++ [d.record attached]).map InstalledPolicy.policy
          rw [List.map_append, List.mem_append, not_or]
          refine ⟨absent other (List.mem_cons_of_mem _ member), ?_⟩
          intro again
          rw [List.map_singleton, List.mem_singleton] at again
          have same : other.1 = attached.1 := again
          exact once (same ▸ List.mem_map_of_mem member)
        · simp only [editing, InstalledRule.perform, List.length_append, List.length_cons,
            List.length_nil] at room ⊢
          omega

theorem run_additions (rule : InstalledRule) (policies : List (Address × Val)) :
    (editing d).run rule (additions rule.id policies) =
      { rule with policies := rule.policies ++ policies.map d.record } := by
  induction policies generalizing rule with
  | nil => simp [additions]
  | cons attached rest ih =>
      have step := ih (rule.perform d (.addPolicy rule.id attached.1 attached.2))
      change (editing d).run (rule.perform d (.addPolicy rule.id attached.1 attached.2))
        (additions rule.id rest) = _ at step
      change (editing d).run (rule.perform d (.addPolicy rule.id attached.1 attached.2))
        (additions rule.id rest) = _
      rw [step]
      simp only [InstalledRule.perform, List.append_assoc, List.singleton_append, List.map_cons]
      rfl

theorem single_safe {rule : InstalledRule} {operation : Operation}
    (before : rule.Nonempty ∧ rule.policies.length ≤ maxPolicies) (allowed : rule.Allows operation)
    (after : (rule.perform d operation).Nonempty)
    (kept : (rule.perform d operation).policies = rule.policies) :
    (editing d).Safe rule [operation] := by
  refine ⟨before, allowed, after, ?_⟩
  change (rule.perform d operation).policies.length ≤ maxPolicies
  rw [kept]
  exact before.2

theorem swap_safe {rule c wanted : InstalledRule} (own : rule.id = c.id)
    (before : rule.Nonempty ∧ rule.policies.length ≤ maxPolicies)
    (after : wanted.signers ≠ [] ∨ rule.policies ≠ []) :
    (editing d).Safe rule (swap c wanted) := by
  unfold swap
  split
  · exact single_safe before own.symm after rfl
  · exact before

theorem run_swap {rule c wanted : InstalledRule} (own : rule.signers = c.signers) :
    (editing d).run rule (swap c wanted) = { rule with signers := wanted.signers } := by
  unfold swap
  split
  · rfl
  next same =>
    rw [Guarded.run_nil, ← not_not.mp same, ← own]

theorem expiry_safe {rule c wanted : InstalledRule} (own : rule.id = c.id)
    (before : rule.Nonempty ∧ rule.policies.length ≤ maxPolicies) :
    (editing d).Safe rule (expiry c wanted) := by
  unfold expiry
  split
  · exact single_safe before own.symm before.1 rfl
  · exact before

theorem run_expiry {rule c wanted : InstalledRule} (own : rule.validUntil = c.validUntil) :
    (editing d).run rule (expiry c wanted) = { rule with validUntil := wanted.validUntil } := by
  unfold expiry
  split
  · rfl
  next same =>
    rw [Guarded.run_nil, ← not_not.mp same, ← own]

end Phases

/-! ### The orders -/

section Orders

/-- What an edit of `c` into the wanted rule may rely on. -/
structure EditPair {d : AccountDeployment} (c : InstalledRule) (wanted : Wanted d) : Prop where
  nonempty : c.Nonempty
  wantedNonempty : wanted.rule.Nonempty
  distinct : c.addresses.Nodup
  wantedDistinct : wanted.rule.addresses.Nodup
  few : c.policies.length ≤ maxPolicies
  wantedFew : wanted.rule.policies.length ≤ maxPolicies

variable {d : AccountDeployment} {c : InstalledRule} {wanted : Wanted d}

def stays (c : InstalledRule) (changes : Changes) : List InstalledPolicy :=
  c.policies.filter fun p => p.policy ∉ changes.removePolicies

/-- An order is safe from the current rule, and ends with the wanted signers
and policies. -/
structure Arrives (c : InstalledRule) (wanted : Wanted d) (operations : List Operation) : Prop where
  safe : (editing d).Safe c operations
  policies : ((editing d).run c operations).policies.Perm wanted.rule.policies
  rest : (editing d).run c operations =
    { c with
      signers := wanted.rule.signers
      policies := ((editing d).run c operations).policies }

theorem EditPair.merged_few (pair : EditPair c wanted) :
    (stays c (changes c wanted.rule wanted.params)).length +
      (changes c wanted.rule wanted.params).addPolicies.length ≤ maxPolicies := by
  have lengths := (merged_policies pair.distinct pair.wantedDistinct).length_eq
  rw [List.length_append, List.length_map] at lengths
  have few := pair.wantedFew
  rw [← lengths] at few
  exact few

theorem EditPair.added_absent (pair : EditPair c wanted) {attached : Address × Val}
    (member : attached ∈ (changes c wanted.rule wanted.params).addPolicies) :
    attached.1 ∉ (stays c (changes c wanted.rule wanted.params)).map InstalledPolicy.policy := by
  intro present
  obtain ⟨p, held, address⟩ := List.mem_map.mp present
  obtain ⟨recorded, kept⟩ := List.mem_filter.mp held
  have removed := added_removed pair.wantedDistinct member
    (address ▸ List.mem_map_of_mem recorded)
  exact of_decide_eq_true kept (address ▸ removed)

/-- Removing and then adding, on a rule that keeps a signer or a policy. -/
theorem EditPair.replaced_safe (pair : EditPair c wanted) {rule : InstalledRule}
    (own : rule.id = c.id) (same : rule.policies = c.policies)
    (left : rule.signers ≠ [] ∨ ∃ p ∈ c.policies, p ∈ wanted.rule.policies) :
    (editing d).Safe rule
      (removals c.id (changes c wanted.rule wanted.params).removePolicies ++
        additions c.id (changes c wanted.rule wanted.params).addPolicies) := by
  have kept : rule.signers ≠ [] ∨ ∃ p ∈ rule.policies,
      p.policy ∉ (changes c wanted.rule wanted.params).removePolicies := by
    rcases left with signed | ⟨p, held, asked⟩
    · exact Or.inl signed
    · refine Or.inr ⟨p, same ▸ held, ?_⟩
      exact (kept_policy_iff pair.distinct held).mpr asked
  rw [← own]
  apply Guarded.Safe.append
  · apply removes_safe
    refine ⟨same ▸ pair.few, _, rfl, removed_nodup pair.distinct, ?_, kept⟩
    intro policy member
    rw [InstalledRule.addresses, same]
    exact removed_present member
  · rw [run_removals]
    apply adds_safe
    refine ⟨?_, _, rfl, added_nodup pair.wantedDistinct, ?_, ?_⟩
    · rcases kept with signed | ⟨p, held, stays⟩
      · exact Or.inl signed
      · exact Or.inr (List.ne_nil_of_mem (List.mem_filter.mpr ⟨held, decide_eq_true stays⟩))
    · intro attached member
      change attached.1 ∉ (rule.policies.filter _).map InstalledPolicy.policy
      rw [same]
      exact pair.added_absent member
    · change (rule.policies.filter _).length + _ ≤ maxPolicies
      rw [same]
      exact pair.merged_few

theorem run_replaced (rule : InstalledRule) (own : rule.id = c.id)
    (same : rule.policies = c.policies) :
    (editing d).run rule
      (removals c.id (changes c wanted.rule wanted.params).removePolicies ++
        additions c.id (changes c wanted.rule wanted.params).addPolicies) =
      { rule with
        policies := stays c (changes c wanted.rule wanted.params) ++
          (changes c wanted.rule wanted.params).addPolicies.map d.record } := by
  rw [Guarded.run_append, ← own, run_removals]
  have added := run_additions (d := d)
    { rule with policies := stays c (changes c wanted.rule wanted.params) }
    (changes c wanted.rule wanted.params).addPolicies
  rw [same]
  exact added

theorem EditPair.signersFirst (pair : EditPair c wanted)
    (signed : wanted.rule.signers ≠ []) :
    Arrives c wanted
      (ordered c wanted.rule (changes c wanted.rule wanted.params) .signersFirst) := by
  have swapped : (editing d).run c (swap c wanted.rule) =
      { c with signers := wanted.rule.signers } := run_swap rfl
  have final : (editing d).run c
      (ordered c wanted.rule (changes c wanted.rule wanted.params) .signersFirst) =
        { c with
          signers := wanted.rule.signers
          policies := stays c (changes c wanted.rule wanted.params) ++
            (changes c wanted.rule wanted.params).addPolicies.map d.record } := by
    rw [ordered, List.append_assoc, Guarded.run_append, swapped]
    exact run_replaced _ rfl rfl
  refine { safe := ?_, policies := ?_, rest := ?_ }
  · rw [ordered, List.append_assoc]
    apply Guarded.Safe.append
    · exact swap_safe rfl ⟨pair.nonempty, pair.few⟩ (Or.inl signed)
    · rw [swapped]
      exact pair.replaced_safe rfl rfl (Or.inl signed)
  · rw [final]
    exact merged_policies pair.distinct pair.wantedDistinct
  · rw [final]

theorem EditPair.policiesFirst (pair : EditPair c wanted)
    (unsigned : wanted.rule.signers = [])
    (left : c.signers ≠ [] ∨ ∃ p ∈ c.policies, p ∈ wanted.rule.policies) :
    Arrives c wanted
      (ordered c wanted.rule (changes c wanted.rule wanted.params) .policiesFirst) := by
  have merged := merged_policies pair.distinct pair.wantedDistinct
  have replaced := @run_replaced d c wanted c rfl rfl
  have policied : wanted.rule.policies ≠ [] :=
    pair.wantedNonempty.resolve_left (not_not.mpr unsigned)
  have nonempty : stays c (changes c wanted.rule wanted.params) ++
      (changes c wanted.rule wanted.params).addPolicies.map d.record ≠ [] := by
    intro none
    rw [stays] at none
    rw [none] at merged
    exact policied (List.nil_perm.mp merged)
  have final : (editing d).run c
      (ordered c wanted.rule (changes c wanted.rule wanted.params) .policiesFirst) =
        { c with
          signers := wanted.rule.signers
          policies := stays c (changes c wanted.rule wanted.params) ++
            (changes c wanted.rule wanted.params).addPolicies.map d.record } := by
    rw [ordered, Guarded.run_append, replaced]
    exact run_swap rfl
  refine { safe := ?_, policies := ?_, rest := ?_ }
  · rw [ordered]
    apply Guarded.Safe.append
    · exact pair.replaced_safe rfl rfl left
    · rw [replaced]
      refine swap_safe rfl ⟨Or.inr nonempty, ?_⟩ (Or.inr nonempty)
      have few := pair.merged_few
      rwa [← List.length_map (f := d.record), ← List.length_append] at few
  · rw [final]
    exact merged
  · rw [final]

theorem fresh_readded (c : InstalledRule) (wanted : Wanted d) :
    ((changes c wanted.rule wanted.params).fresh ++
      (changes c wanted.rule wanted.params).readded).Perm
        (changes c wanted.rule wanted.params).addPolicies := by
  have readded : (changes c wanted.rule wanted.params).readded =
      (changes c wanted.rule wanted.params).addPolicies.filter
        fun attached => !decide (attached.1 ∉ c.addresses) := by
    apply List.filter_congr
    intro attached member
    rw [← decide_not]
    apply decide_eq_decide.mpr
    apply not_congr
    constructor
    · intro first
      obtain ⟨other, fresh, address⟩ := List.mem_map.mp first
      exact address ▸ fresh_absent fresh
    · intro absent
      apply List.mem_map_of_mem
      exact List.mem_filter.mpr ⟨member, decide_eq_true absent⟩
  rw [readded]
  exact List.filter_append_perm _ _

theorem fresh_stays (c : InstalledRule) (wanted : Wanted d) :
    (c.policies ++ (changes c wanted.rule wanted.params).fresh.map d.record).filter
      (fun p => p.policy ∉ (changes c wanted.rule wanted.params).removePolicies) =
        stays c (changes c wanted.rule wanted.params) ++
          (changes c wanted.rule wanted.params).fresh.map d.record := by
  have kept : ((changes c wanted.rule wanted.params).fresh.map d.record).filter
      (fun p => p.policy ∉ (changes c wanted.rule wanted.params).removePolicies) =
        (changes c wanted.rule wanted.params).fresh.map d.record := by
    rw [List.filter_eq_self]
    intro p member
    obtain ⟨attached, fresh, rfl⟩ := List.mem_map.mp member
    apply decide_eq_true
    intro removed
    exact fresh_absent fresh (removed_present removed)
  rw [List.filter_append, kept, stays]

theorem EditPair.freshFirst (pair : EditPair c wanted) (unsigned : c.signers = [])
    (wantedUnsigned : wanted.rule.signers = [])
    (fresh : (changes c wanted.rule wanted.params).fresh ≠ [])
    (room : c.policies.length + (changes c wanted.rule wanted.params).fresh.length ≤ maxPolicies) :
    Arrives c wanted
      (ordered c wanted.rule (changes c wanted.rule wanted.params) .freshFirst) := by
  have added := run_additions (d := d) c (changes c wanted.rule wanted.params).fresh
  have removed := run_removals (d := d)
    { c with
      policies := c.policies ++ (changes c wanted.rule wanted.params).fresh.map d.record }
    (changes c wanted.rule wanted.params).removePolicies
  rw [fresh_stays] at removed
  have readded := run_additions (d := d)
    { c with
      policies := stays c (changes c wanted.rule wanted.params) ++
        (changes c wanted.rule wanted.params).fresh.map d.record }
    (changes c wanted.rule wanted.params).readded
  have final : (editing d).run c
      (ordered c wanted.rule (changes c wanted.rule wanted.params) .freshFirst) =
        { c with
          policies := stays c (changes c wanted.rule wanted.params) ++
            (changes c wanted.rule wanted.params).fresh.map d.record ++
            (changes c wanted.rule wanted.params).readded.map d.record } := by
    rw [ordered, Guarded.run_append, Guarded.run_append, added, removed, readded]
  have merged : (stays c (changes c wanted.rule wanted.params) ++
      (changes c wanted.rule wanted.params).fresh.map d.record ++
      (changes c wanted.rule wanted.params).readded.map d.record).Perm wanted.rule.policies := by
    rw [List.append_assoc, ← List.map_append]
    exact (((fresh_readded c wanted).map d.record).append_left _).trans
      (merged_policies pair.distinct pair.wantedDistinct)
  obtain ⟨first, isFresh⟩ := List.exists_mem_of_ne_nil _ fresh
  have firstRecorded : d.record first ∈ (changes c wanted.rule wanted.params).fresh.map d.record :=
    List.mem_map_of_mem isFresh
  refine { safe := ?_, policies := ?_, rest := ?_ }
  · rw [ordered]
    apply Guarded.Safe.append
    · apply Guarded.Safe.append
      · apply adds_safe
        refine ⟨pair.nonempty, _, rfl, ?_, fun attached => fresh_absent, room⟩
        exact (added_nodup pair.wantedDistinct).sublist (List.filter_sublist.map _)
      · rw [added]
        apply removes_safe
        refine ⟨?_, _, rfl, removed_nodup pair.distinct, ?_, Or.inr ?_⟩
        · rw [List.length_append, List.length_map]
          exact room
        · intro policy member
          rw [InstalledRule.addresses, List.map_append]
          exact List.mem_append_left _ (removed_present member)
        · refine ⟨d.record first, List.mem_append_right _ firstRecorded, ?_⟩
          intro removed
          exact fresh_absent isFresh (removed_present removed)
    · rw [Guarded.run_append, added, removed]
      apply adds_safe
      refine ⟨Or.inr (List.ne_nil_of_mem (List.mem_append_right _ firstRecorded)), _, rfl, ?_, ?_,
        ?_⟩
      · exact (added_nodup pair.wantedDistinct).sublist (List.filter_sublist.map _)
      · intro attached member
        obtain ⟨isAdded, later⟩ := List.mem_filter.mp member
        rw [InstalledRule.addresses, List.map_append, List.mem_append, not_or]
        refine ⟨pair.added_absent isAdded, ?_⟩
        intro again
        rw [List.map_map] at again
        exact of_decide_eq_true later again
      · have lengths := merged.length_eq
        have readded : ((changes c wanted.rule wanted.params).readded.map d.record).length =
            (changes c wanted.rule wanted.params).readded.length := List.length_map d.record
        rw [List.length_append, readded] at lengths
        have few := pair.wantedFew
        rwa [← lengths] at few
  · rw [final]
    exact merged
  · rw [final, wantedUnsigned, ← unsigned]

/-- Something survives an edit whose changes keep something. -/
theorem survivor_of_kept (unsigned : c.signers = [])
    (kept : 0 < (changes c wanted.rule wanted.params).kept) :
    ∃ p ∈ c.policies, p ∈ wanted.rule.policies := by
  by_contra nothing
  have gone : c.policies.filter (fun p => p ∉ wanted.rule.policies) = c.policies := by
    rw [List.filter_eq_self]
    intro p held
    apply decide_eq_true
    intro asked
    exact nothing ⟨p, held, asked⟩
  simp only [changes, missing, unsigned, gone, List.filter_nil, List.length_nil, List.length_map]
    at kept
  omega

/-- Whichever order an edit takes is safe and arrives. -/
theorem EditPair.reaches (pair : EditPair c wanted) {order : EditOrder}
    (chosen : editOrder c wanted.rule wanted.params = some order) :
    Arrives c wanted (ordered c wanted.rule (changes c wanted.rule wanted.params) order) := by
  unfold editOrder at chosen
  split at chosen
  next signed =>
    cases chosen
    exact pair.signersFirst signed
  next unsigned =>
    have unsigned := not_not.mp unsigned
    split at chosen
    next left =>
      cases chosen
      apply pair.policiesFirst unsigned
      by_cases signed : c.signers = []
      · exact Or.inr (survivor_of_kept signed (left.resolve_left (not_not.mpr signed)))
      · exact Or.inl signed
    next alone =>
      rw [not_or, not_not] at alone
      split at chosen
      next room =>
        cases chosen
        exact pair.freshFirst alone.1 unsigned room.1 room.2
      next => cases chosen

/-- Two signerless rules of one policy each, under different addresses. -/
def Handover (c d : InstalledRule) : Prop :=
  c.signers = [] ∧ d.signers = [] ∧
    ∃ old new, c.policies = [old] ∧ d.policies = [new] ∧ old.policy ≠ new.policy

theorem handover_fresh (handover : Handover c wanted.rule) :
    (changes c wanted.rule wanted.params).fresh ≠ [] ∧
      c.policies.length + (changes c wanted.rule wanted.params).fresh.length ≤ maxPolicies := by
  obtain ⟨_, _, old, new, held, asked, different⟩ := handover
  have records := addPolicies_records c wanted
  have lacking : new ∉ c.policies := by
    rw [held, List.mem_singleton]
    rintro rfl
    exact different rfl
  have stays : [new].filter (fun p => p ∉ c.policies) = [new] := by
    rw [List.filter_eq_self]
    intro p member
    rw [List.mem_singleton.mp member]
    exact decide_eq_true lacking
  rw [asked, stays] at records
  obtain ⟨attached, only, record⟩ := List.map_eq_singleton_iff.mp records
  have address : attached.1 ∉ c.policies.map InstalledPolicy.policy := by
    rw [held, List.map_singleton, List.mem_singleton]
    intro same
    have named : attached.1 = new.policy := congrArg InstalledPolicy.policy record
    exact different (same.symm.trans named)
  have fresh : (changes c wanted.rule wanted.params).fresh = [attached] := by
    change (changes c wanted.rule wanted.params).addPolicies.filter _ = _
    rw [only]
    exact List.filter_cons_of_pos (decide_eq_true address)
  rw [fresh, held]
  refine ⟨List.cons_ne_nil _ _, ?_⟩
  change 2 ≤ 5
  decide

/-- When an edit is possible. -/
theorem editOrder_isSome
    (possible : c.signers ≠ [] ∨ wanted.rule.signers ≠ [] ∨
      (∃ p ∈ c.policies, p ∈ wanted.rule.policies) ∨ Handover c wanted.rule) :
    (editOrder c wanted.rule wanted.params).isSome = true := by
  unfold editOrder
  split
  · rfl
  next unsigned =>
    split
    · rfl
    next alone =>
      rw [not_or] at alone
      rcases possible with signed | signed | ⟨p, held, asked⟩ | handover
      · exact absurd signed alone.1
      · exact absurd signed unsigned
      · refine absurd ?_ alone.2
        have fewer : (c.policies.filter fun p => p ∉ wanted.rule.policies).length <
            c.policies.length := by
          rw [List.length_filter_lt_length_iff_exists]
          exact ⟨p, held, by simp [asked]⟩
        simp only [changes, List.length_map]
        omega
      · rw [if_pos (handover_fresh handover)]
        rfl

end Orders

/-! ### Every step of an edit -/

/-- What an edit's answer and operations come to, from the current rule. -/
structure EditSteps {d : AccountDeployment} (c : InstalledRule) (wanted : Wanted d)
    (answer : Bool) (operations : List Operation) : Prop where
  /-- After every prefix the rule has a signer or a policy, and no more
  policies than it may. -/
  holds : ∀ before after, operations = before ++ after →
    ((editing d).run c before).Nonempty ∧
      ((editing d).run c before).policies.length ≤ maxPolicies
  /-- Every operation is on this rule, adds what is absent there, and removes
  what is present. -/
  allowed : ∀ before operation after, operations = before ++ operation :: after →
    ((editing d).run c before).Allows operation
  signers : answer = true → ((editing d).run c operations).signers = wanted.rule.signers
  policies : answer = true →
    ((editing d).run c operations).policies.Perm wanted.rule.policies
  validUntil : answer = true → ((editing d).run c operations).validUntil = wanted.rule.validUntil
  refused : answer = false → operations = []
  possible :
    (c.signers ≠ [] ∨ wanted.rule.signers ≠ [] ∨
      (∃ p ∈ c.policies, p ∈ wanted.rule.policies) ∨ Handover c wanted.rule) → answer = true

theorem edit_steps {d : AccountDeployment} {c : InstalledRule} {wanted : Wanted d}
    (pair : EditPair c wanted) :
    EditSteps c wanted (editSteps c wanted.rule wanted.params).1
      (editSteps c wanted.rule wanted.params).2 := by
  have possible := @editOrder_isSome d c wanted
  rw [editSteps_eq]
  cases chosen : editOrder c wanted.rule wanted.params with
  | none =>
      rw [chosen] at possible
      refine
        { holds := ?_
          allowed := ?_
          signers := fun impossible => by cases impossible
          policies := fun impossible => by cases impossible
          validUntil := fun impossible => by cases impossible
          refused := fun _ => rfl
          possible := fun able => possible able }
      · intro before after nothing
        rw [(List.nil_eq_append_iff.mp nothing).1]
        exact ⟨pair.nonempty, pair.few⟩
      · intro before operation after nothing
        exact absurd nothing.symm (by simp)
  | some order =>
      obtain ⟨safe, policies, rest⟩ := pair.reaches chosen
      have whole : (editing d).Safe c
          (ordered c wanted.rule (changes c wanted.rule wanted.params) order ++
            expiry c wanted.rule) := by
        apply safe.append
        apply expiry_safe
        · rw [rest]
        · have ended : (editing d).Safe ((editing d).run c
              (ordered c wanted.rule (changes c wanted.rule wanted.params) order)) [] :=
            Guarded.Safe.at_prefix (by simpa using safe)
          exact ended.holds
      have final : (editing d).run ((editing d).run c
            (ordered c wanted.rule (changes c wanted.rule wanted.params) order))
            (expiry c wanted.rule) =
          { (editing d).run c
              (ordered c wanted.rule (changes c wanted.rule wanted.params) order) with
            validUntil := wanted.rule.validUntil } :=
        run_expiry (by rw [rest])
      change EditSteps c wanted true
        (ordered c wanted.rule (changes c wanted.rule wanted.params) order ++
          expiry c wanted.rule)
      refine
        { holds := ?_
          allowed := ?_
          signers := ?_
          policies := ?_
          validUntil := ?_
          refused := fun impossible => by cases impossible
          possible := fun _ => rfl }
      · intro before after split
        rw [split] at whole
        exact whole.at_prefix.holds
      · intro before operation after split
        rw [split] at whole
        exact whole.at_prefix.2.1
      · intro _
        rw [Guarded.run_append, final, rest]
      · intro _
        rw [Guarded.run_append, final]
        exact policies
      · intro _
        rw [Guarded.run_append, final]

def handoverDeployment : AccountDeployment where
  sha256 bytes := BytesN.fill (bytes.headD 0)
  address := .contract (BytesN.fill 1)
  infra :=
    { docCompiler := .contract (BytesN.fill 2)
      interpreter := .contract (BytesN.fill 3)
      spendingLimit := .contract (BytesN.fill 4) }
  toXdr value :=
    match value with
    | .bytes bytes => bytes
    | _ => []
  installVal _ := .bytes []
  capVal _ := .bytes []

def underController (byte : UInt8) : Wanted handoverDeployment :=
  Wanted.of handoverDeployment true recoveryName (.callContract handoverDeployment.address) none []
    [(.contract (BytesN.fill byte), .bytes [byte])]

/-- The recovery rule moves to another controller, which is added first. -/
theorem edit_steps_handover :
    EditSteps (underController 5).rule (underController 6)
      (editSteps (underController 5).rule (underController 6).rule (underController 6).params).1
      (editSteps (underController 5).rule (underController 6).rule
        (underController 6).params).2 := by
  apply edit_steps
  exact
    { nonempty := Or.inr (by decide)
      wantedNonempty := Or.inr (by decide)
      distinct := by decide
      wantedDistinct := by decide
      few := by decide
      wantedFew := by decide }

end Perch.Account
