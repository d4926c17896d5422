/-
Which policies a reconciliation can be refused by.

The store hands on a policy's refusal only from an `install` it was asked for,
and reconciliation asks for those of the desired rules.  A policy that accepts
its parameters there is never the reason an apply fails.
-/

import Perch.Account.Edit

namespace Perch.Account

open Machine Document Recovery

@[simp] theorem Wanted.attached_of (d : AccountDeployment) (recovery : Bool) (name : SString)
    (contextType : ContextRuleType) (validUntil : Option UInt32) (signers : List Signer)
    (attached : List (Address × Val)) :
    (Wanted.of d recovery name contextType validUntil signers attached).attached = attached := by
  simp only [Wanted.attached, Wanted.of, List.zip_map', List.map_map]
  exact List.map_id attached

section Performing

variable {ε state α β : Type} {bad : ε → Prop}

theorem avoids_bindState {first : StateT state (Except ε) α}
    {next : α → StateT state (Except ε) β} {start : state}
    (head : Avoids bad (first.run start))
    (tail : ∀ value after, Avoids bad ((next value).run after)) :
    Avoids bad ((first >>= next).run start) := by
  rw [StateT.run_bind]
  exact head.bind fun reached _ => tail reached.1 reached.2

theorem avoids_forState {run : α → StateT state (Except ε) Unit} {items : List α}
    (each : ∀ item ∈ items, ∀ start, Avoids bad ((run item).run start)) (start : state) :
    Avoids bad ((forM items run).run start) := by
  induction items generalizing start with
  | nil => exact .pure _
  | cons item rest ih =>
      rw [List.forM_cons]
      apply avoids_bindState (each item List.mem_cons_self start)
      intro _ after
      exact ih (fun later member => each later (List.mem_cons_of_mem _ member)) after

end Performing

/-- If this is the policy, it does not refuse its parameters this way. -/
def OzEnv.Spares (env : OzEnv) (policy : Address) (failure : Failure) (attached : Address × Val) :
    Prop :=
  attached.1 = policy → ∀ rule, env.install attached.1 attached.2 rule ≠ .error failure

section Operations

variable {σ : Type} {oz : RuleStore σ} {env : OzEnv} {d : AccountDeployment} {policy : Address}
  {failure : Failure}

abbrev Refusal (policy : Address) (failure : Failure) (raised : OzFailure) : Prop :=
  raised = .install policy failure

theorem reconcileSigners_avoids (documented : oz.Documented) (rule : InstalledRule)
    (signers : List Signer) (apply : Apply σ) :
    Avoids (Refusal policy failure)
      (((performer oz env).reconcileSigners rule signers).run apply) := by
  refine .bind ?_ fun _ _ => .pure _
  rintro _ raised rfl
  exact documented.reconcileSigners_install raised

theorem removePolicy_avoids (documented : oz.Documented) (rule : InstalledRule)
    (removed : Address) (apply : Apply σ) :
    Avoids (Refusal policy failure)
      (((performer oz env).removePolicy rule removed).run apply) := by
  have read : Avoids (Refusal policy failure) (Apply.oz oz apply rule.id) := by
    unfold Apply.oz
    split
    · exact .pure _
    · exact .bind (.orFail fun _ => by simp) fun _ _ => .pure _
  refine .bind read fun reached _ => .bind (.orFail fun _ => by simp) fun entry _ => ?_
  refine .bind ?_ fun _ _ => .pure _
  rintro _ raised rfl
  exact documented.removePolicy_install raised

theorem setValidUntil_avoids (documented : oz.Documented) (rule : InstalledRule)
    (validUntil : Option UInt32) (apply : Apply σ) :
    Avoids (Refusal policy failure)
      (((performer oz env).setValidUntil rule validUntil).run apply) := by
  refine .bind ?_ fun _ _ => .pure _
  rintro _ raised rfl
  exact documented.updateContextRuleValidUntil_install raised

theorem removeRule_avoids (documented : oz.Documented) (rule : InstalledRule) (apply : Apply σ) :
    Avoids (Refusal policy failure) (((performer oz env).removeRule rule).run apply) := by
  refine .bind ?_ fun _ _ => .pure _
  rintro _ raised rfl
  exact documented.removeContextRule_install raised

theorem addPolicy_avoids (documented : oz.Documented) {attached : Address × Val}
    (spares : env.Spares policy failure attached) (rule : InstalledRule) (apply : Apply σ) :
    Avoids (Refusal policy failure)
      (((performer oz env).addPolicy rule attached.1 attached.2).run apply) := by
  refine .bind ?_ fun _ _ => .pure _
  rintro _ raised rfl
  obtain ⟨same, asked, refused⟩ := documented.addPolicy_install raised
  exact spares same.symm asked refused

theorem addRule_avoids (documented : oz.Documented) {wanted : Wanted d}
    (spares : ∀ attached ∈ wanted.attached, env.Spares policy failure attached)
    (apply : Apply σ) :
    Avoids (Refusal policy failure)
      (((performer oz env).addRule wanted.rule wanted.params).run apply) := by
  refine .bind ?_ fun _ _ => .pure _
  rintro _ raised rfl
  obtain ⟨param, rule, listed, refused⟩ := documented.addContextRule_install raised
  exact spares (policy, param) listed rfl rule refused

theorem addPolicies_avoids (documented : oz.Documented) {added : List (Address × Val)}
    (spares : ∀ attached ∈ added, env.Spares policy failure attached) (c : InstalledRule)
    (apply : Apply σ) :
    Avoids (Refusal policy failure) ((addPolicies (performer oz env) c added).run apply) :=
  avoids_forState (fun _ member => addPolicy_avoids documented (spares _ member) c) apply

theorem removePolicies_avoids (documented : oz.Documented) (removed : List Address)
    (c : InstalledRule) (apply : Apply σ) :
    Avoids (Refusal policy failure) ((removePolicies (performer oz env) c removed).run apply) :=
  avoids_forState (fun _ _ => removePolicy_avoids documented c _) apply

theorem swapSigners_avoids (documented : oz.Documented) (c wanted : InstalledRule)
    (apply : Apply σ) :
    Avoids (Refusal policy failure) ((swapSigners (performer oz env) c wanted).run apply) := by
  unfold swapSigners
  split
  · exact reconcileSigners_avoids documented c _ apply
  · exact .pure _

/-- Every order of an edit adds wanted policies only. -/
theorem editPolicies_avoids (documented : oz.Documented) {wanted : Wanted d}
    (spares : ∀ attached ∈ wanted.attached, env.Spares policy failure attached)
    (c : InstalledRule) (order : EditOrder) (apply : Apply σ) :
    Avoids (Refusal policy failure)
      ((editPolicies (performer oz env) c wanted.rule wanted.params order).run apply) := by
  have added : ∀ attached ∈ (changes c wanted.rule wanted.params).addPolicies,
      env.Spares policy failure attached :=
    fun attached member => spares attached (Diff.added_wanted member)
  cases order with
  | signersFirst =>
      apply avoids_bindState (swapSigners_avoids documented c _ apply)
      intro _ after
      apply avoids_bindState (removePolicies_avoids documented _ c after)
      intro _ last
      exact addPolicies_avoids documented added c last
  | policiesFirst =>
      apply avoids_bindState (removePolicies_avoids documented _ c apply)
      intro _ after
      apply avoids_bindState (addPolicies_avoids documented added c after)
      intro _ last
      exact swapSigners_avoids documented c _ last
  | freshFirst =>
      apply avoids_bindState (addPolicies_avoids documented ?_ c apply)
      · intro _ after
        apply avoids_bindState (removePolicies_avoids documented _ c after)
        intro _ last
        refine addPolicies_avoids documented ?_ c last
        intro attached member
        exact added attached (List.mem_of_mem_filter member)
      · intro attached member
        exact spares attached ((Diff.fresh_sublist c wanted).subset member)

theorem edit_avoids (documented : oz.Documented) {wanted : Wanted d}
    (spares : ∀ attached ∈ wanted.attached, env.Spares policy failure attached)
    (c : InstalledRule) (apply : Apply σ) :
    Avoids (Refusal policy failure)
      ((edit (performer oz env) c wanted.rule wanted.params).run apply) := by
  unfold edit
  split
  · exact .pure _
  · apply avoids_bindState (editPolicies_avoids documented spares c _ apply)
    intro _ after
    apply avoids_bindState ?_ fun _ _ => .pure _
    split
    · exact setValidUntil_avoids documented c _ after
    · exact .pure _

theorem perform_avoids (documented : oz.Documented) {wanted : Wanted d}
    (spares : ∀ attached ∈ wanted.attached, env.Spares policy failure attached)
    (decision : Decision) (apply : Apply σ) :
    Avoids (Refusal policy failure) ((perform oz env wanted decision).run apply) := by
  cases decision with
  | add => exact avoids_bindState (addRule_avoids documented spares apply) fun _ _ => .pure _
  | keep c => exact .pure _
  | inPlace c =>
      apply avoids_bindState (edit_avoids documented spares c apply)
      intro _ after
      exact .pure _
  | replace c =>
      apply avoids_bindState ?_ fun _ _ => .pure _
      apply avoids_bindState (removeRule_avoids documented c apply)
      intro _ after
      exact addRule_avoids documented spares after

end Operations

section Reconciling

variable {σ : Type} {oz : RuleStore σ} {env : OzEnv} {d : AccountDeployment} {policy : Address}
  {failure : Failure} {desired : List (Wanted d)}

theorem performAll_avoids (documented : oz.Documented)
    (spares : ∀ wanted ∈ desired, ∀ attached ∈ wanted.attached,
      env.Spares policy failure attached) (prices : List Priced) (apply : Apply σ) :
    Avoids (Refusal policy failure) ((performAll oz env prices desired).run apply) := by
  induction desired generalizing prices apply with
  | nil =>
      cases prices <;> exact .pure _
  | cons wanted rest ih =>
      cases prices with
      | nil => exact .pure _
      | cons price prices =>
          apply avoids_bindState
            (perform_avoids documented (spares wanted List.mem_cons_self) price.decision apply)
          intro record after
          apply avoids_bindState ?_ fun _ _ => .pure _
          exact ih (fun later member => spares later (List.mem_cons_of_mem _ member)) prices after

theorem addAll_avoids (documented : oz.Documented)
    (spares : ∀ wanted ∈ desired, ∀ attached ∈ wanted.attached,
      env.Spares policy failure attached) (apply : Apply σ) :
    Avoids (Refusal policy failure)
      ((desired.mapM fun wanted => perform oz env wanted .add).run apply) := by
  induction desired generalizing apply with
  | nil => exact .pure _
  | cons wanted rest ih =>
      rw [List.mapM_cons]
      apply avoids_bindState
        (perform_avoids documented (spares wanted List.mem_cons_self) .add apply)
      intro record after
      apply avoids_bindState ?_ fun _ _ => .pure _
      exact ih (fun later member => spares later (List.mem_cons_of_mem _ member)) after

/-- A policy refuses a reconciliation only with what it answers to the
parameters the desired rules give it. -/
theorem reconcile_avoids (documented : oz.Documented)
    (spares : ∀ wanted ∈ desired, ∀ attached ∈ wanted.attached,
      env.Spares policy failure attached) (infra : InfraPins) (mode : Mode)
    (current : List InstalledRule) (store : σ) :
    Avoids (Refusal policy failure) (reconcile oz env infra mode current desired store) := by
  have removed : ∀ (rules : List InstalledRule) (apply : Apply σ),
      Avoids (Refusal policy failure) ((forM rules (performer oz env).removeRule).run apply) :=
    fun rules => avoids_forState fun c _ => removeRule_avoids documented c
  refine .bind ?_ fun _ _ => .pure _
  split
  · apply avoids_bindState (removed current _)
    intro _ after
    exact addAll_avoids documented spares after
  · apply avoids_bindState (removed (unmatched current desired) _)
    intro _ after
    exact performAll_avoids documented spares _ after

end Reconciling

end Perch.Account
