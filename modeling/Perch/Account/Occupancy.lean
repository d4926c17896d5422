/-
How many rules are in place while a document is applied.

Only an added rule takes a place, and reconciliation adds one only once the
record in its slot is gone.  The rules in place are always placed or pending, so
that there are never more of them than desired rules, once the unmatched ones
are removed.
-/

import Perch.Account.Reconcile
import Perch.Account.Watched

namespace Perch.Account

open Machine Document Recovery

variable {σ : Type} {oz : RuleStore σ} {documented : oz.Documented} {i : Interpreting}
  {env : OzEnv} {d : AccountDeployment}

/-- How many rules ever were in place, and which are. -/
def places (apply : Apply (Watched oz i)) : Nat × List UInt32 :=
  (apply.store.1.most, apply.store.1.inPlace)

/-- A computation that takes no place and leaves none. -/
abbrev Unplaced {α : Type} (run : Performs (Watched oz i) α) (apply : Apply (Watched oz i)) : Prop :=
  Meets False (run.run apply) fun reached => places reached.2 = places apply

section Operations

variable {apply : Apply (Watched oz i)}

theorem reconcileSigners_unplaced (rule : InstalledRule) (signers : List Signer) :
    Unplaced ((performer (watched documented i) env).reconcileSigners rule signers) apply := by
  apply Meets.andThen False.elim
  intro store ran
  obtain ⟨_, _, _, _, _, same⟩ := reconcileSigners_eq_ok.mp (keeping_eq_ok.mp ran)
  exact Meets.pure (by simp [places, same])

theorem addPolicy_unplaced (rule : InstalledRule) (policy : Address) (param : Val) :
    Unplaced ((performer (watched documented i) env).addPolicy rule policy param) apply := by
  apply Meets.andThen False.elim
  intro store ran
  obtain ⟨_, _, _, _, _, _, _, same⟩ := addPolicy_eq_ok.mp (keeping_eq_ok.mp ran)
  exact Meets.pure (by simp [places, same])

theorem setValidUntil_unplaced (rule : InstalledRule) (validUntil : Option UInt32) :
    Unplaced ((performer (watched documented i) env).setValidUntil rule validUntil) apply := by
  apply Meets.andThen False.elim
  intro store ran
  obtain ⟨_, _, _, _, _, same⟩ := updateContextRuleValidUntil_eq_ok.mp (keeping_eq_ok.mp ran)
  exact Meets.pure (by simp [places, same])

theorem oz_unplaced {σ : Type} {oz : RuleStore σ} {apply : Apply σ} {id : UInt32} :
    Meets False (Apply.oz oz apply id) fun read => read.2.store = apply.store := by
  unfold Apply.oz
  split
  · exact Meets.pure rfl
  · apply Meets.andThen False.elim
    intro _ _
    exact Meets.pure rfl

theorem removePolicy_unplaced (rule : InstalledRule) (policy : Address) :
    Unplaced ((performer (watched documented i) env).removePolicy rule policy) apply := by
  apply Meets.bind oz_unplaced
  rintro ⟨stored, after⟩ kept
  apply Meets.andThen False.elim
  intro entry _
  apply Meets.andThen False.elim
  intro store ran
  obtain ⟨_, _, _, _, _, _, _, _, _, same⟩ := removePolicy_eq_ok.mp (keeping_eq_ok.mp ran)
  dsimp only at kept
  exact Meets.pure (by simp [places, same, kept])

theorem removeRule_places (rule : InstalledRule) :
    Meets False (((performer (watched documented i) env).removeRule rule).run apply) fun reached =>
      reached.2.store.1.most = apply.store.1.most := by
  apply Meets.andThen False.elim
  intro store ran
  obtain ⟨_, _, _, _, _, _, same⟩ := removeContextRule_eq_ok.mp (keeping_eq_ok.mp ran)
  exact Meets.pure (by simp [same])

theorem addRule_places (rule : InstalledRule) (params : List Val) :
    Meets False (((performer (watched documented i) env).addRule rule params).run apply)
      fun reached => reached.2.store.1.most =
        max apply.store.1.most reached.2.store.1.inPlace.length := by
  apply Meets.andThen False.elim
  rintro ⟨id, store⟩ ran
  obtain ⟨_, _, _, _, _, same⟩ := addContextRule_eq_ok.mp (watched_addContextRule_eq_ok.mp ran)
  exact Meets.pure (by simp [same])

end Operations

/-! ### Edits -/

section Edits

variable {apply : Apply (Watched oz i)}

theorem Unplaced.bind {α β : Type} {first : Performs (Watched oz i) α}
    {next : α → Performs (Watched oz i) β} (head : Unplaced first apply)
    (tail : ∀ value after, Unplaced (next value) after) : Unplaced (first >>= next) apply := by
  apply Meets.bindState _ head
  intro value after kept
  exact (tail value after).imp fun _ same => same.trans kept

theorem Unplaced.loop {α : Type} {action : α → Performs (Watched oz i) PUnit} {items : List α}
    (each : ∀ item after, Unplaced (action item) after) : Unplaced (forM items action) apply :=
  Meets.loop (fun _ after => places after = places apply)
    (fun item _ after kept => (each item after).imp fun _ same => same.trans kept) rfl

theorem removePolicies_unplaced (c : InstalledRule) (removed : List Address) :
    Unplaced (removePolicies (performer (watched documented i) env) c removed) apply :=
  .loop fun policy _ => removePolicy_unplaced c policy

theorem addPolicies_unplaced (c : InstalledRule) (added : List (Address × Val)) :
    Unplaced (addPolicies (performer (watched documented i) env) c added) apply :=
  .loop fun attached _ => addPolicy_unplaced c attached.1 attached.2

theorem swapSigners_unplaced (c wanted : InstalledRule) :
    Unplaced (swapSigners (performer (watched documented i) env) c wanted) apply := by
  unfold swapSigners
  split
  · exact reconcileSigners_unplaced c _
  · exact Meets.pure rfl

theorem editPolicies_unplaced (c wanted : InstalledRule) (params : List Val) (order : EditOrder) :
    Unplaced (editPolicies (performer (watched documented i) env) c wanted params order) apply := by
  cases order with
  | signersFirst =>
      apply (swapSigners_unplaced c wanted).bind
      intro _ _
      apply (removePolicies_unplaced c _).bind
      intro _ _
      exact addPolicies_unplaced c _
  | policiesFirst =>
      apply (removePolicies_unplaced c _).bind
      intro _ _
      apply (addPolicies_unplaced c _).bind
      intro _ _
      exact swapSigners_unplaced c wanted
  | freshFirst =>
      apply (addPolicies_unplaced c _).bind
      intro _ _
      apply (removePolicies_unplaced c _).bind
      intro _ _
      exact addPolicies_unplaced c _

theorem edit_unplaced (c wanted : InstalledRule) (params : List Val) :
    Unplaced (edit (performer (watched documented i) env) c wanted params) apply := by
  unfold edit
  split
  · exact Meets.pure rfl
  · apply (editPolicies_unplaced c wanted params _).bind
    intro _ after
    apply Unplaced.bind ?_ fun _ _ => Meets.pure rfl
    split
    · exact setValidUntil_unplaced c _
    · exact Meets.pure rfl

end Edits

/-! ### A whole reconciliation -/

section Whole

variable {store : Watched oz i} {current : List InstalledRule} {desired rest : List (Wanted d)}
  {placed : List (Placed d)} {apply : Apply (Watched oz i)}

/-- Whatever is decided for a slot, the most rules it leaves are in place at its
end. -/
theorem perform_places (wanted : Wanted d) (decision : Decision) :
    Meets False ((perform (watched documented i) env wanted decision).run apply) fun reached =>
      reached.2.store.1.most ≤
        max apply.store.1.most reached.2.store.1.inPlace.length := by
  cases decision with
  | add =>
      apply Meets.bindState _ (addRule_places _ _)
      intro _ _ added
      exact Meets.pure added.le
  | keep c => exact Meets.pure (le_max_left _ _)
  | inPlace c =>
      apply Meets.bindState _ (edit_unplaced c _ _)
      intro _ after kept
      have most : after.store.1.most = apply.store.1.most := congrArg Prod.fst kept
      exact Meets.pure (most.le.trans (le_max_left _ _))
  | replace c =>
      apply Meets.bindState fun reached => reached.2.store.1.most =
        max apply.store.1.most reached.2.store.1.inPlace.length
      · apply Meets.bindState _ (removeRule_places c)
        intro _ removed most
        dsimp only at most
        exact most ▸ addRule_places _ _
      · intro _ _ added
        exact Meets.pure added.le

/-- Every rule in place was placed or is pending, and every pending record waits
for a desired rule of its own. -/
theorem Progress.occupied
    (matching : Matching (watched documented i) store current desired)
    (progress : Progress (watched documented i) store current placed rest apply) :
    apply.store.1.inPlace.length ≤ placed.length + rest.length := by
  let awaited := current.filter fun c => rest.any fun wanted => c.slot = wanted.rule.slot
  have among : apply.store.1.inPlace ⊆
      placed.map Prod.snd ++ awaited.map InstalledRule.id := by
    intro id present
    rw [apply.store.2.inPlace] at present
    obtain ⟨rule, found⟩ := Option.isSome_iff_exists.mp present
    rw [List.mem_append]
    rcases progress.complete id rule found with done | ⟨c, ⟨held, wanted, asked, same⟩, rfl⟩
    · exact .inl done
    · right
      refine List.mem_map_of_mem (List.mem_filter.mpr ⟨held, ?_⟩)
      exact List.any_eq_true.mpr ⟨wanted, asked, decide_eq_true same⟩
  have fewer : awaited.length ≤ rest.length := by
    have slots : (awaited.map InstalledRule.slot).Nodup :=
      matching.slots.sublist (List.filter_sublist.map _)
    have waited : awaited.map InstalledRule.slot ⊆ rest.map fun wanted => wanted.rule.slot := by
      intro slot listed
      obtain ⟨c, member, rfl⟩ := List.mem_map.mp listed
      obtain ⟨wanted, asked, same⟩ := List.any_eq_true.mp (List.mem_filter.mp member).2
      exact List.mem_map.mpr ⟨wanted, asked, (of_decide_eq_true same).symm⟩
    simpa using (List.subperm_of_subset slots waited).length_le
  have bounded := (List.subperm_of_subset apply.store.2.distinct among).length_le
  rw [List.length_append, List.length_map, List.length_map] at bounded
  omega

theorem performAll_places
    (matching : Matching (watched documented i) store current desired) (infra : InfraPins)
    (mode : Mode) {refs : Refs}
    (progress : Progress (watched documented i) store current placed rest apply)
    (whole : placed.map Prod.fst ++ rest = desired) :
    Meets False ((performAll (watched documented i) env
        (priceRules infra mode current refs rest) rest).run apply) fun reached =>
      reached.2.store.1.most ≤ max apply.store.1.most desired.length := by
  induction rest generalizing placed apply refs with
  | nil => exact Meets.pure (le_max_left _ _)
  | cons wanted rest ih =>
      have asked : wanted ∈ desired := by simp [← whole]
      have early : placed.length < desired.length := by simp [← whole]
      have distinct : ((wanted :: rest).map fun wanted => wanted.rule.slot).Nodup := by
        have slots := matching.wantedSlots
        rw [← whole, List.map_append] at slots
        exact slots.of_append_right
      have steps : Meets (Ready (watched documented i) env store desired) _ _ :=
        perform_meets (watched_documented documented i) matching progress distinct asked early
          (priceRule_fits infra mode current refs wanted)
      apply Meets.bindState fun reached => reached.2.store.1.most ≤
          max apply.store.1.most reached.2.store.1.inPlace.length ∧
        Steps (watched documented i) store current placed wanted rest
          (priceRule infra mode current refs wanted).decision reached
      · refine ⟨fun reached ran => ⟨(perform_places wanted _).sound reached ran, ?_⟩, False.elim⟩
        exact steps.sound reached ran
      · rintro record after ⟨most, id, rfl, progressed, _⟩
        have occupied := progressed.occupied matching
        have size := congrArg List.length whole
        simp only [List.length_append, List.length_map, List.length_cons, List.length_nil]
          at occupied size
        apply Meets.bindState _ (ih progressed (by simp [← whole]))
        intro next final bounded
        refine Meets.pure ?_
        dsimp only at most bounded ⊢
        omega

theorem removeRules_places (gone : List InstalledRule) :
    Meets False ((forM gone (performer (watched documented i) env).removeRule).run apply)
      fun reached => reached.2.store.1.most = apply.store.1.most :=
  Meets.loop (fun _ after => after.store.1.most = apply.store.1.most)
    (fun c _ _ kept => (removeRule_places c).imp fun _ same => same.trans kept) rfl

theorem run_places (matching : Matching (watched documented i) store current desired)
    (infra : InfraPins) (mode : Mode) :
    Meets False ((run (watched documented i) env infra mode current desired).run (.start store))
      fun reached => reached.2.store.1.most ≤ max store.1.most desired.length := by
  have removal : Meets False
      ((forM (unmatched current desired) (performer (watched documented i) env).removeRule).run
        (Apply.start store)) _ :=
    removeRules_meets (watched_documented documented i) False.elim
  apply Meets.bindState fun reached => reached.2.store.1.most = store.1.most ∧
    Progress (watched documented i) store current [] desired reached.2
  · refine ⟨fun reached ran => ⟨(removeRules_places _).sound reached ran, ?_⟩, False.elim⟩
    obtain ⟨removed, counter, cache⟩ := removal.sound reached ran
    exact progress_after_removal matching removed counter cache
  · rintro _ after ⟨most, progress⟩
    dsimp only at most
    exact most ▸ performAll_places matching infra mode progress rfl

/-- While a document is applied, no more rules are in place than it asks for, or
than ever were before. -/
theorem reconcile_places
    (matching : Matching (watched documented i) store current desired) (infra : InfraPins)
    {mode : Mode} (partly : mode ≠ .fullReplace) {records : List InstalledRule}
    {sum : DeltaSummary} {after : Watched oz i}
    (reconciled : reconcile (watched documented i) env infra mode current desired store =
      .ok (records, sum, after)) :
    after.1.most ≤ max store.1.most desired.length := by
  unfold reconcile at reconciled
  rw [if_neg partly] at reconciled
  simp only [bind_eq_ok, pure_eq_ok, Prod.exists, Prod.mk.injEq] at reconciled
  obtain ⟨_, apply, ran, rfl, rfl, rfl⟩ := reconciled
  exact (run_places matching infra mode).sound _ ran

end Whole

end Perch.Account
