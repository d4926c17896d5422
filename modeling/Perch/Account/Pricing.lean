/-
What a delta costs, against a full replace.

Every operation the meter prices is some writes and a sequence of references
taken and released.  The registry counts are those of the records reached so
far, whichever way a slot was reconciled, so every release finds a reference.
Replacing slot by slot then costs no more than removing everything first, and
the cheapest way of each slot no more than replacing it.
-/

import Perch.Account.EditSteps
import Perch.Account.Reconcile
import Perch.Machine.Refcount

namespace Perch.Account

open Machine Document Recovery

inductive Reference
  | signer (signer : Signer)
  | policy (policy : Address)
deriving DecidableEq

def Refs.counts (refs : Refs) : Reference → Nat
  | .signer signer => refs.signers signer
  | .policy policy => refs.policies policy

theorem Reference.signer_injective : Function.Injective Reference.signer :=
  fun _ _ same => Reference.signer.inj same

theorem Reference.policy_injective : Function.Injective Reference.policy :=
  fun _ _ same => Reference.policy.inj same

theorem Refs.ext_counts {refs refs' : Refs} (same : refs.counts = refs'.counts) : refs = refs' := by
  obtain ⟨signers, policies⟩ := refs
  obtain ⟨signers', policies'⟩ := refs'
  have left : signers = signers' := congrArg (· ∘ Reference.signer) same
  have right : policies = policies' := congrArg (· ∘ Reference.policy) same
  rw [left, right]

/-! ### The meter as a sequence of events -/

namespace Meter

def event (meter : Meter) : RefEvent Reference → Meter
  | .register (.signer signer) => meter.registerSigner signer
  | .register (.policy policy) => meter.registerPolicy policy
  | .deregister (.signer signer) => meter.deregisterSigner signer
  | .deregister (.policy policy) => meter.deregisterPolicy policy

def play (meter : Meter) (events : List (RefEvent Reference)) : Meter := events.foldl event meter

theorem update_signers (refs : Refs) (signer : Signer) (n : Nat) :
    Refs.counts { refs with signers := Function.update refs.signers signer n } =
      Function.update refs.counts (.signer signer) n := by
  funext reference
  cases reference <;> simp [Refs.counts, Function.update_apply]

theorem update_policies (refs : Refs) (policy : Address) (n : Nat) :
    Refs.counts { refs with policies := Function.update refs.policies policy n } =
      Function.update refs.counts (.policy policy) n := by
  funext reference
  cases reference <;> simp [Refs.counts, Function.update_apply]

theorem event_counts (meter : Meter) (e : RefEvent Reference) :
    (meter.event e).refs.counts = e.counted meter.refs.counts := by
  cases e with
  | register reference =>
      cases reference with
      | signer signer => exact update_signers ..
      | policy policy => exact update_policies ..
  | deregister reference =>
      cases reference with
      | signer signer => exact update_signers ..
      | policy policy => exact update_policies ..

theorem event_cost (meter : Meter) (e : RefEvent Reference) :
    (meter.event e).cost =
      ⟨meter.cost.events, meter.cost.writes + e.price meter.refs.counts⟩ := by
  cases e with
  | register reference => cases reference <;> rfl
  | deregister reference => cases reference <;> rfl

theorem event_write (meter : Meter) (writes : Nat) (e : RefEvent Reference) :
    (meter.write writes).event e = (meter.event e).write writes := by
  have cost : ((meter.write writes).event e).cost = ((meter.event e).write writes).cost := by
    rw [event_cost, write, write, event_cost]
    simp only [Cost.mk.injEq, true_and]
    exact Nat.add_right_comm _ _ _
  have refs : ((meter.write writes).event e).refs = ((meter.event e).write writes).refs := by
    apply Refs.ext_counts
    rw [event_counts]
    exact (event_counts meter e).symm
  cases first : (meter.write writes).event e
  cases second : (meter.event e).write writes
  rw [first, second] at cost refs
  exact congr (congrArg Meter.mk refs) cost

@[simp] theorem write_refs (meter : Meter) (writes : Nat) :
    (meter.write writes).refs = meter.refs :=
  rfl

theorem write_write (meter : Meter) (first second : Nat) :
    (meter.write first).write second = meter.write (first + second) := by
  simp only [write, Nat.add_assoc]

theorem play_append (meter : Meter) (first second : List (RefEvent Reference)) :
    meter.play (first ++ second) = (meter.play first).play second := List.foldl_append

theorem play_write (meter : Meter) (writes : Nat) (events : List (RefEvent Reference)) :
    (meter.write writes).play events = (meter.play events).write writes := by
  induction events generalizing meter with
  | nil => rfl
  | cons e rest ih =>
      change ((meter.write writes).event e).play rest = ((meter.event e).play rest).write writes
      rw [event_write, ih]

theorem play_counts (meter : Meter) (events : List (RefEvent Reference)) :
    (meter.play events).refs.counts = Refcount.after meter.refs.counts events := by
  induction events generalizing meter with
  | nil => rfl
  | cons e rest ih =>
      change ((meter.event e).play rest).refs.counts = _
      rw [ih, event_counts, Refcount.after_cons]

theorem play_cost (meter : Meter) (events : List (RefEvent Reference)) :
    (meter.play events).cost =
      ⟨meter.cost.events, meter.cost.writes + Refcount.price meter.refs.counts events⟩ := by
  induction events generalizing meter with
  | nil => rfl
  | cons e rest ih =>
      change ((meter.event e).play rest).cost = _
      rw [ih, event_cost, event_counts, Refcount.price, Nat.add_assoc]

end Meter

/-! ### A meter that stops where a reference is missing -/

def Meter.deregisterSigner? (meter : Meter) (signer : Signer) : Option Meter :=
  if meter.refs.signers signer = 0 then none else some (meter.deregisterSigner signer)

def Meter.deregisterPolicy? (meter : Meter) (policy : Address) : Option Meter :=
  if meter.refs.policies policy = 0 then none else some (meter.deregisterPolicy policy)

/-- Prices as the meter does, but gives up at a deregistration whose count is
zero. -/
def strictMeter (infra : InfraPins) : Effects (StateT Meter Option) where
  reconcileSigners rule signers meter := do
    let meter ← (missing rule.signers signers).foldlM Meter.deregisterSigner? (meter.write 1)
    pure ((), (missing signers rule.signers).foldl Meter.registerSigner meter)
  addPolicy _ policy _ meter :=
    pure ((), Meter.hook infra ((meter.write 1).registerPolicy policy) policy)
  removePolicy _ policy meter := do
    let meter ← (Meter.hook infra (meter.write 1) policy).deregisterPolicy? policy
    pure ((), meter)
  setValidUntil _ _ meter := pure ((), meter.write 1)
  removeRule rule meter := do
    let meter ← rule.policies.foldlM
      (fun meter p => (Meter.hook infra meter p.policy).deregisterPolicy? p.policy) meter
    let meter ← rule.signers.foldlM Meter.deregisterSigner? meter
    pure ((), meter.write 1)
  addRule rule _ meter :=
    let meter := rule.signers.foldl Meter.registerSigner meter
    pure (0, (rule.policies.foldl
      (fun meter p => Meter.hook infra (meter.registerPolicy p.policy) p.policy) meter).write 1)

/-- A program of the meter writes so much and plays these events; where every
release finds a reference, the strict meter does the same. -/
structure Prices {α : Type} (plain : StateM Meter α) (strict : StateT Meter Option α) (result : α)
    (writes : Nat) (events : List (RefEvent Reference)) : Prop where
  plain : ∀ meter, plain.run meter = (result, (meter.write writes).play events)
  strict : ∀ meter, Refcount.Sound meter.refs.counts events →
    strict.run meter = some (result, (meter.write writes).play events)

section Programs

variable {α β : Type}

theorem Prices.pure (result : α) : Prices (pure result) (pure result) result 0 [] where
  plain _ := rfl
  strict _ _ := rfl

theorem Prices.bind {plain : StateM Meter α} {strict : StateT Meter Option α} {first : α}
    {plain' : α → StateM Meter β} {strict' : α → StateT Meter Option β} {second : β}
    {writes writes' : Nat} {events events' : List (RefEvent Reference)}
    (head : Prices plain strict first writes events)
    (tail : Prices (plain' first) (strict' first) second writes' events') :
    Prices (plain >>= plain') (strict >>= strict') second (writes + writes')
      (events ++ events') where
  plain meter := by
    have after := tail.plain ((meter.write writes).play events)
    have before := head.plain meter
    change (plain' (plain.run meter).1).run (plain.run meter).2 = _
    rw [before, after, ← Meter.play_write, ← Meter.play_append, Meter.write_write]
  strict meter sound := by
    obtain ⟨here, later⟩ := (Refcount.sound_append ..).mp sound
    have before := head.strict meter here
    have after := tail.strict ((meter.write writes).play events)
      (by rw [Meter.play_counts]; exact later)
    rw [StateT.run_bind, before]
    change (strict' first).run _ = _
    rw [after, ← Meter.play_write, ← Meter.play_append, Meter.write_write]

theorem Prices.forM {plain : α → StateM Meter Unit} {strict : α → StateT Meter Option Unit}
    {writes : α → Nat} {events : α → List (RefEvent Reference)} (items : List α)
    (each : ∀ item ∈ items, Prices (plain item) (strict item) () (writes item) (events item)) :
    Prices (forM items plain) (forM items strict) () (items.map writes).sum
      (items.flatMap events) := by
  induction items with
  | nil => exact .pure ()
  | cons item rest ih =>
      rw [List.forM_cons, List.forM_cons, List.map_cons, List.sum_cons, List.flatMap_cons]
      apply Prices.bind (each item List.mem_cons_self)
      exact ih fun other member => each other (List.mem_cons_of_mem _ member)

end Programs

/-! ### The operations -/

section Operations

def hookWrites (infra : InfraPins) (policy : Address) : Nat :=
  if policy = infra.spendingLimit ∨ policy = infra.interpreter then 1 else 0

theorem hook_eq (infra : InfraPins) (meter : Meter) (policy : Address) :
    Meter.hook infra meter policy = meter.write (hookWrites infra policy) := by
  unfold Meter.hook hookWrites
  split
  · rfl
  · rfl

theorem registerSigners_play (meter : Meter) (signers : List Signer) :
    signers.foldl Meter.registerSigner meter =
      meter.play (Refcount.take (signers.map Reference.signer)) := by
  rw [Meter.play, Refcount.take, List.map_map, List.foldl_map]
  rfl

theorem deregisterSigners_play (meter : Meter) (signers : List Signer) :
    signers.foldl Meter.deregisterSigner meter =
      meter.play (Refcount.release (signers.map Reference.signer)) := by
  rw [Meter.play, Refcount.release, List.map_map, List.foldl_map]
  rfl

theorem deregisterSigners_strict (meter : Meter) (signers : List Signer)
    (sound : Refcount.Sound meter.refs.counts (Refcount.release (signers.map Reference.signer))) :
    signers.foldlM Meter.deregisterSigner? meter =
      some (meter.play (Refcount.release (signers.map Reference.signer))) := by
  induction signers generalizing meter with
  | nil => rfl
  | cons signer rest ih =>
      obtain ⟨found, sound⟩ := sound
      have here : meter.deregisterSigner? signer = some (meter.deregisterSigner signer) :=
        if_neg (Nat.pos_iff_ne_zero.mp found)
      rw [List.foldlM_cons, here]
      apply ih
      rw [← Meter.event_counts] at sound
      exact sound

theorem deregisterPolicy_strict (meter : Meter) (policy : Address)
    (found : 0 < meter.refs.policies policy) :
    meter.deregisterPolicy? policy = some (meter.deregisterPolicy policy) :=
  if_neg (Nat.pos_iff_ne_zero.mp found)

def policyKeys (policies : List InstalledPolicy) : List Reference :=
  (policies.map InstalledPolicy.policy).map .policy

theorem uninstall_play (infra : InfraPins) (meter : Meter) (policies : List InstalledPolicy) :
    policies.foldl (fun meter p => (Meter.hook infra meter p.policy).deregisterPolicy p.policy)
        meter =
      (meter.write (policies.map fun p => hookWrites infra p.policy).sum).play
        (Refcount.release (policyKeys policies)) := by
  induction policies generalizing meter with
  | nil => rfl
  | cons p rest ih =>
      rw [List.foldl_cons, ih, hook_eq, List.map_cons, List.sum_cons, ← Meter.write_write]
      have moved := Meter.event_write (meter.write (hookWrites infra p.policy))
        (rest.map fun p => hookWrites infra p.policy).sum (.deregister (.policy p.policy))
      exact congrArg (Meter.play · (Refcount.release (policyKeys rest))) moved.symm

theorem install_play (infra : InfraPins) (meter : Meter) (policies : List InstalledPolicy) :
    policies.foldl (fun meter p => Meter.hook infra (meter.registerPolicy p.policy) p.policy)
        meter =
      (meter.write (policies.map fun p => hookWrites infra p.policy).sum).play
        (Refcount.take (policyKeys policies)) := by
  induction policies generalizing meter with
  | nil => rfl
  | cons p rest ih =>
      rw [List.foldl_cons, ih, hook_eq, List.map_cons, List.sum_cons, Meter.write_write]
      have moved := Meter.event_write meter
        (hookWrites infra p.policy + (rest.map fun p => hookWrites infra p.policy).sum)
        (.register (.policy p.policy))
      exact congrArg (Meter.play · (Refcount.take (policyKeys rest))) moved.symm

theorem uninstall_strict (infra : InfraPins) (meter : Meter) (policies : List InstalledPolicy)
    (sound : Refcount.Sound meter.refs.counts (Refcount.release (policyKeys policies))) :
    policies.foldlM (fun meter p => (Meter.hook infra meter p.policy).deregisterPolicy? p.policy)
        meter =
      some ((meter.write (policies.map fun p => hookWrites infra p.policy).sum).play
        (Refcount.release (policyKeys policies))) := by
  rw [← uninstall_play]
  induction policies generalizing meter with
  | nil => rfl
  | cons p rest ih =>
      obtain ⟨found, sound⟩ := sound
      have here := deregisterPolicy_strict (meter.write (hookWrites infra p.policy)) p.policy found
      rw [List.foldlM_cons, hook_eq, here, List.foldl_cons, hook_eq]
      apply ih
      rw [← Meter.event_counts] at sound
      exact sound

/-- The references a rule holds, in the order its removal releases them. -/
def InstalledRule.keys (rule : InstalledRule) : List Reference :=
  policyKeys rule.policies ++ rule.signers.map .signer

/-- The same references, in the order its addition takes them. -/
def InstalledRule.gains (rule : InstalledRule) : List Reference :=
  rule.signers.map .signer ++ policyKeys rule.policies

def ruleWrites (infra : InfraPins) (rule : InstalledRule) : Nat :=
  (rule.policies.map fun p => hookWrites infra p.policy).sum + 1

theorem removeRule_prices (infra : InfraPins) (rule : InstalledRule) :
    Prices ((meter infra).removeRule rule) ((strictMeter infra).removeRule rule) ()
      (ruleWrites infra rule) (Refcount.release rule.keys) where
  plain meter := by
    change ((), (rule.signers.foldl Meter.deregisterSigner
      (rule.policies.foldl (fun meter p =>
          (Meter.hook infra meter p.policy).deregisterPolicy p.policy)
        meter)).write 1) = _
    rw [uninstall_play, deregisterSigners_play, ← Meter.play_append, ← Refcount.release_append,
      ← Meter.play_write, Meter.write_write]
    rfl
  strict meter sound := by
    rw [InstalledRule.keys, Refcount.release_append] at sound
    obtain ⟨policies, signers⟩ := (Refcount.sound_append ..).mp sound
    have first := uninstall_strict infra meter rule.policies policies
    have second := deregisterSigners_strict
      ((meter.write (rule.policies.map fun p => hookWrites infra p.policy).sum).play
        (Refcount.release (policyKeys rule.policies))) rule.signers
      (by rw [Meter.play_counts, Meter.write_refs]; exact signers)
    change Option.bind (rule.policies.foldlM (fun meter p =>
        (Meter.hook infra meter p.policy).deregisterPolicy? p.policy) meter) (fun meter =>
      Option.bind (rule.signers.foldlM Meter.deregisterSigner? meter) fun meter =>
        some ((), meter.write 1)) = _
    rw [first, Option.bind_some, second, Option.bind_some, ← Meter.play_append,
      ← Refcount.release_append, ← Meter.play_write, Meter.write_write]
    rfl

theorem addRule_prices (infra : InfraPins) (rule : InstalledRule) (params : List Val) :
    Prices ((meter infra).addRule rule params) ((strictMeter infra).addRule rule params) 0
      (ruleWrites infra rule) (Refcount.take rule.gains) := by
  have added (meter : Meter) : (rule.policies.foldl
      (fun meter p => Meter.hook infra (meter.registerPolicy p.policy) p.policy)
      (rule.signers.foldl Meter.registerSigner meter)).write 1 =
        (meter.write (ruleWrites infra rule)).play (Refcount.take rule.gains) := by
    rw [install_play, registerSigners_play, Meter.play_write, Meter.write_write,
      ← Meter.play_append, ← Refcount.take_append, ← Meter.play_write]
    rfl
  exact
    { plain := fun meter => congrArg (Prod.mk 0) (added meter)
      strict := fun meter _ => congrArg (fun after => some (0, after)) (added meter) }

theorem setValidUntil_prices (infra : InfraPins) (rule : InstalledRule)
    (validUntil : Option UInt32) :
    Prices ((meter infra).setValidUntil rule validUntil)
      ((strictMeter infra).setValidUntil rule validUntil) () 1 [] where
  plain _ := rfl
  strict _ _ := rfl

theorem addPolicy_prices (infra : InfraPins) (rule : InstalledRule) (policy : Address)
    (param : Val) :
    Prices ((meter infra).addPolicy rule policy param)
      ((strictMeter infra).addPolicy rule policy param) () (1 + hookWrites infra policy)
      (Refcount.take [.policy policy]) := by
  have added (meter : Meter) : Meter.hook infra ((meter.write 1).registerPolicy policy) policy =
      (meter.write (1 + hookWrites infra policy)).play (Refcount.take [.policy policy]) := by
    rw [hook_eq, ← Meter.write_write, Meter.play_write]
    rfl
  exact
    { plain := fun meter => congrArg (Prod.mk ()) (added meter)
      strict := fun meter _ => congrArg (fun after => some ((), after)) (added meter) }

theorem removePolicy_prices (infra : InfraPins) (rule : InstalledRule) (policy : Address) :
    Prices ((meter infra).removePolicy rule policy) ((strictMeter infra).removePolicy rule policy)
      () (1 + hookWrites infra policy) (Refcount.release [.policy policy]) := by
  have hooked (meter : Meter) : Meter.hook infra (meter.write 1) policy =
      meter.write (1 + hookWrites infra policy) := by
    rw [hook_eq, Meter.write_write]
  refine { plain := ?_, strict := ?_ }
  · intro meter
    change ((), (Meter.hook infra (meter.write 1) policy).deregisterPolicy policy) = _
    rw [hooked]
    rfl
  · intro meter sound
    have here := deregisterPolicy_strict (meter.write (1 + hookWrites infra policy)) policy sound.1
    change ((Meter.hook infra (meter.write 1) policy).deregisterPolicy? policy).bind _ = _
    rw [hooked, here]
    rfl

theorem reconcileSigners_prices (infra : InfraPins) (rule : InstalledRule)
    (signers : List Signer) :
    Prices ((meter infra).reconcileSigners rule signers)
      ((strictMeter infra).reconcileSigners rule signers) () 1
      (Refcount.release ((missing rule.signers signers).map .signer) ++
        Refcount.take ((missing signers rule.signers).map .signer)) where
  plain meter := by
    change ((), (missing signers rule.signers).foldl Meter.registerSigner
      ((missing rule.signers signers).foldl Meter.deregisterSigner (meter.write 1))) = _
    rw [deregisterSigners_play, registerSigners_play, ← Meter.play_append]
  strict meter sound := by
    obtain ⟨leaving, _⟩ := (Refcount.sound_append ..).mp sound
    have first := deregisterSigners_strict (meter.write 1) _ leaving
    change (((missing rule.signers signers).foldlM Meter.deregisterSigner? (meter.write 1)).bind
      fun meter => some ((), (missing signers rule.signers).foldl Meter.registerSigner meter)) = _
    rw [first, Option.bind_some, registerSigners_play, ← Meter.play_append]

theorem replace_prices (infra : InfraPins) (c d : InstalledRule) (params : List Val) :
    Prices (replace (meter infra) c d params) (replace (strictMeter infra) c d params) 0
      (ruleWrites infra c + ruleWrites infra d)
      (Refcount.release c.keys ++ Refcount.take d.gains) :=
  (removeRule_prices infra c).bind (addRule_prices infra d params)

end Operations

/-! ### An edit -/

section Edits

variable {d : AccountDeployment}

theorem removePolicies_prices (infra : InfraPins) (c : InstalledRule) (policies : List Address) :
    ∃ writes, Prices (removePolicies (meter infra) c policies)
      (removePolicies (strictMeter infra) c policies) () writes
      (Refcount.release (policies.map .policy)) := by
  have priced := Prices.forM policies fun policy _ => removePolicy_prices infra c policy
  have events : policies.flatMap (fun policy => Refcount.release [Reference.policy policy]) =
      Refcount.release (policies.map Reference.policy) := by
    rw [Refcount.release, List.map_map]
    exact List.map_eq_flatMap.symm
  rw [events] at priced
  exact ⟨_, priced⟩

theorem addPolicies_prices (infra : InfraPins) (c : InstalledRule)
    (policies : List (Address × Val)) :
    ∃ writes, Prices (addPolicies (meter infra) c policies)
      (addPolicies (strictMeter infra) c policies) () writes
      (Refcount.take ((policies.map Prod.fst).map .policy)) := by
  have priced := Prices.forM policies fun attached _ =>
    addPolicy_prices infra c attached.1 attached.2
  have events : policies.flatMap (fun attached => Refcount.take [Reference.policy attached.1]) =
      Refcount.take ((policies.map Prod.fst).map Reference.policy) := by
    rw [Refcount.take, List.map_map, List.map_map]
    exact List.map_eq_flatMap.symm
  rw [events] at priced
  exact ⟨_, priced⟩

def swapEvents (c d : InstalledRule) : List (RefEvent Reference) :=
  Refcount.release ((missing c.signers d.signers).map .signer) ++
    Refcount.take ((missing d.signers c.signers).map .signer)

theorem missing_self (signers : List Signer) : missing signers signers = [] := by
  rw [missing, List.filter_eq_nil_iff]
  intro signer member
  simpa using member

theorem swapSigners_prices (infra : InfraPins) (c d : InstalledRule) :
    ∃ writes, Prices (swapSigners (meter infra) c d) (swapSigners (strictMeter infra) c d) ()
      writes (swapEvents c d) := by
  by_cases same : c.signers = d.signers
  · refine ⟨0, ?_⟩
    have nothing : swapEvents c d = [] := by
      rw [swapEvents, same, missing_self]
      rfl
    rw [swapSigners, swapSigners, if_neg (not_not.mpr same), if_neg (not_not.mpr same), nothing]
    exact .pure ()
  · refine ⟨1, ?_⟩
    rw [swapSigners, swapSigners, if_pos same, if_pos same]
    exact reconcileSigners_prices infra c d.signers

/-- The references an edit releases and takes, in its order. -/
def editEvents (c d : InstalledRule) (changes : Changes) : EditOrder → List (RefEvent Reference)
  | .signersFirst =>
      swapEvents c d ++
        (Refcount.release (changes.removePolicies.map .policy) ++
          Refcount.take ((changes.addPolicies.map Prod.fst).map .policy))
  | .policiesFirst =>
      Refcount.release (changes.removePolicies.map .policy) ++
        (Refcount.take ((changes.addPolicies.map Prod.fst).map .policy) ++
          swapEvents c d)
  | .freshFirst =>
      Refcount.take ((changes.fresh.map Prod.fst).map .policy) ++
        (Refcount.release (changes.removePolicies.map .policy) ++
          Refcount.take ((changes.readded.map Prod.fst).map .policy))

theorem editPolicies_prices (infra : InfraPins) (c d : InstalledRule) (params : List Val)
    (order : EditOrder) :
    ∃ writes, Prices (editPolicies (meter infra) c d params order)
      (editPolicies (strictMeter infra) c d params order) () writes
      (editEvents c d (changes c d params) order) := by
  obtain ⟨_, swapped⟩ := swapSigners_prices infra c d
  obtain ⟨_, removed⟩ := removePolicies_prices infra c (changes c d params).removePolicies
  obtain ⟨_, added⟩ := addPolicies_prices infra c (changes c d params).addPolicies
  cases order with
  | signersFirst => exact ⟨_, swapped.bind (removed.bind added)⟩
  | policiesFirst => exact ⟨_, removed.bind (added.bind swapped)⟩
  | freshFirst =>
      obtain ⟨_, fresh⟩ := addPolicies_prices infra c (changes c d params).fresh
      obtain ⟨_, readded⟩ := addPolicies_prices infra c (changes c d params).readded
      exact ⟨_, fresh.bind (removed.bind readded)⟩

theorem setExpiry_prices (infra : InfraPins) (c d : InstalledRule) :
    ∃ writes, Prices
      (if c.validUntil ≠ d.validUntil then (meter infra).setValidUntil c d.validUntil else pure ())
      (if c.validUntil ≠ d.validUntil then (strictMeter infra).setValidUntil c d.validUntil
        else pure ()) () writes [] := by
  split
  · exact ⟨1, setValidUntil_prices infra c d.validUntil⟩
  · exact ⟨0, .pure ()⟩

theorem edit_prices (infra : InfraPins) (c d : InstalledRule) (params : List Val) :
    ∃ writes, Prices (edit (meter infra) c d params) (edit (strictMeter infra) c d params)
      (editOrder c d params).isSome writes
      (((editOrder c d params).map (editEvents c d (changes c d params))).getD []) := by
  unfold edit
  cases editOrder c d params with
  | none => exact ⟨0, .pure false⟩
  | some order =>
      obtain ⟨writes, policies⟩ := editPolicies_prices infra c d params order
      obtain ⟨last, expired⟩ := setExpiry_prices infra c d
      refine ⟨writes + (last + 0), ?_⟩
      change Prices _ _ true _ (editEvents c d (changes c d params) order)
      rw [← List.append_nil (editEvents c d (changes c d params) order)]
      refine Prices.bind policies ?_
      exact Prices.bind expired (.pure true)

end Edits

/-! ### Counts and records -/

structure InstalledRule.Distinct (rule : InstalledRule) : Prop where
  signers : rule.signers.Nodup
  policies : rule.addresses.Nodup

@[simp] theorem count_signer (signers : List Signer) (signer : Signer) :
    (signers.map Reference.signer).count (.signer signer) = signers.count signer :=
  List.count_map_of_injective _ _ Reference.signer_injective _

@[simp] theorem count_policy (policies : List Address) (policy : Address) :
    (policies.map Reference.policy).count (.policy policy) = policies.count policy :=
  List.count_map_of_injective _ _ Reference.policy_injective _

@[simp] theorem count_signer_policies (policies : List Address) (signer : Signer) :
    (policies.map Reference.policy).count (.signer signer) = 0 := by
  rw [List.count_eq_zero]
  simp

@[simp] theorem count_policy_signers (signers : List Signer) (policy : Address) :
    (signers.map Reference.signer).count (.policy policy) = 0 := by
  rw [List.count_eq_zero]
  simp

theorem keys_count_signer (rule : InstalledRule) (signer : Signer) :
    rule.keys.count (.signer signer) = rule.signers.count signer := by
  rw [InstalledRule.keys, policyKeys, List.count_append, count_signer_policies, count_signer,
    Nat.zero_add]

theorem keys_count_policy (rule : InstalledRule) (policy : Address) :
    rule.keys.count (.policy policy) = rule.addresses.count policy := by
  rw [InstalledRule.keys, policyKeys, List.count_append, count_policy_signers, count_policy,
    Nat.add_zero]
  rfl

theorem gains_perm (rule : InstalledRule) : rule.gains.Perm rule.keys := List.perm_append_comm

theorem counts_of (rules : List InstalledRule) (key : Reference) :
    (Refs.of rules).counts key = (rules.flatMap InstalledRule.keys).count key := by
  induction rules with
  | nil => cases key <;> rfl
  | cons rule rest ih =>
      rw [List.flatMap_cons, List.count_append, ← ih]
      cases key with
      | signer signer =>
          rw [keys_count_signer]
          rfl
      | policy policy =>
          rw [keys_count_policy]
          rfl

theorem counts_of_cons (rule : InstalledRule) (rest : List InstalledRule) (key : Reference) :
    (Refs.of (rule :: rest)).counts key = rule.keys.count key + (Refs.of rest).counts key := by
  rw [counts_of, counts_of, List.flatMap_cons, List.count_append]

theorem refs_of_perm {rules rules' : List InstalledRule} (same : rules.Perm rules') :
    Refs.of rules = Refs.of rules' := by
  apply Refs.ext_counts
  funext key
  rw [counts_of, counts_of]
  exact (same.flatMap_right _).count_eq key

section Balance

variable {d : AccountDeployment} {c : InstalledRule} {wanted : Wanted d}

/-- What leaves one signer list and what joins it account for the difference. -/
theorem missing_balance {left right : List Signer} (distinct : left.Nodup)
    (distinct' : right.Nodup) (signer : Signer) :
    (missing left right).count signer + right.count signer =
      (missing right left).count signer + left.count signer := by
  have leaving : (missing left right).Nodup := distinct.filter _
  have joining : (missing right left).Nodup := distinct'.filter _
  rw [leaving.count, joining.count, distinct.count, distinct'.count]
  by_cases inLeft : signer ∈ left <;> by_cases inRight : signer ∈ right <;>
    simp [missing, inLeft, inRight]

/-- What leaves a rule's policies and what joins them account for the
difference. -/
theorem policies_balance (distinct : c.addresses.Nodup)
    (wantedDistinct : wanted.rule.addresses.Nodup) (policy : Address) :
    (changes c wanted.rule wanted.params).removePolicies.count policy +
        wanted.rule.addresses.count policy =
      ((changes c wanted.rule wanted.params).addPolicies.map Prod.fst).count policy +
        c.addresses.count policy := by
  have merged := ((merged_policies distinct wantedDistinct).map
    InstalledPolicy.policy).count_eq policy
  have parts : ((stays c (changes c wanted.rule wanted.params)).map InstalledPolicy.policy ++
      (changes c wanted.rule wanted.params).removePolicies).Perm c.addresses := by
    have gone : c.policies.filter (fun p => p ∉ wanted.rule.policies) =
        c.policies.filter fun p =>
          !decide (p.policy ∉ (changes c wanted.rule wanted.params).removePolicies) := by
      apply List.filter_congr
      intro p held
      rw [decide_eq_decide.mpr (kept_policy_iff distinct held), decide_not]
    change ((stays c _).map InstalledPolicy.policy ++
      (c.policies.filter fun p => p ∉ wanted.rule.policies).map InstalledPolicy.policy).Perm _
    rw [gone, ← List.map_append]
    exact (List.filter_append_perm _ _).map _
  have counted := parts.count_eq policy
  rw [List.map_append, List.map_map, List.count_append] at merged
  rw [List.count_append] at counted
  change (List.map InstalledPolicy.policy (stays c _)).count policy +
    ((changes c wanted.rule wanted.params).addPolicies.map Prod.fst).count policy =
      wanted.rule.addresses.count policy at merged
  omega

theorem released_edit {order : EditOrder}
    (chosen : editOrder c wanted.rule wanted.params = some order) :
    (Refcount.released (editEvents c wanted.rule (changes c wanted.rule wanted.params)
      order)).Perm ((missing c.signers wanted.rule.signers).map .signer ++
        (changes c wanted.rule wanted.params).removePolicies.map .policy) := by
  cases order with
  | signersFirst => simp [editEvents, swapEvents]
  | policiesFirst =>
      simp only [editEvents, swapEvents, Refcount.released_append, Refcount.released_release,
        Refcount.released_take, List.append_nil, List.nil_append]
      exact List.perm_append_comm
  | freshFirst =>
      have unsigned : c.signers = [] := by
        unfold editOrder at chosen
        split at chosen
        · cases chosen
        · split at chosen
          · cases chosen
          next alone => exact not_not.mp (not_or.mp alone).1
      simp [editEvents, missing, unsigned]

theorem taken_edit {order : EditOrder}
    (chosen : editOrder c wanted.rule wanted.params = some order) :
    (Refcount.taken (editEvents c wanted.rule (changes c wanted.rule wanted.params)
      order)).Perm ((missing wanted.rule.signers c.signers).map .signer ++
        ((changes c wanted.rule wanted.params).addPolicies.map Prod.fst).map .policy) := by
  cases order with
  | signersFirst => simp [editEvents, swapEvents]
  | policiesFirst =>
      simp only [editEvents, swapEvents, Refcount.taken_append, Refcount.taken_release,
        Refcount.taken_take, List.nil_append]
      exact List.perm_append_comm
  | freshFirst =>
      have unsigned : wanted.rule.signers = [] := by
        unfold editOrder at chosen
        split at chosen
        · cases chosen
        next unsigned => exact not_not.mp unsigned
      have all := ((fresh_readded c wanted).map Prod.fst).map Reference.policy
      rw [List.map_append, List.map_append] at all
      simpa only [editEvents, missing, unsigned, List.filter_nil, List.map_nil, List.nil_append,
        Refcount.taken_append, Refcount.taken_release, Refcount.taken_take] using all

theorem covers_keys (rule : InstalledRule) (others : List InstalledRule) :
    Refcount.Covers (Refs.of (rule :: others)).counts rule.keys := by
  intro key
  rw [counts_of_cons]
  exact Nat.le_add_right _ _

/-- An edit releases what the record holds, and leaves the counts of the records
with the desired rule in its place. -/
theorem edit_counts {order : EditOrder} (distinct : c.Distinct)
    (wantedDistinct : wanted.rule.Distinct)
    (chosen : editOrder c wanted.rule wanted.params = some order) (others : List InstalledRule) :
    let events := editEvents c wanted.rule (changes c wanted.rule wanted.params) order
    Refcount.Sound (Refs.of (c :: others)).counts events ∧
      Refcount.after (Refs.of (c :: others)).counts events =
        (Refs.of (wanted.rule :: others)).counts := by
  intro events
  have released := released_edit chosen
  have taken := taken_edit chosen
  have held (key : Reference) : (Refcount.released events).count key ≤ c.keys.count key := by
    rw [released.count_eq key, List.count_append]
    cases key with
    | signer signer =>
        rw [keys_count_signer, count_signer, count_signer_policies, Nat.add_zero]
        exact List.filter_sublist.count_le signer
    | policy policy =>
        rw [keys_count_policy, count_policy, count_policy_signers, Nat.zero_add]
        exact (List.filter_sublist.map _).count_le policy
  have sound : Refcount.Sound (Refs.of (c :: others)).counts events := by
    apply Refcount.sound_of_covers
    intro key
    exact (held key).trans (covers_keys c others key)
  refine ⟨sound, ?_⟩
  funext key
  have balance := Refcount.after_balance sound key
  rw [released.count_eq key, taken.count_eq key, List.count_append, List.count_append,
    counts_of_cons] at balance
  rw [counts_of_cons]
  cases key with
  | signer signer =>
      have signers := missing_balance distinct.signers wantedDistinct.signers signer
      rw [count_signer, count_signer, count_signer_policies, count_signer_policies,
        keys_count_signer] at balance
      rw [keys_count_signer]
      omega
  | policy policy =>
      have policies := policies_balance distinct.policies wantedDistinct.policies policy
      rw [count_policy, count_policy, count_policy_signers, count_policy_signers,
        keys_count_policy] at balance
      rw [keys_count_policy]
      omega

theorem remove_counts (c : InstalledRule) (others : List InstalledRule) :
    Refcount.Sound (Refs.of (c :: others)).counts (Refcount.release c.keys) ∧
      Refcount.after (Refs.of (c :: others)).counts (Refcount.release c.keys) =
        (Refs.of others).counts := by
  constructor
  · apply Refcount.sound_of_covers
    rw [Refcount.released_release]
    exact covers_keys c others
  · funext key
    have left := Refcount.after_release (covers_keys c others) key
    rw [counts_of_cons] at left
    omega

theorem add_counts (rule : InstalledRule) (others : List InstalledRule) :
    Refcount.after (Refs.of others).counts (Refcount.take rule.gains) =
      (Refs.of (rule :: others)).counts := by
  funext key
  rw [Refcount.after_take, counts_of_cons, (gains_perm rule).count_eq, Nat.add_comm]

theorem replace_counts (c rule : InstalledRule) (others : List InstalledRule) :
    Refcount.Sound (Refs.of (c :: others)).counts
        (Refcount.release c.keys ++ Refcount.take rule.gains) ∧
      Refcount.after (Refs.of (c :: others)).counts
        (Refcount.release c.keys ++ Refcount.take rule.gains) =
        (Refs.of (rule :: others)).counts := by
  obtain ⟨sound, removed⟩ := remove_counts c others
  constructor
  · apply (Refcount.sound_append ..).mpr
    refine ⟨sound, ?_⟩
    apply Refcount.sound_of_covers
    rw [Refcount.released_take]
    intro key
    exact Nat.zero_le _
  · rw [Refcount.after_append, removed, add_counts]

theorem keep_refs (distinct : c.Distinct) (wantedDistinct : wanted.rule.Distinct)
    (same : unchanged c wanted.rule = true) (others : List InstalledRule) :
    Refs.of (c :: others) = Refs.of (wanted.rule :: others) := by
  simp only [unchanged, Bool.and_eq_true, decide_eq_true_eq, List.all_eq_true] at same
  obtain ⟨⟨⟨signers, forward⟩, backward⟩, _⟩ := same
  have policies : c.policies.Perm wanted.rule.policies := by
    rw [List.perm_ext_iff_of_nodup (distinct.policies.of_map _) (wantedDistinct.policies.of_map _)]
    intro p
    exact ⟨forward p, backward p⟩
  have keys : c.keys.Perm wanted.rule.keys := by
    rw [InstalledRule.keys, InstalledRule.keys, signers]
    exact ((policies.map _).map _).append_right _
  apply Refs.ext_counts
  funext key
  rw [counts_of_cons, counts_of_cons, keys.count_eq]

end Balance

/-! ### The price of one slot -/

section Slots

variable {d : AccountDeployment}

/-- What a program of the meter comes to, from some counts. -/
theorem Prices.refs {α : Type} {plain : StateM Meter α} {strict : StateT Meter Option α}
    {result : α}
    {writes : Nat} {events : List (RefEvent Reference)}
    (prices : Prices plain strict result writes events) {refs refs' : Refs}
    (reached : Refcount.after refs.counts events = refs'.counts) :
    (plain.run (.new refs)).2.refs = refs' := by
  rw [prices.plain]
  apply Refs.ext_counts
  rw [Meter.play_counts]
  exact reached

theorem Prices.cost {α : Type} {plain : StateM Meter α} {strict : StateT Meter Option α}
    {result : α}
    {writes : Nat} {events : List (RefEvent Reference)}
    (prices : Prices plain strict result writes events) (refs : Refs) :
    (plain.run (.new refs)).2.cost = ⟨0, writes + Refcount.price refs.counts events⟩ := by
  rw [prices.plain, Meter.play_cost]
  simp [Meter.write, Meter.new, Cost.zero]

theorem Prices.agrees {α : Type} {plain : StateM Meter α} {strict : StateT Meter Option α}
    {result : α} {writes : Nat} {events : List (RefEvent Reference)}
    (prices : Prices plain strict result writes events) {refs : Refs}
    (sound : Refcount.Sound refs.counts events) :
    strict.run (.new refs) = some (plain.run (.new refs)) := by
  rw [prices.plain]
  exact prices.strict _ sound

/-- What replacing a slot releases and takes: nothing is released where there
is no record. -/
def block (current : List InstalledRule) (wanted : Wanted d) : List Reference × List Reference :=
  ((current.find? fun c => c.sameSlot wanted.rule).elim [] InstalledRule.keys, wanted.rule.gains)

def blockWrites (infra : InfraPins) (current : List InstalledRule) (wanted : Wanted d) : Nat :=
  (current.find? fun c => c.sameSlot wanted.rule).elim 0 (ruleWrites infra) +
    ruleWrites infra wanted.rule

def blockEvents (current : List InstalledRule) (wanted : Wanted d) : List (RefEvent Reference) :=
  Refcount.release (block current wanted).1 ++ Refcount.take (block current wanted).2

variable {c : InstalledRule} {wanted : Wanted d} {others : List InstalledRule}

theorem priceChanged_refs (infra : InfraPins) (mode : Mode) (distinct : c.Distinct)
    (wantedDistinct : wanted.rule.Distinct) :
    (priceChanged infra mode (Refs.of (c :: others)) c wanted).refs =
      Refs.of (wanted.rule :: others) := by
  unfold priceChanged
  simp only
  split
  next chosen =>
    rw [Bool.and_eq_true, edit_meter_fst] at chosen
    obtain ⟨writes, priced⟩ := edit_prices infra c wanted.rule wanted.params
    obtain ⟨order, ordered⟩ := Option.isSome_iff_exists.mp chosen.1
    rw [ordered] at priced
    exact priced.refs (edit_counts distinct wantedDistinct ordered others).2
  next => exact (replace_prices infra c wanted.rule wanted.params).refs (replace_counts ..).2

theorem priceChanged_cost (infra : InfraPins) (refs : Refs) (c : InstalledRule)
    (wanted : Wanted d) :
    (priceChanged infra .cheapest refs c wanted).cost.events = 0 ∧
      (priceChanged infra .cheapest refs c wanted).cost.writes ≤
        ruleWrites infra c + ruleWrites infra wanted.rule +
          Refcount.price refs.counts
            (Refcount.release c.keys ++ Refcount.take wanted.rule.gains) := by
  have replaced := (replace_prices infra c wanted.rule wanted.params).cost refs
  obtain ⟨writes, priced⟩ := edit_prices infra c wanted.rule wanted.params
  have edited := priced.cost refs
  unfold priceChanged
  simp only
  split
  next chosen =>
    have cheaper := (Bool.and_eq_true _ _ ▸ chosen).2
    simp only [StateT.run, Id.run] at edited replaced cheaper ⊢
    simp only [prefersEdit, Cost.le, edited, replaced, Nat.lt_irrefl, decide_false,
      Bool.false_or, decide_true, Bool.true_and, decide_eq_true_eq] at cheaper ⊢
    exact ⟨trivial, cheaper⟩
  next =>
    simp only [StateT.run, Id.run] at replaced ⊢
    rw [replaced]
    exact ⟨rfl, Nat.le_refl _⟩

theorem priceRule_cost (infra : InfraPins) (current : List InstalledRule) (refs : Refs)
    (wanted : Wanted d) :
    (priceRule infra .cheapest current refs wanted).cost.events = 0 ∧
      (priceRule infra .cheapest current refs wanted).cost.writes ≤
        blockWrites infra current wanted +
          Refcount.price refs.counts (blockEvents current wanted) := by
  unfold priceRule blockWrites blockEvents block
  cases current.find? fun c => c.sameSlot wanted.rule with
  | none =>
      have added := (addRule_prices infra wanted.rule wanted.params).cost refs
      simp only [StateT.run, Id.run] at added ⊢
      rw [added]
      refine ⟨rfl, ?_⟩
      simp [Refcount.release]
  | some c =>
      simp only [Option.elim_some]
      split
      · exact ⟨rfl, Nat.zero_le _⟩
      · exact priceChanged_cost infra refs c wanted

end Slots

/-! ### The records reached -/

section Pending

variable {d : AccountDeployment} {current : List InstalledRule}

def unprocessed (current : List InstalledRule) (rest : List (Wanted d)) : List InstalledRule :=
  current.filter fun c => rest.any fun wanted => c.sameSlot wanted.rule

theorem unprocessed_nil : unprocessed current ([] : List (Wanted d)) = [] := by
  simp [unprocessed]

theorem unprocessed_of_none {wanted : Wanted d} {rest : List (Wanted d)}
    (unmatched : (current.find? fun c => c.sameSlot wanted.rule) = none) :
    unprocessed current (wanted :: rest) = unprocessed current rest := by
  apply List.filter_congr
  intro c held
  have other := List.find?_eq_none.mp unmatched c held
  rw [List.any_cons, Bool.eq_false_iff.mpr other, Bool.false_or]

theorem unprocessed_of_some {wanted : Wanted d} {rest : List (Wanted d)} {c : InstalledRule}
    (slots : (current.map InstalledRule.slot).Nodup)
    (wantedSlots : ((wanted :: rest).map fun wanted => wanted.rule.slot).Nodup)
    (found : (current.find? fun c => c.sameSlot wanted.rule) = some c) :
    (unprocessed current (wanted :: rest)).Perm (c :: unprocessed current rest) := by
  have held : c ∈ current := List.mem_of_find?_eq_some found
  have matched : c.slot = wanted.rule.slot := by
    have satisfied := List.find?_some found
    exact sameSlot_iff.mp satisfied
  have distinct : current.Nodup := slots.of_map _
  obtain ⟨once, _⟩ := List.nodup_cons.mp wantedSlots
  have later : c ∉ unprocessed current rest := by
    intro again
    obtain ⟨other, member, same⟩ := List.any_eq_true.mp (List.mem_filter.mp again).2
    have slot := sameSlot_iff.mp same
    rw [matched] at slot
    exact once (List.mem_map.mpr ⟨other, member, slot.symm⟩)
  have apart : (unprocessed current (wanted :: rest)).Nodup := distinct.filter _
  rw [List.perm_ext_iff_of_nodup apart (List.nodup_cons.mpr ⟨later, distinct.filter _⟩)]
  intro other
  simp only [unprocessed, List.mem_filter, List.any_cons, Bool.or_eq_true, List.mem_cons]
  constructor
  · rintro ⟨otherHeld, here | there⟩
    · left
      apply List.inj_on_of_nodup_map slots otherHeld held
      exact (sameSlot_iff.mp here).trans matched.symm
    · exact Or.inr ⟨otherHeld, there⟩
  · rintro (rfl | ⟨otherHeld, there⟩)
    · exact ⟨held, Or.inl (sameSlot_iff.mpr matched)⟩
    · exact ⟨otherHeld, Or.inr there⟩

/-- Every record is removed as unmatched or still to be matched. -/
theorem unmatched_unprocessed (current : List InstalledRule) (desired : List (Wanted d)) :
    (unmatched current desired ++ unprocessed current desired).Perm current := by
  have parts := List.filter_append_perm
    (fun c : InstalledRule => desired.any fun wanted => c.sameSlot wanted.rule) current
  exact List.perm_append_comm.trans parts

/-- What the priced slots are said of: slots apart, and no reference twice in a
rule. -/
structure Apart (current : List InstalledRule) (desired : List (Wanted d)) : Prop where
  slots : (current.map InstalledRule.slot).Nodup
  wantedSlots : (desired.map fun wanted => wanted.rule.slot).Nodup
  distinct : ∀ c ∈ current, c.Distinct
  wantedDistinct : ∀ wanted ∈ desired, wanted.rule.Distinct

theorem Apart.tail {wanted : Wanted d} {rest : List (Wanted d)}
    (apart : Apart current (wanted :: rest)) : Apart current rest where
  slots := apart.slots
  wantedSlots := (List.nodup_cons.mp apart.wantedSlots).2
  distinct := apart.distinct
  wantedDistinct other member := apart.wantedDistinct other (List.mem_cons_of_mem _ member)

def recordsAt (current done : List InstalledRule) (rest : List (Wanted d)) : List InstalledRule :=
  done ++ unprocessed current rest

theorem recordsAt_of_some {wanted : Wanted d} {rest : List (Wanted d)} {c : InstalledRule}
    (apart : Apart current (wanted :: rest))
    (found : (current.find? fun c => c.sameSlot wanted.rule) = some c)
    (done : List InstalledRule) :
    Refs.of (recordsAt current done (wanted :: rest)) =
        Refs.of (c :: (done ++ unprocessed current rest)) ∧
      Refs.of (wanted.rule :: (done ++ unprocessed current rest)) =
        Refs.of (recordsAt current (done ++ [wanted.rule]) rest) := by
  constructor
  · apply refs_of_perm
    have here := unprocessed_of_some apart.slots apart.wantedSlots found
    exact (here.append_left done).trans List.perm_middle
  · apply refs_of_perm
    rw [recordsAt, List.append_assoc]
    exact List.perm_middle.symm

theorem recordsAt_of_none {wanted : Wanted d} {rest : List (Wanted d)}
    (found : (current.find? fun c => c.sameSlot wanted.rule) = none)
    (done : List InstalledRule) :
    Refs.of (wanted.rule :: recordsAt current done (wanted :: rest)) =
      Refs.of (recordsAt current (done ++ [wanted.rule]) rest) := by
  apply refs_of_perm
  rw [recordsAt, unprocessed_of_none found, recordsAt, List.append_assoc]
  exact List.perm_middle.symm

theorem priceRule_refs (infra : InfraPins) (mode : Mode) {wanted : Wanted d}
    {rest : List (Wanted d)} (apart : Apart current (wanted :: rest))
    (done : List InstalledRule) :
    (priceRule infra mode current (Refs.of (recordsAt current done (wanted :: rest))) wanted).refs =
      Refs.of (recordsAt current (done ++ [wanted.rule]) rest) := by
  have wantedDistinct := apart.wantedDistinct wanted List.mem_cons_self
  unfold priceRule
  cases found : current.find? fun c => c.sameSlot wanted.rule with
  | none =>
      rw [← recordsAt_of_none found done]
      exact (addRule_prices infra wanted.rule wanted.params).refs (add_counts ..)
  | some c =>
      obtain ⟨before, after⟩ := recordsAt_of_some apart found done
      have distinct := apart.distinct c (List.mem_of_find?_eq_some found)
      rw [before, ← after]
      simp only
      split
      next kept => exact keep_refs distinct wantedDistinct kept _
      next => exact priceChanged_refs infra mode distinct wantedDistinct

/-- Replacing a slot comes to the same counts. -/
theorem block_counts {wanted : Wanted d} {rest : List (Wanted d)}
    (apart : Apart current (wanted :: rest)) (done : List InstalledRule) :
    Refcount.after (Refs.of (recordsAt current done (wanted :: rest))).counts
        (blockEvents current wanted) =
      (Refs.of (recordsAt current (done ++ [wanted.rule]) rest)).counts := by
  unfold blockEvents block
  cases found : current.find? fun c => c.sameSlot wanted.rule with
  | none =>
      rw [← recordsAt_of_none found done]
      exact add_counts ..
  | some c =>
      obtain ⟨before, after⟩ := recordsAt_of_some apart found done
      rw [before, ← after]
      exact (replace_counts ..).2

end Pending

/-! ### Whole deltas -/

section Deltas

variable {d : AccountDeployment} {current : List InstalledRule} {desired : List (Wanted d)}

def Cost.total (costs : List Cost) : Cost where
  events := (costs.map Cost.events).sum
  writes := (costs.map Cost.writes).sum

/-- Remove every current rule, then add every desired one. -/
def removeThenAdd {m : Type → Type} [Monad m] (fx : Effects m) (current : List InstalledRule)
    (desired : List (Wanted d)) : m Unit := do
  forM current fx.removeRule
  forM desired fun wanted => do
    let _ ← fx.addRule wanted.rule wanted.params
    pure ()

theorem addWanted_prices (infra : InfraPins) (wanted : Wanted d) :
    Prices
      (do
        let _ ← (meter infra).addRule wanted.rule wanted.params
        pure ())
      (do
        let _ ← (strictMeter infra).addRule wanted.rule wanted.params
        pure ()) () (ruleWrites infra wanted.rule) (Refcount.take wanted.rule.gains) := by
  rw [← List.append_nil (Refcount.take wanted.rule.gains),
    ← Nat.add_zero (ruleWrites infra wanted.rule)]
  refine Prices.bind (addRule_prices infra wanted.rule wanted.params) ?_
  exact .pure ()

def fullPrice (infra : InfraPins) (current : List InstalledRule) (desired : List (Wanted d)) :
    Cost :=
  ((removeThenAdd (meter infra) current desired).run (.new (Refs.of current))).run.2.cost

theorem removeThenAdd_prices (infra : InfraPins) (current : List InstalledRule)
    (desired : List (Wanted d)) :
    Prices (removeThenAdd (meter infra) current desired)
      (removeThenAdd (strictMeter infra) current desired) ()
      ((current.map (ruleWrites infra)).sum +
        (desired.map fun wanted => ruleWrites infra wanted.rule).sum)
      (Refcount.release (current.flatMap InstalledRule.keys) ++
        Refcount.take (desired.flatMap fun wanted => wanted.rule.gains)) := by
  have removed := Prices.forM current fun c _ => removeRule_prices infra c
  have added := Prices.forM desired fun wanted _ => addWanted_prices infra wanted
  have releases : current.flatMap (fun c => Refcount.release c.keys) =
      Refcount.release (current.flatMap InstalledRule.keys) := by
    rw [Refcount.release, List.map_flatMap]
    rfl
  have takes : desired.flatMap (fun wanted => Refcount.take wanted.rule.gains) =
      Refcount.take (desired.flatMap fun wanted => wanted.rule.gains) := by
    rw [Refcount.take, List.map_flatMap]
    rfl
  rw [releases] at removed
  rw [takes] at added
  refine Prices.bind removed ?_
  exact added

theorem priceRemovals_spec (infra : InfraPins) (gone others : List InstalledRule) :
    (priceRemovals infra (Refs.of (gone ++ others)) gone).2 = Refs.of others ∧
      Cost.total ((priceRemovals infra (Refs.of (gone ++ others)) gone).1.map PlannedRule.cost) =
        ⟨0, (gone.map (ruleWrites infra)).sum +
          Refcount.price (Refs.of (gone ++ others)).counts
            (Refcount.release (gone.flatMap InstalledRule.keys))⟩ := by
  induction gone with
  | nil => exact ⟨rfl, rfl⟩
  | cons c rest ih =>
      obtain ⟨refs, total⟩ := ih
      have removed := removeRule_prices infra c
      have counts := (remove_counts c (rest ++ others)).2
      have next : (((meter infra).removeRule c).run
          (.new (Refs.of (c :: (rest ++ others))))).run.2.refs =
          Refs.of (rest ++ others) := removed.refs counts
      have cost : (((meter infra).removeRule c).run
          (.new (Refs.of (c :: (rest ++ others))))).run.2.cost = _ := removed.cost _
      rw [List.cons_append, priceRemovals]
      simp only [next]
      refine ⟨refs, ?_⟩
      rw [Cost.total, Cost.mk.injEq] at total ⊢
      simp only [List.map_cons, List.sum_cons, List.flatMap_cons, record]
      rw [total.1, total.2, cost, Refcount.release_append, Refcount.price_append, counts]
      refine ⟨rfl, ?_⟩
      simp only
      omega

/-- The counts after each desired rule's slot. -/
theorem priceRules_refs (infra : InfraPins) (mode : Mode) {rest : List (Wanted d)}
    (apart : Apart current rest) (done : List InstalledRule) {before later : List (Wanted d)}
    {wanted : Wanted d} (split : rest = before ++ wanted :: later) :
    ((priceRules infra mode current (Refs.of (recordsAt current done rest))
        rest)[before.length]?).map
        Priced.refs =
      some (Refs.of (recordsAt current
        (done ++ before.map Wanted.rule ++ [wanted.rule]) later)) := by
  induction rest generalizing done before with
  | nil => exact absurd split.symm (by simp)
  | cons first rest ih =>
      have reached := priceRule_refs infra mode apart done
      rw [priceRules]
      simp only [reached]
      cases before with
      | nil =>
          obtain ⟨rfl, rfl⟩ := List.cons.inj split
          simp only [List.length_nil, List.getElem?_cons_zero, Option.map_some, List.map_nil,
            List.append_nil]
          rw [reached]
      | cons earlier before =>
          obtain ⟨rfl, tail⟩ := List.cons.inj split
          have later := ih apart.tail (done ++ [first.rule]) tail
          simp only [List.length_cons, List.getElem?_cons_succ, List.map_cons]
          rw [later, List.append_assoc, List.append_assoc, List.append_assoc]
          simp

theorem priceRules_cost (infra : InfraPins) {rest : List (Wanted d)}
    (apart : Apart current rest) (done : List InstalledRule) :
    let costs := (priceRules infra .cheapest current (Refs.of (recordsAt current done rest))
      rest).map Priced.cost
    (Cost.total costs).events = 0 ∧
      (Cost.total costs).writes ≤ (rest.map (blockWrites infra current)).sum +
        Refcount.price (Refs.of (recordsAt current done rest)).counts
          (rest.flatMap (blockEvents current)) := by
  induction rest generalizing done with
  | nil => exact ⟨rfl, Nat.le_refl _⟩
  | cons wanted rest ih =>
      obtain ⟨quiet, cheap⟩ := ih apart.tail (done ++ [wanted.rule])
      obtain ⟨quietHere, cheapHere⟩ := priceRule_cost infra current
        (Refs.of (recordsAt current done (wanted :: rest))) wanted
      intro costs
      have next := priceRule_refs infra .cheapest apart done
      have counted := block_counts apart done
      have split : costs =
          (priceRule infra .cheapest current
            (Refs.of (recordsAt current done (wanted :: rest))) wanted).cost ::
          (priceRules infra .cheapest current
            (Refs.of (recordsAt current (done ++ [wanted.rule]) rest)) rest).map Priced.cost := by
        change (priceRules infra .cheapest current _ (wanted :: rest)).map Priced.cost = _
        rw [priceRules]
        simp only [List.map_cons, next]
      rw [split, List.flatMap_cons, Refcount.price_append, counted]
      simp only [Cost.total, List.map_cons, List.sum_cons] at quiet cheap ⊢
      constructor
      · rw [quietHere, quiet]
      · omega

/-- The matched records, in the order of the desired rules. -/
def matched (current : List InstalledRule) (desired : List (Wanted d)) : List InstalledRule :=
  desired.filterMap fun wanted => current.find? fun c => c.sameSlot wanted.rule

theorem matched_cons (current : List InstalledRule) (wanted : Wanted d)
    (rest : List (Wanted d)) :
    matched current (wanted :: rest) =
      (current.find? fun c => c.sameSlot wanted.rule).toList ++ matched current rest := by
  unfold matched
  cases found : current.find? fun c => c.sameSlot wanted.rule with
  | none => simp [found]
  | some c => simp [found]

theorem matched_perm (apart : Apart current desired) :
    (matched current desired).Perm (unprocessed current desired) := by
  induction desired with
  | nil =>
      rw [unprocessed_nil]
      exact .nil
  | cons wanted rest ih =>
      have later := ih apart.tail
      rw [matched_cons]
      cases found : current.find? fun c => c.sameSlot wanted.rule with
      | none =>
          rw [unprocessed_of_none found]
          exact later
      | some c =>
          exact (later.cons c).trans (unprocessed_of_some apart.slots apart.wantedSlots found).symm

theorem block_keys (current : List InstalledRule) (desired : List (Wanted d)) :
    (desired.map (block current)).flatMap Prod.fst =
      (matched current desired).flatMap InstalledRule.keys := by
  induction desired with
  | nil => rfl
  | cons wanted rest ih =>
      rw [List.map_cons, List.flatMap_cons, ih, matched_cons, List.flatMap_append, block]
      cases current.find? fun c => c.sameSlot wanted.rule <;> simp

theorem blockWrites_sum (infra : InfraPins) (current : List InstalledRule)
    (desired : List (Wanted d)) :
    (desired.map (blockWrites infra current)).sum =
      ((matched current desired).map (ruleWrites infra)).sum +
        (desired.map fun wanted => ruleWrites infra wanted.rule).sum := by
  induction desired with
  | nil => rfl
  | cons wanted rest ih =>
      rw [List.map_cons, List.sum_cons, ih, List.map_cons, List.sum_cons, matched_cons,
        List.map_append, List.sum_append, blockWrites]
      cases current.find? fun c => c.sameSlot wanted.rule with
      | none =>
          simp only [Option.elim_none, Option.toList_none, List.map_nil, List.sum_nil]
          omega
      | some c =>
          simp only [Option.elim_some, Option.toList_some, List.map_cons, List.map_nil,
            List.sum_cons, List.sum_nil]
          omega

theorem priceRules_length (infra : InfraPins) (mode : Mode) (current : List InstalledRule)
    (refs : Refs) (desired : List (Wanted d)) :
    (priceRules infra mode current refs desired).length = desired.length := by
  induction desired generalizing refs with
  | nil => rfl
  | cons wanted rest ih =>
      rw [priceRules, List.length_cons, List.length_cons, ih]

/-- The counts before the desired rules' slots. -/
theorem removed_refs (infra : InfraPins) (current : List InstalledRule)
    (desired : List (Wanted d)) :
    (priceRemovals infra (Refs.of current) (unmatched current desired)).2 =
      Refs.of (recordsAt current [] desired) := by
  rw [← refs_of_perm (unmatched_unprocessed current desired)]
  exact (priceRemovals_spec infra (unmatched current desired) _).1

/-- The prices of a plan: the removals', then the slots'. -/
theorem plan_costs (infra : InfraPins) (mode : Mode) (current : List InstalledRule)
    (desired : List (Wanted d)) :
    (plan infra mode current desired).map PlannedRule.cost =
      (priceRemovals infra (Refs.of current) (unmatched current desired)).1.map
          PlannedRule.cost ++
        (priced infra mode current desired).map Priced.cost := by
  rw [plan, List.map_append, List.map_map]
  congr 1
  have aligned : desired.length = (priced infra mode current desired).length :=
    (priceRules_length ..).symm
  generalize priced infra mode current desired = prices at aligned ⊢
  induction desired generalizing prices with
  | nil =>
      rw [List.eq_nil_of_length_eq_zero aligned.symm]
      rfl
  | cons wanted rest ih =>
      cases prices with
      | nil => cases aligned
      | cons first prices =>
          rw [List.zip_cons_cons, List.map_cons, List.map_cons, ih _ (Nat.succ.inj aligned)]
          rfl

theorem release_counts (gone others : List InstalledRule) :
    Refcount.after (Refs.of (gone ++ others)).counts
        (Refcount.release (gone.flatMap InstalledRule.keys)) = (Refs.of others).counts := by
  have covers : Refcount.Covers (Refs.of (gone ++ others)).counts
      (gone.flatMap InstalledRule.keys) := by
    intro key
    rw [counts_of, List.flatMap_append, List.count_append]
    exact Nat.le_add_right _ _
  funext key
  have left := Refcount.after_release covers key
  rw [counts_of, List.flatMap_append, List.count_append] at left
  rw [counts_of others]
  omega

/-- Replacing slot by slot, with the unmatched records gone first, costs no
more than removing everything and adding everything. -/
theorem blocks_le_full (apart : Apart current desired) :
    Refcount.price (Refs.of current).counts
          (Refcount.release ((unmatched current desired).flatMap InstalledRule.keys)) +
        Refcount.price (Refs.of (recordsAt current [] desired)).counts
          (desired.flatMap (blockEvents current)) ≤
      Refcount.price (Refs.of current).counts
        (Refcount.release (current.flatMap InstalledRule.keys) ++
          Refcount.take (desired.flatMap fun wanted => wanted.rule.gains)) := by
  have parts := unmatched_unprocessed current desired
  have all : ((unmatched current desired).flatMap InstalledRule.keys ++
      (desired.map (block current)).flatMap Prod.fst).Perm
        (current.flatMap InstalledRule.keys) := by
    rw [block_keys, ← List.flatMap_append]
    exact (((matched_perm apart).append_left _).trans parts).flatMap_right _
  have counted : Refcount.after (Refs.of current).counts
      (Refcount.release ((unmatched current desired).flatMap InstalledRule.keys)) =
        (Refs.of (recordsAt current [] desired)).counts := by
    rw [← refs_of_perm parts]
    exact release_counts _ _
  have covers : Refcount.Covers (Refs.of (recordsAt current [] desired)).counts
      ((desired.map (block current)).flatMap Prod.fst) := by
    rw [← counted]
    apply Refcount.covers_after_release
    intro key
    rw [all.count_eq key, counts_of]
  have cheaper := (Refcount.blocks_cheaper covers).price
  have events : (desired.map (block current)).flatMap
      (fun block => Refcount.release block.1 ++ Refcount.take block.2) =
        desired.flatMap (blockEvents current) := List.flatMap_map ..
  have gains : (desired.map (block current)).flatMap Prod.snd =
      desired.flatMap fun wanted => wanted.rule.gains := List.flatMap_map ..
  rw [events, gains] at cheaper
  obtain ⟨samePrice, sameCounts⟩ := @Refcount.release_perm _ _ (Refs.of current).counts _ _ all
  rw [Refcount.price_append (Refcount.release (current.flatMap InstalledRule.keys)), ← samePrice,
    ← sameCounts, ← Refcount.price_append, Refcount.release_append, List.append_assoc,
    Refcount.price_append, counted]
  exact Nat.add_le_add_left cheaper _

/-- The cheapest delta costs no more than removing everything and adding
everything. -/
theorem plan_le_fullPrice (infra : InfraPins) (apart : Apart current desired) :
    (Cost.total ((plan infra .cheapest current desired).map PlannedRule.cost)).le
      (fullPrice infra current desired) = true := by
  have parts := unmatched_unprocessed current desired
  have all : (unmatched current desired ++ matched current desired).Perm current :=
    ((matched_perm apart).append_left _).trans parts
  obtain ⟨_, removedCost⟩ := priceRemovals_spec infra (unmatched current desired)
    (unprocessed current desired)
  rw [refs_of_perm parts] at removedCost
  obtain ⟨quiet, cheap⟩ := priceRules_cost infra apart []
  have full := (removeThenAdd_prices infra current desired).cost (Refs.of current)
  change fullPrice infra current desired = _ at full
  have writes := (all.map (ruleWrites infra)).sum_nat
  rw [List.map_append, List.sum_append] at writes
  have blocks := blocks_le_full apart
  rw [plan_costs, full, priced, removed_refs]
  rw [Cost.total, Cost.mk.injEq] at removedCost
  rw [blockWrites_sum] at cheap
  simp only [Cost.le, Cost.total, List.map_append, List.sum_append] at quiet cheap ⊢
  rw [removedCost.1, removedCost.2, quiet]
  simp only [Nat.lt_irrefl, decide_false, Bool.false_or, decide_true, Bool.true_and,
    decide_eq_true_eq]
  omega

structure DeltaPriced (infra : InfraPins) (current : List InstalledRule)
    (desired : List (Wanted d)) : Prop where
  cheap : (Cost.total ((plan infra .cheapest current desired).map PlannedRule.cost)).le
    (fullPrice infra current desired) = true
  /-- After some of the unmatched records are removed, the counts are those of
  the rest. -/
  removed : ∀ gone kept, unmatched current desired = gone ++ kept →
    (priceRemovals infra (Refs.of current) gone).2 =
      Refs.of (kept ++ unprocessed current desired)
  /-- After each desired rule's slot, the counts are those of the rules in
  place and of the current ones still to come. -/
  reached : ∀ mode before wanted later, desired = before ++ wanted :: later →
    ((priced infra mode current desired)[before.length]?).map Priced.refs =
      some (Refs.of (recordsAt current (before.map Wanted.rule ++ [wanted.rule]) later))
  /-- No priced removal of a record finds a count of zero. -/
  removable : ∀ gone c kept, unmatched current desired = gone ++ c :: kept →
    ((strictMeter infra).removeRule c).run (.new (priceRemovals infra (Refs.of current) gone).2) =
      some (((meter infra).removeRule c).run (.new (priceRemovals infra (Refs.of current) gone).2))
  /-- Nor does either way of pricing a changed slot, from the counts before it. -/
  changeable : ∀ before wanted later c, desired = before ++ wanted :: later →
    (current.find? fun c => c.sameSlot wanted.rule) = some c →
    let meter₀ := Meter.new
      (Refs.of (recordsAt current (before.map Wanted.rule) (wanted :: later)))
    (edit (strictMeter infra) c wanted.rule wanted.params).run meter₀ =
        some ((edit (meter infra) c wanted.rule wanted.params).run meter₀) ∧
      (replace (strictMeter infra) c wanted.rule wanted.params).run meter₀ =
        some ((replace (meter infra) c wanted.rule wanted.params).run meter₀)

theorem Apart.later {before rest : List (Wanted d)} (apart : Apart current (before ++ rest)) :
    Apart current rest := by
  induction before with
  | nil => exact apart
  | cons wanted before ih => exact ih apart.tail

theorem removal_refs (infra : InfraPins) {gone kept : List InstalledRule}
    (split : unmatched current desired = gone ++ kept) :
    (priceRemovals infra (Refs.of current) gone).2 =
      Refs.of (kept ++ unprocessed current desired) := by
  have parts := unmatched_unprocessed current desired
  rw [split, List.append_assoc] at parts
  rw [← refs_of_perm parts]
  exact (priceRemovals_spec infra gone _).1

theorem delta_priced (infra : InfraPins) (apart : Apart current desired) :
    DeltaPriced infra current desired := by
  refine
    { cheap := plan_le_fullPrice infra apart
      removed := fun gone kept split => removal_refs infra split
      reached := ?_
      removable := ?_
      changeable := ?_ }
  · intro mode before wanted later split
    rw [priced, removed_refs]
    have reached := priceRules_refs infra mode apart [] split
    rwa [List.nil_append] at reached
  · intro gone c kept split
    rw [removal_refs infra split, List.cons_append]
    exact (removeRule_prices infra c).agrees (remove_counts ..).1
  · intro before wanted later c split found
    rw [split] at apart
    have here := apart.later
    obtain ⟨counts, _⟩ := recordsAt_of_some here found (before.map Wanted.rule)
    have distinct := here.distinct c (List.mem_of_find?_eq_some found)
    have wantedDistinct := here.wantedDistinct wanted List.mem_cons_self
    intro meter₀
    simp only [meter₀, counts]
    constructor
    · obtain ⟨writes, priced⟩ := edit_prices infra c wanted.rule wanted.params
      apply priced.agrees
      cases chosen : editOrder c wanted.rule wanted.params with
      | none => trivial
      | some order => exact (edit_counts distinct wantedDistinct chosen _).1
    · exact (replace_prices infra c wanted.rule wanted.params).agrees (replace_counts ..).1

end Deltas

/-- A controller and a signer are shared between rules that change in turn. -/
def sampleCurrent : List InstalledRule :=
  [{ id := 0
     recovery := false
     name := adminName
     contextType := .callContract (.contract (BytesN.fill 1))
     validUntil := none
     signers := [.delegated (.account (BytesN.fill 7))]
     policies := [] },
   { (underController 5).rule with id := 1 }]

def sampleWanted : List (Wanted handoverDeployment) :=
  [Wanted.of handoverDeployment false adminName (.callContract (.contract (BytesN.fill 1))) none
      [.delegated (.account (BytesN.fill 8))] [(.contract (BytesN.fill 6), .bytes [6])],
   underController 6]

theorem delta_priced_sample : DeltaPriced handoverDeployment.infra sampleCurrent sampleWanted := by
  apply delta_priced
  refine { slots := by decide, wantedSlots := by decide, distinct := ?_, wantedDistinct := ?_ }
  · intro c member
    simp only [sampleCurrent, List.mem_cons, List.not_mem_nil, or_false] at member
    rcases member with rfl | rfl
    · exact { signers := by decide, policies := by decide }
    · exact { signers := by decide, policies := by decide }
  · intro wanted member
    simp only [sampleWanted, List.mem_cons, List.not_mem_nil, or_false] at member
    rcases member with rfl | rfl
    · exact { signers := by decide, policies := by decide }
    · exact { signers := by decide, policies := by decide }

end Perch.Account
