/-
Rule-set reconciliation for `apply_doc`.

The account records every context rule it installs.  An apply matches the
compiled document's rules against those records and changes only what differs:
each slot is kept, added, edited in place, or replaced, whichever the cost
model prices lower.  Pricing and performing run the same sequence of
operations through two interpretations of `Effects`, and pricing reads the
records only, never the store.
-/

import Mathlib.Algebra.Ring.Nat
import Perch.Account.RuleStore
import Perch.Document.Compiled
import Perch.Machine.Fallible

namespace Perch.Account

open Document Recovery Program

/-! ### What is fixed when an account is built -/

/-- The shared contracts an account pins at build time. -/
structure InfraPins where
  docCompiler : Address
  interpreter : Address
  spendingLimit : Address
deriving DecidableEq

/-- What stays fixed over an account's life, with the host conversions its
install parameters go through. -/
structure AccountDeployment where
  sha256 : Sha256
  /-- The account's own address. -/
  address : Address
  infra : InfraPins
  toXdr : Val → Bytes
  installVal : InstallParams → Val
  capVal : CompiledCap → Val

def AccountDeployment.digest (d : AccountDeployment) (value : Val) : Bytes32 :=
  d.sha256 (d.toXdr value)

/-! ### Records -/

structure InstalledPolicy where
  policy : Address
  /-- `sha256` of the install parameters' XDR. -/
  params : Bytes32
deriving DecidableEq

structure InstalledRule where
  id : UInt32
  recovery : Bool
  name : SString
  contextType : ContextRuleType
  validUntil : Option UInt32
  signers : List Signer
  policies : List InstalledPolicy
deriving DecidableEq

/-- Document rules are matched by name and scope, the recovery rule by role. -/
def InstalledRule.sameSlot (self other : InstalledRule) : Bool :=
  self.recovery = other.recovery && (self.recovery || self.name = other.name) &&
    self.contextType = other.contextType

def InstalledRule.withId (self : InstalledRule) (id : UInt32) : InstalledRule :=
  { self with id := id }

def adminName : SString := "admin".toUTF8.data.toList

def recoveryName : SString := "recovery".toUTF8.data.toList

def adminRule (d : AccountDeployment) (id : UInt32) (signers : List Signer) : InstalledRule where
  id := id
  recovery := false
  name := adminName
  contextType := .callContract d.address
  validUntil := none
  signers := signers
  policies := []

/-! ### What a compiled document asks for -/

/-- A rule to install, with the install parameters of its policies in the
order of its policies. -/
structure Wanted (d : AccountDeployment) where
  rule : InstalledRule
  params : List Val
  digests : rule.policies.map InstalledPolicy.params = params.map d.digest

def Wanted.attached {d : AccountDeployment} (wanted : Wanted d) : List (Address × Val) :=
  (wanted.rule.policies.zip wanted.params).map fun (policy, param) => (policy.policy, param)

/-- A rule whose policies are given with their parameters.  Its id is unset. -/
def Wanted.of (d : AccountDeployment) (recovery : Bool) (name : SString)
    (contextType : ContextRuleType) (validUntil : Option UInt32) (signers : List Signer)
    (attached : List (Address × Val)) : Wanted d where
  rule :=
    { id := 0
      recovery := recovery
      name := name
      contextType := contextType
      validUntil := validUntil
      signers := signers
      policies := attached.map fun (policy, param) => ⟨policy, d.digest param⟩ }
  params := attached.map Prod.snd
  digests := by simp

/-- A dead rule authorizes nothing, and the store would refuse it. -/
def expired (sequence : UInt32) (validUntil : Option UInt32) : Bool :=
  validUntil.any fun last => last < sequence

def RuleScope.contextType (d : AccountDeployment) : RuleScope → ContextRuleType
  | .selfAdmin => .callContract d.address
  | .contract address => .callContract address

/-- A compiled document rule, with the interpreter and spending-limit policies
its program and cap need. -/
def documentRule (d : AccountDeployment) (rule : CompiledRule) : Wanted d :=
  let interpreter := rule.install.head?.map fun params =>
    (d.infra.interpreter, d.installVal params)
  let spendingLimit := rule.cap.head?.map fun cap => (d.infra.spendingLimit, d.capVal cap)
  Wanted.of d false rule.name (RuleScope.contextType d rule.scope) rule.validUntil rule.signers
    (interpreter.toList ++ spendingLimit.toList)

/-- The zero-signer recovery rule, whose only policy is the controller. -/
def recoveryRule (d : AccountDeployment) (recovery : CompiledRecoveryConfig) : Wanted d :=
  Wanted.of d true recoveryName (.callContract d.address) none []
    [(recovery.controller, .bytes recovery.configHash.bytes)]

def desired (d : AccountDeployment) (sequence : UInt32) (compiled : CompiledDoc) :
    List (Wanted d) :=
  (compiled.rules.map (documentRule d)).filter
      (fun wanted => !expired sequence wanted.rule.validUntil) ++
    (compiled.recovery.head?.map (recoveryRule d)).toList

/-! ### The operations reconciliation is made of -/

structure Effects (m : Type → Type) where
  reconcileSigners : InstalledRule → List Signer → m Unit
  addPolicy : InstalledRule → Address → Val → m Unit
  removePolicy : InstalledRule → Address → m Unit
  setValidUntil : InstalledRule → Option UInt32 → m Unit
  removeRule : InstalledRule → m Unit
  /-- Returns the new rule's id. -/
  addRule : InstalledRule → List Val → m UInt32

def missing (source other : List Signer) : List Signer :=
  source.filter fun signer => signer ∉ other

def unchanged (c d : InstalledRule) : Bool :=
  c.signers = d.signers && c.policies.all (fun p => p ∈ d.policies) &&
    d.policies.all (fun p => p ∈ c.policies) && c.validUntil = d.validUntil

structure Changes where
  removeSigners : List Signer
  /-- A policy whose parameters change is removed and added back. -/
  removePolicies : List Address
  addPolicies : List (Address × Val)
  /-- Additions under addresses the rule does not have yet. -/
  fresh : List (Address × Val)
  kept : Nat

def changes (c d : InstalledRule) (params : List Val) : Changes :=
  let removeSigners := missing c.signers d.signers
  let removePolicies := (c.policies.filter fun p => p ∉ d.policies).map InstalledPolicy.policy
  let addPolicies := ((d.policies.zip params).filter fun (p, _) => p ∉ c.policies).map
    fun (p, param) => (p.policy, param)
  { removeSigners := removeSigners
    removePolicies := removePolicies
    addPolicies := addPolicies
    fresh := addPolicies.filter fun (p, _) => p ∉ c.policies.map InstalledPolicy.policy
    kept := (c.signers.length - removeSigners.length) +
      (c.policies.length - removePolicies.length) }

/-- The orders of operations that keep a rule valid at every step. -/
inductive EditOrder
  | signersFirst
  | policiesFirst
  | freshFirst
deriving DecidableEq

def editOrder (c d : InstalledRule) (params : List Val) : Option EditOrder :=
  if d.signers ≠ [] then some .signersFirst
  else if c.signers ≠ [] ∨ 0 < (changes c d params).kept then some .policiesFirst
  else if (changes c d params).fresh ≠ [] ∧
      c.policies.length + (changes c d params).fresh.length ≤ maxPolicies then
    some .freshFirst
  else none

section Edit

variable {m : Type → Type} [Monad m] (fx : Effects m)

def removePolicies (c : InstalledRule) (policies : List Address) : m Unit :=
  forM policies (fx.removePolicy c)

def addPolicies (c : InstalledRule) (policies : List (Address × Val)) : m Unit :=
  forM policies fun (policy, param) => fx.addPolicy c policy param

/-- A reorder alone changes the signers too: the store keeps the order given. -/
def swapSigners (c d : InstalledRule) : m Unit :=
  if c.signers ≠ d.signers then fx.reconcileSigners c d.signers else pure ()

def editPolicies (c d : InstalledRule) (params : List Val) : EditOrder → m Unit
  | .signersFirst => do
      swapSigners fx c d
      removePolicies fx c (changes c d params).removePolicies
      addPolicies fx c (changes c d params).addPolicies
  | .policiesFirst => do
      removePolicies fx c (changes c d params).removePolicies
      addPolicies fx c (changes c d params).addPolicies
      swapSigners fx c d
  | .freshFirst => do
      addPolicies fx c (changes c d params).fresh
      removePolicies fx c (changes c d params).removePolicies
      addPolicies fx c ((changes c d params).addPolicies.filter fun (p, _) =>
        p ∉ (changes c d params).fresh.map Prod.fst)

/-- Edit rule `c` into `d` under its id, or return false, doing nothing, when
no order keeps it valid at every step. -/
def edit (c d : InstalledRule) (params : List Val) : m Bool :=
  match editOrder c d params with
  | none => pure false
  | some order => do
      editPolicies fx c d params order
      (if c.validUntil ≠ d.validUntil then fx.setValidUntil c d.validUntil else pure ())
      pure true

/-- Replace rule `c` with `d` under a new id, which it returns. -/
def replace (c d : InstalledRule) (params : List Val) : m UInt32 := do
  fx.removeRule c
  fx.addRule d params

end Edit

/-! ### Pricing -/

/-- Bytes of events, then ledger-entry writes, compared in that order. -/
structure Cost where
  events : Nat
  writes : Nat
deriving DecidableEq

def Cost.zero : Cost := ⟨0, 0⟩

def Cost.le (a b : Cost) : Bool :=
  a.events < b.events || (a.events = b.events && a.writes ≤ b.writes)

/-- How many installed rules name each signer and policy; an entry that is
absent counts none. -/
structure Refs where
  signers : Signer → Nat
  policies : Address → Nat

def Refs.of (rules : List InstalledRule) : Refs where
  signers signer := (rules.map fun r => r.signers.count signer).sum
  policies policy := (rules.map fun r => (r.policies.map InstalledPolicy.policy).count policy).sum

structure Meter where
  refs : Refs
  cost : Cost

namespace Meter

def new (refs : Refs) : Meter := ⟨refs, .zero⟩

def write (meter : Meter) (writes : Nat) : Meter :=
  { meter with cost := { meter.cost with writes := meter.cost.writes + writes } }

/-- The first reference also writes its lookup entry. -/
def registerSigner (meter : Meter) (signer : Signer) : Meter :=
  let n := meter.refs.signers signer
  { meter.write (if n = 0 then 2 else 1) with
    refs := { meter.refs with signers := Function.update meter.refs.signers signer (n + 1) } }

def deregisterSigner (meter : Meter) (signer : Signer) : Meter :=
  let n := meter.refs.signers signer
  { meter.write (if n ≤ 1 then 2 else 1) with
    refs := { meter.refs with signers := Function.update meter.refs.signers signer (n - 1) } }

def registerPolicy (meter : Meter) (policy : Address) : Meter :=
  let n := meter.refs.policies policy
  { meter.write (if n = 0 then 2 else 1) with
    refs := { meter.refs with policies := Function.update meter.refs.policies policy (n + 1) } }

def deregisterPolicy (meter : Meter) (policy : Address) : Meter :=
  let n := meter.refs.policies policy
  { meter.write (if n ≤ 1 then 2 else 1) with
    refs := { meter.refs with policies := Function.update meter.refs.policies policy (n - 1) } }

/-- A policy's own `install` or `uninstall`: the interpreter's program or the
spending limit's window is written. -/
def hook (infra : InfraPins) (meter : Meter) (policy : Address) : Meter :=
  if policy = infra.spendingLimit ∨ policy = infra.interpreter then meter.write 1 else meter

end Meter

/-- Prices operations against simulated registry counts. -/
def meter (infra : InfraPins) : Effects (StateM Meter) where
  reconcileSigners rule signers := modify fun meter =>
    let meter := (missing rule.signers signers).foldl Meter.deregisterSigner (meter.write 1)
    (missing signers rule.signers).foldl Meter.registerSigner meter
  addPolicy _ policy _ := modify fun meter =>
    Meter.hook infra ((meter.write 1).registerPolicy policy) policy
  removePolicy _ policy := modify fun meter =>
    (Meter.hook infra (meter.write 1) policy).deregisterPolicy policy
  setValidUntil _ _ := modify fun meter => meter.write 1
  removeRule rule := modify fun meter =>
    let meter := rule.policies.foldl
      (fun meter p => (Meter.hook infra meter p.policy).deregisterPolicy p.policy) meter
    (rule.signers.foldl Meter.deregisterSigner meter).write 1
  addRule rule _ := do
    modify fun meter =>
      let meter := rule.signers.foldl Meter.registerSigner meter
      (rule.policies.foldl
        (fun meter p => Meter.hook infra (meter.registerPolicy p.policy) p.policy) meter).write 1
    pure 0

/-! ### Performing -/

structure DeltaSummary where
  rulesAdded : Nat
  rulesRemoved : Nat
  rulesEdited : Nat
  signersAdded : Nat
  signersRemoved : Nat
  policiesAdded : Nat
  policiesRemoved : Nat
deriving DecidableEq

def DeltaSummary.zero : DeltaSummary := ⟨0, 0, 0, 0, 0, 0, 0⟩

structure Apply (σ : Type) where
  store : σ
  sum : DeltaSummary
  /-- The rule being edited, read before its first removal. -/
  rule : Option (UInt32 × StoredRule)

def Apply.start {σ : Type} (store : σ) : Apply σ := ⟨store, .zero, none⟩

/-- The stored rule with this id, from the cache when it is the cached one. -/
def Apply.oz {σ : Type} (rules : RuleStore σ) (apply : Apply σ) (id : UInt32) :
    Except OzFailure (StoredRule × Apply σ) :=
  match apply.rule.filter fun cached => cached.1 = id with
  | some (_, rule) => pure (rule, apply)
  | none => do
      let rule ← Machine.orFail (rules.getContextRule apply.store id) .refused
      pure (rule, { apply with rule := some (id, rule) })

abbrev Performs (σ α : Type) := StateT (Apply σ) (Except OzFailure) α

section Performing

variable {σ : Type} (oz : RuleStore σ) (env : OzEnv)

/-- Performs operations through the store, and counts them. -/
def performer : Effects (StateT (Apply σ) (Except OzFailure)) where
  reconcileSigners rule signers apply := do
    let store ← oz.reconcileSigners apply.store rule.id signers
    pure ((), { apply with
      store := store
      sum := { apply.sum with
        signersAdded := apply.sum.signersAdded + (missing signers rule.signers).length
        signersRemoved := apply.sum.signersRemoved + (missing rule.signers signers).length } })
  addPolicy rule policy param apply := do
    let store ← oz.addPolicy env apply.store rule.id policy param
    pure ((), { apply with
      store := store
      sum := { apply.sum with policiesAdded := apply.sum.policiesAdded + 1 } })
  removePolicy rule policy apply := do
    let (stored, apply) ← Apply.oz oz apply rule.id
    let entry ← Machine.orFail (stored.policies.find? fun p => p.policy = policy) .refused
    let store ← oz.removePolicy apply.store rule.id entry.policyId
    pure ((), { apply with
      store := store
      sum := { apply.sum with policiesRemoved := apply.sum.policiesRemoved + 1 } })
  setValidUntil rule validUntil apply := do
    let store ← oz.updateContextRuleValidUntil env apply.store rule.id validUntil
    pure ((), { apply with store := store })
  removeRule rule apply := do
    let store ← oz.removeContextRule apply.store rule.id
    pure ((), { apply with
      store := store
      sum := { apply.sum with rulesRemoved := apply.sum.rulesRemoved + 1 } })
  addRule rule params apply := do
    let policies := (rule.policies.zip params).map fun (p, param) => (p.policy, param)
    let (id, store) ← oz.addContextRule env apply.store rule.contextType rule.name rule.validUntil
      rule.signers policies
    pure (id, { apply with
      store := store
      sum := { apply.sum with rulesAdded := apply.sum.rulesAdded + 1 } })

end Performing

/-! ### Choosing -/

inductive Mode
  /-- Whichever is cheaper, the in-place edit on a tie: `apply_doc`'s only mode. -/
  | cheapest
  | inPlace
  | replace
  | fullReplace
deriving DecidableEq

/-- What reconciliation does to one desired rule, with the record in its slot. -/
inductive Decision
  | add
  | keep (c : InstalledRule)
  | inPlace (c : InstalledRule)
  | replace (c : InstalledRule)
deriving DecidableEq

/-- A decision with its price, both prices a changed rule's choice compared,
and the reference counts after it. -/
structure Priced where
  decision : Decision
  cost : Cost
  inPlace : Option Cost
  replace : Cost
  refs : Refs

inductive SlotStep
  | keep
  | remove
  | add
  | inPlace
  | replace
deriving DecidableEq

def Decision.step : Decision → SlotStep
  | .add => .add
  | .keep _ => .keep
  | .inPlace _ => .inPlace
  | .replace _ => .replace

structure PlannedRule where
  name : SString
  recovery : Bool
  contextType : ContextRuleType
  step : SlotStep
  cost : Cost
  editable : Bool
  inPlace : Cost
  replace : Cost
deriving DecidableEq

def record (rule : InstalledRule) (step : SlotStep) (cost : Cost) (inPlace : Option Cost)
    (replace : Cost) : PlannedRule where
  name := rule.name
  recovery := rule.recovery
  contextType := rule.contextType
  step := step
  cost := cost
  editable := inPlace.isSome
  inPlace := inPlace.getD .zero
  replace := replace

section Choosing

variable {d : AccountDeployment}

/-- Whether an editable rule is edited rather than replaced. -/
def prefersEdit (mode : Mode) (edited replaced : Cost) : Bool :=
  match mode with
  | .cheapest => edited.le replaced
  | .inPlace => true
  | .replace | .fullReplace => false

def priceChanged (infra : InfraPins) (mode : Mode) (refs : Refs) (c : InstalledRule)
    (wanted : Wanted d) : Priced :=
  let (editable, edited) :=
    ((edit (meter infra) c wanted.rule wanted.params).run (.new refs)).run
  let (_, replaced) := ((replace (meter infra) c wanted.rule wanted.params).run (.new refs)).run
  let offered := if editable then some edited.cost else none
  if editable && prefersEdit mode edited.cost replaced.cost then
    ⟨.inPlace c, edited.cost, offered, replaced.cost, edited.refs⟩
  else
    ⟨.replace c, replaced.cost, offered, replaced.cost, replaced.refs⟩

def priceRule (infra : InfraPins) (mode : Mode) (current : List InstalledRule) (refs : Refs)
    (wanted : Wanted d) : Priced :=
  match current.find? fun c => c.sameSlot wanted.rule with
  | none =>
      let (_, added) := (((meter infra).addRule wanted.rule wanted.params).run (.new refs)).run
      ⟨.add, added.cost, none, .zero, added.refs⟩
  | some c =>
      if unchanged c wanted.rule then ⟨.keep c, .zero, none, .zero, refs⟩
      else priceChanged infra mode refs c wanted

def unmatched (current : List InstalledRule) (desired : List (Wanted d)) : List InstalledRule :=
  current.filter fun c => !desired.any fun wanted => c.sameSlot wanted.rule

/-- Price the removals of records, in order, against the counts so far. -/
def priceRemovals (infra : InfraPins) : Refs → List InstalledRule → List PlannedRule × Refs
  | refs, [] => ([], refs)
  | refs, c :: rest =>
      let removed := (((meter infra).removeRule c).run (.new refs)).run.2
      let (planned, refs) := priceRemovals infra removed.refs rest
      (record c .remove removed.cost none .zero :: planned, refs)

/-- What each desired rule's slot gets, priced in order against the counts at
that point. -/
def priceRules (infra : InfraPins) (mode : Mode) (current : List InstalledRule) :
    Refs → List (Wanted d) → List Priced
  | _, [] => []
  | refs, wanted :: rest =>
      let priced := priceRule infra mode current refs wanted
      priced :: priceRules infra mode current priced.refs rest

/-- The decisions for the desired rules, taken once the unmatched records are
gone. -/
def priced (infra : InfraPins) (mode : Mode) (current : List InstalledRule)
    (desired : List (Wanted d)) : List Priced :=
  priceRules infra mode current
    (priceRemovals infra (Refs.of current) (unmatched current desired)).2 desired

/-- What `reconcile` would do to each slot, without doing it. -/
def plan (infra : InfraPins) (mode : Mode) (current : List InstalledRule)
    (desired : List (Wanted d)) : List PlannedRule :=
  (priceRemovals infra (Refs.of current) (unmatched current desired)).1 ++
    (desired.zip (priced infra mode current desired)).map fun (wanted, priced) =>
      record wanted.rule priced.decision.step priced.cost priced.inPlace priced.replace

variable {σ : Type} (oz : RuleStore σ) (env : OzEnv)

/-- Do what was decided for one desired rule, and return its new record. -/
def perform (wanted : Wanted d) : Decision → Performs σ InstalledRule
  | .add => do
      let id ← (performer oz env).addRule wanted.rule wanted.params
      pure (wanted.rule.withId id)
  | .keep c => pure (wanted.rule.withId c.id)
  | .inPlace c => do
      let _ ← edit (performer oz env) c wanted.rule wanted.params
      modify fun apply =>
        { apply with sum := { apply.sum with rulesEdited := apply.sum.rulesEdited + 1 } }
      pure (wanted.rule.withId c.id)
  | .replace c => do
      let id ← replace (performer oz env) c wanted.rule wanted.params
      pure (wanted.rule.withId id)

def performAll : List Priced → List (Wanted d) → Performs σ (List InstalledRule)
  | priced :: prices, wanted :: rest => do
      let record ← perform oz env wanted priced.decision
      let next ← performAll prices rest
      pure (record :: next)
  | _, _ => pure []

/-- Unmatched records are removed first, then each desired rule is brought
about the way that was priced lower. -/
def run (infra : InfraPins) (mode : Mode) (current : List InstalledRule)
    (desired : List (Wanted d)) : Performs σ (List InstalledRule) := do
  forM (unmatched current desired) (performer oz env).removeRule
  performAll oz env (priced infra mode current desired) desired

/-- Remove every installed rule, then add every desired one. -/
def replaceAll (current : List InstalledRule) (desired : List (Wanted d)) :
    Performs σ (List InstalledRule) := do
  forM current (performer oz env).removeRule
  desired.mapM fun wanted => do
    let id ← (performer oz env).addRule wanted.rule wanted.params
    pure (wanted.rule.withId id)

/-- Bring the installed rules from `current` to `desired`.  Returns the new
records, in `desired` order. -/
def reconcile (infra : InfraPins) (mode : Mode) (current : List InstalledRule)
    (desired : List (Wanted d)) (store : σ) :
    Except OzFailure (List InstalledRule × DeltaSummary × σ) := do
  let program :=
    if mode = .fullReplace then replaceAll oz env current desired
    else run oz env infra mode current desired
  let (next, apply) ← program.run (.start store)
  pure (next, apply.sum, apply.store)

end Choosing

end Perch.Account
