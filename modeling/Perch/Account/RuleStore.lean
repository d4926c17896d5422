/-
OpenZeppelin's context-rule store, as far as the account relies on it.

The store is a library of its own: it stays a parameter, and what the account
relies on is stated as laws over the rules that can be read back.  Each
operation has two: what a successful call leaves, and when it succeeds.  A
policy's own state is folded into the rule it hangs on, as the parameters its
`install` was last given.
-/

import Mathlib.Logic.Function.Basic
import Perch.Recovery.Interface

namespace Perch.Account

open Recovery

def maxPolicies : Nat := 5

def maxSigners : Nat := 15

def maxNameSize : Nat := 20

structure AttachedPolicy where
  policy : Address
  policyId : UInt32
  param : Val
deriving DecidableEq

structure StoredRule where
  contextType : ContextRuleType
  name : SString
  validUntil : Option UInt32
  signers : List Signer
  policies : List AttachedPolicy
deriving DecidableEq

def StoredRule.attached (rule : StoredRule) : List (Address × Val) :=
  rule.policies.map fun entry => (entry.policy, entry.param)

/-- Why an operation leaves nothing: one of the store's own refusals, or a
policy's `install`. -/
inductive OzFailure
  | refused
  | install (policy : Address) (failure : Failure)
deriving DecidableEq

/-- What an operation meets: the ledger, and the policies' `install` hooks. -/
structure OzEnv where
  sequence : UInt32
  install : Address → Val → ContextRule → Except Failure Unit

structure RuleStore (σ : Type) where
  /-- `get_context_rule`, with the parameters of its policies. -/
  getContextRule : σ → UInt32 → Option StoredRule
  /-- The id the next rule gets. -/
  nextId : σ → UInt32
  /-- The store's own check of a signer list: distinct once canonical, and
  well formed for their verifiers. -/
  acceptsSigners : List Signer → Bool
  addContextRule : OzEnv → σ → ContextRuleType → SString → Option UInt32 → List Signer →
    List (Address × Val) → Except OzFailure (UInt32 × σ)
  removeContextRule : σ → UInt32 → Except OzFailure σ
  addPolicy : OzEnv → σ → UInt32 → Address → Val → Except OzFailure σ
  removePolicy : σ → UInt32 → UInt32 → Except OzFailure σ
  reconcileSigners : σ → UInt32 → List Signer → Except OzFailure σ
  updateContextRuleValidUntil : OzEnv → σ → UInt32 → Option UInt32 → Except OzFailure σ

def notPast (sequence : UInt32) (validUntil : Option UInt32) : Prop :=
  ∀ last ∈ validUntil, sequence ≤ last

/-- A policy's `install` accepts its parameters on a rule with this scope and
these signers. -/
def OzEnv.Accepts (env : OzEnv) (contextType : ContextRuleType) (signers : List Signer)
    (attached : Address × Val) : Prop :=
  ∀ rule : ContextRule, rule.contextType = contextType → rule.signers = signers →
    env.install attached.1 attached.2 rule = .ok ()

variable {σ : Type}

/-- A signer list the store accepts on a rule. -/
structure RuleStore.SignersFit (oz : RuleStore σ) (signers : List Signer) : Prop where
  few : signers.length ≤ maxSigners
  accepted : oz.acceptsSigners signers = true

structure RuleStore.Admits (oz : RuleStore σ) (env : OzEnv) (contextType : ContextRuleType)
    (name : SString) (validUntil : Option UInt32) (signers : List Signer)
    (policies : List (Address × Val)) : Prop where
  nonempty : signers ≠ [] ∨ policies ≠ []
  signersFit : oz.SignersFit signers
  few : policies.length ≤ maxPolicies
  shortName : name.length ≤ maxNameSize
  current : notPast env.sequence validUntil
  installs : ∀ attached ∈ policies, env.Accepts contextType signers attached

structure RuleStore.Documented (oz : RuleStore σ) : Prop where
  id_lt_nextId : ∀ {s id rule}, oz.getContextRule s id = some rule → id < oz.nextId s
  policies_nodup : ∀ {s id rule}, oz.getContextRule s id = some rule →
    (rule.policies.map AttachedPolicy.policy).Nodup
  policyIds_nodup : ∀ {s id rule}, oz.getContextRule s id = some rule →
    (rule.policies.map AttachedPolicy.policyId).Nodup
  /-- A new rule has the next id and exactly what it was given. -/
  addContextRule_sound : ∀ {env s contextType name validUntil signers policies id s'},
    (policies.map Prod.fst).Nodup →
    oz.addContextRule env s contextType name validUntil signers policies = .ok (id, s') →
      id = oz.nextId s ∧ (oz.nextId s').toNat = (oz.nextId s).toNat + 1 ∧
      ∃ attached : List AttachedPolicy,
        (attached.map fun entry => (entry.policy, entry.param)).Perm policies ∧
        oz.getContextRule s' = Function.update (oz.getContextRule s) id
          (some ⟨contextType, name, validUntil, signers, attached⟩)
  addContextRule_total : ∀ {env s contextType name validUntil signers policies},
    (policies.map Prod.fst).Nodup →
    oz.Admits env contextType name validUntil signers policies →
    (oz.nextId s).toNat + 1 < 4294967296 →
      ∃ added, oz.addContextRule env s contextType name validUntil signers policies = .ok added
  /-- An `install` refusal is a policy's own, on parameters it was given. -/
  addContextRule_install : ∀ {env s contextType name validUntil signers policies policy failure},
    oz.addContextRule env s contextType name validUntil signers policies =
      .error (.install policy failure) →
      ∃ param rule, (policy, param) ∈ policies ∧ env.install policy param rule = .error failure
  /-- Removal swallows a policy's `uninstall` failure. -/
  removeContextRule_sound : ∀ {s id s'}, oz.removeContextRule s id = .ok s' →
    oz.nextId s' = oz.nextId s ∧
      oz.getContextRule s' = Function.update (oz.getContextRule s) id none
  removeContextRule_total : ∀ {s id rule}, oz.getContextRule s id = some rule →
    ∃ s', oz.removeContextRule s id = .ok s'
  removeContextRule_install : ∀ {s id policy failure},
    oz.removeContextRule s id ≠ .error (.install policy failure)
  addPolicy_sound : ∀ {env s id policy param s' rule}, oz.getContextRule s id = some rule →
    oz.addPolicy env s id policy param = .ok s' →
      oz.nextId s' = oz.nextId s ∧
      ∃ attached policyId,
        attached.Perm (⟨policy, policyId, param⟩ :: rule.policies) ∧
        oz.getContextRule s' = Function.update (oz.getContextRule s) id
          (some { rule with policies := attached })
  addPolicy_total : ∀ {env s id policy param rule}, oz.getContextRule s id = some rule →
    policy ∉ rule.policies.map AttachedPolicy.policy → rule.policies.length < maxPolicies →
    env.Accepts rule.contextType rule.signers (policy, param) →
      ∃ s', oz.addPolicy env s id policy param = .ok s'
  addPolicy_install : ∀ {env s id policy param refusing failure},
    oz.addPolicy env s id policy param = .error (.install refusing failure) →
      refusing = policy ∧ ∃ rule, env.install policy param rule = .error failure
  removePolicy_sound : ∀ {s id policyId s' rule}, oz.getContextRule s id = some rule →
    oz.removePolicy s id policyId = .ok s' →
      oz.nextId s' = oz.nextId s ∧
      ∃ attached : List AttachedPolicy,
        attached.Perm (rule.policies.filter fun entry => entry.policyId ≠ policyId) ∧
        oz.getContextRule s' = Function.update (oz.getContextRule s) id
          (some { rule with policies := attached })
  removePolicy_total : ∀ {s id policyId rule}, oz.getContextRule s id = some rule →
    policyId ∈ rule.policies.map AttachedPolicy.policyId →
    (rule.signers ≠ [] ∨ 1 < rule.policies.length) →
      ∃ s', oz.removePolicy s id policyId = .ok s'
  removePolicy_install : ∀ {s id policyId policy failure},
    oz.removePolicy s id policyId ≠ .error (.install policy failure)
  /-- The signers are stored in the order given. -/
  reconcileSigners_sound : ∀ {s id signers s' rule}, oz.getContextRule s id = some rule →
    oz.reconcileSigners s id signers = .ok s' →
      oz.nextId s' = oz.nextId s ∧
      oz.getContextRule s' = Function.update (oz.getContextRule s) id
        (some { rule with signers := signers })
  reconcileSigners_total : ∀ {s id signers rule}, oz.getContextRule s id = some rule →
    oz.SignersFit signers → (signers ≠ [] ∨ rule.policies ≠ []) →
      ∃ s', oz.reconcileSigners s id signers = .ok s'
  reconcileSigners_install : ∀ {s id signers policy failure},
    oz.reconcileSigners s id signers ≠ .error (.install policy failure)
  updateContextRuleValidUntil_sound : ∀ {env s id validUntil s' rule},
    oz.getContextRule s id = some rule →
    oz.updateContextRuleValidUntil env s id validUntil = .ok s' →
      oz.nextId s' = oz.nextId s ∧
      oz.getContextRule s' = Function.update (oz.getContextRule s) id
        (some { rule with validUntil := validUntil })
  updateContextRuleValidUntil_total : ∀ {env s id validUntil rule},
    oz.getContextRule s id = some rule → notPast env.sequence validUntil →
      ∃ s', oz.updateContextRuleValidUntil env s id validUntil = .ok s'
  updateContextRuleValidUntil_install : ∀ {env s id validUntil policy failure},
    oz.updateContextRuleValidUntil env s id validUntil ≠ .error (.install policy failure)

end Perch.Account
