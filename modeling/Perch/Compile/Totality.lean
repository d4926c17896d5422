/-
When a valid rule lowers.

Validation leaves three ways to fail: principals that are not signers, an
address the host cannot resolve, and a program too large for the interpreter's
stack.
-/

import Perch.Compile.Meaning
import Perch.Document.Addresses

namespace Perch.Compile

open Machine Ir Program Document

/-! ### Conjunctions the interpreter accepts -/

theorem stackEffect_leaf {depth : Nat} {op : Op} (leaf : pops op = .ok 0) :
    stackEffect depth op =
      if maxStackDepth < depth + 1 then .error .stackOverflow else .ok (depth + 1) := by
  simp only [stackEffect, leaf, ok_bind, Nat.not_lt_zero, if_false, Nat.sub_zero]

theorem foldlM_leaves {leaves : List Op} {depth : Nat} (leaf : ∀ op ∈ leaves, pops op = .ok 0)
    (room : depth ≤ maxStackDepth) :
    leaves.foldlM stackEffect depth =
      if maxStackDepth < depth + leaves.length then .error .stackOverflow
      else .ok (depth + leaves.length) := by
  induction leaves generalizing depth with
  | nil =>
      rw [List.foldlM_nil, List.length_nil, Nat.add_zero, if_neg (Nat.not_lt.mpr room)]
      rfl
  | cons op rest ih =>
      rw [List.foldlM_cons, stackEffect_leaf (leaf op List.mem_cons_self), List.length_cons]
      by_cases full : maxStackDepth < depth + 1
      · rw [if_pos full, if_pos (by omega)]
        rfl
      · rw [if_neg full, ok_bind, ih (fun op member => leaf op (List.mem_cons_of_mem _ member))
          (Nat.not_lt.mp full), Nat.add_assoc, Nat.add_comm 1]

theorem validate_conjunction_iff {leaves : List Op} (leaf : ∀ op ∈ leaves, pops op = .ok 0)
    (nonempty : leaves ≠ []) :
    RpnProgram.validate ⟨programVersion, leaves ++ [.all (UInt32.ofNat leaves.length)]⟩ = .ok () ↔
      leaves.length ≤ maxStackDepth := by
  have some := List.length_pos_iff.mpr nonempty
  have named : leaves ++ [Op.all (UInt32.ofNat leaves.length)] ≠ [] := by simp
  have depths := foldlM_leaves leaf (Nat.zero_le maxStackDepth)
  rw [Nat.zero_add] at depths
  constructor
  · intro valid
    unfold RpnProgram.validate at valid
    rw [if_neg (not_not.mpr rfl), if_neg named] at valid
    split at valid
    · cases valid
    · rw [List.foldlM_append, depths] at valid
      split at valid
      · cases valid
      next fits => exact Nat.not_lt.mp fits
  · intro fits
    have counted : (UInt32.ofNat leaves.length).toNat = leaves.length := by
      apply UInt32.toNat_ofNat_of_lt'
      exact Nat.lt_of_le_of_lt fits (by decide)
    have positive : UInt32.ofNat leaves.length ≠ 0 := by
      intro zero
      rw [zero] at counted
      change 0 = leaves.length at counted
      omega
    have popped : stackEffect leaves.length (.all (UInt32.ofNat leaves.length)) = .ok 1 := by
      simp only [stackEffect, pops_all, if_neg positive, ok_bind, counted, Nat.lt_irrefl, if_false,
        Nat.sub_self]
      rfl
    unfold RpnProgram.validate
    have small : ¬maxProgramLen < (leaves ++ [Op.all (UInt32.ofNat leaves.length)]).length := by
      rw [List.length_append, List.length_singleton]
      simp only [maxStackDepth] at fits
      simp only [maxProgramLen]
      omega
    rw [if_neg (not_not.mpr rfl), if_neg named, if_neg small, List.foldlM_append, depths,
      if_neg (Nat.not_lt.mpr fits), ok_bind, List.foldlM_cons, popped]
    rfl

/-! ### Programs -/

def leafCount (rule : Rule) : Nat :=
  1 + rule.functions.toList.length + (rule.args.getD []).length

variable {hexDecode : String → Option Bytes} {host : LowerHost} {doc : PolicyDoc} {rule : Rule}

theorem functionLeaves_length {leaves : List Op} (lowers : functionLeaves rule = .ok leaves) :
    leaves.length = rule.functions.toList.length ∧ ∀ op ∈ leaves, pops op = .ok 0 := by
  cases listed : rule.functions with
  | none =>
      simp only [functionLeaves, listed, Except.ok.injEq] at lowers
      simp [← lowers]
  | some names =>
      simp only [functionLeaves, listed, bind_eq_ok, Except.ok.injEq] at lowers
      obtain ⟨symbols, _, rfl⟩ := lowers
      constructor
      · rfl
      · intro op member
        rw [List.mem_singleton] at member
        rw [member]
        rfl

theorem lowerArgPred_leaf {constraint : ArgConstraint} {op : Op}
    (lowers : lowerArgPred host constraint = .ok op) : pops op = .ok 0 := by
  unfold lowerArgPred at lowers
  split at lowers
  · cases lowers
    rfl
  · simp only [bind_eq_ok, Except.ok.injEq] at lowers
    obtain ⟨_, _, rfl⟩ := lowers
    rfl
  all_goals
    cases lowers
    rfl

theorem argLeaves_length {leaves : List Op} (lowers : argLeaves host rule = .ok leaves) :
    leaves.length = (rule.args.getD []).length ∧ ∀ op ∈ leaves, pops op = .ok 0 := by
  cases listed : rule.args with
  | none =>
      simp only [argLeaves, listed, Except.ok.injEq] at lowers
      simp [← lowers]
  | some constraints =>
      simp only [argLeaves, listed] at lowers
      have aligned := mapM_eq_ok lowers
      refine ⟨aligned.length_eq.symm, ?_⟩
      intro op member
      obtain ⟨_, _, lowered⟩ := exists_of_mem_left aligned.flip member
      exact lowerArgPred_leaf lowered

theorem buildProgram_leaves {least : UInt32} {functions args : List Op}
    (lowers : functionLeaves rule = .ok functions) (lowers' : argLeaves host rule = .ok args) :
    (Op.minSigners (max least 1) :: (functions ++ args)).length = leafCount rule ∧
      ∀ op ∈ Op.minSigners (max least 1) :: (functions ++ args), pops op = .ok 0 := by
  obtain ⟨length, leaf⟩ := functionLeaves_length lowers
  obtain ⟨length', leaf'⟩ := argLeaves_length lowers'
  constructor
  · rw [List.length_cons, List.length_append, length, length', leafCount]
    omega
  · simp only [List.forall_mem_cons, List.forall_mem_append]
    exact ⟨rfl, leaf, leaf'⟩

/-- A rule's program is built exactly when its functions and predicates lower
and fit the stack. -/
theorem buildProgram_ok_iff {least : UInt32} :
    (∃ program, buildProgram host rule least = .ok program) ↔
      (∃ leaves, functionLeaves rule = .ok leaves) ∧ (∃ leaves, argLeaves host rule = .ok leaves) ∧
        leafCount rule ≤ maxStackDepth := by
  simp only [buildProgram_eq, bind_eq_ok, mapError_eq_ok, Except.ok.injEq]
  constructor
  · rintro ⟨program, functions, lowers, args, lowers', _, valid, _⟩
    obtain ⟨length, leaf⟩ := @buildProgram_leaves host rule least _ _ lowers lowers'
    refine ⟨⟨functions, lowers⟩, ⟨args, lowers'⟩, ?_⟩
    rw [← length]
    exact (validate_conjunction_iff leaf (by simp)).mp valid
  · rintro ⟨⟨functions, lowers⟩, ⟨args, lowers'⟩, fits⟩
    obtain ⟨length, leaf⟩ := @buildProgram_leaves host rule least _ _ lowers lowers'
    rw [← length] at fits
    exact ⟨_, functions, lowers, args, lowers', (),
      (validate_conjunction_iff leaf (by simp)).mpr fits, rfl⟩

/-! ### Rules -/

theorem symbolNew_ok {name : String} (valid : isValidSymbol name = true) :
    symbolNew name = .ok name := by
  simp only [isValidSymbol, Bool.and_eq_true, decide_eq_true_eq] at valid
  unfold symbolNew
  rw [if_pos ⟨valid.1.2, valid.2⟩]

theorem functionLeaves_ok (symbols : ∀ names, rule.functions = some names →
    ∀ name ∈ names, isValidSymbol name = true) : ∃ leaves, functionLeaves rule = .ok leaves := by
  unfold functionLeaves
  cases listed : rule.functions with
  | none => exact ⟨[], rfl⟩
  | some names =>
      obtain ⟨made, makes⟩ := mapM_ok_of_forall fun name member =>
        (⟨name, symbolNew_ok (symbols names listed name member)⟩ :
          ∃ symbol, symbolNew name = .ok symbol)
      exact ⟨_, bind_eq_ok.mpr ⟨made, makes, rfl⟩⟩

theorem argLeaves_ok (decoded : ∀ constraints, rule.args = some constraints →
    ∀ constraint ∈ constraints, ∀ address, constraint.pred = .addressEq address →
      host.addressFromStr address ≠ none) : ∃ leaves, argLeaves host rule = .ok leaves := by
  unfold argLeaves
  cases listed : rule.args with
  | none => exact ⟨[], rfl⟩
  | some constraints =>
      refine mapM_ok_of_forall ?_
      intro constraint member
      unfold lowerArgPred
      cases kind : constraint.pred with
      | addressEq address =>
          have known := decoded constraints listed constraint member address kind
          obtain ⟨resolved, resolves⟩ := Option.ne_none_iff_exists'.mp known
          exact ⟨_, bind_eq_ok.mpr ⟨resolved, orFail_eq_ok.mpr resolves, rfl⟩⟩
      | _ => exact ⟨_, rfl⟩

theorem validateCap_parses {name : String} {scope : Scope} {cap : CapConstraint}
    (silent : validateCap name scope cap = []) : ∃ lowered, lowerCap name cap = .ok lowered := by
  simp only [validateCap, List.append_eq_nil_iff, reportIf_eq_nil] at silent
  unfold lowerCap
  cases parsed : parseI128 cap.limit with
  | none => simp [parsed] at silent
  | some limit => exact ⟨_, rfl⟩

theorem resolveSigner_ok {name id : String} (declared : id ∈ doc.signers.map SignerDecl.id) :
    ∃ spec, resolveSigner doc name id = .ok spec := by
  obtain ⟨decl, member, rfl⟩ := List.mem_map.mp declared
  unfold resolveSigner
  cases found : doc.signers.find? fun other => other.id = decl.id with
  | none => simpa using List.find?_eq_none.mp found decl member
  | some other => cases kind : other.method <;> simp [kind]

theorem resolveSigners_ok {name : String} {ids : List String}
    (declared : ∀ id ∈ ids, id ∈ doc.signers.map SignerDecl.id) :
    ∃ specs, ids.mapM (resolveSigner doc name) = .ok specs :=
  mapM_ok_of_forall fun id member => @resolveSigner_ok doc name id (declared id member)

theorem lowerCap_ok {declared : List String} (valid : validateRule hexDecode declared rule = []) :
    ∃ cap, rule.cap.mapM (lowerCap rule.name) = .ok cap := by
  simp only [validateRule, List.append_eq_nil_iff] at valid
  cases asked : rule.cap with
  | none => exact ⟨none, rfl⟩
  | some cap =>
      rw [asked] at valid
      obtain ⟨lowered, lowers⟩ := validateCap_parses valid.2
      exact ⟨some lowered, by rw [Option.mapM_some, lowers]; rfl⟩

/-- A valid rule of signers lowers, if its addresses resolve and it fits. -/
theorem lowerRule_total {ids : List String} {least : UInt32}
    (valid : validateRule hexDecode (doc.signers.map SignerDecl.id) rule = [])
    (asks : quorum rule = .ok (ids, least))
    (declared : ∀ id ∈ ids, id ∈ doc.signers.map SignerDecl.id)
    (decoded : ∀ constraints, rule.args = some constraints → ∀ constraint ∈ constraints,
      ∀ address, constraint.pred = .addressEq address → host.addressFromStr address ≠ none)
    (fits : leafCount rule ≤ maxStackDepth) : ∃ lowered, lowerRule host doc rule = .ok lowered := by
  obtain ⟨signers, resolved⟩ := @resolveSigners_ok doc rule.name ids declared
  obtain ⟨cap, capped⟩ := lowerCap_ok valid
  obtain ⟨program, built⟩ := buildProgram_ok_iff.mpr ⟨functionLeaves_ok
    (validateRule_functions valid), argLeaves_ok decoded, fits⟩
  obtain ⟨last, dated⟩ : ∃ last, lastLedger rule.notAfterLedger = .ok last := by
    have live := (validateRule_eq_nil valid).live
    cases bound : rule.notAfterLedger with
    | none => exact ⟨none, rfl⟩
    | some first =>
        have nonzero : first ≠ 0 := fun zero => live (zero ▸ bound)
        exact ⟨_, if_neg nonzero⟩
  unfold lowerRule
  simp only [asks, resolved, capped, dated, ok_bind]
  split
  · exact ⟨_, rfl⟩
  · rw [built]
    exact ⟨_, rfl⟩

end Perch.Compile
