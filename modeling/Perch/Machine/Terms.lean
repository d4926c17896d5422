/-
Terms and the stack programs that spell them.

A term is spelled operands first.  Running the spelling over a stack leaves the
term's value, and a run that leaves one value has read exactly one term, so a
spelling has one reading.
-/

import Mathlib.Data.List.Basic

namespace Perch.Machine

variable {ω α : Type}

inductive Term (ω : Type)
  | node (op : ω) (args : List (Term ω))

namespace Term

theorem ind {motive : Term ω → Prop}
    (node : ∀ op args, (∀ arg ∈ args, motive arg) → motive (node op args)) (term : Term ω) :
    motive term :=
  @Term.rec ω motive (fun args => ∀ arg ∈ args, motive arg) node
    (fun _ member => absurd member List.not_mem_nil)
    (fun _ _ first rest => List.forall_mem_cons.mpr ⟨first, rest⟩) term

/-! ### Spellings -/

mutual

def code : Term ω → List ω
  | node op args => codes args ++ [op]

def codes : List (Term ω) → List ω
  | [] => []
  | first :: rest => code first ++ codes rest

end

theorem codes_append (first second : List (Term ω)) :
    codes (first ++ second) = codes first ++ codes second := by
  induction first with
  | nil => rfl
  | cons term rest ih => rw [List.cons_append, codes, codes, ih, List.append_assoc]

/-! ### Values -/

mutual

def value (apply : ω → List α → α) : Term ω → α
  | node op args => apply op (values apply args)

def values (apply : ω → List α → α) : List (Term ω) → List α
  | [] => []
  | first :: rest => value apply first :: values apply rest

end

theorem values_eq_map (apply : ω → List α → α) (args : List (Term ω)) :
    values apply args = args.map (value apply) := by
  induction args with
  | nil => rfl
  | cons first rest ih => rw [values, List.map_cons, ih]

theorem value_node_eq (apply : ω → List α → α) (op : ω) (args : List (Term ω)) :
    value apply (node op args) = apply op (args.map (value apply)) := by
  rw [value, values_eq_map]

theorem value_node (term : Term ω) : value node term = term := by
  induction term using ind with
  | node op args each =>
      rw [value_node_eq, List.map_congr_left each, List.map_id']

/-! ### Running a spelling -/

variable (arity : ω → Nat)

inductive Fits : Term ω → Prop
  | node {op : ω} {args : List (Term ω)} (size : args.length = arity op)
      (each : ∀ arg ∈ args, Fits arg) : Fits (node op args)

/-- An op takes its operands off the stack, whose top is the list's head, and
puts its value there. -/
def reduce (apply : ω → List α → α) (stack : List α) (op : ω) : Option (List α) :=
  if stack.length < arity op then none
  else some (apply op (stack.take (arity op)).reverse :: stack.drop (arity op))

variable {arity} {apply : ω → List α → α}

theorem run_codes {args : List (Term ω)} {stack : List α}
    (each : ∀ arg ∈ args, ∀ stack : List α,
      arg.code.foldlM (reduce arity apply) stack = some (arg.value apply :: stack)) :
    (codes args).foldlM (reduce arity apply) stack =
      some ((args.map (value apply)).reverse ++ stack) := by
  induction args generalizing stack with
  | nil => rfl
  | cons first rest ih =>
      rw [List.forall_mem_cons] at each
      rw [codes, List.foldlM_append, each.1 stack]
      change (codes rest).foldlM (reduce arity apply) (value apply first :: stack) = _
      rw [ih each.2, List.map_cons, List.reverse_cons, List.append_assoc]
      rfl

/-- A spelling leaves the term's value on the stack. -/
theorem run_code {term : Term ω} (fits : term.Fits arity) (stack : List α) :
    term.code.foldlM (reduce arity apply) stack = some (term.value apply :: stack) := by
  induction term using ind generalizing stack with
  | node op args each =>
      cases fits with
      | node size fit =>
          have spelled : (args.map (value apply)).length = arity op := by
            rw [List.length_map, size]
          have enough : ¬((args.map (value apply)).reverse ++ stack).length < arity op := by
            rw [List.length_append, List.length_reverse]
            omega
          rw [code, List.foldlM_append, run_codes
            fun arg member => each arg member (fit arg member)]
          change reduce arity apply ((args.map (value apply)).reverse ++ stack) op >>= some = _
          rw [reduce, if_neg enough, value_node_eq]
          rw [List.take_left' (by rw [List.length_reverse, spelled]),
            List.drop_left' (by rw [List.length_reverse, spelled]), List.reverse_reverse]
          rfl

theorem code_injective {first second : Term ω} (fits : first.Fits arity)
    (fits' : second.Fits arity) (same : first.code = second.code) : first = second := by
  have read : first.code.foldlM (reduce arity node) [] = some [first.value node] := run_code fits []
  rw [same, run_code fits' [], value_node, value_node] at read
  exact (List.cons.inj (Option.some.inj read)).1.symm

/-! ### Reading a program -/

theorem exists_reduce {terms : List (Term ω)} {op : ω} {after : List α}
    (reduced : reduce arity apply (terms.map (value apply)) op = some after) :
    ∃ terms', reduce arity node terms op = some terms' ∧ after = terms'.map (value apply) := by
  unfold reduce at reduced ⊢
  rw [List.length_map] at reduced
  split at reduced
  · cases reduced
  next enough =>
    rw [if_neg enough]
    refine ⟨_, rfl, ?_⟩
    rw [← Option.some.inj reduced, List.map_cons, value_node_eq, List.map_reverse, List.map_take,
      List.map_drop]

/-- One op more is read into the terms on the stack. -/
theorem reduce_node {terms terms' : List (Term ω)} {op : ω}
    (fit : ∀ term ∈ terms, term.Fits arity) (reduced : reduce arity node terms op = some terms') :
    (∀ term ∈ terms', term.Fits arity) ∧
      codes terms'.reverse = codes terms.reverse ++ [op] := by
  unfold reduce at reduced
  split at reduced
  · cases reduced
  next enough =>
    cases reduced
    constructor
    · rw [List.forall_mem_cons]
      refine ⟨.node ?_ fun arg member => ?_, fun term member => ?_⟩
      · rw [List.length_reverse, List.length_take]
        omega
      · exact fit arg (List.mem_of_mem_take (List.mem_reverse.mp member))
      · exact fit term (List.mem_of_mem_drop member)
    · have parts : terms.reverse =
          (terms.drop (arity op)).reverse ++ (terms.take (arity op)).reverse := by
        rw [← List.reverse_append, List.take_append_drop]
      rw [List.reverse_cons, codes_append, parts, codes_append, codes, codes, code,
        List.append_nil, List.append_assoc]

theorem exists_run {ops : List ω} {terms : List (Term ω)} {after : List α}
    (fit : ∀ term ∈ terms, term.Fits arity)
    (ran : ops.foldlM (reduce arity apply) (terms.map (value apply)) = some after) :
    ∃ terms' : List (Term ω), (∀ term ∈ terms', term.Fits arity) ∧
      codes terms'.reverse = codes terms.reverse ++ ops ∧ after = terms'.map (value apply) := by
  induction ops generalizing terms with
  | nil =>
      cases ran
      exact ⟨terms, fit, (List.append_nil _).symm, rfl⟩
  | cons op rest ih =>
      rw [List.foldlM_cons, Option.bind_eq_bind, Option.bind_eq_some_iff] at ran
      obtain ⟨between, reduced, ran⟩ := ran
      obtain ⟨terms', reduced', rfl⟩ := exists_reduce reduced
      obtain ⟨fit', spelled⟩ := reduce_node fit reduced'
      obtain ⟨terms'', fit'', spelled', values⟩ := ih fit' ran
      refine ⟨terms'', fit'', ?_, values⟩
      rw [spelled', spelled, List.append_assoc]
      rfl

/-- A program that leaves one value spells one term, with that value. -/
theorem exists_term {ops : List ω} {root : α}
    (ran : ops.foldlM (reduce arity apply) [] = some [root]) :
    ∃ term : Term ω, term.Fits arity ∧ term.code = ops ∧ term.value apply = root := by
  have none : ∀ term ∈ ([] : List (Term ω)), term.Fits arity := nofun
  obtain ⟨terms, fit, spelled, values⟩ := exists_run none ran
  obtain ⟨term, rest, rfl, value, single⟩ := List.map_eq_cons_iff.mp values.symm
  obtain rfl := List.map_eq_nil_iff.mp single
  refine ⟨term, fit term List.mem_cons_self, ?_, value⟩
  rw [List.reverse_singleton, codes, codes, List.append_nil] at spelled
  exact spelled

end Term

end Perch.Machine
