/-
Attenuation: a child document that only narrows its parent.

A child's rule is covered by one rule of the parent on the same scope whose
functions include all of the child's.  A compiled rule has one allowlist under
one conjunction, so that what the child authorizes is within its own report and
from there within the parent's.
-/

import Perch.Compile.Reach

namespace Perch.Compile

open Machine Ir Program Document

/-! ### The check -/

inductive AttenuationError
  | notANarrowing (rule : String)
  | compile (error : LowerError)
deriving DecidableEq

structure Attenuation where
  parentHash : Bytes32
  childHash : Bytes32
deriving DecidableEq

/-- A specific set covers its subsets, and never any function. -/
def fnCovers : FnSet → FnSet → Bool
  | .any, _ => true
  | .only _, .any => false
  | .only parent, .only child => child.all fun name => name ∈ parent

/-- Some reported rule of the parent covers the child's. -/
def covered (parentReach : List ReachableScope) (child : ReachableScope) : Bool :=
  parentReach.any fun parent =>
    decide (parent.scope = child.scope) && fnCovers parent.functions child.functions

def isNarrowing (parent child : Plan) : Except AttenuationError Unit :=
  forM (reachableCalls child) fun report =>
    require (covered (reachableCalls parent) report = true) (.notANarrowing report.rule)

section

variable (host : LowerHost)

def docHashOnchain (doc : PolicyDoc) : Bytes32 := host.sha256 (utf8 (canonicalJson doc))

def attenuate (parent child : PolicyDoc) (interpreterWasmHash : Bytes32) :
    Except AttenuationError Attenuation := do
  let parentPlan ← (compile host parent interpreterWasmHash).mapError .compile
  let childPlan ← (compile host child interpreterWasmHash).mapError .compile
  isNarrowing parentPlan childPlan
  pure { parentHash := docHashOnchain host parent, childHash := docHashOnchain host child }

end

/-! ### Coverage -/

def FnSet.Within (child parent : FnSet) : Prop :=
  ∀ function, child.Holds function → parent.Holds function

theorem FnSet.Within.trans {first second third : FnSet} (inner : first.Within second)
    (outer : second.Within third) : first.Within third :=
  fun function holds => outer function (inner function holds)

theorem fnCovers_iff {parent child : FnSet} :
    fnCovers parent child = true ↔ child.Within parent := by
  cases parent with
  | any => simp [fnCovers, FnSet.Within, FnSet.Holds]
  | only names =>
      cases child with
      | any =>
          obtain ⟨function, fresh⟩ := exists_fresh names
          simp only [fnCovers, Bool.false_eq_true, false_iff]
          intro within
          exact fresh (within function trivial)
      | only names' => simp [fnCovers, FnSet.Within, FnSet.Holds]

/-- One rule of a plan reaches everything another rule does. -/
def Covers (parent : Plan) (rule : LoweredRule) : Prop :=
  ∃ wider ∈ parent.rules, wider.scope = rule.scope ∧
    (ruleFunctions rule).Within (ruleFunctions wider)

theorem covered_iff {parent : Plan} {rule : LoweredRule} :
    covered (reachableCalls parent)
        { rule := rule.name, scope := rule.scope, functions := ruleFunctions rule } = true ↔
      Covers parent rule := by
  simp only [covered, reachableCalls, List.any_map, List.any_eq_true, Function.comp_apply,
    Bool.and_eq_true, decide_eq_true_iff, fnCovers_iff, Covers]

theorem isNarrowing_eq_ok {parent child : Plan} {done : Unit} :
    isNarrowing parent child = .ok done ↔ ∀ rule ∈ child.rules, Covers parent rule := by
  rw [isNarrowing, reachableCalls]
  induction child.rules with
  | nil => simp [List.forM_nil, pure_eq_ok]
  | cons rule rest ih =>
      rw [List.map_cons, List.forM_cons, bind_eq_ok, List.forall_mem_cons]
      simp only [require_eq_ok, covered_iff, ih, exists_const]

/-- The check fails at a rule that is not covered, and only with its name. -/
theorem isNarrowing_eq_error {parent child : Plan} {error : AttenuationError}
    (refused : isNarrowing parent child = .error error) :
    ∃ rule ∈ child.rules, ¬Covers parent rule ∧ error = .notANarrowing rule.name := by
  rw [isNarrowing, reachableCalls] at refused
  generalize child.rules = rules at refused ⊢
  induction rules with
  | nil => cases refused
  | cons rule rest ih =>
      rw [List.map_cons, List.forM_cons, bind_eq_error, require_eq_error] at refused
      rcases refused with ⟨uncovered, rfl⟩ | ⟨_, _, later⟩
      · exact ⟨rule, List.mem_cons_self, fun covers => uncovered (covered_iff.mpr covers), rfl⟩
      · obtain ⟨other, member, uncovered, same⟩ := ih later
        exact ⟨other, List.mem_cons_of_mem _ member, uncovered, same⟩

theorem isNarrowing_refl (plan : Plan) : isNarrowing plan plan = .ok () :=
  isNarrowing_eq_ok.mpr fun rule member => ⟨rule, member, rfl, fun _ holds => holds⟩

theorem isNarrowing_trans {first second third : Plan}
    (outer : isNarrowing first second = .ok ()) (inner : isNarrowing second third = .ok ()) :
    isNarrowing first third = .ok () := by
  rw [isNarrowing_eq_ok] at outer inner ⊢
  intro rule member
  obtain ⟨middle, listed, sameScope, within⟩ := inner rule member
  obtain ⟨wider, listed', sameScope', within'⟩ := outer middle listed
  exact ⟨wider, listed', sameScope'.trans sameScope, within.trans within'⟩

/-! ### Documents -/

section Documents

variable {hexDecode : String → Option Bytes} {host : LowerHost} {interpreterWasmHash : Bytes32}
  {parent child : PolicyDoc}

theorem attenuate_eq_ok {link : Attenuation}
    (attenuates : attenuate host parent child interpreterWasmHash = .ok link) :
    ∃ parentPlan childPlan, compile host parent interpreterWasmHash = .ok parentPlan ∧
      compile host child interpreterWasmHash = .ok childPlan ∧
      isNarrowing parentPlan childPlan = .ok () := by
  simp only [attenuate, bind_eq_ok, mapError_eq_ok, pure_eq_ok] at attenuates
  obtain ⟨parentPlan, compiles, childPlan, compiles', _, narrows, _⟩ := attenuates
  exact ⟨parentPlan, childPlan, compiles, compiles', narrows⟩

/-- An attenuation is refused as no narrowing by the check alone. -/
theorem attenuate_refuses {name : String} :
    attenuate host parent child interpreterWasmHash = .error (.notANarrowing name) ↔
      ∃ parentPlan childPlan, compile host parent interpreterWasmHash = .ok parentPlan ∧
        compile host child interpreterWasmHash = .ok childPlan ∧
        isNarrowing parentPlan childPlan = .error (.notANarrowing name) := by
  unfold attenuate
  cases compile host parent interpreterWasmHash with
  | error error => simp [Except.mapError, bind, Except.bind]
  | ok parentPlan =>
      cases compile host child interpreterWasmHash with
      | error error => simp [Except.mapError, bind, Except.bind]
      | ok childPlan =>
          have narrows : (isNarrowing parentPlan childPlan >>= fun _ =>
              (pure ⟨docHashOnchain host parent, docHashOnchain host child⟩ :
                Except AttenuationError Attenuation)) = .error (.notANarrowing name) ↔
              isNarrowing parentPlan childPlan = .error (.notANarrowing name) := by
            simp only [bind_eq_error, pure_ne_error, and_false, exists_false, or_false]
          simpa [Except.mapError] using narrows

end Documents

/-- An attenuation is sound, and narrowing is an order; it is refused exactly
when a child's rule reaches more than every single rule of the parent. -/
theorem attenuation_sound {hexDecode : String → Option Bytes} {host : LowerHost}
    {interpreterWasmHash : Bytes32} :
    (∀ parent child : PolicyDoc, validate hexDecode parent = .ok () →
      validate hexDecode child = .ok () →
      (∀ link, attenuate host parent child interpreterWasmHash = .ok link →
        ∃ parentPlan childPlan, compile host parent interpreterWasmHash = .ok parentPlan ∧
          compile host child interpreterWasmHash = .ok childPlan ∧
          ∀ rule ∈ childPlan.rules, ∀ (vals : TryFromVal) (asked : Question),
            rule.authorizes host vals asked = true →
            ∃ wider ∈ reachableCalls parentPlan, wider.scope = rule.scope ∧
              wider.functions.Holds asked.call.fnName) ∧
      ((∃ name, attenuate host parent child interpreterWasmHash = .error (.notANarrowing name)) ↔
        ∃ parentPlan childPlan, compile host parent interpreterWasmHash = .ok parentPlan ∧
          compile host child interpreterWasmHash = .ok childPlan ∧
          ∃ report ∈ reachableCalls childPlan, ∀ wider ∈ reachableCalls parentPlan,
            ¬(wider.scope = report.scope ∧ report.functions.Within wider.functions))) ∧
    (∀ plan : Plan, isNarrowing plan plan = .ok ()) ∧
    ∀ first second third : Plan, isNarrowing first second = .ok () →
      isNarrowing second third = .ok () → isNarrowing first third = .ok () := by
  refine ⟨?_, isNarrowing_refl, fun _ _ _ => isNarrowing_trans⟩
  intro parent child _ validChild
  constructor
  · intro link attenuates
    obtain ⟨parentPlan, childPlan, compiles, compiles', narrows⟩ := attenuate_eq_ok attenuates
    refine ⟨parentPlan, childPlan, compiles, compiles', ?_⟩
    intro rule member vals asked authorized
    obtain ⟨wider, listed, sameScope, within⟩ := isNarrowing_eq_ok.mp narrows rule member
    have bounded := compile_bounds validChild compiles' rule member vals asked authorized
    exact ⟨_, List.mem_map_of_mem listed, sameScope, within _ bounded⟩
  · constructor
    · rintro ⟨name, refused⟩
      obtain ⟨parentPlan, childPlan, compiles, compiles', refused⟩ := attenuate_refuses.mp refused
      obtain ⟨rule, member, uncovered, _⟩ := isNarrowing_eq_error refused
      refine ⟨parentPlan, childPlan, compiles, compiles', _, List.mem_map_of_mem member, ?_⟩
      intro wider listed covers
      obtain ⟨other, there, rfl⟩ := List.mem_map.mp listed
      exact uncovered ⟨other, there, covers⟩
    · rintro ⟨parentPlan, childPlan, compiles, compiles', report, listed, uncovered⟩
      obtain ⟨rule, member, rfl⟩ := List.mem_map.mp listed
      cases checked : isNarrowing parentPlan childPlan with
      | ok done =>
          obtain ⟨wider, listed, covers⟩ := isNarrowing_eq_ok.mp checked rule member
          exact absurd covers (uncovered _ (List.mem_map_of_mem listed))
      | error error =>
          obtain ⟨other, _, _, rfl⟩ := isNarrowing_eq_error checked
          exact ⟨other.name, attenuate_refuses.mpr
            ⟨parentPlan, childPlan, compiles, compiles', checked⟩⟩

end Perch.Compile
