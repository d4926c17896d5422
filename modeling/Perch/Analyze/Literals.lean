/-
Which string constants reach the solver as they are.

A literal doubles its quotes and escapes nothing else.  A constant survives
exactly when every character of it may stand in a literal and no escape can be
read in it; two constants that both do are told apart.
-/

import Perch.Analyze.Containment
import Perch.Document.LocalHost

namespace Perch.Analyze

open Machine Ir Document

def characters (s : String) : Smt.Str := s.toList.map Char.toNat

/-- The literal of a constant is one, and denotes the constant. -/
def Survives (s : String) : Prop :=
  Smt.isLiteral (smtString s) = true ∧ denoted s = characters s

def stringsOf : ArgPred → List String
  | .stringIn values => values
  | .stringPrefix initial => [initial]
  | _ => []

/-- A document carries a string in a predicate of one of its rules. -/
def Carries (doc : PolicyDoc) (s : String) : Prop :=
  ∃ rule ∈ doc.rules, ∃ constraints, rule.args = some constraints ∧
    ∃ constraint ∈ constraints, s ∈ stringsOf constraint.pred

theorem characters_injective {s t : String} (same : characters s = characters t) : s = t := by
  apply String.toList_inj.mp
  apply List.map_injective_iff.mpr _ same
  intro a b equal
  exact Char.toNat_inj.mp equal

theorem denoted_eq_iff {s : String} : denoted s = characters s ↔ ¬Smt.Escapes s.toList := by
  rw [denoted, smtString, Smt.literal_quoted, characters, Smt.unescape_eq_iff (Nat.le_refl _)]

/-- Which constants survive, and that those are told apart. -/
theorem smtString_survives_iff (s : String) :
    (Survives s ↔ (∀ c ∈ s.toList, Smt.isLiteralChar c = true) ∧ ¬Smt.Escapes s.toList) ∧
    ∀ t : String, ¬Smt.Escapes s.toList → ¬Smt.Escapes t.toList →
      (denoted s = denoted t ↔ s = t) := by
  constructor
  · rw [Survives, denoted_eq_iff, smtString, Smt.isLiteral_quoted, List.all_eq_true]
  · intro t plain plain'
    rw [denoted_eq_iff.mpr plain, denoted_eq_iff.mpr plain']
    exact ⟨characters_injective, congrArg characters⟩

section Sample

def escapedDoc : PolicyDoc where
  version := 1
  network := some "T"
  signers :=
    [{ id := "a"
       method := .delegated "GAAQCAIBAEAQCAIBAEAQCAIBAEAQCAIBAEAQCAIBAEAQCAIBAEAQDZ7H" }]
  rules :=
    [{ name := "ci", scope := .selfAdmin, principals := .all ["a"], functions := none
       args := some [⟨0, .stringIn ["a", "\\u\x7b61\x7d"]⟩], notAfterLedger := none
       cap := none }]
  recovery := none

set_option maxRecDepth 16384 in
/-- A valid document's constant is read as another of its constants. -/
theorem smtString_escaped :
    validate (localHost "T").hexDecode escapedDoc = .ok () ∧ Carries escapedDoc "a" ∧
      Carries escapedDoc "\\u\x7b61\x7d" ∧ ¬Survives "\\u\x7b61\x7d" ∧
      denoted "\\u\x7b61\x7d" = denoted "a" ∧ "\\u\x7b61\x7d" ≠ "a" := by
  have read : denoted "\\u\x7b61\x7d" = [97] := by decide
  have plain : denoted "a" = [97] := by decide
  have differ : ("\\u\x7b61\x7d" : String) ≠ "a" := by decide
  refine ⟨by decide, ?_, ?_, ?_, read.trans plain.symm, differ⟩
  · exact ⟨_, List.mem_singleton_self _, _, rfl, _, List.mem_singleton_self _, by decide⟩
  · exact ⟨_, List.mem_singleton_self _, _, rfl, _, List.mem_singleton_self _, by decide⟩
  · intro survives
    have letters : characters "\\u\x7b61\x7d" = [92, 117, 123, 54, 49, 125] := by decide
    rw [survives.2, letters] at read
    cases read

end Sample

end Perch.Analyze
