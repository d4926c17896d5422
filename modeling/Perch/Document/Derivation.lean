/-
How a recovery target is derived, read back.

A derivation that succeeds compiled its target like any document.  The
credentials it reports replaced are those the source document declares for the
signers the replacements name.
-/

import Perch.Document.Valid

namespace Perch.Document

open Machine Recovery

variable {host : CompilerHost}

def replacedSigners (host : CompilerHost) (source : Ir.PolicyDoc) (replacements : ReplacementSet) :
    List Ir.SignerDecl :=
  source.signers.filter fun s =>
    (replacements.signers.map (toReplacement host)).any fun r => r.signerId = s.id

structure Derivation (host : CompilerHost) (source current : Ir.PolicyDoc)
    (action : RecoveryAction) (replacements : ReplacementSet) (target : Ir.PolicyDoc)
    (compiled : CompiledDoc) (derived : DerivedTarget) : Prop where
  derives : ∃ act rotation, deriveAction action = .ok act ∧
    rotationOf host replacements.zkEnrollment = .ok rotation ∧
    Ir.deriveTarget source current act (replacements.signers.map (toReplacement host)) rotation =
      .ok target
  compiles : compileParsed host target = .ok compiled
  admin : adminSurvives compiled.rules = true
  config : ∃ config, compiled.recovery.head? = some config ∧
    derived.configHash = config.configHash
  replaced : canonicalCredentials host (replacedSigners host source replacements) =
    .ok derived.replaced
  canonical : derived.canonical = compiled.canonical
  docHash : derived.docHash = compiled.docHash
  fingerprints : derived.fingerprints = compiled.fingerprints

theorem deriveTarget_eq_ok {sourceJson currentJson : Bytes} {action : RecoveryAction}
    {replacements : ReplacementSet} {derived : DerivedTarget}
    (derives : deriveTarget host sourceJson currentJson action replacements = .ok derived) :
    ∃ source current target compiled, parse host sourceJson = .ok source ∧
      parse host currentJson = .ok current ∧
      Derivation host source current action replacements target compiled derived := by
  simp only [deriveTarget, bind_eq_ok, mapError_eq_ok, orFail_eq_ok, require_eq_ok,
    pure_eq_ok] at derives
  obtain ⟨act, acts, source, parsed, current, parsed', rotation, rotates, target, walked, compiled,
    compiles, _, admin, config, enrolled, replaced, credentials, rfl⟩ := derives
  exact ⟨source, current, target, compiled, parsed, parsed',
    { derives := ⟨act, rotation, acts, rotates, walked⟩
      compiles := compiles
      admin := admin
      config := ⟨config, enrolled, rfl⟩
      replaced := credentials
      canonical := rfl
      docHash := rfl
      fingerprints := rfl }⟩

/-- The target's canonical bytes compile to the target. -/
theorem Derivation.compileDoc_canonical (conforms : host.lexer.Conforms)
    {source current target : Ir.PolicyDoc} {action : RecoveryAction}
    {replacements : ReplacementSet} {compiled : CompiledDoc} {derived : DerivedTarget}
    (derivation : Derivation host source current action replacements target compiled derived) :
    compileDoc host derived.canonical = .ok compiled := by
  have shape := compileParsed_eq_ok derivation.compiles
  apply compileDoc_eq_ok.mpr
  refine ⟨target, ?_, derivation.compiles⟩
  rw [derivation.canonical, shape.canonical]
  exact parse_canonical conforms (violations_eq_nil.mp shape.valid).1

end Perch.Document
