/-
What a recovery changes in the recovery configuration.

A target keeps the configuration of the document in force, but for the
enrollment of its factor: the factor stays in its pool, under the id and the
commitment that the replacements declare.
-/

import Perch.Zk.Commitments

namespace Perch.Zk

open Machine Recovery Document

variable {host : CompilerHost}

/-- A factor after a rotation: in the same pool, under a declared id. -/
def RotatedZk (enrollments : List ZkEnrollment) (before after : CompiledZkFactor) : Prop :=
  after.pool = before.pool ∧ ∃ enrollment ∈ enrollments, after.enrollmentId = enrollment.id

structure Rotated (enrollments : List ZkEnrollment) (before after : CompiledRecoveryConfig) :
    Prop where
  controller : after.controller = before.controller
  zk : Option.Rel (RotatedZk enrollments) before.zk after.zk

theorem toCompiledZk_rotated (encodes : EncodesHex host.hexEncode) {z : Ir.ZkFactor}
    {enrollment : ZkEnrollment} {before after : CompiledZkFactor}
    (builds : toCompiledZk host z = .ok before)
    (builds' : toCompiledZk host
      { z with
        enrollmentId := (toRotation host enrollment).enrollmentId
        commitment := (toRotation host enrollment).commitment } = .ok after) :
    RotatedZk [enrollment] before after := by
  simp only [toCompiledZk, toRotation, hexBytes32_encode encodes, bind_eq_ok,
    pure_eq_ok] at builds builds'
  obtain ⟨_, -, _, -, pool, located, _, -, _, -, rfl⟩ := builds
  obtain ⟨_, -, _, -, pool', located', id, decoded, _, -, rfl⟩ := builds'
  refine ⟨?_, enrollment, List.mem_singleton_self _, ?_⟩
  · exact Except.ok.inj (located'.symm.trans located)
  · exact (Except.ok.inj decoded).symm

theorem toCompiledMode_rotated (encodes : EncodesHex host.hexEncode)
    {enrollments : List ZkEnrollment} {rotation : Option Ir.ZkRotation}
    (rotated : rotationOf host enrollments = .ok rotation) {mode mode' : Ir.RecoveryMode}
    (rotates : Ir.Rotates mode rotation mode') {before after : CompiledRecoveryConfig}
    (builds : toCompiledMode host mode = .ok before.mode)
    (builds' : toCompiledMode host mode' = .ok after.mode) :
    Option.Rel (RotatedZk enrollments) before.zk after.zk := by
  have single : ∀ turned, rotation = some turned →
      ∃ enrollment, enrollments = [enrollment] ∧ turned = toRotation host enrollment := by
    rintro turned rfl
    match enrollments with
    | [] => cases rotated
    | [only] => exact ⟨only, rfl, (Option.some.inj (pure_eq_ok.mp rotated)).symm⟩
    | _ :: _ :: _ => cases rotated
  unfold CompiledRecoveryConfig.zk
  cases rotates with
  | guardianOnly guardians =>
      simp only [toCompiledMode, bind_eq_ok, pure_eq_ok] at builds builds'
      obtain ⟨_, -, made⟩ := builds
      obtain ⟨_, -, made'⟩ := builds'
      rw [← made, ← made']
      exact .none
  | zkOnly z turned =>
      obtain ⟨enrollment, rfl, rfl⟩ := single turned rfl
      simp only [toCompiledMode, bind_eq_ok, pure_eq_ok] at builds builds'
      obtain ⟨_, builds, made⟩ := builds
      obtain ⟨_, builds', made'⟩ := builds'
      rw [← made, ← made']
      exact .some (toCompiledZk_rotated encodes builds builds')
  | combined guardians z turned =>
      obtain ⟨enrollment, rfl, rfl⟩ := single turned rfl
      simp only [toCompiledMode, bind_eq_ok, pure_eq_ok] at builds builds'
      obtain ⟨_, -, _, builds, made⟩ := builds
      obtain ⟨_, -, _, builds', made'⟩ := builds'
      rw [← made, ← made']
      exact .some (toCompiledZk_rotated encodes builds builds')

/-- A target's configuration is that of the document in force, rotated. -/
theorem derived_rotated (encodes : EncodesHex host.hexEncode)
    {source current target : Ir.PolicyDoc} {action : RecoveryAction}
    {replacements : ReplacementSet} {based compiled : CompiledDoc} {derived : DerivedTarget}
    (derivation : Derivation host source current action replacements target compiled derived)
    (compiles : Compiles host current based) {config : CompiledRecoveryConfig}
    (named : based.recovery.head? = some config) :
    ∃ next, compiled.recovery.head? = some next ∧ derived.configHash = next.configHash ∧
      Rotated replacements.zkEnrollment config next := by
  obtain ⟨act, rotation, -, rotated, walked⟩ := derivation.derives
  obtain ⟨recovery, mode, enrolled, -, rotates, rfl⟩ := Ir.deriveTarget_eq_ok.mp walked
  obtain ⟨next, first, hash⟩ := derivation.config
  obtain ⟨r, recovers, builds⟩ := compiles.recovery_mem (List.mem_of_head? named)
  obtain rfl := Option.some.inj (enrolled.symm.trans recovers)
  obtain ⟨r', recovers', builds'⟩ :=
    (compileParsed_eq_ok derivation.compiles).recovery_mem (List.mem_of_head? first)
  obtain rfl := Option.some.inj recovers'
  refine ⟨next, first, hash, ?_⟩
  simp only [toCompiledRecovery, bind_eq_ok, pure_eq_ok] at builds builds'
  obtain ⟨_, moded, _, -, _, located, rfl⟩ := builds
  obtain ⟨_, moded', _, -, _, located', rfl⟩ := builds'
  exact ⟨Except.ok.inj (located'.symm.trans located),
    toCompiledMode_rotated encodes rotated rotates moded moded'⟩

end Perch.Zk
