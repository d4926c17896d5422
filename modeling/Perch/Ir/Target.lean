/-
What a derivation changes.

Guardians approve a target nobody reads in full, so the target has to be the
source with the declared replacements and nothing else.  Replacement ids are
distinct, so each one is checked against the source's own declaration although
the loop has already written over others.
-/

import Perch.Ir.Derive
import Perch.Machine.Fallible

namespace Perch.Ir

/-! ### Order -/

theorem ascending_eq_true {ids : List Bytes} :
    ascending ids = true ↔ ids.Pairwise (· < ·) := by
  rw [← List.isChain_iff_pairwise]
  induction ids with
  | nil => simp [ascending]
  | cons first rest ih =>
      cases rest with
      | nil => simp [ascending]
      | cons second rest =>
          rw [ascending, List.isChain_cons_cons, Bool.and_eq_true, decide_eq_true_eq, ih]

theorem ids_nodup {replacements : List Replacement}
    (ordered : (replacements.map fun r => utf8 r.signerId).Pairwise (· < ·)) :
    (replacements.map (·.signerId)).Nodup := by
  have distinct : (replacements.map fun r => utf8 r.signerId).Nodup := by
    refine List.Pairwise.imp ?_ ordered
    rintro id _ less rfl
    exact List.lt_irrefl id less
  have texts : (replacements.map fun r => utf8 r.signerId) =
      (replacements.map (·.signerId)).map utf8 := by simp
  rw [texts] at distinct
  exact List.Nodup.of_map utf8 distinct

/-! ### One replacement -/

/-- Credentials of one kind; external ones under one verifier. -/
inductive SameKind : SignerMethod → SignerMethod → Prop
  | external (verifier key key' : String) :
      SameKind (.external verifier key) (.external verifier key')
  | delegated (address address' : String) : SameKind (.delegated address) (.delegated address')

theorem sameKind_eq_true {old new : SignerMethod} : sameKind old new = true ↔ SameKind old new := by
  constructor
  · intro same
    cases old with
    | external verifier key =>
        cases new with
        | external verifier' key' =>
            have verifiers : verifier = verifier' := by simpa [sameKind] using same
            subst verifiers
            exact .external verifier key key'
        | delegated => cases same
    | delegated address =>
        cases new with
        | external => cases same
        | delegated address' => exact .delegated address address'
  · intro same
    cases same with
    | external => simp [sameKind]
    | delegated => rfl

def declared (signers : List SignerDecl) (id : String) : Option SignerDecl :=
  signers.find? fun decl => decl.id = id

theorem declared_cons (first : SignerDecl) (rest : List SignerDecl) (id : String) :
    declared (first :: rest) id = if first.id = id then some first else declared rest id := by
  by_cases own : first.id = id
  · simp [declared, own]
  · simp [declared, own]

theorem declared_id {signers : List SignerDecl} {id : String} {decl : SignerDecl}
    (found : declared signers id = some decl) : decl.id = id := by
  have holds := List.find?_some found
  simpa using holds

section SetMethod

variable {id : String} {method : SignerMethod} {signers : List SignerDecl}

theorem setMethod_ids (id : String) (method : SignerMethod) (signers : List SignerDecl) :
    (setMethod id method signers).map (·.id) = signers.map (·.id) := by
  induction signers with
  | nil => rfl
  | cons first rest ih =>
      unfold setMethod
      split
      · rfl
      · rw [List.map_cons, List.map_cons, ih]

theorem declared_setMethod_self {decl : SignerDecl} (found : declared signers id = some decl) :
    declared (setMethod id method signers) id = some { decl with method := method } := by
  induction signers with
  | nil => cases found
  | cons first rest ih =>
      rw [declared_cons] at found
      unfold setMethod
      by_cases own : first.id = id
      · rw [if_pos own] at found ⊢
        cases found
        rw [declared_cons, if_pos own]
      · rw [if_neg own] at found ⊢
        rw [declared_cons, if_neg own]
        exact ih found

theorem declared_setMethod_of_ne {other : String} (distinct : other ≠ id) :
    declared (setMethod id method signers) other = declared signers other := by
  induction signers with
  | nil => rfl
  | cons first rest ih =>
      unfold setMethod
      by_cases own : first.id = id
      · have apart : first.id ≠ other := fun same => distinct (same.symm.trans own)
        rw [if_pos own, declared_cons, declared_cons, if_neg apart, if_neg apart]
      · rw [if_neg own, declared_cons, declared_cons, ih]

theorem setMethod_getElem? {i : Nat} {decl : SignerDecl} (present : signers[i]? = some decl)
    (other : decl.id ≠ id ∨ ∃ j earlier, j < i ∧ signers[j]? = some earlier ∧
      earlier.id = decl.id) :
    (setMethod id method signers)[i]? = some decl := by
  induction signers generalizing i with
  | nil => simp at present
  | cons first rest ih =>
      unfold setMethod
      cases i with
      | zero =>
          rw [List.getElem?_cons_zero, Option.some.injEq] at present
          subst present
          rcases other with apart | ⟨j, earlier, impossible, -⟩
          · rw [if_neg apart, List.getElem?_cons_zero]
          · exact absurd impossible (Nat.not_lt_zero j)
      | succ i =>
          rw [List.getElem?_cons_succ] at present
          by_cases own : first.id = id
          · rw [if_pos own, List.getElem?_cons_succ]
            exact present
          · rw [if_neg own, List.getElem?_cons_succ]
            apply ih present
            rcases other with apart | ⟨j, earlier, before, found, same⟩
            · exact .inl apart
            · cases j with
              | zero =>
                  rw [List.getElem?_cons_zero, Option.some.injEq] at found
                  subst found
                  exact .inl (same ▸ own)
              | succ j => exact .inr ⟨j, earlier, Nat.lt_of_succ_lt_succ before, found, same⟩

end SetMethod

def Replaces (replaceable : List String) (signers : List SignerDecl) (r : Replacement) : Prop :=
  r.signerId ∈ replaceable ∧
    ∃ decl, declared signers r.signerId = some decl ∧ SameKind decl.method r.method

theorem replaceSigner_eq_ok {replaceable : List String} {signers out : List SignerDecl}
    {r : Replacement} :
    replaceSigner replaceable signers r = .ok out ↔
      Replaces replaceable signers r ∧ out = setMethod r.signerId r.method signers := by
  unfold replaceSigner Replaces
  by_cases listed : r.signerId ∈ replaceable
  · rw [if_neg (not_not.mpr listed)]
    cases found : declared signers r.signerId with
    | none =>
        unfold declared at found
        simp [found]
    | some decl =>
        unfold declared at found
        by_cases same : sameKind decl.method r.method = true
        · simp [found, same, listed, sameKind_eq_true.mp same, eq_comm (a := out)]
        · have apart : ¬SameKind decl.method r.method := fun kind =>
            same (sameKind_eq_true.mpr kind)
          simp [found, same, apart]
  · simp [listed]

/-! ### Every replacement -/

def replaceAll (replacements : List Replacement) (signers : List SignerDecl) : List SignerDecl :=
  replacements.foldl (fun signers r => setMethod r.signerId r.method signers) signers

section ReplaceAll

variable {replacements : List Replacement} {signers : List SignerDecl}

theorem replaceAll_ids (replacements : List Replacement) (signers : List SignerDecl) :
    (replaceAll replacements signers).map (·.id) = signers.map (·.id) := by
  induction replacements generalizing signers with
  | nil => rfl
  | cons r rest ih => exact (ih _).trans (setMethod_ids r.signerId r.method signers)

theorem declared_replaceAll_of_unlisted {id : String}
    (unlisted : ∀ r ∈ replacements, r.signerId ≠ id) :
    declared (replaceAll replacements signers) id = declared signers id := by
  induction replacements generalizing signers with
  | nil => rfl
  | cons r rest ih =>
      have apart := unlisted r List.mem_cons_self
      have later : declared (replaceAll rest (setMethod r.signerId r.method signers)) id =
          declared (setMethod r.signerId r.method signers) id :=
        ih fun other member => unlisted other (List.mem_cons_of_mem _ member)
      exact later.trans (declared_setMethod_of_ne apart.symm)

/-- What a listed id's first declaration becomes. -/
theorem declared_replaceAll {r : Replacement} {decl : SignerDecl}
    (distinct : (replacements.map (·.signerId)).Nodup) (member : r ∈ replacements)
    (found : declared signers r.signerId = some decl) :
    declared (replaceAll replacements signers) r.signerId =
      some { decl with method := r.method } := by
  induction replacements generalizing signers with
  | nil => cases member
  | cons first rest ih =>
      rw [List.map_cons, List.nodup_cons] at distinct
      rcases List.mem_cons.mp member with rfl | member
      · have unlisted : ∀ other ∈ rest, other.signerId ≠ r.signerId := by
          intro other later same
          exact distinct.1 (List.mem_map.mpr ⟨other, later, same⟩)
        have kept : declared (replaceAll rest (setMethod r.signerId r.method signers)) r.signerId =
            declared (setMethod r.signerId r.method signers) r.signerId :=
          declared_replaceAll_of_unlisted unlisted
        exact kept.trans (declared_setMethod_self found)
      · have apart : r.signerId ≠ first.signerId := by
          intro same
          exact distinct.1 (List.mem_map.mpr ⟨r, member, same⟩)
        apply ih distinct.2 member
        rw [declared_setMethod_of_ne apart]
        exact found

theorem replaceAll_getElem? {i : Nat} {decl : SignerDecl} (present : signers[i]? = some decl)
    (other : (∀ r ∈ replacements, r.signerId ≠ decl.id) ∨
      ∃ j earlier, j < i ∧ signers[j]? = some earlier ∧ earlier.id = decl.id) :
    (replaceAll replacements signers)[i]? = some decl := by
  induction replacements generalizing signers with
  | nil => exact present
  | cons r rest ih =>
      change (replaceAll rest (setMethod r.signerId r.method signers))[i]? = some decl
      refine ih ?_ ?_
      · apply setMethod_getElem? present
        rcases other with unlisted | earlier
        · exact .inl (unlisted r List.mem_cons_self).symm
        · exact .inr earlier
      · rcases other with unlisted | ⟨j, earlier, before, found, same⟩
        · exact .inl fun later member => unlisted later (List.mem_cons_of_mem _ member)
        · have ids := congrArg (·[j]?) (setMethod_ids r.signerId r.method signers)
          simp only [List.getElem?_map, found, Option.map_some] at ids
          obtain ⟨moved, place, own⟩ := Option.map_eq_some_iff.mp ids
          exact .inr ⟨j, moved, before, place, own.trans same⟩

/-- The loop succeeds when every replacement may be made in the signers it
starts from. -/
theorem replaceSigners_eq_ok {replaceable : List String} {out : List SignerDecl}
    (distinct : (replacements.map (·.signerId)).Nodup) :
    replacements.foldlM (replaceSigner replaceable) signers = .ok out ↔
      (∀ r ∈ replacements, Replaces replaceable signers r) ∧
        out = replaceAll replacements signers := by
  induction replacements generalizing signers with
  | nil => simp [replaceAll, pure, Except.pure, eq_comm]
  | cons r rest ih =>
      rw [List.map_cons, List.nodup_cons] at distinct
      have apart : ∀ other ∈ rest, other.signerId ≠ r.signerId := by
        intro other later same
        exact distinct.1 (List.mem_map.mpr ⟨other, later, same⟩)
      have unchanged : ∀ other ∈ rest,
          Replaces replaceable (setMethod r.signerId r.method signers) other ↔
            Replaces replaceable signers other := by
        intro other member
        unfold Replaces
        rw [declared_setMethod_of_ne (apart other member)]
      rw [List.foldlM_cons, List.forall_mem_cons]
      constructor
      · intro walked
        obtain ⟨next, first, walked⟩ := Machine.bind_eq_ok.mp walked
        obtain ⟨replaces, rfl⟩ := replaceSigner_eq_ok.mp first
        obtain ⟨later, rfl⟩ := (ih distinct.2).mp walked
        exact ⟨⟨replaces, fun other member => (unchanged other member).mp (later other member)⟩,
            rfl⟩
      · rintro ⟨⟨replaces, later⟩, rfl⟩
        refine Machine.bind_eq_ok.mpr ⟨_, replaceSigner_eq_ok.mpr ⟨replaces, rfl⟩, ?_⟩
        exact (ih distinct.2).mpr
          ⟨fun other member => (unchanged other member).mpr (later other member), rfl⟩

end ReplaceAll

/-! ### The rotation -/

/-- The mode after a rotation, which is given exactly when there is a factor. -/
inductive Rotates : RecoveryMode → Option ZkRotation → RecoveryMode → Prop where
  | guardianOnly (guardians : GuardianSet) :
      Rotates (.guardianOnly guardians) none (.guardianOnly guardians)
  | zkOnly (zk : ZkFactor) (rotation : ZkRotation) :
      Rotates (.zkOnly zk) (some rotation)
        (.zkOnly { zk with
          enrollmentId := rotation.enrollmentId
          commitment := rotation.commitment })
  | combined (guardians : GuardianSet) (zk : ZkFactor) (rotation : ZkRotation) :
      Rotates (.combined guardians zk) (some rotation)
        (.combined guardians { zk with
          enrollmentId := rotation.enrollmentId
          commitment := rotation.commitment })

theorem rotateMode_eq_ok {mode out : RecoveryMode} {zk : Option ZkRotation} :
    rotateMode mode zk = .ok out ↔ Rotates mode zk out := by
  constructor
  · intro rotates
    cases mode with
    | guardianOnly guardians =>
        cases zk with
        | none =>
            cases rotates
            exact .guardianOnly guardians
        | some rotation => cases rotates
    | zkOnly factor =>
        cases zk with
        | none => cases rotates
        | some rotation =>
            cases rotates
            exact .zkOnly factor rotation
    | combined guardians factor =>
        cases zk with
        | none => cases rotates
        | some rotation =>
            cases rotates
            exact .combined guardians factor rotation
  · intro rotates
    cases rotates <;> rfl

theorem ZkRotation.eq_of_factor {zk : ZkFactor} {first second : ZkRotation}
    (same : { zk with
        enrollmentId := first.enrollmentId
        commitment := first.commitment } =
      { zk with
        enrollmentId := second.enrollmentId
        commitment := second.commitment }) : first = second := by
  have ids := congrArg ZkFactor.enrollmentId same
  have commitments := congrArg ZkFactor.commitment same
  cases first
  cases second
  cases ids
  cases commitments
  rfl

/-- The modes tell the rotation. -/
theorem Rotates.rotation_unique {mode out : RecoveryMode} {zk zk' : Option ZkRotation}
    (first : Rotates mode zk out) (second : Rotates mode zk' out) : zk = zk' := by
  have read := rotateMode_eq_ok.mpr second
  cases first with
  | guardianOnly guardians =>
      cases zk' with
      | none => rfl
      | some rotation' => cases read
  | zkOnly factor rotation =>
      cases zk' with
      | none => cases read
      | some rotation' =>
          have factors := RecoveryMode.zkOnly.inj (Except.ok.inj read)
          rw [ZkRotation.eq_of_factor factors]
  | combined guardians factor rotation =>
      cases zk' with
      | none => cases read
      | some rotation' =>
          have factors := (RecoveryMode.combined.inj (Except.ok.inj read)).2
          rw [ZkRotation.eq_of_factor factors]

def RecoveryMode.hasFactor : RecoveryMode → Bool
  | .guardianOnly _ => false
  | .zkOnly _ | .combined _ _ => true

theorem exists_rotates {mode : RecoveryMode} {zk : Option ZkRotation} :
    (∃ out, Rotates mode zk out) ↔ (zk.isSome = true ↔ mode.hasFactor = true) := by
  constructor
  · rintro ⟨out, rotates⟩
    cases rotates <;> simp [RecoveryMode.hasFactor]
  · intro given
    cases mode with
    | guardianOnly guardians =>
        cases zk with
        | none => exact ⟨_, .guardianOnly guardians⟩
        | some rotation => exact absurd (given.mp rfl) Bool.false_ne_true
    | zkOnly factor =>
        cases zk with
        | none => exact absurd (given.mpr rfl) Bool.false_ne_true
        | some rotation => exact ⟨_, .zkOnly factor rotation⟩
    | combined guardians factor =>
        cases zk with
        | none => exact absurd (given.mpr rfl) Bool.false_ne_true
        | some rotation => exact ⟨_, .combined guardians factor rotation⟩

/-! ### The target -/

/-- A derivation from this source, under the current recovery member, is
possible. -/
structure Derivable (source : PolicyDoc) (recovery : RecoveryConfig) (action : DeriveAction)
    (replacements : List Replacement) (zk : Option ZkRotation) : Prop where
  ascending : (replacements.map fun r => utf8 r.signerId).Pairwise (· < ·)
  nonempty : action = .lostKey → replacements ≠ []
  replaceable : ∀ r ∈ replacements, r.signerId ∈ recovery.replaceable
  declared : ∀ r ∈ replacements, ∃ decl, declared source.signers r.signerId = some decl ∧
    SameKind decl.method r.method
  rotation : zk.isSome = true ↔ recovery.mode.hasFactor = true

/-- The target is the source with the declared replacements, under the current
recovery member with the rotation given. -/
structure Target (source current : PolicyDoc) (replacements : List Replacement)
    (zk : Option ZkRotation) (target : PolicyDoc) : Prop where
  version : target.version = source.version
  network : target.network = source.network
  rules : target.rules = source.rules
  ids : target.signers.map (·.id) = source.signers.map (·.id)
  /-- An id that is not listed keeps its declarations, and a listed one those
  after its first. -/
  kept : ∀ (i : Nat) (decl : SignerDecl), source.signers[i]? = some decl →
    ((∀ r ∈ replacements, r.signerId ≠ decl.id) ∨
      ∃ (j : Nat) (earlier : SignerDecl),
        j < i ∧ source.signers[j]? = some earlier ∧ earlier.id = decl.id) →
    target.signers[i]? = some decl
  replaced : ∀ r ∈ replacements, declared target.signers r.signerId =
    some { id := r.signerId, method := r.method }
  recovery : ∃ recovery mode, current.recovery = some recovery ∧
    Rotates recovery.mode zk mode ∧ target.recovery = some { recovery with mode := mode }

section Target

variable {source current target : PolicyDoc} {action : DeriveAction}
  {replacements : List Replacement} {zk : Option ZkRotation}

theorem deriveTarget_eq_ok :
    deriveTarget source current action replacements zk = .ok target ↔
      ∃ recovery mode, current.recovery = some recovery ∧
        Derivable source recovery action replacements zk ∧ Rotates recovery.mode zk mode ∧
        target =
          { version := source.version
            network := source.network
            signers := replaceAll replacements source.signers
            rules := source.rules
            recovery := some { recovery with mode := mode } } := by
  unfold deriveTarget
  cases enrolled : current.recovery with
  | none => simp
  | some recovery =>
      simp only [Option.some.injEq, exists_and_left, exists_eq_left']
      by_cases ordered : ascending (replacements.map fun r => utf8 r.signerId) = true
      · have pairwise := ascending_eq_true.mp ordered
        rw [if_neg (by simp [ordered])]
        by_cases empty : action = .lostKey ∧ replacements = []
        · rw [if_pos empty]
          constructor
          · intro refused
            cases refused
          · rintro ⟨derivable, -⟩
            exact absurd empty.2 (derivable.nonempty empty.1)
        · rw [if_neg empty]
          simp only [Machine.bind_eq_ok, replaceSigners_eq_ok (ids_nodup pairwise),
            rotateMode_eq_ok, Except.ok.injEq]
          constructor
          · rintro ⟨signers, ⟨replaces, rfl⟩, mode, rotates, rfl⟩
            refine ⟨?_, mode, rotates, rfl⟩
            exact
              { ascending := pairwise
                nonempty := fun lost none => empty ⟨lost, none⟩
                replaceable := fun r member => (replaces r member).1
                declared := fun r member => (replaces r member).2
                rotation := exists_rotates.mp ⟨mode, rotates⟩ }
          · rintro ⟨derivable, mode, rotates, rfl⟩
            refine ⟨_, ⟨fun r member => ?_, rfl⟩, mode, rotates, rfl⟩
            exact ⟨derivable.replaceable r member, derivable.declared r member⟩
      · have unordered := Bool.eq_false_iff.mpr ordered
        rw [if_pos unordered]
        constructor
        · intro refused
          cases refused
        · rintro ⟨derivable, -⟩
          exact absurd (ascending_eq_true.mpr derivable.ascending) ordered

theorem Target.of_derives
    (derives : deriveTarget source current action replacements zk = .ok target) :
    Target source current replacements zk target := by
  obtain ⟨recovery, mode, enrolled, derivable, rotates, rfl⟩ := deriveTarget_eq_ok.mp derives
  exact
    { version := rfl
      network := rfl
      rules := rfl
      ids := replaceAll_ids replacements source.signers
      kept := fun i decl present other => replaceAll_getElem? present other
      replaced := by
        intro r member
        obtain ⟨decl, found, -⟩ := derivable.declared r member
        have own := declared_id found
        rw [declared_replaceAll (ids_nodup derivable.ascending) member found, own]
      recovery := ⟨recovery, mode, enrolled, rotates, rfl⟩ }

end Target

/-- Derivation succeeds exactly on a declared, replaceable, like-for-like list
with the rotation the mode asks for, and its target is the source with those
replacements under the current recovery member; the source's own plays no
part. -/
theorem deriveTarget_exact (source current : PolicyDoc) (action : DeriveAction)
    (replacements : List Replacement) (zk : Option ZkRotation) :
    ((∃ target, deriveTarget source current action replacements zk = .ok target) ↔
      ∃ recovery, current.recovery = some recovery ∧
        Derivable source recovery action replacements zk) ∧
    (∀ target, deriveTarget source current action replacements zk = .ok target →
      Target source current replacements zk target) ∧
    ∀ recovery, deriveTarget { source with recovery := recovery } current action replacements zk =
      deriveTarget source current action replacements zk := by
  refine ⟨?_, fun target derives => .of_derives derives, fun recovery => rfl⟩
  constructor
  · rintro ⟨target, derives⟩
    obtain ⟨recovery, mode, enrolled, derivable, -⟩ := deriveTarget_eq_ok.mp derives
    exact ⟨recovery, enrolled, derivable⟩
  · rintro ⟨recovery, enrolled, derivable⟩
    obtain ⟨mode, rotates⟩ := exists_rotates.mpr derivable.rotation
    exact ⟨_, deriveTarget_eq_ok.mpr ⟨recovery, mode, enrolled, derivable, rotates, rfl⟩⟩

end Perch.Ir
