/-
Delta apply equals full replace.

Every slot takes one of four paths, chosen by a price.  Whatever is chosen,
the slot ends with the desired rule, and no other rule is touched: the argument
never looks at a price.  The removal pass and the per-slot pass share one
account of which records are still pending.
-/

import Perch.Account.Edit
import Perch.Machine.Lists

namespace Perch.Account

open Machine Document Recovery

/-! ### Slots -/

def InstalledRule.slot (rule : InstalledRule) : Option SString × ContextRuleType :=
  (if rule.recovery then none else some rule.name, rule.contextType)

theorem sameSlot_iff {a b : InstalledRule} : a.sameSlot b = true ↔ a.slot = b.slot := by
  unfold InstalledRule.sameSlot InstalledRule.slot
  cases a.recovery <;> cases b.recovery <;> simp

/-- Records in one slot differ in nothing a slot can see. -/
theorem InstalledRule.Sound.name_eq {a b : InstalledRule} (sound : a.Sound) (other : b.Sound)
    (same : a.slot = b.slot) : a.name = b.name := by
  have names := congrArg Prod.fst same
  simp only [InstalledRule.slot] at names
  cases first : a.recovery with
  | false =>
      cases second : b.recovery with
      | false => simpa [first, second] using names
      | true => simp [first, second] at names
  | true =>
      cases second : b.recovery with
      | false => simp [first, second] at names
      | true => exact (sound.recovery first).1.trans (other.recovery second).1.symm

theorem recovery_eq_of_slot {a b : InstalledRule} (same : a.slot = b.slot) :
    a.recovery = b.recovery := by
  have names := congrArg Prod.fst same
  simp only [InstalledRule.slot] at names
  cases first : a.recovery <;> cases second : b.recovery <;> simp [first, second] at names ⊢

@[simp] theorem InstalledRule.withId_slot (rule : InstalledRule) (id : UInt32) :
    (rule.withId id).slot = rule.slot := rfl

/-! ### Records and the store -/

variable {σ : Type} {oz : RuleStore σ} {env : OzEnv} {d : AccountDeployment}

structure Mirrors (oz : RuleStore σ) (d : AccountDeployment) (store : σ)
    (records : List InstalledRule) : Prop where
  ids : (records.map InstalledRule.id).Nodup
  complete : ∀ id rule, oz.getContextRule store id = some rule → id ∈ records.map InstalledRule.id
  recorded : ∀ c ∈ records, ∃ rule, oz.getContextRule store c.id = some rule ∧ rule.Records d c

/-- Records that mirror the store and the desired rules, at most one of each in
a slot. -/
structure Matching (oz : RuleStore σ) (store : σ) (current : List InstalledRule)
    (desired : List (Wanted d)) : Prop where
  mirrors : Mirrors oz d store current
  slots : (current.map InstalledRule.slot).Nodup
  sound : ∀ c ∈ current, c.Sound
  wantedSlots : (desired.map fun wanted => wanted.rule.slot).Nodup
  wantedSound : ∀ wanted ∈ desired, wanted.rule.Sound

structure Setting (oz : RuleStore σ) (store : σ) (current : List InstalledRule)
    (desired : List (Wanted d)) : Prop extends Matching oz store current desired where
  /-- Equal digests of installed and wanted parameters mean equal parameters. -/
  collisionFree : ∀ id rule, oz.getContextRule store id = some rule →
    ∀ old ∈ rule.attached, ∀ wanted ∈ desired, ∀ new ∈ wanted.attached,
      d.digest old.2 = d.digest new.2 → old.2 = new.2

def StoredIn (oz : RuleStore σ) (store : σ) (policy : Address × Val) : Prop :=
  ∃ id rule, oz.getContextRule store id = some rule ∧ policy ∈ rule.attached

/-- A stored rule is the desired one as far as a record tells, and every policy
it has is wanted or was there at the start. -/
structure StoredRule.Answers (rule : StoredRule) (oz : RuleStore σ) (start : σ)
    (wanted : Wanted d) : Prop where
  contextType : rule.contextType = wanted.rule.contextType
  name : rule.name = wanted.rule.name
  validUntil : rule.validUntil = wanted.rule.validUntil
  signers : rule.signers = wanted.rule.signers
  policies : Mixes (StoredIn oz start) wanted rule.attached

theorem StoredRule.Has.answers {rule : StoredRule} {wanted : Wanted d} {start : σ}
    (has : rule.Has wanted.shape) : rule.Answers oz start wanted where
  contextType := has.contextType
  name := has.name
  validUntil := has.validUntil
  signers := has.signers
  policies := .of_wanted has.attached

theorem StoredRule.Has.answers_mixed {rule edited : StoredRule} {wanted : Wanted d} {start : σ}
    {id : UInt32} {attached : List (Address × Val)}
    (found : oz.getContextRule start id = some rule)
    (mixes : Mixes (fun policy => policy ∈ rule.attached) wanted attached)
    (has : edited.Has { wanted.shape with attached := attached }) :
    edited.Answers oz start wanted where
  contextType := has.contextType
  name := has.name
  validUntil := has.validUntil
  signers := has.signers
  policies := (mixes.mono fun _ member => ⟨id, rule, found, member⟩).of_perm has.attached

theorem StoredRule.Answers.records {rule : StoredRule} {wanted : Wanted d} {start : σ}
    (answers : rule.Answers oz start wanted) (id : UInt32) :
    rule.Records d (wanted.rule.withId id) where
  contextType := answers.contextType
  name := answers.name
  validUntil := answers.validUntil
  signers := answers.signers
  policies := answers.policies.recorded

/-- When every operation of a reconciliation is accepted. -/
structure Ready (oz : RuleStore σ) (env : OzEnv) (store : σ) (desired : List (Wanted d)) :
    Prop where
  installable : ∀ wanted ∈ desired, wanted.Installable oz env
  room : (oz.nextId store).toNat + desired.length < 4294967296

section Progress

variable {store : σ} {current : List InstalledRule} {desired : List (Wanted d)}

theorem Matching.editable (matching : Matching oz store current desired) {c : InstalledRule}
    {wanted : Wanted d} {rule : StoredRule} (held : c ∈ current) (asked : wanted ∈ desired)
    (same : c.slot = wanted.rule.slot) (stored : oz.getContextRule store c.id = some rule) :
    Editable rule c wanted := by
  obtain ⟨found, foundStored, records⟩ := matching.mirrors.recorded c held
  obtain rfl : found = rule := Option.some.inj (foundStored.symm.trans stored)
  exact
    { diff :=
        { recorded := records.policies
          distinct := (matching.sound c held).policies
          wantedDistinct := (matching.wantedSound wanted asked).policies }
      recorded := records
      recovery := recovery_eq_of_slot same
      name := (matching.sound c held).name_eq (matching.wantedSound wanted asked) same
      contextType := congrArg Prod.snd same
      sound := matching.sound c held
      wantedSound := matching.wantedSound wanted asked }

/-- A record is pending while a desired rule in its slot is still to come. -/
def Pending (current : List InstalledRule) (rest : List (Wanted d)) (c : InstalledRule) : Prop :=
  c ∈ current ∧ ∃ wanted ∈ rest, c.slot = wanted.rule.slot

abbrev Placed (d : AccountDeployment) := Wanted d × UInt32

def Placed.record (placed : Placed d) : InstalledRule :=
  placed.1.rule.withId placed.2

/-- Where reconciliation stands: the rules placed so far are in the store, the
pending ones are untouched, and there is nothing else. -/
structure Progress (oz : RuleStore σ) (store : σ) (current : List InstalledRule)
    (placed : List (Placed d)) (rest : List (Wanted d)) (apply : Apply σ) : Prop where
  installed : ∀ rule ∈ placed, ∃ stored, oz.getContextRule apply.store rule.2 = some stored ∧
    stored.Answers oz store rule.1
  pending : ∀ c, Pending current rest c →
    oz.getContextRule apply.store c.id = oz.getContextRule store c.id
  complete : ∀ id rule, oz.getContextRule apply.store id = some rule →
    id ∈ placed.map Prod.snd ∨ ∃ c, Pending current rest c ∧ c.id = id
  ids : (placed.map Prod.snd).Nodup
  apart : ∀ c, Pending current rest c → c.id ∉ placed.map Prod.snd
  uncached : ∀ c, Pending current rest c → Uncached c.id apply
  counter : (oz.nextId apply.store).toNat ≤ (oz.nextId store).toNat + placed.length

theorem Pending.cons {c : InstalledRule} {wanted : Wanted d} {rest : List (Wanted d)}
    (pending : Pending current rest c) : Pending current (wanted :: rest) c := by
  obtain ⟨held, later, member, same⟩ := pending
  exact ⟨held, later, List.mem_cons_of_mem _ member, same⟩

/-- A record whose slot is still to come is in no slot placed before. -/
theorem Matching.id_ne_of_slot (matching : Matching oz store current desired)
    {c other : InstalledRule} (held : c ∈ current) (otherHeld : other ∈ current) (different : c.slot ≠ other.slot) :
    c.id ≠ other.id := by
  intro same
  exact different (congrArg InstalledRule.slot
    (List.inj_on_of_nodup_map matching.mirrors.ids held otherHeld same))

theorem slot_ne_of_pending {c : InstalledRule} {wanted : Wanted d} {rest : List (Wanted d)}
    (distinct : ((wanted :: rest).map fun wanted => wanted.rule.slot).Nodup)
    (pending : Pending current rest c) : c.slot ≠ wanted.rule.slot := by
  obtain ⟨_, later, member, same⟩ := pending
  rw [List.map_cons, List.nodup_cons] at distinct
  intro equal
  exact distinct.1 (List.mem_map.mpr ⟨later, member, same.symm.trans equal⟩)

variable {placed : List (Placed d)} {wanted : Wanted d} {rest : List (Wanted d)}
  {apply : Apply σ}

structure Places (oz : RuleStore σ) (store : σ) (current : List InstalledRule)
    (wanted : Wanted d) (id : UInt32) (apply after : Apply σ) : Prop where
  here : ∃ stored, oz.getContextRule after.store id = some stored ∧
    stored.Answers oz store wanted
  elsewhere : ∀ other, other ≠ id →
    (∀ c ∈ current, c.slot = wanted.rule.slot → c.id ≠ other) →
      oz.getContextRule after.store other = oz.getContextRule apply.store other
  cleared : ∀ c ∈ current, c.slot = wanted.rule.slot → c.id ≠ id →
    oz.getContextRule after.store c.id = none
  cache : ∀ cached ∈ after.rule, cached ∈ apply.rule ∨
    ∃ c ∈ current, c.slot = wanted.rule.slot ∧ cached.1 = c.id
  counter : (oz.nextId after.store).toNat ≤ (oz.nextId apply.store).toNat + 1

theorem Progress.place (matching : Matching oz store current desired)
    (progress : Progress oz store current placed (wanted :: rest) apply)
    (distinct : ((wanted :: rest).map fun wanted => wanted.rule.slot).Nodup)
    {id : UInt32} {after : Apply σ} (places : Places oz store current wanted id apply after)
    (notPlaced : id ∉ placed.map Prod.snd)
    (notPending : ∀ c, Pending current rest c → c.id ≠ id) :
    Progress oz store current (placed ++ [(wanted, id)]) rest after := by
  have slotPending : ∀ c ∈ current, c.slot = wanted.rule.slot →
      Pending current (wanted :: rest) c :=
    fun c held same => ⟨held, wanted, List.mem_cons_self, same⟩
  refine
    { installed := ?_
      pending := ?_
      complete := ?_
      ids := ?_
      apart := ?_
      uncached := ?_
      counter := ?_ }
  · intro rule member
    rcases List.mem_append.mp member with earlier | newest
    · obtain ⟨stored, found, has⟩ := progress.installed rule earlier
      have listed : rule.2 ∈ placed.map Prod.snd := List.mem_map_of_mem earlier
      refine ⟨stored, ?_, has⟩
      rw [places.elsewhere rule.2 (fun same => notPlaced (same ▸ listed)) ?_]
      · exact found
      · intro c held same equal
        exact progress.apart c (slotPending c held same) (equal ▸ listed)
    · rw [List.mem_singleton] at newest
      exact newest ▸ places.here
  · intro c pending
    rw [places.elsewhere c.id (notPending c pending), progress.pending c pending.cons]
    intro other held same
    exact (matching.id_ne_of_slot pending.1 held
      (fun equal => slot_ne_of_pending distinct pending (equal.trans same))).symm
  · intro other rule found
    rw [List.map_append, List.mem_append]
    by_cases newest : other = id
    · left
      right
      simp [newest]
    · have outside : ∀ c ∈ current, c.slot = wanted.rule.slot → c.id ≠ other := by
        rintro c held same rfl
        simp [places.cleared c held same newest] at found
      rw [places.elsewhere other newest outside] at found
      rcases progress.complete other rule found with earlier | ⟨c, pending, same⟩
      · exact .inl (.inl earlier)
      · obtain ⟨held, later, member, slot⟩ := pending
        rcases List.mem_cons.mp member with rfl | member
        · exact absurd same (outside c held slot)
        · exact .inr ⟨c, ⟨held, later, member, slot⟩, same⟩
  · rw [List.map_append]
    refine List.nodup_append'.mpr ⟨progress.ids, List.nodup_singleton _, ?_⟩
    intro other earlier newest
    have equal : other = id := by simpa using newest
    exact notPlaced (equal ▸ earlier)
  · intro c pending listed
    rw [List.map_append, List.mem_append] at listed
    rcases listed with earlier | newest
    · exact progress.apart c pending.cons earlier
    · rw [List.map_singleton, List.mem_singleton] at newest
      exact notPending c pending newest
  · intro c pending cached held
    rcases places.cache cached held with before | ⟨other, otherHeld, same, equal⟩
    · exact progress.uncached c pending.cons cached before
    · rw [equal]
      exact (matching.id_ne_of_slot pending.1 otherHeld
        (fun slots => slot_ne_of_pending distinct pending (slots.trans same))).symm
  · have bounded := progress.counter
    have advanced := places.counter
    rw [List.length_append, List.length_singleton]
    omega

end Progress

/-! ### The operations of a slot -/

section Slot

variable {store : σ} {current : List InstalledRule} {desired : List (Wanted d)}
  {placed : List (Placed d)} {wanted : Wanted d} {rest : List (Wanted d)} {apply : Apply σ}
  {ready : Prop}

theorem removeRule_meets (documented : oz.Documented) {c : InstalledRule}
    (present : ready → ∃ rule, oz.getContextRule apply.store c.id = some rule) :
    Meets ready (((performer oz env).removeRule c).run apply) fun reached =>
      oz.getContextRule reached.2.store =
          Function.update (oz.getContextRule apply.store) c.id none ∧
        oz.nextId reached.2.store = oz.nextId apply.store ∧ reached.2.rule = apply.rule := by
  apply Meets.andThen
  · intro prepared
    obtain ⟨rule, stored⟩ := present prepared
    exact documented.removeContextRule_total stored
  · intro after returned
    obtain ⟨counter, updated⟩ := documented.removeContextRule_sound returned
    exact Meets.pure ⟨updated, counter, rfl⟩

theorem addRule_meets (documented : oz.Documented) (sound : wanted.rule.Sound)
    (fits : ready → wanted.Installable oz env ∧ (oz.nextId apply.store).toNat + 1 < 4294967296) :
    Meets ready (((performer oz env).addRule wanted.rule wanted.params).run apply) fun reached =>
      reached.1 = oz.nextId apply.store ∧
        (oz.nextId reached.2.store).toNat = (oz.nextId apply.store).toNat + 1 ∧
        reached.2.rule = apply.rule ∧
        ∃ stored : StoredRule, stored.Has wanted.shape ∧
          oz.getContextRule reached.2.store =
            Function.update (oz.getContextRule apply.store) reached.1 (some stored) := by
  have distinct : (wanted.attached.map Prod.fst).Nodup := by
    have policies := sound.policies
    rw [wanted.policies_eq, List.map_map] at policies
    exact policies
  apply Meets.andThen
  · intro prepared
    obtain ⟨installable, room⟩ := fits prepared
    exact documented.addContextRule_total distinct
      { nonempty := installable.nonempty
        signersFit := installable.signersFit
        few := installable.few
        shortName := installable.shortName
        current := installable.current
        installs := installable.installs _ fun recovery => (sound.recovery recovery).2 } room
  · rintro ⟨id, after⟩ returned
    obtain ⟨fresh, advanced, attached, listed, updated⟩ :=
      documented.addContextRule_sound distinct returned
    refine Meets.pure ⟨fresh, advanced, rfl, _, ?_, updated⟩
    exact
      { contextType := rfl
        name := rfl
        validUntil := rfl
        signers := rfl
        attached := listed }

/-- A new rule's id is none that is in use. -/
theorem Progress.nextId_fresh (documented : oz.Documented)
    (matching : Matching oz store current desired)
    (progress : Progress oz store current placed (wanted :: rest) apply) :
    oz.nextId apply.store ∉ placed.map Prod.snd ∧
      ∀ c, Pending current rest c → c.id ≠ oz.nextId apply.store := by
  constructor
  · intro listed
    obtain ⟨rule, member, same⟩ := List.mem_map.mp listed
    obtain ⟨stored, found, _⟩ := progress.installed rule member
    have below := documented.id_lt_nextId found
    rw [same] at below
    exact absurd below (UInt32.lt_irrefl _)
  · intro c pending same
    obtain ⟨rule, found, _⟩ := matching.mirrors.recorded c pending.1
    rw [← progress.pending c pending.cons] at found
    have below := documented.id_lt_nextId found
    rw [same] at below
    exact absurd below (UInt32.lt_irrefl _)

theorem Progress.stored_of_slot (matching : Matching oz store current desired)
    (progress : Progress oz store current placed (wanted :: rest) apply) {c : InstalledRule}
    (held : c ∈ current) (same : c.slot = wanted.rule.slot) :
    ∃ rule, oz.getContextRule apply.store c.id = some rule ∧
      oz.getContextRule store c.id = some rule := by
  obtain ⟨rule, found, _⟩ := matching.mirrors.recorded c held
  refine ⟨rule, ?_, found⟩
  rw [progress.pending c ⟨held, wanted, List.mem_cons_self, same⟩]
  exact found

/-- What a decision may be: it names the record in the slot, and an edit has an
order. -/
def Decision.Fits (current : List InstalledRule) (wanted : Wanted d) : Decision → Prop
  | .add => ∀ c ∈ current, c.slot ≠ wanted.rule.slot
  | .keep c => c ∈ current ∧ c.slot = wanted.rule.slot ∧ unchanged c wanted.rule = true
  | .inPlace c => c ∈ current ∧ c.slot = wanted.rule.slot ∧
      (editOrder c wanted.rule wanted.params).isSome = true
  | .replace c => c ∈ current ∧ c.slot = wanted.rule.slot

def Decision.keptId : Decision → Option UInt32
  | .keep c | .inPlace c => some c.id
  | .add | .replace _ => none

/-- A slot's step leaves its desired rule, and keeps the id it says it keeps. -/
def Steps (oz : RuleStore σ) (store : σ) (current : List InstalledRule) (placed : List (Placed d))
    (wanted : Wanted d) (rest : List (Wanted d)) (decision : Decision)
    (reached : InstalledRule × Apply σ) : Prop :=
  ∃ id, reached.1 = wanted.rule.withId id ∧
    Progress oz store current (placed ++ [(wanted, id)]) rest reached.2 ∧
    ∀ kept ∈ decision.keptId, id = kept

theorem Progress.keep (matching : Matching oz store current desired)
    (progress : Progress oz store current placed (wanted :: rest) apply)
    (distinct : ((wanted :: rest).map fun wanted => wanted.rule.slot).Nodup)
    (asked : wanted ∈ desired) {c : InstalledRule}
    (fits : Decision.Fits current wanted (.keep c)) :
    Steps oz store current placed wanted rest (.keep c) (wanted.rule.withId c.id, apply) := by
  obtain ⟨held, same, kept⟩ := fits
  obtain ⟨rule, stored, original⟩ := progress.stored_of_slot matching held same
  have editable := matching.editable held asked same original
  simp only [unchanged, Bool.and_eq_true, decide_eq_true_eq, List.all_eq_true] at kept
  obtain ⟨⟨⟨signers, contained⟩, containing⟩, validUntil⟩ := kept
  have nothingRemoved : (changes c wanted.rule wanted.params).removePolicies = [] := by
    simp only [changes, List.map_eq_nil_iff, List.filter_eq_nil_iff, decide_eq_true_eq, not_not]
    exact contained
  have nothingAdded : (changes c wanted.rule wanted.params).addPolicies = [] := by
    rw [changes_addPolicies, List.filter_eq_nil_iff]
    intro attached member
    rw [decide_eq_true_eq, not_not]
    apply containing
    rw [wanted.policies_eq]
    exact List.mem_map_of_mem member
  have whole := editable.diff.mixes
  rw [nothingRemoved, nothingAdded, List.append_nil, List.filter_eq_self.mpr (by simp)] at whole
  refine ⟨c.id, rfl, progress.place matching distinct ?_ ?_ ?_, by simp [Decision.keptId]⟩
  · exact
      { here := ⟨rule, stored,
          { contextType := editable.contextType_eq
            name := editable.recorded.name.trans editable.name
            validUntil := editable.recorded.validUntil.trans validUntil
            signers := editable.recorded.signers.trans signers
            policies := whole.mono fun _ member => ⟨c.id, rule, original, member⟩ }⟩
        elsewhere := fun _ _ _ => rfl
        cleared := fun other otherHeld otherSame distinctId => by
          have equal := List.inj_on_of_nodup_map matching.slots otherHeld held
            (otherSame.trans same.symm)
          exact absurd (congrArg InstalledRule.id equal) distinctId
        cache := fun _ cached => .inl cached
        counter := Nat.le_succ _ }
  · exact progress.apart c ⟨held, wanted, List.mem_cons_self, same⟩
  · intro other pending
    exact matching.id_ne_of_slot pending.1 held
      (fun equal => slot_ne_of_pending distinct pending (equal.trans same))

/-- A rule that was edited in place is where its record was. -/
theorem Progress.edited (matching : Matching oz store current desired)
    (progress : Progress oz store current placed (wanted :: rest) apply)
    (distinct : ((wanted :: rest).map fun wanted => wanted.rule.slot).Nodup) {c : InstalledRule}
    (held : c ∈ current) (same : c.slot = wanted.rule.slot) {after : Apply σ}
    {rule : StoredRule} {attached : List (Address × Val)}
    (original : oz.getContextRule store c.id = some rule)
    (mixes : Mixes (fun policy => policy ∈ rule.attached) wanted attached)
    (editing : Editing oz apply c.id { wanted.shape with attached := attached } after) :
    Progress oz store current (placed ++ [(wanted, c.id)]) rest after := by
  apply progress.place matching distinct
  · exact
      { here := editing.stored.imp fun _ => And.imp_right fun has =>
          has.answers_mixed original mixes
        elsewhere := fun other different _ => editing.elsewhere other different
        cleared := fun other otherHeld otherSame distinctId => by
          have equal := List.inj_on_of_nodup_map matching.slots otherHeld held
            (otherSame.trans same.symm)
          exact absurd (congrArg InstalledRule.id equal) distinctId
        cache := fun cached present =>
          (editing.cache cached present).imp_right fun equal => ⟨c, held, same, equal⟩
        counter := by
          rw [editing.nextId]
          exact Nat.le_succ _ }
  · exact progress.apart c ⟨held, wanted, List.mem_cons_self, same⟩
  · intro other pending
    exact matching.id_ne_of_slot pending.1 held
      (fun equal => slot_ne_of_pending distinct pending (equal.trans same))

theorem perform_inPlace_meets (documented : oz.Documented)
    (matching : Matching oz store current desired)
    (progress : Progress oz store current placed (wanted :: rest) apply)
    (distinct : ((wanted :: rest).map fun wanted => wanted.rule.slot).Nodup)
    (asked : wanted ∈ desired) {c : InstalledRule}
    (fits : Decision.Fits current wanted (.inPlace c)) :
    Meets (Ready oz env store desired) ((perform oz env wanted (.inPlace c)).run apply)
      (Steps oz store current placed wanted rest (.inPlace c)) := by
  obtain ⟨held, same, ordered⟩ := fits
  obtain ⟨rule, stored, original⟩ := progress.stored_of_slot matching held same
  have editable := matching.editable held asked same original
  have editing : Editing oz apply c.id rule.shape apply :=
    { stored := ⟨rule, stored, rule.has_shape⟩
      elsewhere := fun _ _ => rfl
      nextId := rfl
      cache := fun _ present => .inl present }
  have uncached := progress.uncached c ⟨held, wanted, List.mem_cons_self, same⟩
  apply Meets.bindState _ (editable.edit documented editing uncached
    (fun prepared => prepared.installable wanted asked) ordered)
  rintro _ after ⟨attached, mixes, edited⟩
  refine Meets.pure ⟨c.id, rfl, ?_, by simp [Decision.keptId]⟩
  apply progress.edited matching distinct held same original mixes
  exact
    { stored := edited.stored
      elsewhere := edited.elsewhere
      nextId := edited.nextId
      cache := edited.cache }

/-- A rule added under a fresh id, once the record in its slot is gone. -/
theorem Progress.added (documented : oz.Documented) (matching : Matching oz store current desired)
    (progress : Progress oz store current placed (wanted :: rest) apply)
    (distinct : ((wanted :: rest).map fun wanted => wanted.rule.slot).Nodup)
    {id : UInt32} {stored : StoredRule} {after : Apply σ} (fresh : id = oz.nextId apply.store)
    (has : stored.Has wanted.shape)
    (here : oz.getContextRule after.store id = some stored)
    (elsewhere : ∀ other, other ≠ id →
      oz.getContextRule after.store other =
        if ∃ c ∈ current, c.slot = wanted.rule.slot ∧ c.id = other then none
        else oz.getContextRule apply.store other)
    (counter : (oz.nextId after.store).toNat = (oz.nextId apply.store).toNat + 1)
    (cache : after.rule = apply.rule) :
    Progress oz store current (placed ++ [(wanted, id)]) rest after := by
  obtain ⟨notPlaced, notPending⟩ := progress.nextId_fresh documented matching
  apply progress.place matching distinct
  · exact
      { here := ⟨stored, here, has.answers⟩
        elsewhere := fun other different outside => by
          rw [elsewhere other different, if_neg]
          rintro ⟨c, held, same, equal⟩
          exact outside c held same equal
        cleared := fun c held same different => by
          rw [elsewhere c.id different, if_pos ⟨c, held, same, rfl⟩]
        cache := fun cached present => .inl (cache ▸ present)
        counter := counter.le }
  · exact fresh ▸ notPlaced
  · exact fresh ▸ notPending

theorem perform_add_meets (documented : oz.Documented)
    (matching : Matching oz store current desired)
    (progress : Progress oz store current placed (wanted :: rest) apply)
    (distinct : ((wanted :: rest).map fun wanted => wanted.rule.slot).Nodup)
    (asked : wanted ∈ desired) (early : placed.length < desired.length)
    (fits : Decision.Fits current wanted .add) :
    Meets (Ready oz env store desired) ((perform oz env wanted .add).run apply)
      (Steps oz store current placed wanted rest .add) := by
  apply Meets.bindState _ (addRule_meets documented (matching.wantedSound wanted asked) ?_)
  · rintro id after ⟨fresh, advanced, cache, stored, has, updated⟩
    refine Meets.pure ⟨id, rfl, ?_, by simp [Decision.keptId]⟩
    refine progress.added documented matching distinct fresh has ?_ ?_ advanced cache
    · rw [updated, Function.update_self]
    · intro other different
      rw [updated, Function.update_of_ne different, if_neg]
      rintro ⟨c, held, same, _⟩
      exact fits c held same
  · intro prepared
    have bounded := progress.counter
    have room := prepared.room
    exact ⟨prepared.installable wanted asked, by omega⟩

theorem perform_replace_meets (documented : oz.Documented)
    (matching : Matching oz store current desired)
    (progress : Progress oz store current placed (wanted :: rest) apply)
    (distinct : ((wanted :: rest).map fun wanted => wanted.rule.slot).Nodup)
    (asked : wanted ∈ desired) (early : placed.length < desired.length) {c : InstalledRule}
    (fits : Decision.Fits current wanted (.replace c)) :
    Meets (Ready oz env store desired) ((perform oz env wanted (.replace c)).run apply)
      (Steps oz store current placed wanted rest (.replace c)) := by
  obtain ⟨held, same⟩ := fits
  obtain ⟨rule, stored, _⟩ := progress.stored_of_slot matching held same
  have onlyRecord : ∀ other, (∃ r ∈ current, r.slot = wanted.rule.slot ∧ r.id = other) ↔
      other = c.id := by
    intro other
    constructor
    · rintro ⟨r, present, slot, rfl⟩
      exact congrArg InstalledRule.id
        (List.inj_on_of_nodup_map matching.slots present held (slot.trans same.symm))
    · rintro rfl
      exact ⟨c, held, same, rfl⟩
  change Meets _ (((replace (performer oz env) c wanted.rule wanted.params) >>=
    fun id => pure (wanted.rule.withId id)).run apply) _
  apply Meets.bindState fun reached : UInt32 × Apply σ =>
    Progress oz store current (placed ++ [(wanted, reached.1)]) rest reached.2
  · apply Meets.bindState _ (removeRule_meets documented fun _ => ⟨rule, stored⟩)
    rintro _ removed ⟨cleared, counter, cache⟩
    apply (addRule_meets documented (matching.wantedSound wanted asked) ?_).imp
    · rintro ⟨id, after⟩ ⟨fresh, advanced, keptCache, placedRule, has, updated⟩
      rw [counter] at fresh advanced
      refine progress.added documented matching distinct fresh has ?_ ?_ advanced
        (keptCache.trans cache)
      · rw [updated, Function.update_self]
      · intro other different
        rw [updated, Function.update_of_ne different, cleared]
        by_cases own : other = c.id
        · rw [if_pos ((onlyRecord other).mpr own), own, Function.update_self]
        · rw [if_neg (fun found => own ((onlyRecord other).mp found)),
            Function.update_of_ne own]
    · intro prepared
      have bounded := progress.counter
      have room := prepared.room
      rw [counter]
      exact ⟨prepared.installable wanted asked, by omega⟩
  · intro id after progressed
    exact Meets.pure ⟨id, rfl, progressed, by simp [Decision.keptId]⟩

/-- Any decision that fits its slot brings about the desired rule. -/
theorem perform_meets (documented : oz.Documented) (matching : Matching oz store current desired)
    (progress : Progress oz store current placed (wanted :: rest) apply)
    (distinct : ((wanted :: rest).map fun wanted => wanted.rule.slot).Nodup)
    (asked : wanted ∈ desired) (early : placed.length < desired.length) {decision : Decision}
    (fits : decision.Fits current wanted) :
    Meets (Ready oz env store desired) ((perform oz env wanted decision).run apply)
      (Steps oz store current placed wanted rest decision) := by
  cases decision with
  | add => exact perform_add_meets documented matching progress distinct asked early fits
  | keep c => exact Meets.pure (progress.keep matching distinct asked fits)
  | inPlace c => exact perform_inPlace_meets documented matching progress distinct asked fits
  | replace c =>
      exact perform_replace_meets documented matching progress distinct asked early fits

end Slot

/-! ### Every choice fits its slot -/

section Choice

variable {current : List InstalledRule}

/-- Pricing an edit finds out whether it has an order. -/
theorem edit_meter_fst (infra : InfraPins) (c target : InstalledRule) (params : List Val)
    (meter : Meter) :
    ((edit (Account.meter infra) c target params).run meter).run.1 =
      (editOrder c target params).isSome := by
  unfold edit
  cases editOrder c target params with
  | none => rfl
  | some order =>
      simp only [StateT.run_bind, Option.isSome_some]
      rfl

theorem priceChanged_fits {infra : InfraPins} {mode : Mode} {refs : Refs} {c : InstalledRule}
    {wanted : Wanted d} (held : c ∈ current) (same : c.slot = wanted.rule.slot) :
    (priceChanged infra mode refs c wanted).decision.Fits current wanted := by
  unfold priceChanged
  simp only
  split
  · rename_i chosen
    rw [Bool.and_eq_true, edit_meter_fst] at chosen
    exact ⟨held, same, chosen.1⟩
  · exact ⟨held, same⟩

theorem priceRule_fits (infra : InfraPins) (mode : Mode) (current : List InstalledRule)
    (refs : Refs) (wanted : Wanted d) :
    (priceRule infra mode current refs wanted).decision.Fits current wanted := by
  unfold priceRule
  cases found : current.find? fun c => c.sameSlot wanted.rule with
  | none =>
      intro c held same
      exact List.find?_eq_none.mp found c held (sameSlot_iff.mpr same)
  | some c =>
      have held : c ∈ current := List.mem_of_find?_eq_some found
      have matched : c.sameSlot wanted.rule = true := by
        have satisfied := List.find?_some found
        exact satisfied
      have same : c.slot = wanted.rule.slot := sameSlot_iff.mp matched
      simp only
      split
      · rename_i kept
        exact ⟨held, same, kept⟩
      · exact priceChanged_fits held same

/-- Every desired rule's decision is about the record in its slot. -/
theorem priced_fits (infra : InfraPins) (mode : Mode) (current : List InstalledRule)
    (desired : List (Wanted d)) :
    List.Forall₂ (fun priced wanted => priced.decision.Fits current wanted)
      (priced infra mode current desired) desired := by
  unfold priced
  generalize (priceRemovals infra (Refs.of current) (unmatched current desired)).2 = refs
  induction desired generalizing refs with
  | nil => exact .nil
  | cons wanted rest ih =>
      apply List.Forall₂.cons
      · exact priceRule_fits infra mode current refs wanted
      · exact ih _

end Choice

/-! ### A whole reconciliation -/

section Whole

variable {store : σ} {current : List InstalledRule} {desired : List (Wanted d)}
  {placed : List (Placed d)} {apply : Apply σ}

/-- Every desired rule is placed, in order, and the slots that say they keep
their id keep it. -/
def Finishes (oz : RuleStore σ) (store : σ) (current : List InstalledRule)
    (placed : List (Placed d)) (prices : List Priced) (rest : List (Wanted d))
    (reached : List InstalledRule × Apply σ) : Prop :=
  ∃ more : List (Placed d), more.map Prod.fst = rest ∧ reached.1 = more.map Placed.record ∧
    Progress oz store current (placed ++ more) [] reached.2 ∧
    List.Forall₂ (fun priced rule => ∀ kept ∈ priced.decision.keptId, rule.2 = kept) prices more

theorem performAll_meets (documented : oz.Documented) (matching : Matching oz store current desired)
    (infra : InfraPins) (mode : Mode) {rest : List (Wanted d)} {refs : Refs}
    (progress : Progress oz store current placed rest apply)
    (whole : placed.map Prod.fst ++ rest = desired) :
    Meets (Ready oz env store desired)
      ((performAll oz env (priceRules infra mode current refs rest) rest).run apply)
      (Finishes oz store current placed (priceRules infra mode current refs rest) rest) := by
  induction rest generalizing placed apply refs with
  | nil => exact Meets.pure ⟨[], rfl, rfl, by simpa using progress, .nil⟩
  | cons wanted rest ih =>
      have asked : wanted ∈ desired := by simp [← whole]
      have early : placed.length < desired.length := by simp [← whole]
      have distinct : ((wanted :: rest).map fun wanted => wanted.rule.slot).Nodup := by
        have slots := matching.wantedSlots
        rw [← whole, List.map_append] at slots
        exact slots.of_append_right
      apply Meets.bindState _ (perform_meets documented matching progress distinct asked early
        (priceRule_fits infra mode current refs wanted))
      rintro record after ⟨id, rfl, progressed, keeps⟩
      apply Meets.bindState _ (ih progressed (by simp [← whole]))
      rintro next final ⟨more, listed, rfl, finished, kept⟩
      refine Meets.pure ⟨(wanted, id) :: more, by simp [listed], rfl, ?_, .cons keeps kept⟩
      rwa [List.append_assoc, List.singleton_append] at finished

theorem removeRules_meets (documented : oz.Documented) {ready : Prop}
    {gone : List InstalledRule}
    (present : ready → (gone.map InstalledRule.id).Nodup ∧
      ∀ c ∈ gone, ∃ rule, oz.getContextRule apply.store c.id = some rule) :
    Meets ready ((forM gone (performer oz env).removeRule).run apply) fun reached =>
      (∀ id, oz.getContextRule reached.2.store id =
        if id ∈ gone.map InstalledRule.id then none else oz.getContextRule apply.store id) ∧
      oz.nextId reached.2.store = oz.nextId apply.store ∧ reached.2.rule = apply.rule := by
  apply (Meets.loop (fun rest after => ∃ done : List InstalledRule, done ++ rest = gone ∧
    (∀ id, oz.getContextRule after.store id =
      if id ∈ done.map InstalledRule.id then none else oz.getContextRule apply.store id) ∧
    oz.nextId after.store = oz.nextId apply.store ∧ after.rule = apply.rule) ?_ ?_).imp
  · rintro reached ⟨done, whole, removed⟩
    rw [List.append_nil] at whole
    exact whole ▸ removed
  · rintro c rest after ⟨done, rfl, removed, counter, cache⟩
    refine (removeRule_meets documented fun prepared => ?_).imp ?_
    · obtain ⟨distinct, stored⟩ := present prepared
      obtain ⟨rule, found⟩ := stored c (by simp)
      refine ⟨rule, ?_⟩
      rw [removed, if_neg, found]
      rw [List.map_append, List.map_cons] at distinct
      intro earlier
      exact (List.nodup_middle.mp distinct).notMem (List.mem_append_left _ earlier)
    · rintro reached ⟨updated, counter', cache'⟩
      refine ⟨done ++ [c], by simp, ?_, counter'.trans counter, cache'.trans cache⟩
      intro id
      rw [updated]
      by_cases own : id = c.id
      · simp [own]
      · rw [Function.update_of_ne own, removed]
        simp [own]
  · exact ⟨[], rfl, by simp, rfl, rfl⟩

theorem unmatched_iff {c : InstalledRule} :
    c ∈ unmatched current desired ↔
      c ∈ current ∧ ∀ wanted ∈ desired, c.slot ≠ wanted.rule.slot := by
  simp only [unmatched, List.mem_filter, Bool.not_eq_true', List.any_eq_false, sameSlot_iff, ne_eq]

/-- Once the unmatched records are gone, everything left is pending. -/
theorem progress_after_removal (matching : Matching oz store current desired) {after : Apply σ}
    (removed : ∀ id, oz.getContextRule after.store id =
      if id ∈ (unmatched current desired).map InstalledRule.id then none
      else oz.getContextRule store id)
    (counter : oz.nextId after.store = oz.nextId store) (cache : after.rule = none) :
    Progress oz store current [] desired after := by
  have stays : ∀ c, Pending current desired c →
      c.id ∉ (unmatched current desired).map InstalledRule.id := by
    rintro c ⟨held, wanted, asked, same⟩ listed
    obtain ⟨other, gone, equal⟩ := List.mem_map.mp listed
    obtain ⟨otherHeld, noSlot⟩ := unmatched_iff.mp gone
    have identical := List.inj_on_of_nodup_map matching.mirrors.ids otherHeld held equal
    exact noSlot wanted asked (identical ▸ same)
  refine
    { installed := by simp
      pending := ?_
      complete := ?_
      ids := by simp
      apart := by simp
      uncached := ?_
      counter := by simp [counter] }
  · intro c pending
    rw [removed, if_neg (stays c pending)]
  · intro id rule found
    right
    rw [removed] at found
    split at found
    · cases found
    · rename_i kept
      obtain ⟨c, held, rfl⟩ := List.mem_map.mp (matching.mirrors.complete id rule found)
      by_contra none
      refine kept (List.mem_map_of_mem (unmatched_iff.mpr ⟨held, ?_⟩))
      intro wanted asked same
      exact none ⟨c, ⟨held, wanted, asked, same⟩, rfl⟩
  · intro c _ cached held
    rw [cache] at held
    cases held

theorem run_meets (documented : oz.Documented) (matching : Matching oz store current desired)
    (infra : InfraPins) (mode : Mode) :
    Meets (Ready oz env store desired)
      ((run oz env infra mode current desired).run (.start store))
      (Finishes oz store current [] (priced infra mode current desired) desired) := by
  apply Meets.bindState _ (removeRules_meets documented fun _ => ?_)
  · rintro _ after ⟨removed, counter, cache⟩
    exact performAll_meets documented matching infra mode
      (progress_after_removal matching removed counter cache) rfl
  · constructor
    · exact matching.mirrors.ids.sublist (List.Sublist.map _ List.filter_sublist)
    · intro c gone
      obtain ⟨rule, found, _⟩ := matching.mirrors.recorded c (unmatched_iff.mp gone).1
      exact ⟨rule, found⟩

end Whole

/-! ### What is left, compared with a full replace -/

section Outcome

variable {store : σ} {current records : List InstalledRule} {desired : List (Wanted d)}

/-- The store holds the desired rules and nothing else, and the records are
theirs, in the desired order. -/
structure Realizes (oz : RuleStore σ) (store : σ) (records : List InstalledRule)
    (desired : List (Wanted d)) : Prop where
  ids : (records.map InstalledRule.id).Nodup
  complete : ∀ id rule, oz.getContextRule store id = some rule → id ∈ records.map InstalledRule.id
  installed : List.Forall₂ (fun record wanted => record = wanted.rule.withId record.id ∧
    ∃ rule, oz.getContextRule store record.id = some rule ∧ rule.Has wanted.shape) records desired

/-- The same as far as the records tell, over what the store held at the start. -/
structure Brings (oz : RuleStore σ) (start store : σ) (records : List InstalledRule)
    (desired : List (Wanted d)) : Prop where
  ids : (records.map InstalledRule.id).Nodup
  complete : ∀ id rule, oz.getContextRule store id = some rule → id ∈ records.map InstalledRule.id
  installed : List.Forall₂ (fun record wanted => record = wanted.rule.withId record.id ∧
    ∃ rule, oz.getContextRule store record.id = some rule ∧ rule.Answers oz start wanted)
      records desired

theorem Brings.of_progress {more : List (Placed d)} {apply : Apply σ}
    (progress : Progress oz store current more [] apply) :
    Brings oz store apply.store (more.map Placed.record) (more.map Prod.fst) := by
  have listed : (more.map Placed.record).map InstalledRule.id = more.map Prod.snd := by
    rw [List.map_map]
    rfl
  refine { ids := listed ▸ progress.ids, complete := ?_, installed := ?_ }
  · intro id rule found
    rw [listed]
    rcases progress.complete id rule found with placed | ⟨c, ⟨_, wanted, impossible, _⟩, _⟩
    · exact placed
    · cases impossible
  · rw [List.forall₂_map_left_iff, List.forall₂_map_right_iff, List.forall₂_same]
    intro placed member
    exact ⟨rfl, progress.installed placed member⟩

section Brings

variable {start : σ}

theorem Brings.mono {wider : σ} (brings : Brings oz start store records desired)
    (includes : ∀ policy, StoredIn oz start policy → StoredIn oz wider policy) :
    Brings oz wider store records desired := by
  refine { brings with installed := brings.installed.imp ?_ }
  rintro record wanted ⟨same, rule, found, answers⟩
  exact ⟨same, rule, found, { answers with policies := answers.policies.mono includes }⟩

theorem Brings.mirrors (brings : Brings oz start store records desired) :
    Mirrors oz d store records := by
  refine { ids := brings.ids, complete := brings.complete, recorded := ?_ }
  intro record member
  obtain ⟨wanted, _, same, rule, stored, answers⟩ := exists_of_mem_left brings.installed member
  exact ⟨rule, stored, same ▸ answers.records record.id⟩

theorem Brings.slots (brings : Brings oz start store records desired) :
    records.map InstalledRule.slot = desired.map fun wanted => wanted.rule.slot := by
  have aligned := brings.installed
  clear brings
  induction aligned with
  | nil => rfl
  | cons head _ ih => rw [List.map_cons, List.map_cons, ih, head.1, InstalledRule.withId_slot]

/-- Where equal digests mean equal parameters, the desired rules are there. -/
theorem Brings.realizes (setting : Setting oz start current desired)
    (brings : Brings oz start store records desired) : Realizes oz store records desired := by
  have installed := brings.installed
  refine { ids := brings.ids, complete := brings.complete, installed := ?_ }
  rw [List.forall₂_iff_get] at installed ⊢
  refine ⟨installed.1, ?_⟩
  intro index within within'
  obtain ⟨same, rule, found, answers⟩ := installed.2 index within within'
  have asked : desired.get ⟨index, within'⟩ ∈ desired := List.get_mem ..
  refine ⟨same, rule, found, answers.contextType, answers.name, answers.validUntil,
    answers.signers, answers.policies.perm (setting.wantedSound _ asked).policies ?_⟩
  rintro old ⟨id, before, stored, member⟩ new wanted
  exact setting.collisionFree id before stored old member _ asked new wanted

theorem Realizes.mirrors (realizes : Realizes oz store records desired) :
    Mirrors oz d store records := by
  have brings : Brings oz store store records desired := by
    refine { ids := realizes.ids, complete := realizes.complete, installed := ?_ }
    apply realizes.installed.imp
    rintro record wanted ⟨same, rule, found, has⟩
    exact ⟨same, rule, found, has.answers⟩
  exact brings.mirrors

end Brings

/-- The two stores hold the same rules under other ids. -/
def SameUpToIds (oz : RuleStore σ) (left right : σ) : Prop :=
  ∃ relabel : UInt32 → UInt32,
    Set.BijOn relabel {id | (oz.getContextRule left id).isSome = true}
      {id | (oz.getContextRule right id).isSome = true} ∧
    ∀ id rule, oz.getContextRule left id = some rule →
      ∃ other, oz.getContextRule right (relabel id) = some other ∧ other.Has rule.shape

theorem Realizes.sameUpToIds {left right : σ} {records' : List InstalledRule}
    (first : Realizes oz left records desired) (second : Realizes oz right records' desired) :
    SameUpToIds oz left right := by
  have stored : ∀ {store : σ} {records : List InstalledRule}
      (_ : Realizes oz store records desired),
      {id | (oz.getContextRule store id).isSome = true} =
        {id | id ∈ records.map InstalledRule.id} := by
    intro store records realizes
    ext id
    constructor
    · intro present
      obtain ⟨rule, found⟩ := Option.isSome_iff_exists.mp present
      exact realizes.complete id rule found
    · intro listed
      obtain ⟨record, member, rfl⟩ := List.mem_map.mp listed
      obtain ⟨rule, found, _⟩ := realizes.mirrors.recorded record member
      exact Option.isSome_iff_exists.mpr ⟨rule, found⟩
  have lengths : records.length = records'.length :=
    first.installed.length_eq.trans second.installed.length_eq.symm
  obtain ⟨relabel, bijective, agrees⟩ := exists_bijOn_of_nodup (0 : UInt32) first.ids second.ids
    (by simpa using lengths)
  refine ⟨relabel, ?_, ?_⟩
  · rw [stored first, stored second]
    exact bijective
  · intro id rule found
    obtain ⟨index, within, rfl⟩ := List.getElem_of_mem (first.complete id rule found)
    rw [agrees index within]
    simp only [List.length_map, List.getElem_map] at within found ⊢
    obtain ⟨_, here⟩ := List.forall₂_iff_get.mp first.installed
    obtain ⟨_, there⟩ := List.forall₂_iff_get.mp second.installed
    have wantedWithin : index < desired.length := first.installed.length_eq ▸ within
    obtain ⟨_, stored₁, found₁, has₁⟩ := here index within wantedWithin
    obtain ⟨_, stored₂, found₂, has₂⟩ := there index (lengths ▸ within) wantedWithin
    obtain rfl : stored₁ = rule := Option.some.inj (found₁.symm.trans found)
    refine ⟨stored₂, found₂, ?_⟩
    exact
      { contextType := has₂.contextType.trans has₁.contextType.symm
        name := has₂.name.trans has₁.name.symm
        validUntil := has₂.validUntil.trans has₁.validUntil.symm
        signers := has₂.signers.trans has₁.signers.symm
        attached := has₂.attached.trans has₁.attached.symm }

theorem addAll_meets (documented : oz.Documented) (matching : Matching oz store current desired)
    (empty : current = []) {rest : List (Wanted d)} {placed : List (Placed d)} {apply : Apply σ}
    (progress : Progress oz store current placed rest apply)
    (whole : placed.map Prod.fst ++ rest = desired) :
    Meets (Ready oz env store desired)
      ((rest.mapM fun wanted => perform oz env wanted .add).run apply) fun reached =>
      ∃ more : List (Placed d), more.map Prod.fst = rest ∧
        reached.1 = more.map Placed.record ∧
        Progress oz store current (placed ++ more) [] reached.2 := by
  induction rest generalizing placed apply with
  | nil =>
      rw [List.mapM_nil]
      exact Meets.pure ⟨[], rfl, rfl, by simpa using progress⟩
  | cons wanted rest ih =>
      have distinct : ((wanted :: rest).map fun wanted => wanted.rule.slot).Nodup := by
        have slots := matching.wantedSlots
        rw [← whole, List.map_append] at slots
        exact slots.of_append_right
      rw [List.mapM_cons]
      apply Meets.bindState _ (perform_add_meets documented matching progress distinct
        (by simp [← whole]) (by simp [← whole]) (by simp [Decision.Fits, empty]))
      rintro record after ⟨id, rfl, progressed, _⟩
      apply Meets.bindState _ (ih progressed (by simp [← whole]))
      rintro next final ⟨more, listed, rfl, finished⟩
      refine Meets.pure ⟨(wanted, id) :: more, by simp [listed], rfl, ?_⟩
      rwa [List.append_assoc, List.singleton_append] at finished

theorem replaceAll_meets (documented : oz.Documented)
    (matching : Matching oz store current desired) :
    Meets (Ready oz env store desired) ((replaceAll oz env current desired).run (.start store))
      fun reached => Brings oz store reached.2.store reached.1 desired := by
  apply Meets.bindState _ (removeRules_meets documented fun _ => ⟨matching.mirrors.ids, ?_⟩)
  · rintro _ after ⟨removed, counter, cache⟩
    have nothing : ∀ id, oz.getContextRule after.store id = none := by
      intro id
      rw [removed]
      split
      · rfl
      · rename_i unlisted
        cases found : oz.getContextRule (Apply.start store).store id with
        | none => rfl
        | some rule => exact absurd (matching.mirrors.complete id rule found) unlisted
    have fresh : Matching oz after.store [] desired :=
      { mirrors :=
          { ids := List.nodup_nil
            complete := fun id rule found => by simp [nothing] at found
            recorded := fun c member => by cases member }
        slots := List.nodup_nil
        sound := fun c member => by cases member
        wantedSlots := matching.wantedSlots
        wantedSound := matching.wantedSound }
    have progress : Progress oz after.store [] [] desired after :=
      progress_after_removal fresh (by simp [nothing]) rfl cache
    refine Meets.strengthen ((addAll_meets documented fresh rfl progress rfl).imp ?_) ?_
    · rintro reached ⟨more, listed, records, finished⟩
      rw [records, ← listed]
      apply (Brings.of_progress finished).mono
      rintro _ ⟨id, rule, found, _⟩
      simp [nothing] at found
    · intro prepared
      exact { prepared with room := counter ▸ prepared.room }
  · intro c held
    obtain ⟨rule, found, _⟩ := matching.mirrors.recorded c held
    exact ⟨rule, found⟩

/-- Whatever way the slots are reconciled, the store ends with the desired
rules, as far as the records tell. -/
theorem reconcile_brings (documented : oz.Documented)
    (matching : Matching oz store current desired) (mode : Mode) :
    Meets (Ready oz env store desired) (reconcile oz env d.infra mode current desired store)
      fun reached => Brings oz store reached.2.2 reached.1 desired ∧
        (mode ≠ .fullReplace → List.Forall₂ (fun priced record =>
            ∀ kept ∈ priced.decision.keptId, record.id = kept)
          (priced d.infra mode current desired) reached.1) := by
  unfold reconcile
  by_cases full : mode = .fullReplace
  · rw [if_pos full]
    apply Meets.bind (replaceAll_meets documented matching)
    rintro ⟨next, apply⟩ brings
    exact Meets.pure ⟨brings, fun partly => absurd full partly⟩
  · rw [if_neg full]
    apply Meets.bind (run_meets documented matching d.infra mode)
    rintro ⟨next, apply⟩ ⟨more, listed, records, finished, kept⟩
    have brings := Brings.of_progress finished
    rw [List.nil_append, listed] at brings
    simp only at records
    rw [records]
    refine Meets.pure ⟨brings, fun _ => ?_⟩
    rw [List.forall₂_map_right_iff]
    exact kept

/-- And where equal digests mean equal parameters, exactly. -/
theorem reconcile_meets (documented : oz.Documented) (setting : Setting oz store current desired)
    (mode : Mode) :
    Meets (Ready oz env store desired) (reconcile oz env d.infra mode current desired store)
      fun reached => Realizes oz reached.2.2 reached.1 desired :=
  (reconcile_brings documented setting.toMatching mode).imp fun _ reached =>
    reached.1.realizes setting

/-- The slots that are kept or edited keep the ids of their records. -/
theorem reconcile_keepsIds (documented : oz.Documented)
    (matching : Matching oz store current desired) {mode : Mode} (partly : mode ≠ .fullReplace)
    {sum : DeltaSummary} {after : σ}
    (reconciled : reconcile oz env d.infra mode current desired store = .ok (records, sum, after)) :
    List.Forall₂ (fun priced record => ∀ c,
        priced.decision = .keep c ∨ priced.decision = .inPlace c →
          c ∈ current ∧ c.slot = record.slot ∧ record.id = c.id)
      (priced d.infra mode current desired) records := by
  obtain ⟨brings, kept⟩ := (reconcile_brings documented matching mode).sound _ reconciled
  have keeps := kept partly
  have fits := priced_fits d.infra mode current desired
  rw [List.forall₂_iff_get] at keeps fits ⊢
  refine ⟨keeps.1, ?_⟩
  intro index within within' c decided
  have wantedWithin : index < desired.length := fits.1 ▸ within
  have keptHere := keeps.2 index within within'
  have fitsHere := fits.2 index within wantedWithin
  have recordHere := (List.forall₂_iff_get.mp brings.installed).2 index within' wantedWithin
  have slot : (records.get ⟨index, within'⟩).slot =
      (desired.get ⟨index, wantedWithin⟩).rule.slot := by
    rw [recordHere.1, InstalledRule.withId_slot]
  rcases decided with decided | decided
  · rw [decided] at keptHere fitsHere
    exact ⟨fitsHere.1, fitsHere.2.1.trans slot.symm, keptHere c.id rfl⟩
  · rw [decided] at keptHere fitsHere
    exact ⟨fitsHere.1, fitsHere.2.1.trans slot.symm, keptHere c.id rfl⟩

end Outcome

end Perch.Account
