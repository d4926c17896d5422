/-
Inversion rules for computations in `Except`.

A guard either lets a computation continue or ends it with a failure.  The
rules below read a successful computation back as the conjunction of the
guards it passed, so that a caller never unfolds a monadic bind.
-/

import Mathlib.Data.List.Forall2

namespace Perch.Machine

variable {ε α β : Type}

def require (condition : Prop) [Decidable condition] (failure : ε) : Except ε Unit :=
  if condition then .ok () else .error failure

/-- The value of a lookup, or the failure its absence stands for. -/
def orFail (value : Option α) (failure : ε) : Except ε α :=
  match value with
  | some found => .ok found
  | none => .error failure

def whenever (condition : Prop) [Decidable condition] (check : Except ε Unit) : Except ε Unit :=
  if condition then check else .ok ()

@[simp] theorem require_eq_ok {condition : Prop} [Decidable condition] {failure : ε} {done : Unit} :
    require condition failure = .ok done ↔ condition := by
  unfold require
  split <;> simp_all

@[simp] theorem require_eq_error {condition : Prop} [Decidable condition] {failure raised : ε} :
    require condition failure = .error raised ↔ ¬condition ∧ failure = raised := by
  unfold require
  split <;> simp_all

@[simp] theorem whenever_eq_ok {condition : Prop} [Decidable condition]
    {check : Except ε Unit} {done : Unit} :
    whenever condition check = .ok done ↔ (condition → check = .ok ()) := by
  unfold whenever
  split <;> simp_all

@[simp] theorem whenever_eq_error {condition : Prop} [Decidable condition]
    {check : Except ε Unit} {raised : ε} :
    whenever condition check = .error raised ↔ condition ∧ check = .error raised := by
  unfold whenever
  split <;> simp_all

@[simp] theorem orFail_eq_ok {value : Option α} {failure : ε} {found : α} :
    orFail value failure = .ok found ↔ value = some found := by
  cases value <;> simp [orFail]

@[simp] theorem orFail_eq_error {value : Option α} {failure raised : ε} :
    orFail value failure = .error raised ↔ value = none ∧ failure = raised := by
  cases value <;> simp [orFail]

theorem bind_eq_map {γ : Type} {first : Except ε α} {next : α → Except ε β}
    {next' : α → Except ε γ} {change : β → γ}
    (rest : ∀ value, first = .ok value → next' value = (next value).map change) :
    (first >>= next') = (first >>= next).map change := by
  cases first with
  | error failure => rfl
  | ok value => exact rest value rfl

theorem bind_eq_map_of_head {α' γ : Type} {first : Except ε α} {first' : Except ε α'}
    {head : α → α'} {next : α → Except ε β} {next' : α' → Except ε γ} {change : β → γ}
    (mapped : first' = first.map head)
    (rest : ∀ value, next' (head value) = (next value).map change) :
    (first' >>= next') = (first >>= next).map change := by
  subst mapped
  cases first with
  | error failure => rfl
  | ok value => exact rest value

theorem ok_bind (value : α) (next : α → Except ε β) : (Except.ok value >>= next) = next value :=
  rfl

@[simp] theorem bind_eq_ok {first : Except ε α} {next : α → Except ε β} {result : β} :
    (first >>= next) = .ok result ↔ ∃ value, first = .ok value ∧ next value = .ok result := by
  cases first with
  | error failure => simp [bind, Except.bind]
  | ok value => simp [bind, Except.bind]

@[simp] theorem bind_eq_error {first : Except ε α} {next : α → Except ε β} {raised : ε} :
    (first >>= next) = .error raised ↔
      first = .error raised ∨ ∃ value, first = .ok value ∧ next value = .error raised := by
  cases first with
  | error failure => simp [bind, Except.bind]
  | ok value => simp [bind, Except.bind]

@[simp] theorem pure_eq_ok {value result : α} :
    (pure value : Except ε α) = .ok result ↔ value = result := by
  simp [pure, Except.pure]

@[simp] theorem pure_ne_error {value : α} {raised : ε} :
    (pure value : Except ε α) ≠ .error raised := by
  simp [pure, Except.pure]

@[simp] theorem mapError_eq_ok {δ : Type} {rename : ε → δ} {computed : Except ε α} {value : α} :
    computed.mapError rename = .ok value ↔ computed = .ok value := by
  cases computed with
  | error failure =>
      change Except.error (rename failure) = .ok value ↔ Except.error failure = .ok value
      simp
  | ok found =>
      change Except.ok found = .ok value ↔ Except.ok found = .ok value
      simp

@[simp] theorem throw_ne_ok {raised : ε} {result : α} :
    (throw raised : Except ε α) ≠ .ok result := by
  simp [throw, throwThe, MonadExceptOf.throw]

theorem map_eq_ok {next : α → β} {computed : Except ε α} {result : β} :
    (next <$> computed) = .ok result ↔ ∃ value, computed = .ok value ∧ next value = result := by
  cases computed with
  | error failure => simp [Functor.map, Except.map]
  | ok value => simp [Functor.map, Except.map]

theorem toOption_eq_some {computed : Except ε α} {value : α} :
    computed.toOption = some value ↔ computed = .ok value := by
  cases computed <;> simp [Except.toOption]

/-- A computation over a list ran on every item. -/
theorem mapM_eq_ok {run : α → Except ε β} {items : List α} {results : List β}
    (mapped : items.mapM run = .ok results) :
    List.Forall₂ (fun item result => run item = .ok result) items results := by
  induction items generalizing results with
  | nil =>
      rw [List.mapM_nil, pure_eq_ok] at mapped
      exact mapped ▸ .nil
  | cons item rest ih =>
      simp only [List.mapM_cons, bind_eq_ok, pure_eq_ok] at mapped
      obtain ⟨result, here, more, there, rfl⟩ := mapped
      exact .cons here (ih there)

theorem mapM_ok_of_forall {run : α → Except ε β} {items : List α}
    (each : ∀ item ∈ items, ∃ result, run item = .ok result) :
    ∃ results, items.mapM run = .ok results := by
  induction items with
  | nil => exact ⟨[], rfl⟩
  | cons item rest ih =>
      obtain ⟨result, ran⟩ := each item List.mem_cons_self
      obtain ⟨results, mapped⟩ := ih fun item member => each item (List.mem_cons_of_mem _ member)
      refine ⟨result :: results, ?_⟩
      rw [List.mapM_cons, ran, ok_bind, mapped, ok_bind]
      rfl

/-- A computation over a list fails as it does at the first item it fails at. -/
theorem mapM_eq_error {run : α → Except ε β} {items : List α} {raised : ε} :
    items.mapM run = .error raised ↔ ∃ before item after, items = before ++ item :: after ∧
      (∀ earlier ∈ before, ∃ result, run earlier = .ok result) ∧ run item = .error raised := by
  induction items with
  | nil => simp [List.mapM_nil]
  | cons item rest ih =>
      rw [List.mapM_cons, bind_eq_error]
      simp only [bind_eq_error, pure_ne_error, and_false, exists_false, or_false, ih]
      constructor
      · rintro (here | ⟨result, reached, before, later, after, rfl, earlier, fails⟩)
        · exact ⟨[], item, rest, rfl, by simp, here⟩
        · refine ⟨item :: before, later, after, rfl, ?_, fails⟩
          rw [List.forall_mem_cons]
          exact ⟨⟨result, reached⟩, earlier⟩
      · rintro ⟨before, later, after, split, earlier, fails⟩
        cases before with
        | nil =>
            rw [List.nil_append, List.cons.injEq] at split
            obtain ⟨rfl, rfl⟩ := split
            exact Or.inl fails
        | cons first before =>
            rw [List.cons_append, List.cons.injEq] at split
            obtain ⟨rfl, rfl⟩ := split
            rw [List.forall_mem_cons] at earlier
            obtain ⟨⟨result, reached⟩, earlier⟩ := earlier
            exact Or.inr ⟨result, reached, before, later, after, rfl, earlier, fails⟩

theorem mapM_map_ok {γ : Type} {source : γ → α} {run : α → Except ε β} {result : γ → β}
    (each : ∀ item, run (source item) = .ok (result item)) {items : List γ} :
    (items.map source).mapM run = .ok (items.map result) := by
  induction items with
  | nil => rfl
  | cons item rest ih =>
      rw [List.map_cons, List.mapM_cons, each, ok_bind, ih, ok_bind]
      rfl

theorem forM_eq_ok {check : α → Except ε Unit} {items : List α} {done : Unit} :
    items.forM check = .ok done ↔ ∀ item ∈ items, check item = .ok () := by
  induction items with
  | nil => simp [List.forM, pure_eq_ok]
  | cons item rest ih =>
      rw [List.forall_mem_cons, ← ih, List.forM_eq_forM, List.forM_cons, bind_eq_ok]
      exact ⟨fun ⟨_, here, there⟩ => ⟨here, there⟩, fun ⟨here, there⟩ => ⟨(), here, there⟩⟩

/-! ### Results that have a property -/

section Keeping

variable {P : α → Prop}

/-- A computation whose results have a property. -/
def keeping : (computed : Except ε α) → (∀ value, computed = .ok value → P value) →
    Except ε {value : α // P value}
  | .ok value, keeps => .ok ⟨value, keeps value rfl⟩
  | .error failure, _ => .error failure

variable {computed : Except ε α} {keeps : ∀ value, computed = .ok value → P value}

@[simp] theorem keeping_eq_ok {value : {value : α // P value}} :
    keeping computed keeps = .ok value ↔ computed = .ok value.1 := by
  cases computed with
  | ok reached => simp [keeping, Subtype.ext_iff]
  | error failure => simp [keeping]

@[simp] theorem keeping_eq_error {failure : ε} :
    keeping computed keeps = .error failure ↔ computed = .error failure := by
  cases computed <;> simp [keeping]

theorem keeping_total (returns : ∃ value, computed = .ok value) :
    ∃ value, keeping computed keeps = .ok value := by
  obtain ⟨value, reached⟩ := returns
  exact ⟨⟨value, keeps value reached⟩, keeping_eq_ok.mpr reached⟩

end Keeping

/-! ### Failures a computation cannot end with -/

def Avoids (bad : ε → Prop) (computed : Except ε α) : Prop :=
  ∀ failure, computed = .error failure → ¬bad failure

namespace Avoids

variable {bad : ε → Prop}

theorem ok (value : α) : Avoids bad (.ok value : Except ε α) := by
  intro failure raised
  cases raised

theorem pure (value : α) : Avoids bad (Pure.pure value : Except ε α) := by
  intro failure raised
  exact absurd raised pure_ne_error

theorem bind {first : Except ε α} {next : α → Except ε β} (head : Avoids bad first)
    (tail : ∀ value, first = .ok value → Avoids bad (next value)) :
    Avoids bad (first >>= next) := by
  intro failure raised
  rcases bind_eq_error.mp raised with early | ⟨value, reached, late⟩
  · exact head failure early
  · exact tail value reached failure late

theorem require {condition : Prop} [Decidable condition] {failure : ε}
    (harmless : ¬condition → ¬bad failure) : Avoids bad (Machine.require condition failure) := by
  intro raised refused
  obtain ⟨unmet, rfl⟩ := require_eq_error.mp refused
  exact harmless unmet

theorem orFail {value : Option α} {failure : ε} (harmless : value = none → ¬bad failure) :
    Avoids bad (Machine.orFail value failure) := by
  intro raised refused
  obtain ⟨missing, rfl⟩ := orFail_eq_error.mp refused
  exact harmless missing

theorem ite {condition : Prop} [Decidable condition] {first second : Except ε α}
    (accepted : condition → Avoids bad first) (rejected : ¬condition → Avoids bad second) :
    Avoids bad (if condition then first else second) := by
  split
  · exact accepted ‹_›
  · exact rejected ‹_›

theorem mapError {δ : Type} {rename : δ → ε} {computed : Except δ α}
    (harmless : ∀ failure, ¬bad (rename failure)) : Avoids bad (computed.mapError rename) := by
  intro failure raised
  cases computed with
  | ok value => cases raised
  | error cause =>
      have same : rename cause = failure := Except.error.inj raised
      exact same ▸ harmless cause

/-- A renamed failure is bad when what it renames is. -/
theorem renamed {δ : Type} {rename : δ → ε} {computed : Except δ α}
    (avoids : Avoids (fun failure => bad (rename failure)) computed) :
    Avoids bad (computed.mapError rename) := by
  intro failure raised
  cases computed with
  | ok value => cases raised
  | error cause =>
      have same : rename cause = failure := Except.error.inj raised
      exact same ▸ avoids cause rfl

theorem mapM {run : α → Except ε β} {items : List α}
    (each : ∀ item ∈ items, Avoids bad (run item)) : Avoids bad (items.mapM run) := by
  induction items with
  | nil => exact Avoids.pure []
  | cons item rest ih =>
      rw [List.mapM_cons]
      apply Avoids.bind (each item List.mem_cons_self)
      intro result _
      apply Avoids.bind (ih fun later member => each later (List.mem_cons_of_mem _ member))
      intro results _
      exact Avoids.pure _

theorem forM {run : α → Except ε PUnit} {items : List α}
    (each : ∀ item ∈ items, Avoids bad (run item)) : Avoids bad (items.forM run) := by
  induction items with
  | nil => exact Avoids.pure _
  | cons item rest ih =>
      apply Avoids.bind (each item List.mem_cons_self)
      intro _ _
      exact ih fun later member => each later (List.mem_cons_of_mem _ member)

theorem foldlM {run : β → α → Except ε β} {items : List α} {start : β}
    (each : ∀ state, ∀ item ∈ items, Avoids bad (run state item)) :
    Avoids bad (items.foldlM run start) := by
  induction items generalizing start with
  | nil => exact Avoids.pure _
  | cons item rest ih =>
      rw [List.foldlM_cons]
      apply Avoids.bind (each start item List.mem_cons_self)
      intro state _
      exact ih fun state later member => each state later (List.mem_cons_of_mem _ member)

end Avoids

end Perch.Machine
