import Mathlib.Data.List.Forall2

set_option autoImplicit false

/-!
# Steps that may fail

When a sequence of steps succeeds, every step of it did; when each of them can fail only in certain ways,
so can the sequence. A step for each item of a list gives the results in order, or stops at the first item
that fails. Steps that also write to a state keep what was written before one of them failed.
-/

namespace PipelineLineage

variable {ε α β : Type} {x : Except ε α}

@[simp] theorem ok_bind (a : α) (f : α → Except ε β) : (Except.ok a >>= f) = f a := rfl

@[simp] theorem error_bind (e : ε) (f : α → Except ε β) : (Except.error e >>= f) = .error e := rfl

theorem bind_eq_ok {f : α → Except ε β} {b : β} :
    (x >>= f) = .ok b ↔ ∃ a, x = .ok a ∧ f a = .ok b := by
  cases x with
  | error e => exact ⟨nofun, fun ⟨_, ha, _⟩ => nomatch ha⟩
  | ok a =>
    constructor
    · exact fun h => ⟨a, rfl, h⟩
    · rintro ⟨_, ⟨⟩, h⟩
      exact h

theorem bind_eq_error {f : α → Except ε β} {e : ε} :
    (x >>= f) = .error e ↔ x = .error e ∨ ∃ a, x = .ok a ∧ f a = .error e := by
  cases x with
  | error cause =>
    constructor
    · rintro ⟨⟩
      exact .inl rfl
    · rintro (⟨⟨⟩⟩ | ⟨_, ⟨⟩, _⟩)
      rfl
  | ok a =>
    constructor
    · exact fun h => .inr ⟨a, rfl, h⟩
    · rintro (⟨⟨⟩⟩ | ⟨_, ⟨⟩, h⟩)
      exact h

theorem map_eq_ok {f : α → β} {b : β} : x.map f = .ok b ↔ ∃ a, x = .ok a ∧ f a = b := by
  cases x with
  | error e => exact ⟨nofun, fun ⟨_, ha, _⟩ => nomatch ha⟩
  | ok a =>
    constructor
    · exact fun h => ⟨a, rfl, Except.ok.inj h⟩
    · rintro ⟨_, ⟨⟩, rfl⟩
      rfl

theorem pure_eq_ok {a b : α} : (pure a : Except ε α) = .ok b ↔ a = b :=
  ⟨Except.ok.inj, congrArg _⟩

theorem pure_eq_error {a : α} {e : ε} : (pure a : Except ε α) = .error e ↔ False :=
  ⟨nofun, False.elim⟩

/-- A sequence goes on alike where the steps that follow agree on what came before. -/
theorem bind_congr_ok {f g : α → Except ε β} (h : ∀ a, x = .ok a → f a = g a) : x >>= f = x >>= g := by
  cases x with
  | error e => rfl
  | ok a => exact h a rfl

/-! ## A step for each item of a list -/

section Items

variable {f : α → Except ε β} {items : List α} {results : List β}

theorem mapM_eq_ok_iff :
    items.mapM f = .ok results ↔ List.Forall₂ (fun item result => f item = .ok result) items results := by
  induction items generalizing results with
  | nil =>
    rw [List.forall₂_nil_left_iff, List.mapM_nil, pure_eq_ok, eq_comm]
  | cons item items ih =>
    simp only [List.mapM_cons, bind_eq_ok, pure_eq_ok, ih, List.forall₂_cons_left_iff]
    constructor
    · rintro ⟨first, hfirst, others, hothers, rfl⟩
      exact ⟨first, others, hfirst, hothers, rfl⟩
    · rintro ⟨first, others, hfirst, hothers, rfl⟩
      exact ⟨first, hfirst, others, hothers, rfl⟩

/-- The items before the one that fails have results. -/
theorem mapM_eq_error_iff {e : ε} : items.mapM f = .error e ↔
    ∃ before item after, items = before ++ item :: after ∧
      (∃ results, List.Forall₂ (fun item result => f item = .ok result) before results) ∧
      f item = .error e := by
  induction items with
  | nil =>
    constructor
    · exact nofun
    · rintro ⟨before, item, after, hitems, -⟩
      simp at hitems
  | cons item items ih =>
    simp only [List.mapM_cons, bind_eq_error, pure_eq_error, and_false, exists_false, or_false, ih]
    constructor
    · rintro (hitem | ⟨first, hfirst, before, other, after, rfl, ⟨rs, hbefore⟩, hother⟩)
      · exact ⟨[], item, items, rfl, ⟨[], .nil⟩, hitem⟩
      · exact ⟨item :: before, other, after, rfl, ⟨first :: rs, .cons hfirst hbefore⟩, hother⟩
    · rintro ⟨before, other, after, hsplit, ⟨rs, hbefore⟩, hother⟩
      cases hbefore with
      | nil =>
        obtain ⟨rfl, rfl⟩ := List.cons.inj hsplit
        exact .inl hother
      | @cons _ first before rs hfirst hbefore =>
        obtain ⟨rfl, rfl⟩ := List.cons.inj hsplit
        exact .inr ⟨first, hfirst, before, other, after, rfl, ⟨rs, hbefore⟩, hother⟩

theorem mapM_eq_some_iff {read : α → Option β} : items.mapM read = some results ↔
    List.Forall₂ (fun item result => read item = some result) items results := by
  induction items generalizing results with
  | nil => rw [List.forall₂_nil_left_iff, List.mapM_nil, Option.pure_def, Option.some.injEq, eq_comm]
  | cons item items ih =>
    simp only [List.mapM_cons, Option.bind_eq_bind, Option.bind_eq_some_iff, Option.pure_def,
      Option.some.injEq, ih, List.forall₂_cons_left_iff]
    constructor
    · rintro ⟨first, hfirst, others, hothers, rfl⟩
      exact ⟨first, others, hfirst, hothers, rfl⟩
    · rintro ⟨first, others, hfirst, hothers, rfl⟩
      exact ⟨first, hfirst, others, hothers, rfl⟩

theorem exists_of_mem_mapM {read : α → Option β} (h : items.mapM read = some results) :
    ∀ result ∈ results, ∃ item, read item = some result := by
  rw [mapM_eq_some_iff] at h
  induction h with
  | nil => exact List.forall_mem_nil _
  | cons hfirst _ ih => exact List.forall_mem_cons.2 ⟨⟨_, hfirst⟩, ih⟩

end Items

/-- Every failure is one of those that the predicate allows. -/
def FailsOnly (P : ε → Prop) (x : Except ε α) : Prop := ∀ e, x = .error e → P e

namespace FailsOnly

variable {P Q : ε → Prop}

theorem of_ok {a : α} (h : x = .ok a) : FailsOnly P x := by
  intro e he
  rw [h] at he
  cases he

theorem pure (a : α) : FailsOnly P (Pure.pure a : Except ε α) := of_ok rfl

theorem throw {e : ε} (h : P e) : FailsOnly P (throw e : Except ε α) := by
  rintro _ ⟨⟩
  exact h

theorem bind {f : α → Except ε β} (hx : FailsOnly P x) (hf : ∀ a, x = .ok a → FailsOnly P (f a)) :
    FailsOnly P (x >>= f) := by
  cases h : x with
  | error e =>
    rintro _ ⟨⟩
    exact hx e h
  | ok a => exact hf a h

theorem bind_ok {f : α → Except ε β} (hx : ∃ a, x = .ok a) (hf : ∀ a, x = .ok a → FailsOnly P (f a)) :
    FailsOnly P (x >>= f) := by
  obtain ⟨a, h⟩ := hx
  exact bind (of_ok h) hf

theorem mono (h : FailsOnly P x) (hPQ : ∀ e, P e → Q e) : FailsOnly Q x :=
  fun e he => hPQ e (h e he)

/-- What fails in no way succeeds. -/
theorem exists_ok (h : FailsOnly (fun _ => False) x) : ∃ a, x = .ok a := by
  cases hx : x with
  | error e => exact (h e hx).elim
  | ok a => exact ⟨a, rfl⟩

end FailsOnly

/-! ## Steps that write -/

section Writing

variable {σ : Type} {steps : ExceptT ε (StateM σ) α} {next : α → ExceptT ε (StateM σ) β} {s t : σ}

/-- What some steps give, and the state that they leave. -/
def runOn (steps : ExceptT ε (StateM σ) α) (s : σ) : Except ε α × σ := (steps.run.run s).run

theorem runOn_bind_ok {a : α} (h : runOn steps s = (.ok a, t)) :
    runOn (steps >>= next) s = runOn (next a) t := by
  simp only [runOn, ExceptT.run_bind, StateT.run_bind, Id.run_bind] at *
  rw [h]

theorem runOn_bind_error {error : ε} (h : runOn steps s = (.error error, t)) :
    runOn (steps >>= next) s = (.error error, t) := by
  simp only [runOn, ExceptT.run_bind, StateT.run_bind, Id.run_bind] at *
  rw [h]
  rfl

end Writing

end PipelineLineage
