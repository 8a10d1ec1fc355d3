import Mathlib.Data.List.Forall2

/-!
# Results of steps that can fail

A sequence of steps succeeds exactly if every step does.  The statements here
take such a sequence apart, or put one together, without unfolding it.  Steps may
also read and change a state, and are then taken apart for each state in which they
start.
-/

namespace Quorum
namespace Outcome

variable {ε α β : Type}

@[simp]
theorem ok_bind (a : α) (f : α → Except ε β) : (Except.ok a >>= f) = f a := rfl

@[simp]
theorem error_bind (e : ε) (f : α → Except ε β) : (Except.error e >>= f) = .error e := rfl

@[simp]
theorem pure_eq_ok (a : α) : (pure a : Except ε α) = .ok a := rfl

@[simp]
theorem throw_eq_error (e : ε) : (throw e : Except ε α) = .error e := rfl

theorem bind_eq_ok_iff {x : Except ε α} {f : α → Except ε β} {b : β} :
    (x >>= f) = .ok b ↔ ∃ a, x = .ok a ∧ f a = .ok b := by
  cases x with
  | error e => simp
  | ok a => simp

/-- A check is passed if what it refuses is not the case. -/
theorem guard_eq_ok_iff {c : Prop} [Decidable c] {e : ε} {x : Except ε α} {a : α} :
    (if c then .error e else x) = .ok a ↔ ¬ c ∧ x = .ok a := by
  by_cases hc : c
  · simp [hc]
  · simp [hc]

theorem guard_eq_error_iff {c : Prop} [Decidable c] {e e' : ε} {x : Except ε α} :
    (if c then .error e else x) = .error e' ↔ c ∧ e = e' ∨ ¬ c ∧ x = .error e' := by
  by_cases hc : c
  · simp [hc]
  · simp [hc]

theorem bind_eq_error_iff {x : Except ε α} {f : α → Except ε β} {e : ε} :
    (x >>= f) = .error e ↔ x = .error e ∨ ∃ a, x = .ok a ∧ f a = .error e := by
  cases x with
  | error e' => simp
  | ok a => simp

/-- Wording an error differently does not change a result. -/
theorem mapError_eq_ok_iff {ε' : Type} {f : ε → ε'} {x : Except ε α} {a : α} :
    x.mapError f = .ok a ↔ x = .ok a := by
  cases x with
  | error e => simp [Except.mapError]
  | ok b => simp [Except.mapError]

/-! ## Results for the elements of a list -/

section Lists

variable {R : α → β → Prop} {items : List α} {results : List β}

theorem exists_forall₂ (h : ∀ item ∈ items, ∃ result, R item result) :
    ∃ results, List.Forall₂ R items results := by
  induction items with
  | nil => exact ⟨[], .nil⟩
  | cons item rest ih =>
      obtain ⟨first, hfirst⟩ := h item (by simp)
      obtain ⟨others, hothers⟩ := ih fun other hother => h other (by simp [hother])
      exact ⟨first :: others, .cons hfirst hothers⟩

theorem exists_result_of_mem (h : List.Forall₂ R items results) {item : α}
    (hitem : item ∈ items) : ∃ result ∈ results, R item result := by
  induction h with
  | nil => cases hitem
  | cons hfirst _ ih =>
      rcases List.mem_cons.1 hitem with rfl | hrest
      · exact ⟨_, List.mem_cons_self, hfirst⟩
      · obtain ⟨result, hresult, hother⟩ := ih hrest
        exact ⟨result, List.mem_cons_of_mem _ hresult, hother⟩

/-- Related lists are related place by place. -/
theorem exists_result_at (h : List.Forall₂ R items results) {i : Nat} {item : α}
    (hitem : items[i]? = some item) : ∃ result, results[i]? = some result ∧ R item result := by
  induction h generalizing i with
  | nil => cases hitem
  | cons hfirst _ ih =>
      cases i with
      | zero =>
          rw [List.getElem?_cons_zero] at hitem
          cases hitem
          exact ⟨_, List.getElem?_cons_zero, hfirst⟩
      | succ i =>
          rw [List.getElem?_cons_succ] at hitem
          simp only [List.getElem?_cons_succ]
          exact ih hitem

theorem exists_item_of_mem (h : List.Forall₂ R items results) {result : β}
    (hresult : result ∈ results) : ∃ item ∈ items, R item result :=
  exists_result_of_mem (List.Forall₂.flip h) hresult

end Lists

/-- A step for every element of a list succeeds exactly if it does for each. -/
theorem mapM_eq_ok_iff {f : α → Except ε β} {items : List α} {results : List β} :
    items.mapM f = .ok results ↔
      List.Forall₂ (fun item result => f item = .ok result) items results := by
  induction items generalizing results with
  | nil => simp [eq_comm]
  | cons item rest ih =>
      simp only [List.mapM_cons, bind_eq_ok_iff, pure_eq_ok, Except.ok.injEq, ih,
        List.forall₂_cons_left_iff]
      constructor
      · rintro ⟨first, hfirst, others, hothers, rfl⟩
        exact ⟨first, others, hfirst, hothers, rfl⟩
      · rintro ⟨first, others, hfirst, hothers, rfl⟩
        exact ⟨first, hfirst, others, hothers, rfl⟩

/-- The same for steps that fail without an error. -/
theorem mapM_eq_some_iff {f : α → Option β} {items : List α} {results : List β} :
    items.mapM f = some results ↔
      List.Forall₂ (fun item result => f item = some result) items results := by
  induction items generalizing results with
  | nil => simp [eq_comm]
  | cons item rest ih =>
      simp only [List.mapM_cons, Option.bind_eq_bind, Option.bind_eq_some_iff, Option.pure_def,
        Option.some.injEq, ih, List.forall₂_cons_left_iff]
      constructor
      · rintro ⟨first, hfirst, others, hothers, rfl⟩
        exact ⟨first, others, hfirst, hothers, rfl⟩
      · rintro ⟨first, others, hfirst, hothers, rfl⟩
        exact ⟨first, hfirst, others, hothers, rfl⟩

theorem exists_mapM_eq_ok {f : α → Except ε β} {items : List α}
    (h : ∀ item ∈ items, ∃ result, f item = .ok result) :
    ∃ results, items.mapM f = .ok results := by
  simp only [mapM_eq_ok_iff]
  exact exists_forall₂ h

/-- Where one of several steps fails, the first that does so decides the error. -/
theorem exists_of_mapM_eq_error {f : α → Except ε β} {items : List α} {e : ε}
    (h : items.mapM f = .error e) : ∃ item ∈ items, f item = .error e := by
  induction items with
  | nil => cases h
  | cons item rest ih =>
      rw [List.mapM_cons] at h
      cases hitem : f item with
      | error e' =>
          rw [hitem] at h
          cases h
          exact ⟨item, by simp, hitem⟩
      | ok result =>
          rw [hitem, ok_bind] at h
          cases hrest : rest.mapM f with
          | error e' =>
              rw [hrest] at h
              cases h
              obtain ⟨other, hother, herror⟩ := ih hrest
              exact ⟨other, by simp [hother], herror⟩
          | ok results =>
              rw [hrest] at h
              cases h

theorem mapM_eq_ok_map {f : α → Except ε β} {g : α → β} {items : List α}
    (h : ∀ item ∈ items, f item = .ok (g item)) : items.mapM f = .ok (items.map g) := by
  rw [mapM_eq_ok_iff, List.forall₂_map_right_iff, List.forall₂_same]
  exact h

/-! ## Steps with a state -/

section State

variable {σ : Type} {s s' : σ}

theorem run_pure_eq_ok_iff {a b : α} :
    (pure a : ExceptT ε (StateM σ) α).run.run s = (.ok b, s') ↔ b = a ∧ s' = s := by
  change (Except.ok a, s) = _ ↔ _
  rw [Prod.mk.injEq, Except.ok.injEq, eq_comm, @eq_comm _ s]

theorem run_bind_eq_ok_iff {x : ExceptT ε (StateM σ) α} {f : α → ExceptT ε (StateM σ) β} {b : β} :
    (x >>= f).run.run s = (.ok b, s') ↔
      ∃ a middle, x.run.run s = (.ok a, middle) ∧ (f a).run.run middle = (.ok b, s') := by
  rw [ExceptT.run_bind, StateT.run_bind]
  rcases x.run.run s with ⟨failure | a, middle⟩
  · refine iff_of_false (fun h => nomatch h) ?_
    rintro ⟨_, _, ⟨⟩, -⟩
  · constructor
    · intro h
      exact ⟨a, middle, rfl, h⟩
    · rintro ⟨_, _, ⟨⟩, h⟩
      exact h

/-- What comes after a step that succeeds starts in the state that it leaves. -/
theorem run_bind_of_ok {x : ExceptT ε (StateM σ) α} {f : α → ExceptT ε (StateM σ) β} {a : α}
    (h : x.run.run s = (.ok a, s')) : (x >>= f).run.run s = (f a).run.run s' := by
  rw [ExceptT.run_bind, StateT.run_bind, h]
  rfl

/-- One more step after steps that have succeeded. -/
theorem run_mapM_concat {f : α → ExceptT ε (StateM σ) β} {items : List α} {item : α}
    {results : List β} {result : β} {before middle later : σ}
    (hfirst : (items.mapM f).run.run before = (.ok results, middle))
    (hlast : (f item).run.run middle = (.ok result, later)) :
    ((items ++ [item]).mapM f).run.run before = (.ok (results ++ [result]), later) := by
  have hsingle : ([item].mapM f).run.run middle = (.ok [result], later) := by
    rw [List.mapM_cons, run_bind_of_ok hlast]
    rfl
  rw [List.mapM_append, run_bind_of_ok hfirst, run_bind_of_ok hsingle]
  rfl

theorem run_throw_ne_ok {failure : ε} {b : β} :
    (throw failure : ExceptT ε (StateM σ) β).run.run s ≠ (.ok b, s') := by
  intro h
  cases h

/-- A check is passed if what it refuses is not the case. -/
theorem run_check_eq_ok_iff {c : Prop} [Decidable c] {failure : ε}
    {next : β → ExceptT ε (StateM σ) α} {x : ExceptT ε (StateM σ) α} {a : α} :
    (if c then throw failure >>= next else x).run.run s = (.ok a, s') ↔
      ¬ c ∧ x.run.run s = (.ok a, s') := by
  by_cases hc : c
  · rw [if_pos hc]
    refine iff_of_false (fun h => ?_) (fun h => h.1 hc)
    obtain ⟨b, middle, hthrow, -⟩ := run_bind_eq_ok_iff.1 h
    exact run_throw_ne_ok hthrow
  · rw [if_neg hc, and_iff_right hc]

theorem run_pure_ne_error {a : α} {failure : ε} :
    (pure a : ExceptT ε (StateM σ) α).run.run s ≠ (.error failure, s') := by
  intro h
  cases h

/-- A sequence fails where its first step that fails leaves it. -/
theorem run_bind_eq_error_iff {x : ExceptT ε (StateM σ) α} {f : α → ExceptT ε (StateM σ) β}
    {failure : ε} : (x >>= f).run.run s = (.error failure, s') ↔
      x.run.run s = (.error failure, s') ∨
        ∃ a middle, x.run.run s = (.ok a, middle) ∧
          (f a).run.run middle = (.error failure, s') := by
  rw [ExceptT.run_bind, StateT.run_bind]
  rcases x.run.run s with ⟨other | a, middle⟩
  · constructor
    · rintro ⟨⟩
      exact .inl rfl
    · rintro (⟨⟨⟩⟩ | ⟨_, _, ⟨⟩, -⟩)
      rfl
  · constructor
    · intro h
      exact .inr ⟨a, middle, rfl, h⟩
    · rintro (⟨⟨⟩⟩ | ⟨_, _, ⟨⟩, h⟩)
      exact h

theorem run_throw_eq_error_iff {failure failure' : ε} :
    (throw failure : ExceptT ε (StateM σ) α).run.run s = (.error failure', s') ↔
      failure = failure' ∧ s' = s := by
  change ((Except.error failure : Except ε α), s) = _ ↔ _
  rw [Prod.mk.injEq, Except.error.injEq, @eq_comm _ s]

/-- Either what a check refuses is the case, and nothing is done, or the failure comes from
what follows. -/
theorem run_check_eq_error_iff {c : Prop} [Decidable c] {failure failure' : ε}
    {next : β → ExceptT ε (StateM σ) α} {x : ExceptT ε (StateM σ) α} :
    (if c then throw failure >>= next else x).run.run s = (.error failure', s') ↔
      c ∧ failure = failure' ∧ s' = s ∨ ¬ c ∧ x.run.run s = (.error failure', s') := by
  by_cases hc : c
  · rw [if_pos hc, run_bind_eq_error_iff, run_throw_eq_error_iff, and_iff_right hc]
    refine or_congr_right (iff_of_false ?_ fun h => h.1 hc)
    rintro ⟨_, _, hthrow, -⟩
    exact run_throw_ne_ok hthrow
  · rw [if_neg hc, or_iff_right fun h => hc h.1, and_iff_right hc]

end State

end Outcome
end Quorum
