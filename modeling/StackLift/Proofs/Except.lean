/-!
# Checks in Sequence

A sequence of steps that may fail succeeds if each of the steps does, and fails with
the error of the first that does not. The lemmas take such a sequence apart, so that
nothing later has to look at how the steps are chained.

## Theorems

* `ite_error_eq_ok_iff`, `ite_error_eq_error_iff`: A condition that must not hold, and
  what follows.
* `bind_eq_ok_iff`, `bind_eq_error_iff`: Two steps one after the other.
* `mem_iff_of_mapM_eq_ok`, `split_of_mapM_eq_error`, `mapM_map_eq_ok`: One step for each
  element of a list.
* `exists_of_foldlM_eq_error`: A row of steps, each with the result of the one before.
* `run_bind_id`, `run_foldlM_id`: Steps that might have effects but have none.
-/

namespace StackLift

variable {ε α β : Type}

/-- A check for something that must not be: it is not, and what follows succeeds. -/
theorem ite_error_eq_ok_iff {p : Prop} [Decidable p] {e : ε} {x : Except ε α} {a : α} :
    (if p then .error e else x) = .ok a ↔ ¬p ∧ x = .ok a := by
  by_cases h : p
  · rw [if_pos h]
    simp only [reduceCtorEq, h, not_true_eq_false, false_and]
  · rw [if_neg h]
    simp only [h, not_false_eq_true, true_and]

theorem ite_error_eq_error_iff {p : Prop} [Decidable p] {e e' : ε} {x : Except ε α} :
    (if p then .error e else x) = .error e' ↔ (p ∧ e = e') ∨ (¬p ∧ x = .error e') := by
  by_cases h : p
  · rw [if_pos h, Except.error.injEq]
    simp only [h, not_true_eq_false, true_and, false_and, or_false]
  · rw [if_neg h]
    simp only [h, not_false_eq_true, true_and, false_and, false_or]

/-- Two steps succeed one after the other if the first gives a value with which
    the second succeeds. -/
theorem bind_eq_ok_iff {x : Except ε α} {f : α → Except ε β} {b : β} :
    x >>= f = .ok b ↔ ∃ a, x = .ok a ∧ f a = .ok b := by
  cases x with
  | error e =>
      constructor
      · intro h
        contradiction
      · intro hparts
        rcases hparts with ⟨a, ha, _⟩
        contradiction
  | ok a =>
      constructor
      · intro h
        exact ⟨a, rfl, h⟩
      · intro hparts
        rcases hparts with ⟨a', ha, hb⟩
        cases ha
        exact hb

theorem bind_eq_error_iff {x : Except ε α} {f : α → Except ε β} {e : ε} :
    x >>= f = .error e ↔ x = .error e ∨ ∃ a, x = .ok a ∧ f a = .error e := by
  cases x with
  | error e' =>
      change Except.error e' = Except.error e ↔ _
      simp only [reduceCtorEq, false_and, exists_false, or_false, Except.error.injEq]
  | ok a =>
      simp only [reduceCtorEq, false_or, Except.ok.injEq, exists_eq_left']
      rfl

/-- If a step succeeds for each element of a list, the results are just what it
    gives for these elements. -/
theorem mem_iff_of_mapM_eq_ok {f : α → Except ε β} {xs : List α} {ys : List β}
    (h : xs.mapM f = .ok ys) (y : β) : y ∈ ys ↔ ∃ x ∈ xs, f x = .ok y := by
  induction xs generalizing ys with
  | nil =>
      rw [List.mapM_nil] at h
      cases h
      simp only [List.not_mem_nil, false_and, exists_false]
  | cons x xs ih =>
      rw [List.mapM_cons] at h
      rcases bind_eq_ok_iff.mp h with ⟨z, hz, h⟩
      rcases bind_eq_ok_iff.mp h with ⟨zs, hzs, h⟩
      cases h
      rw [List.mem_cons, ih hzs]
      constructor
      · intro hcase
        rcases hcase with rfl | ⟨x', hx', hy⟩
        · exact ⟨x, List.mem_cons_self, hz⟩
        · exact ⟨x', List.mem_cons_of_mem x hx', hy⟩
      · intro hparts
        rcases hparts with ⟨x', hx', hy⟩
        rcases List.mem_cons.mp hx' with rfl | hmem
        · rw [hz, Except.ok.injEq] at hy
          exact Or.inl hy.symm
        · exact Or.inr ⟨x', hmem, hy⟩

theorem exists_of_mapM_eq_ok {f : α → Except ε β} {xs : List α} {ys : List β}
    (h : xs.mapM f = .ok ys) : ∀ x ∈ xs, ∃ y, f x = .ok y := by
  induction xs generalizing ys with
  | nil => exact fun x hx => absurd hx List.not_mem_nil
  | cons x xs ih =>
      rw [List.mapM_cons] at h
      rcases bind_eq_ok_iff.mp h with ⟨z, hz, h⟩
      rcases bind_eq_ok_iff.mp h with ⟨zs, hzs, _⟩
      exact List.forall_mem_cons.mpr ⟨⟨z, hz⟩, ih hzs⟩

/-- If a step fails for an element of a list, it is the first of them that counts. -/
theorem split_of_mapM_eq_error {f : α → Except ε β} {xs : List α} {e : ε}
    (h : xs.mapM f = .error e) :
    ∃ before x behind, xs = before ++ x :: behind ∧ (∀ y ∈ before, ∃ z, f y = .ok z) ∧
      f x = .error e := by
  induction xs with
  | nil =>
      rw [List.mapM_nil] at h
      contradiction
  | cons x xs ih =>
      rw [List.mapM_cons] at h
      rcases bind_eq_error_iff.mp h with hx | ⟨z, hz, h⟩
      · exact ⟨[], x, xs, rfl, fun y hy => absurd hy List.not_mem_nil, hx⟩
      · rcases bind_eq_error_iff.mp h with hxs | ⟨zs, _, h⟩
        · rcases ih hxs with ⟨before, y, behind, rfl, hbefore, hy⟩
          exact ⟨x :: before, y, behind, rfl, List.forall_mem_cons.mpr ⟨⟨z, hz⟩, hbefore⟩, hy⟩
        · contradiction

theorem exists_of_mapM_eq_error {f : α → Except ε β} {xs : List α} {e : ε}
    (h : xs.mapM f = .error e) : ∃ x ∈ xs, f x = .error e := by
  rcases split_of_mapM_eq_error h with ⟨before, x, behind, rfl, _, hx⟩
  exact ⟨x, List.mem_append_right before List.mem_cons_self, hx⟩

/-- If each value is got back from what is made of it, so is a list of them. -/
theorem mapM_map_eq_ok {f : β → Except ε α} {g : α → β} {xs : List α}
    (h : ∀ x ∈ xs, f (g x) = .ok x) : (xs.map g).mapM f = .ok xs := by
  induction xs with
  | nil => rfl
  | cons x xs ih =>
      have hfirst := h x List.mem_cons_self
      have hothers := ih fun y hy => h y (List.mem_cons_of_mem x hy)
      rw [List.map_cons, List.mapM_cons, hfirst, hothers]
      rfl

/-- A row of steps fails at the first step that does, with the result of those before. -/
theorem exists_of_foldlM_eq_error {f : β → α → Except ε β} {xs : List α} {b : β} {e : ε}
    (h : xs.foldlM f b = .error e) :
    ∃ before x behind c, xs = before ++ x :: behind ∧ before.foldlM f b = .ok c ∧
      f c x = .error e := by
  induction xs generalizing b with
  | nil =>
      rw [List.foldlM_nil] at h
      contradiction
  | cons x xs ih =>
      rw [List.foldlM_cons] at h
      rcases bind_eq_error_iff.mp h with hx | ⟨c, hc, h⟩
      · exact ⟨[], x, xs, b, rfl, rfl, hx⟩
      · rcases ih h with ⟨before, y, behind, d, rfl, hd, hy⟩
        refine ⟨x :: before, y, behind, d, rfl, ?_, hy⟩
        rw [List.foldlM_cons]
        exact bind_eq_ok_iff.mpr ⟨c, hc, hd⟩

/-- Without effects it is the results alone that are handed on. -/
theorem run_bind_id (x : ExceptT ε Id α) (f : α → ExceptT ε Id β) :
    (x >>= f).run = (x.run >>= fun a => (f a).run : Except ε β) := by
  change Except ε α at x
  cases x with
  | error e => rfl
  | ok a => rfl

theorem run_foldlM_id (f : β → α → ExceptT ε Id β) (xs : List α) (b : β) :
    (xs.foldlM f b).run = (xs.foldlM (fun b a => (f b a).run) b : Except ε β) := by
  induction xs generalizing b with
  | nil => rfl
  | cons x xs ih =>
      rw [List.foldlM_cons, List.foldlM_cons, run_bind_id]
      simp only [ih]

end StackLift
