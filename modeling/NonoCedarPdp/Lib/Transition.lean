import Mathlib.Data.List.Induction

/-!
Labelled transition systems whose step is a partial function of state and label,
and runs all of whose steps meet a guard. A label carries everything the step
does not decide itself: the schedule, the inputs, the faults.
-/
namespace Transition
variable {σ α : Type} {step : σ → α → Option σ} {guard : σ → α → Prop} {s t u : σ}
  {labels : List α}

/-- A run from a state, with every step taken under `guard`. -/
inductive Run (step : σ → α → Option σ) (guard : σ → α → Prop) (s : σ) : List α → σ → Prop
  | nil : Run step guard s [] s
  | snoc {labels : List α} {t u : σ} {a : α} (run : Run step guard s labels t)
      (meets : guard t a) (taken : step t a = some u) : Run step guard s (labels ++ [a]) u

/-- No step is excluded. -/
def Always (_ : σ) (_ : α) : Prop := True

instance (s : σ) (a : α) : Decidable (Always s a) := isTrue trivial

theorem Run.append {later : List α} (run : Run step guard s labels t)
    (run' : Run step guard t later u) : Run step guard s (labels ++ later) u := by
  induction run' with
  | nil =>
      rw [List.append_nil]
      exact run
  | snoc _ meets taken ih =>
      rw [← List.append_assoc]
      exact .snoc ih meets taken

/-- What every guarded step preserves holds at the end of every guarded run. -/
theorem Run.invariant {I : σ → Prop} (run : Run step guard s labels t)
    (preserved : ∀ s a t, I s → guard s a → step s a = some t → I t)
    (start : I s) : I t := by
  induction run with
  | nil => exact start
  | snoc _ meets taken ih => exact preserved _ _ _ ih meets taken

/-- Every step is a run. -/
theorem Run.single {a : α} (meets : guard s a) (taken : step s a = some t) :
    Run step guard s [a] t :=
  .snoc .nil meets taken

/-- A weaker guard excludes no step of a run. -/
theorem Run.mono {weaker : σ → α → Prop} (run : Run step guard s labels t)
    (weakens : ∀ s a, guard s a → weaker s a) : Run step weaker s labels t := by
  induction run with
  | nil => exact .nil
  | snoc _ meets taken ih => exact .snoc ih (weakens _ _ meets) taken

/-! ## Traces -/

/-- Each entry of a trace stands in this relation to the entries before it. -/
def EachAfter (R : List α → α → Prop) (trace : List α) : Prop :=
  ∀ pre a post, trace = pre ++ a :: post → R pre a

theorem eachAfter_nil (R : List α → α → Prop) : EachAfter R [] := by
  intro pre a post split
  exact absurd split (by simp)

theorem EachAfter.snoc {R : List α → α → Prop} {trace : List α} {a : α}
    (before : EachAfter R trace) (last : R trace a) : EachAfter R (trace ++ [a]) := by
  intro pre b post split
  cases post using List.reverseRecOn with
  | nil =>
      obtain ⟨rfl, same⟩ := List.append_inj' split rfl
      cases same
      exact last
  | append_singleton post c =>
      rw [← List.cons_append, ← List.append_assoc] at split
      exact before pre b post (List.append_inj' split rfl).1

theorem EachAfter.mono {R S : List α → α → Prop} {trace : List α}
    (each : EachAfter R trace) (weakens : ∀ pre a, R pre a → S pre a) :
      EachAfter S trace :=
  fun pre a post split => weakens pre a (each pre a post split)

/-! ## Runs that come to an end -/

/-- No step can be taken under the guard. -/
def Stuck (step : σ → α → Option σ) (guard : σ → α → Prop) (s : σ) : Prop :=
  ∀ a, guard s a → step s a = none

section Work
variable {work : σ → Nat}

/-- A run whose steps use up work, but for what some labels bring, is no longer than the
work there was and what they brought. -/
theorem Run.length_le_add {brings : α → Bool} {more : Nat}
    (spends : ∀ s a t, guard s a → step s a = some t →
      work t < work s + if brings a then more else 0)
    (run : Run step guard s labels t) :
    labels.length + work t ≤ work s + more * labels.countP brings := by
  induction run with
  | nil => simp
  | @snoc _ _ _ a _ meets taken ih =>
      have less := spends _ _ _ meets taken
      rw [List.length_append, List.length_singleton, List.countP_append,
        List.countP_singleton, Nat.mul_add]
      cases brought : brings a <;>
        simp only [brought, Bool.false_eq_true, ↓reduceIte] at less ⊢ <;> omega

/-- Where every step uses up work, some run cannot be continued. -/
theorem exists_stuck
    (spends : ∀ s a t, guard s a → step s a = some t → work t < work s) (s : σ) :
    ∃ labels t, Run step guard s labels t ∧ Stuck step guard t := by
  induction enough : work s using Nat.strongRecOn generalizing s with
  | ind n ih =>
      by_cases stuck : Stuck step guard s
      · exact ⟨[], s, .nil, stuck⟩
      · obtain ⟨a, meets, more⟩ : ∃ a, guard s a ∧ step s a ≠ none := by
          simpa [Stuck] using stuck
        obtain ⟨u, taken⟩ := Option.ne_none_iff_exists'.mp more
        obtain ⟨labels, t, run, ends⟩ :=
          ih (work u) (enough ▸ spends s a u meets taken) u rfl
        exact ⟨[a] ++ labels, t, (Run.single meets taken).append run, ends⟩

end Work

/-- Runs of a total step function. -/
def total (f : σ → α → σ) (s : σ) (a : α) : Option σ := some (f s a)

@[simp] theorem total_eq_some_iff {f : σ → α → σ} {a : α} :
  total f s a = some t ↔ f s a = t := by
  simp [total]

/-- Every list of labels makes a run of a total step. -/
theorem Run.of_foldl (f : σ → α → σ) (s : σ) (labels : List α) :
    Run (total f) Always s labels (labels.foldl f s) := by
  induction labels using List.reverseRecOn with
  | nil => exact .nil
  | append_singleton labels a ih =>
      rw [List.foldl_append]
      exact .snoc ih trivial rfl

/-- The step where the guard holds, and none elsewhere. -/
def guarded (step : σ → α → Option σ) (guard : σ → α → Prop)
    [∀ s a, Decidable (guard s a)] (s : σ) (a : α) : Option σ :=
  if guard s a then step s a else none

/-- Labels that can be executed under the guard make a run. -/
theorem Run.of_foldlM [∀ s a, Decidable (guard s a)]
    (h : labels.foldlM (guarded step guard) s = some t) : Run step guard s labels t := by
  induction labels using List.reverseRecOn generalizing t with
  | nil =>
      obtain rfl : s = t := Option.some.inj h
      exact .nil
  | append_singleton labels a ih =>
      rw [List.foldlM_append, Option.bind_eq_bind, Option.bind_eq_some_iff] at h
      obtain ⟨u, before, last⟩ := h
      have taken : guarded step guard u a = some t := by simpa using last
      rw [guarded] at taken
      split at taken
      · next meets => exact .snoc (ih before) meets taken
      · cases taken

end Transition
