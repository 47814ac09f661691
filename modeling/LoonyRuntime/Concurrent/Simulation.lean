import LoonyRuntime.Concurrent.Machine

/-!
# Machines that follow each other

Two machines are compared by their runs. Where a map takes each step of one to the step of the
other with the same label, it takes runs to runs (`run_map`). Where one machine answers a step of
the other by a run of its own, with the same visible labels, it answers a run by a run with the
same visible labels (`SimulatedBy.run`): a weak simulation, in which a step may also be answered by
no step at all.

Where what a step shows is not in its label, it is observed from the states before and after it. A
machine refines a specification when the observations of each step are a run of the specification,
and then those of each run are (`run_trace`).
-/

set_option autoImplicit false

namespace LoonyRuntime.Concurrent

namespace Machine

universe u v w x y z

variable {σ : Type u} {α : Type v} {τ : Type w} {β : Type x} {γ : Type y}
  {M : Machine σ α} {N : Machine τ β}

theorem run_cons (s : σ) (a : α) (rest : List α) :
    M.run s (a :: rest) = (M.step s a).bind (M.run · rest) := by
  simp [run, runWhen]

/-- A run in two parts. -/
theorem run_append (s : σ) (first second : List α) :
    M.run s (first ++ second) = (M.run s first).bind (M.run · second) := by
  induction first generalizing s with
  | nil => rfl
  | cons a rest ih =>
      rw [List.cons_append, run_cons, run_cons]
      cases M.step s a with
      | none => rfl
      | some middle => exact ih middle

/-- **A map that commutes with the steps commutes with the runs.** -/
theorem run_map {N : Machine τ α} (f : σ → τ) {p : α → Prop}
    (commutes : ∀ s a, p a → N.step (f s) a = (M.step s a).map f) {labels : List α}
    (all : ∀ a ∈ labels, p a) (s : σ) : N.run (f s) labels = (M.run s labels).map f := by
  induction labels generalizing s with
  | nil => rfl
  | cons a rest ih =>
      rw [run_cons, run_cons, commutes s a (all a List.mem_cons_self)]
      cases M.step s a with
      | none => rfl
      | some middle => exact ih (fun b member => all b (List.mem_cons_of_mem a member)) middle

/-- Each step of `M` is answered by a run of `N` with the same visible labels. -/
def SimulatedBy (M : Machine σ α) (N : Machine τ β) (visible : α → Option γ)
    (visible' : β → Option γ) (R : σ → τ → Prop) : Prop :=
  ∀ s t a s', R s t → M.step s a = some s' →
    ∃ labels t', N.run t labels = some t' ∧
      labels.filterMap visible' = (visible a).toList ∧ R s' t'

/-- **Each run is answered by a run with the same visible labels.** -/
theorem SimulatedBy.run {visible : α → Option γ} {visible' : β → Option γ} {R : σ → τ → Prop}
    (simulated : SimulatedBy M N visible visible' R) {labels : List α} {s s' : σ} {t : τ}
    (related : R s t) (ran : M.run s labels = some s') :
    ∃ labels' t', N.run t labels' = some t' ∧
      labels'.filterMap visible' = labels.filterMap visible ∧ R s' t' := by
  induction labels generalizing s t with
  | nil =>
      cases ran
      exact ⟨[], t, rfl, rfl, related⟩
  | cons a rest ih =>
      rw [run_cons] at ran
      obtain ⟨middle, taken, later⟩ := Option.bind_eq_some_iff.mp ran
      obtain ⟨first, t₁, ran₁, same₁, related₁⟩ := simulated s t a middle related taken
      obtain ⟨second, t₂, ran₂, same₂, related₂⟩ := ih related₁ later
      refine ⟨first ++ second, t₂, ?_, ?_, related₂⟩
      · rw [run_append, ran₁]
        exact ran₂
      · rw [List.filterMap_append, same₁, same₂]
        cases seen : visible a <;> simp [seen]

/-! ## Observed runs -/

section Traces

variable {ε : Type z} {S : Machine τ ε} {observe : σ → σ → List ε}

/-- What is observed of a run. -/
def trace (M : Machine σ α) (observe : σ → σ → List ε) : σ → List α → List ε
  | _, [] => []
  | s, a :: rest =>
      match M.step s a with
      | some s' => observe s s' ++ trace M observe s' rest
      | none => []

/-- **Refinement.** Where the observations of each step of a state with an invariant take the
specification from what the state stands for to what the next one does, so do the observations of
each run. -/
theorem run_trace {I : σ → Prop} (abs : σ → τ)
    (kept : ∀ s a s', I s → M.step s a = some s' → I s')
    (answers : ∀ s a s', I s → M.step s a = some s' →
      S.run (abs s) (observe s s') = some (abs s'))
    {labels : List α} {s s' : σ} (inv : I s) (ran : M.run s labels = some s') :
    S.run (abs s) (M.trace observe s labels) = some (abs s') := by
  induction labels generalizing s with
  | nil =>
      cases ran
      rfl
  | cons a rest ih =>
      rw [run_cons] at ran
      obtain ⟨middle, taken, later⟩ := Option.bind_eq_some_iff.mp ran
      have here := answers s a middle inv taken
      have further := ih (kept s a middle inv taken) later
      simp only [trace, taken]
      rw [run_append, here]
      exact further

end Traces

end Machine

end LoonyRuntime.Concurrent
