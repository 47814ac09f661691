import Mathlib

/-!
# Machines with executable steps

A machine is a set of initial states and a step that is computed from a label. A run is a
list of labels. `ReachesWhen ok` collects the states of the runs each of whose steps meets a
condition on the state before the step and on its label, and `Reaches` is the case of no
condition.

An invariant is proved once for each machine by `ReachesWhen.invariant`. A run on concrete
labels is replayed by `runWhen`, which also checks the condition, so that a reachable state
is exhibited by evaluation (`reachesWhen_of_runWhen`).

`always_iff_meets_of` compares two readings of one run. When a condition decides, step by step,
whether a property survives, the property holds along the run exactly when every step meets
the condition. Where the condition is about what has happened before, the machine is given a history
variable (`noting`), which the steps of the run write and do not read (`always_noting`).
-/

set_option autoImplicit false

namespace LoonyRuntime.Concurrent

universe u v w

/-- A transition system whose steps are computed from a label. -/
structure Machine (σ : Type u) (α : Type v) where
  initial : σ → Prop
  step : σ → α → Option σ

namespace Machine

variable {σ : Type u} {α : Type v} (M : Machine σ α)

/-! ## Reachable states -/

/-- The states of the runs each of whose steps meets `ok`. -/
inductive ReachesWhen (ok : σ → α → Prop) : σ → Prop where
  | start {s : σ} (initial : M.initial s) : ReachesWhen ok s
  | step {s s' : σ} {a : α} (before : ReachesWhen ok s) (meets : ok s a)
      (taken : M.step s a = some s') : ReachesWhen ok s'

/-- The states of all runs. -/
abbrev Reaches : σ → Prop := M.ReachesWhen fun _ _ => True

variable {M}

/-- **Invariant rule.** What holds initially and survives every admitted step of a reached
state holds of every reached state. -/
theorem ReachesWhen.invariant {ok : σ → α → Prop} {I : σ → Prop}
    (initial : ∀ s, M.initial s → I s)
    (preserved : ∀ s a s', M.ReachesWhen ok s → I s → ok s a → M.step s a = some s' → I s')
    {s : σ} (reached : M.ReachesWhen ok s) : I s := by
  induction reached with
  | start start => exact initial _ start
  | step before meets taken ih => exact preserved _ _ _ before ih meets taken

/-! ## Replaying a list of labels -/

variable (M)

/-- Run a list of labels, as long as every step meets `ok`. -/
def runWhen (ok : σ → α → Prop) [∀ s a, Decidable (ok s a)] : σ → List α → Option σ
  | s, [] => some s
  | s, a :: rest => if ok s a then (M.step s a).bind (runWhen ok · rest) else none

/-- Run a list of labels. -/
abbrev run : σ → List α → Option σ := M.runWhen fun _ _ => True

variable {M}

/-- What survives every admitted step of a reached state survives a replayed run. -/
theorem runWhen_invariant {ok : σ → α → Prop} [∀ s a, Decidable (ok s a)] {I : σ → Prop}
    (preserved : ∀ s a s', M.ReachesWhen ok s → I s → ok s a → M.step s a = some s' → I s')
    {labels : List α} {s s' : σ} (reached : M.ReachesWhen ok s) (inv : I s)
    (ran : M.runWhen ok s labels = some s') : M.ReachesWhen ok s' ∧ I s' := by
  induction labels generalizing s with
  | nil =>
      cases ran
      exact ⟨reached, inv⟩
  | cons a rest ih =>
      simp only [runWhen] at ran
      split at ran
      · next meets =>
          obtain ⟨middle, taken, later⟩ := Option.bind_eq_some_iff.mp ran
          exact ih (.step reached meets taken) (preserved s a middle reached inv meets taken) later
      · cases ran

/-- A replayed run ends in a reached state. -/
theorem reachesWhen_of_runWhen {ok : σ → α → Prop} [∀ s a, Decidable (ok s a)]
    {labels : List α} {s s' : σ} (reached : M.ReachesWhen ok s)
    (ran : M.runWhen ok s labels = some s') : M.ReachesWhen ok s' :=
  (runWhen_invariant (I := fun _ => True) (fun _ _ _ _ _ _ _ => trivial) reached trivial ran).1

/-- A replayed run whose last state passes a test reaches a state that passes it. -/
theorem exists_reachesWhen_of_test (M : Machine σ α) (ok : σ → α → Prop)
    [∀ s a, Decidable (ok s a)] (test : σ → Bool) {s : σ} (labels : List α)
    (initial : M.initial s) (passes : (M.runWhen ok s labels).map test = some true) :
    ∃ s', M.ReachesWhen ok s' ∧ test s' = true := by
  obtain ⟨s', ran, tested⟩ := Option.map_eq_some_iff.mp passes
  exact ⟨s', reachesWhen_of_runWhen (.start initial) ran, tested⟩

/-- A replayed run without a condition. -/
theorem exists_reaches_of_test (M : Machine σ α) (test : σ → Bool) {s : σ} (labels : List α)
    (initial : M.initial s) (passes : (M.run s labels).map test = some true) :
    ∃ s', M.Reaches s' ∧ test s' = true :=
  M.exists_reachesWhen_of_test _ test labels initial passes

/-! ## Steps of one kind in a run -/

variable (M)

/-- The number of steps of the run that are as `p` says. -/
def count (p : σ → α → Bool) : σ → List α → Nat
  | _, [] => 0
  | s, a :: rest => (p s a).toNat + (M.step s a).elim 0 (count p · rest)

variable {M}

/-- **What every step changes by a difference, a run changes by the difference of the counts.** -/
theorem count_telescopes {f : σ → Nat} {p q : σ → α → Bool}
    (changes : ∀ s a s', M.step s a = some s' →
      f s' + (q s a).toNat = f s + (p s a).toNat)
    {labels : List α} {s s' : σ} (ran : M.run s labels = some s') :
    f s' + M.count q s labels = f s + M.count p s labels := by
  induction labels generalizing s with
  | nil =>
      cases ran
      rfl
  | cons a rest ih =>
      simp only [run, runWhen, if_true] at ran
      obtain ⟨middle, taken, later⟩ := Option.bind_eq_some_iff.mp ran
      have here := changes s a middle taken
      have further := ih later
      simp only [count, taken, Option.elim_some]
      omega

/-- **What every step of a kind lowers bounds their number.** -/
theorem count_le_of_lowers {I : σ → Prop} {f : σ → Nat} {p : σ → α → Bool}
    (kept : ∀ s a s', I s → M.step s a = some s' → I s')
    (lowers : ∀ s a s', I s → M.step s a = some s' → f s' + (p s a).toNat ≤ f s)
    {labels : List α} {s s' : σ} (inv : I s) (ran : M.run s labels = some s') :
    f s' + M.count p s labels ≤ f s := by
  induction labels generalizing s with
  | nil =>
      cases ran
      exact le_rfl
  | cons a rest ih =>
      simp only [run, runWhen, if_true] at ran
      obtain ⟨middle, taken, later⟩ := Option.bind_eq_some_iff.mp ran
      have here := lowers s a middle inv taken
      have further := ih (kept s a middle inv taken) later
      simp only [count, taken, Option.elim_some]
      omega

/-- **What every step of a kind sets to one, and no other changes, tells whether a run has one.** -/
theorem count_saturates {I : σ → Prop} {f : σ → Nat} {p : σ → α → Bool}
    (kept : ∀ s a s', I s → M.step s a = some s' → I s')
    (sets : ∀ s a s', I s → M.step s a = some s' → f s' = min 1 (f s + (p s a).toNat))
    {labels : List α} {s s' : σ} (inv : I s) (bounded : f s ≤ 1)
    (ran : M.run s labels = some s') : f s' = min 1 (f s + M.count p s labels) := by
  induction labels generalizing s with
  | nil =>
      cases ran
      exact (Nat.min_eq_right bounded).symm
  | cons a rest ih =>
      simp only [run, runWhen, if_true] at ran
      obtain ⟨middle, taken, later⟩ := Option.bind_eq_some_iff.mp ran
      have here := sets s a middle inv taken
      have further := ih (kept s a middle inv taken) (by omega) later
      simp only [count, taken, Option.elim_some]
      omega

/-! ## A property along a run -/

variable (M)

/-- The property holds in every state of the run. -/
def Always (p : σ → Prop) : σ → List α → Prop
  | s, [] => p s
  | s, a :: rest => p s ∧ ∀ s', M.step s a = some s' → Always p s' rest

/-- Every step of the run meets the condition. -/
def Meets (ok : σ → α → Prop) : σ → List α → Prop
  | _, [] => True
  | s, a :: rest => ∀ s', M.step s a = some s' → ok s a ∧ Meets ok s' rest

variable {M}

/-- The property holds in the first state of the run. -/
theorem Always.head {p : σ → Prop} {s : σ} {labels : List α} (always : M.Always p s labels) :
    p s := by
  cases labels with
  | nil => exact always
  | cons _ _ => exact always.1

/-- **A condition that decides each step decides the run**, from a state with an invariant of the
admitted steps. If a step out of such a state with the property keeps the property exactly when it
meets the condition, then the property holds along a run exactly when all its steps meet the
condition. -/
theorem always_iff_meets_of {p R : σ → Prop} {ok : σ → α → Prop}
    (kept : ∀ s a s', R s → ok s a → M.step s a = some s' → R s')
    (decides : ∀ s a s', R s → p s → M.step s a = some s' → (p s' ↔ ok s a))
    {labels : List α} {s : σ} (inv : R s) (holds : p s) :
    M.Always p s labels ↔ M.Meets ok s labels := by
  induction labels generalizing s with
  | nil => exact ⟨fun _ => trivial, fun _ => holds⟩
  | cons a rest ih =>
      have later : ∀ s', M.step s a = some s' → ok s a → p s' →
          (M.Always p s' rest ↔ M.Meets ok s' rest) := fun s' taken meets after =>
        ih (kept s a s' inv meets taken) after
      constructor
      · rintro ⟨-, always⟩ s' taken
        have after : p s' := (always s' taken).head
        have here : ok s a := (decides s a s' inv holds taken).mp after
        exact ⟨here, (later s' taken here after).mp (always s' taken)⟩
      · intro meets
        refine ⟨holds, ?_⟩
        intro s' taken
        obtain ⟨here, further⟩ := meets s' taken
        have after := (decides s a s' inv holds taken).mpr here
        exact (later s' taken here after).mpr further

/-- The invariant is that the state is reached. -/
theorem always_iff_meets {p : σ → Prop} {ok : σ → α → Prop}
    (decides : ∀ s a s', M.Reaches s → p s → M.step s a = some s' → (p s' ↔ ok s a))
    {labels : List α} {s : σ} (reached : M.Reaches s) (holds : p s) :
    M.Always p s labels ↔ M.Meets ok s labels :=
  always_iff_meets_of (fun _ _ _ before _ taken => .step before trivial taken) decides reached holds

/-! ## A history variable -/

section Noting

variable {ν : Type w}

variable (M) in
/-- The machine with a history variable, which no step reads. -/
def noting (start : ν) (note : σ → ν → α → ν) : Machine (σ × ν) α where
  initial p := M.initial p.1 ∧ p.2 = start
  step p a := (M.step p.1 a).map fun s' => (s', note p.1 p.2 a)

variable {start : ν} {note : σ → ν → α → ν}

/-- The history variable takes nothing from the runs and adds nothing to them. -/
theorem always_noting {p : σ → Prop} {labels : List α} {s : σ} {n : ν} :
    (M.noting start note).Always (fun q => p q.1) (s, n) labels ↔ M.Always p s labels := by
  induction labels generalizing s n with
  | nil => exact Iff.rfl
  | cons a rest ih =>
      refine and_congr_right fun _ => ?_
      constructor
      · intro always s' taken
        exact ih.mp (always (s', note s n a) (Option.map_eq_some_iff.mpr ⟨s', taken, rfl⟩))
      · rintro always q noted
        obtain ⟨s', taken, rfl⟩ := Option.map_eq_some_iff.mp noted
        exact ih.mpr (always s' taken)

end Noting

/-! ## In so many steps -/

variable (M)

/-- So many steps that meet `ok` can lead from here to a state with the property. -/
inductive LeadsWithin (ok : σ → α → Prop) (p : σ → Prop) : Nat → σ → Prop where
  | here {k : Nat} {s : σ} (holds : p s) : LeadsWithin ok p k s
  | step {k : Nat} {s s' : σ} {a : α} (taken : M.step s a = some s') (meets : ok s a)
      (later : LeadsWithin ok p k s') : LeadsWithin ok p (k + 1) s

variable {M}

theorem LeadsWithin.mono {ok : σ → α → Prop} {p : σ → Prop} {k m : Nat} {s : σ}
    (leads : M.LeadsWithin ok p k s) (le : k ≤ m) : M.LeadsWithin ok p m s := by
  induction leads generalizing m with
  | here holds => exact .here holds
  | step taken meets later ih =>
      obtain ⟨m, rfl⟩ := Nat.exists_eq_add_one_of_ne_zero (Nat.ne_zero_of_lt le)
      exact .step taken meets (ih (Nat.le_of_succ_le_succ le))

/-- A state without such a step has the property, or leads to it never. -/
theorem LeadsWithin.of_stuck {ok : σ → α → Prop} {p : σ → Prop} {k : Nat} {s : σ}
    (stuck : ∀ a s', ok s a → M.step s a ≠ some s') (leads : M.LeadsWithin ok p k s) : p s := by
  cases leads with
  | here holds => exact holds
  | step taken meets later => exact absurd taken (stuck _ _ meets)

/-! ## Steps that are not taken -/

/-- The machine without the steps that do not meet a condition. -/
def restrict (M : Machine σ α) (allowed : σ → α → Bool) : Machine σ α where
  initial := M.initial
  step s a := if allowed s a = true then M.step s a else none

theorem restrict_step_eq_some {allowed : σ → α → Bool} {s s' : σ} {a : α}
    (taken : (M.restrict allowed).step s a = some s') :
    allowed s a = true ∧ M.step s a = some s' := by
  simp only [restrict] at taken
  split at taken
  · next meets => exact ⟨meets, taken⟩
  · cases taken

end Machine

end LoonyRuntime.Concurrent
