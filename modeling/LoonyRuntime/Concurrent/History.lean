import Mathlib.Data.List.Count

/-!
# Logs with the latest event first

A log is a list of events, the latest first. An event is justified by the events before it:
`Justified` says so of every event of a log, and an event that is recorded adds one obligation
(`justified_cons`).
-/

set_option autoImplicit false

namespace LoonyRuntime.Concurrent

universe u

variable {α : Type u}

/-- Each event of the log stands in a relation to the events before it. -/
def Justified (by_earlier : α → List α → Prop) (log : List α) : Prop :=
  ∀ later e earlier, log = later ++ e :: earlier → by_earlier e earlier

variable {by_earlier : α → List α → Prop} {e : α} {log : List α}

@[simp] theorem justified_nil : Justified by_earlier [] := by
  intro later e earlier split
  simp at split

/-- An event that is recorded is justified by the log before it. -/
@[simp] theorem justified_cons :
    Justified by_earlier (e :: log) ↔ by_earlier e log ∧ Justified by_earlier log := by
  constructor
  · intro all
    refine ⟨all [] e log rfl, ?_⟩
    intro later e' earlier split
    exact all (e :: later) e' earlier (by rw [split, List.cons_append])
  · rintro ⟨now, before⟩ later e' earlier split
    cases later with
    | nil =>
        obtain ⟨rfl, rfl⟩ := List.cons.inj split
        exact now
    | cons first later =>
        obtain ⟨-, split⟩ := List.cons.inj split
        exact before later e' earlier split

end LoonyRuntime.Concurrent
