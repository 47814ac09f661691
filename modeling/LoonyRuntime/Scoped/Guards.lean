import Mathlib.Data.List.InsertIdx

/-!
# Guards that save and restore a cell

A cell holds a value or nothing. A guard puts its value into the cell when it is created, saves what
was there, and writes that back when it is dropped. Guards are owned values: they are dropped in any
order. The live guards are listed newest first.

The cell follows the guards when it holds the value of the newest live guard. A new guard always
makes it so. A drop makes it so exactly if the guard has saved the value of the newest guard that
stays (`follows_drop_iff`), and a write of nothing exactly if no guard is alive
(`follows_clear_iff`). As long as the cell follows, each guard saves the value of the guard that was
newest before it (`Saves`), so that the first condition is about the values of the guards alone
(`Saves.follows_drop_iff`). Guards that are dropped newest first are nested: each has saved the
value of the one below, and every drop keeps the cell following (`Nested.follows_dropNewest`).
-/

set_option autoImplicit false

namespace LoonyRuntime.Scoped

universe u v

/-- A live guard with the value it has saved. -/
structure Saved (γ : Type u) (α : Type v) where
  guard : γ
  old : Option α
deriving DecidableEq, Repr

/-- A cell and its live guards, newest first. -/
structure Guarded (γ : Type u) (α : Type v) where
  cell : Option α
  live : List (Saved γ α)
deriving DecidableEq, Repr

namespace Guarded

variable {γ : Type u} {α : Type v} (put : γ → α)

/-- A cell without guards. -/
def new : Guarded γ α := ⟨none, []⟩

/-- A guard is created. -/
def enter (s : Guarded γ α) (guard : γ) : Guarded γ α :=
  ⟨some (put guard), ⟨guard, s.cell⟩ :: s.live⟩

/-- The guard at a place in the list is dropped. -/
def drop (s : Guarded γ α) (k : Nat) : Option (Guarded γ α) :=
  s.live[k]?.map fun saved => ⟨saved.old, s.live.eraseIdx k⟩

/-- The cell is written by other code. -/
def clear (s : Guarded γ α) : Guarded γ α := { s with cell := none }

/-- The value of the newest guard of a list. -/
def newest (live : List (Saved γ α)) : Option α := live.head?.map fun saved => put saved.guard

/-- The cell holds the value of the newest live guard. -/
def Follows (s : Guarded γ α) : Prop := s.cell = newest put s.live

theorem follows_new : Follows put (new : Guarded γ α) := rfl

@[simp] theorem follows_enter (s : Guarded γ α) (guard : γ) : Follows put (s.enter put guard) :=
  rfl

/-- **A drop restores the newest guard that stays**, or it does not. -/
theorem follows_drop_iff {s s' : Guarded γ α} {k : Nat} (dropped : s.drop k = some s') :
    Follows put s' ↔ s.live[k]?.map (·.old) = some (newest put (s.live.eraseIdx k)) := by
  obtain ⟨saved, found, rfl⟩ := Option.map_eq_some_iff.mp dropped
  rw [found, Option.map_some, Option.some.injEq]
  exact Iff.rfl

theorem follows_clear_iff {s : Guarded γ α} : Follows put s.clear ↔ s.live = [] := by
  cases live : s.live with
  | nil => simp [Follows, clear, newest, live]
  | cons saved older => simp [Follows, clear, newest, live]

/-! ## What all values and guards share -/

/-- The values, in the cell or saved, are as `p` says and the live guards as `q` says. -/
structure Holds (p : α → Prop) (q : γ → Prop) (s : Guarded γ α) : Prop where
  cell : ∀ a, s.cell = some a → p a
  old : ∀ saved ∈ s.live, ∀ a, saved.old = some a → p a
  live : ∀ saved ∈ s.live, q saved.guard

namespace Holds

variable {p p' : α → Prop} {q q' : γ → Prop} {s s' : Guarded γ α} {put}

theorem new : Holds p q (Guarded.new : Guarded γ α) := ⟨nofun, nofun, nofun⟩

theorem mono (holds : Holds p q s) (values : ∀ a, p a → p' a) (guards : ∀ g, q g → q' g) :
    Holds p' q' s where
  cell := fun a here => values a (holds.cell a here)
  old := fun saved member a here => values a (holds.old saved member a here)
  live := fun saved member => guards saved.guard (holds.live saved member)

theorem enter (holds : Holds p q s) {guard : γ} (value : p (put guard)) (mine : q guard) :
    Holds p q (s.enter put guard) where
  cell := fun a here => Option.some.inj here ▸ value
  old := fun saved member => by
    rcases List.mem_cons.mp member with rfl | before
    · exact holds.cell
    · exact holds.old saved before
  live := fun saved member => by
    rcases List.mem_cons.mp member with rfl | before
    · exact mine
    · exact holds.live saved before

theorem drop (holds : Holds p q s) {k : Nat} (dropped : s.drop k = some s') : Holds p q s' := by
  obtain ⟨saved, found, rfl⟩ := Option.map_eq_some_iff.mp dropped
  constructor
  · exact holds.old saved (List.mem_of_getElem? found)
  · exact fun other member => holds.old other (List.mem_of_mem_eraseIdx member)
  · exact fun other member => holds.live other (List.mem_of_mem_eraseIdx member)

theorem clear (holds : Holds p q s) : Holds p q s.clear := ⟨nofun, holds.old, holds.live⟩

end Holds

/-! ## Nested guards -/

/-- Each guard has saved the value of the next older one. -/
def Nested : List (Saved γ α) → Prop
  | [] => True
  | saved :: older => saved.old = newest put older ∧ Nested older

variable {put}

/-- A new guard of a cell that follows is nested. -/
theorem Nested.enter {s : Guarded γ α} (nested : Nested put s.live) (follows : Follows put s)
    (guard : γ) : Nested put (s.enter put guard).live :=
  ⟨follows, nested⟩

/-- **Dropping the newest of nested guards keeps the cell following**, and the others nested. -/
theorem Nested.follows_dropNewest {s s' : Guarded γ α} (nested : Nested put s.live)
    (dropped : s.drop 0 = some s') : Follows put s' ∧ Nested put s'.live := by
  obtain ⟨saved, found, rfl⟩ := Option.map_eq_some_iff.mp dropped
  cases live : s.live with
  | nil =>
      rw [live] at found
      cases found
  | cons first older =>
      rw [live] at found nested
      obtain rfl : first = saved := by simpa using found
      exact ⟨nested.1, nested.2⟩

/-! ## What was newest before -/

/-- The guards have saved the values `below`, newest guard first. -/
def Saves (s : Guarded γ α) (below : List (Option α)) : Prop := s.live.map (·.old) = below

/-- In a cell that follows, a new guard saves the value of the newest guard. -/
theorem Saves.enter {s : Guarded γ α} {below : List (Option α)} (saves : s.Saves below)
    (follows : Follows put s) (guard : γ) :
    (s.enter put guard).Saves (newest put s.live :: below) :=
  congrArg₂ List.cons follows saves

theorem Saves.drop {s s' : Guarded γ α} {below : List (Option α)} {k : Nat} (saves : s.Saves below)
    (dropped : s.drop k = some s') : s'.Saves (below.eraseIdx k) := by
  obtain ⟨saved, -, rfl⟩ := Option.map_eq_some_iff.mp dropped
  rw [Saves, ← saves, List.eraseIdx_map]

theorem Saves.clear {s : Guarded γ α} {below : List (Option α)} (saves : s.Saves below) :
    s.clear.Saves below := saves

/-- **A drop keeps the cell following exactly if what was newest below the guard is what the guards
that stay have as newest.** -/
theorem Saves.follows_drop_iff {s s' : Guarded γ α} {below : List (Option α)} {k : Nat}
    (saves : s.Saves below) (dropped : s.drop k = some s') :
    Follows put s' ↔ below[k]? = some (newest put (s.live.eraseIdx k)) := by
  rw [Guarded.follows_drop_iff put dropped, ← saves, List.getElem?_map]

end Guarded

end LoonyRuntime.Scoped
