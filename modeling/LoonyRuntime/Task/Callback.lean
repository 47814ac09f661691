import LoonyRuntime.Concurrent.Machine
import LoonyRuntime.Memory.Heap
import LoonyRuntime.Task.Allocation

/-!
# Wakers with a callback

A `CallbackWaker` is a box of its closure, and a waker made from it is a box of that. A clone makes
two new boxes, with a clone of the closure. A drop gives both back. `wake` consumes the waker, and
calls the closure by reference like `wake_by_ref`: neither box is given back.

In every sequence of these calls a waker that is alive can be dropped (`callbacks_accounted`), and
the heap holds the boxes of the wakers that are alive and of those that were woken by value. So the
boxes are balanced exactly along the sequences without a `wake` by value (`released_along_iff`).
-/

set_option autoImplicit false

namespace LoonyRuntime.Task

open Concurrent Memory

/-- Where a waker has its boxes. -/
structure CallbackWaker where
  callback : Nat
  waker : Nat
deriving DecidableEq, Repr

/-- The box of the closure, of type `F`, and the box of the `CallbackWaker`. -/
def CallbackWaker.boxes (F : TypeLayout) (w : CallbackWaker) : List Block :=
  [⟨⟨w.callback, F.size⟩, F.align⟩, ⟨⟨w.waker, 8⟩, 8⟩]

/-- The heap, the wakers that are alive, those that were woken by value, and the closures that were
called, the latest first. -/
structure Callbacks where
  heap : Heap
  live : List CallbackWaker
  consumed : List CallbackWaker
  called : List CallbackWaker

inductive CallbackCall where
  /-- `CallbackWaker::new` and `into_waker`. -/
  | intoWaker (made : CallbackWaker)
  | clone (i : Nat) (made : CallbackWaker)
  | wake (i : Nat)
  | wakeByRef (i : Nat)
  | drop (i : Nat)
deriving DecidableEq, Repr

namespace Callbacks

variable (F : TypeLayout)

/-- Two boxes are made for a waker. -/
def make (s : Callbacks) (made : CallbackWaker) : Option Callbacks :=
  (s.heap.allocBoxes (made.boxes F)).map fun h => { s with heap := h, live := made :: s.live }

/-- A call on a waker that is alive. A drop that is undefined has no step. -/
def step (s : Callbacks) : CallbackCall → Option Callbacks
  | .intoWaker made => s.make F made
  | .clone i made => s.live[i]?.bind fun _ => s.make F made
  | .wake i =>
      s.live[i]?.map fun w =>
        { s with live := s.live.eraseIdx i, consumed := w :: s.consumed, called := w :: s.called }
  | .wakeByRef i => s.live[i]?.map fun w => { s with called := w :: s.called }
  | .drop i =>
      s.live[i]?.bind fun w => (s.heap.freeBoxes (w.boxes F)).map fun h =>
        { s with heap := h, live := s.live.eraseIdx i }

end Callbacks

/-- The wakers of closures of type `F`, in a program that starts with other blocks on its heap. -/
def callbackWakers (F : TypeLayout) (start : Heap) : Machine Callbacks CallbackCall where
  initial s := s = ⟨start, [], [], []⟩
  step := Callbacks.step F

namespace Callbacks

variable {F : TypeLayout} {start : Heap} {s s' : Callbacks} {c : CallbackCall}

/-- What is on the heap for some wakers. -/
def blocksOf (F : TypeLayout) (wakers : List CallbackWaker) : List Block :=
  wakers.flatMap fun w => (w.boxes F).flatMap Heap.boxed

/-- The heap holds the boxes of the wakers that are alive or were woken by value. -/
def Held (F : TypeLayout) (start : Heap) (s : Callbacks) : Prop :=
  s.heap.blocks.Perm (blocksOf F s.live ++ (blocksOf F s.consumed ++ start.blocks))

/-- The waker at an index among those that are alive. -/
theorem blocksOf_split {i : Nat} {w : CallbackWaker} {wakers : List CallbackWaker}
    (found : wakers[i]? = some w) :
    (blocksOf F wakers).Perm
      ((w.boxes F).flatMap Heap.boxed ++ blocksOf F (wakers.eraseIdx i)) := by
  obtain ⟨within, rfl⟩ := List.getElem?_eq_some_iff.mp found
  exact (List.getElem_cons_eraseIdx_perm within).symm.flatMap_right _

theorem Held.make (held : Held F start s) {made : CallbackWaker} (taken : s.make F made = some s') :
    Held F start s' := by
  obtain ⟨h, placed, rfl⟩ := Option.map_eq_some_iff.mp taken
  refine (Heap.allocBoxes_perm placed).trans ?_
  simp only [blocksOf, List.flatMap_cons, List.append_assoc]
  exact held.append_left _

/-- The drop of a waker that is alive is defined. -/
theorem Held.drop (held : Held F start s) {i : Nat} {w : CallbackWaker}
    (found : s.live[i]? = some w) :
    ∃ h, s.heap.freeBoxes (w.boxes F) = some h ∧
      Held F start { s with heap := h, live := s.live.eraseIdx i } := by
  have boxes : s.heap.blocks.Perm ((w.boxes F).flatMap Heap.boxed ++
      (blocksOf F (s.live.eraseIdx i) ++ (blocksOf F s.consumed ++ start.blocks))) := by
    refine held.trans (((blocksOf_split found).append_right _).trans ?_)
    rw [List.append_assoc]
  exact Heap.exists_freeBoxes boxes

theorem Held.step (held : Held F start s) (taken : s.step F c = some s') : Held F start s' := by
  cases c with
  | intoWaker made => exact held.make taken
  | clone i made =>
      obtain ⟨w, -, placed⟩ := Option.bind_eq_some_iff.mp taken
      exact held.make placed
  | wake i =>
      obtain ⟨w, found, rfl⟩ := Option.map_eq_some_iff.mp taken
      refine held.trans (((blocksOf_split found).append_right _).trans ?_)
      simp only [blocksOf, List.flatMap_cons, List.append_assoc]
      exact List.perm_append_comm_assoc ..
  | wakeByRef i =>
      obtain ⟨w, -, rfl⟩ := Option.map_eq_some_iff.mp taken
      exact held
  | drop i =>
      obtain ⟨w, found, freed⟩ := Option.bind_eq_some_iff.mp taken
      obtain ⟨h, gone, rfl⟩ := Option.map_eq_some_iff.mp freed
      obtain ⟨h', dropped, after⟩ := held.drop found
      obtain rfl : h = h' := Option.some.inj (gone.symm.trans dropped)
      exact after

theorem held (reached : (callbackWakers F start).Reaches s) : Held F start s := by
  refine reached.invariant (I := Held F start) ?_ fun s c s' _ held _ taken => held.step taken
  rintro _ rfl
  exact .refl _

/-- **A waker that is alive can be dropped**, and the heap holds the boxes of the wakers that are
alive or were woken by value. -/
theorem callbacks_accounted (reached : (callbackWakers F start).Reaches s) :
    (∀ i < s.live.length, ((callbackWakers F start).step s (.drop i)).isSome = true) ∧
      s.heap.blocks.Perm (blocksOf F s.live ++ (blocksOf F s.consumed ++ start.blocks)) := by
  refine ⟨?_, held reached⟩
  intro i within
  have found := List.getElem?_eq_getElem within
  obtain ⟨h, dropped, -⟩ := (held reached).drop found
  change (s.step F (.drop i)).isSome = true
  simp [Callbacks.step, found, dropped]

/-- A waker of a closure of one word, cloned and woken by value. -/
theorem callbacks_accounted_wokenClone : ∃ s : Callbacks,
    s.live = [⟨512, 576⟩] ∧ s.consumed = [⟨640, 704⟩] ∧
    (∀ i < s.live.length,
      ((callbackWakers (.units 3 1) .empty).step s (.drop i)).isSome = true) ∧
      s.heap.blocks.Perm (blocksOf (.units 3 1) s.live ++
        (blocksOf (.units 3 1) s.consumed ++ Heap.empty.blocks)) := by
  obtain ⟨s, reached, tested⟩ := (callbackWakers (.units 3 1) .empty).exists_reaches_of_test
    (fun s => s.live == [⟨512, 576⟩] && s.consumed == [⟨640, 704⟩])
    [.intoWaker ⟨512, 576⟩, .clone 0 ⟨640, 704⟩, .wake 0] rfl (by decide)
  simp only [Bool.and_eq_true, beq_iff_eq] at tested
  exact ⟨s, tested.1, tested.2, callbacks_accounted reached⟩

/-- The heap holds nothing of the wakers but the boxes of those that are alive. -/
def Released (F : TypeLayout) (start : Heap) (s : Callbacks) : Prop :=
  s.heap.blocks.Perm (blocksOf F s.live ++ start.blocks)

/-- Every waker has a box of eight bytes at least. -/
theorem blocksOf_eq_nil_iff {wakers : List CallbackWaker} :
    (blocksOf F wakers).length = 0 ↔ wakers = [] := by
  cases wakers with
  | nil => simp [blocksOf]
  | cons w rest => simp [blocksOf, CallbackWaker.boxes, Heap.boxed]

theorem Held.released_iff (held : Held F start s) : Released F start s ↔ s.consumed = [] := by
  constructor
  · intro released
    have count := held.length_eq.symm.trans released.length_eq
    simp only [List.length_append] at count
    exact blocksOf_eq_nil_iff (F := F).mp (by omega)
  · intro none
    have all := held
    rw [Held, none] at all
    exact all

/-- **Nothing but the wakers that are alive has boxes on the heap exactly along the sequences in
which no waker is woken by value.** -/
theorem released_along_iff (F : TypeLayout) (start : Heap) (calls : List CallbackCall) :
    (callbackWakers F start).Always (Released F start) ⟨start, [], [], []⟩ calls ↔
      (callbackWakers F start).Meets (fun _ c => ∀ i, c ≠ .wake i) ⟨start, [], [], []⟩ calls := by
  have begun : (callbackWakers F start).Reaches ⟨start, [], [], []⟩ := .start rfl
  refine Machine.always_iff_meets ?_ begun ((held begun).released_iff.mpr rfl)
  intro s c s' reached released taken
  have none := (held reached).released_iff.mp released
  rw [(held (.step reached trivial taken)).released_iff]
  cases c with
  | wake i =>
      obtain ⟨w, -, rfl⟩ := Option.map_eq_some_iff.mp taken
      exact iff_of_false (List.cons_ne_nil _ _) fun other => other i rfl
  | intoWaker made =>
      obtain ⟨h, -, rfl⟩ := Option.map_eq_some_iff.mp taken
      exact iff_of_true none nofun
  | clone i made =>
      obtain ⟨w, -, made⟩ := Option.bind_eq_some_iff.mp taken
      obtain ⟨h, -, rfl⟩ := Option.map_eq_some_iff.mp made
      exact iff_of_true none nofun
  | wakeByRef i =>
      obtain ⟨w, -, rfl⟩ := Option.map_eq_some_iff.mp taken
      exact iff_of_true none nofun
  | drop i =>
      obtain ⟨w, -, freed⟩ := Option.bind_eq_some_iff.mp taken
      obtain ⟨h, -, rfl⟩ := Option.map_eq_some_iff.mp freed
      exact iff_of_true none nofun

end Callbacks

end LoonyRuntime.Task
