import LoonyRuntime.Task.OutputSlot
import LoonyRuntime.Task.Operational

/-!
# The output among the fields of the header

`Task.Operational` keeps the output in a field of its own. The code writes it at the cell of the
pointer to it, and an output that is wider than the cell goes over the fields behind. A `Placement`
says how the fields are placed, how many bytes are written, and what the state word and the join
waker read as where the write reaches them.

`placedMachine` is the machine of a task whose output is written like this. Where the write reaches
no other field of the header it is the machine of `Task.Operational` (`placedMachine_of_spares`).
An output of at most a word reaches none (`spares_of_fits`), and with the fields in the order of the
source every wider one reaches the join waker (`packedHeader_spares_iff`).

The scheduler, the vtable and the pointer to the future are in no state, so what comes of a write
over them has no step here. The value of an output is what was written, whatever the stores to the
fields it covers do to its bytes.
-/

set_option autoImplicit false

namespace LoonyRuntime.Task

open Memory Concurrent

variable {W T : Type}

/-- How an output of type `T` is written in the header: `size` bytes at the cell. -/
structure Placement (W T : Type) where
  header : HeaderLayout W
  size : Nat
  /-- What the state word and the join waker read as where the write reaches them. -/
  spill : Header T → Usize × Option Nat

namespace Placement

variable (p : Placement W T)

/-- The write reaches a field of the header. -/
def Reaches (f : HeaderField) : Prop := ¬(p.header.outputWrites p.size).Apart (p.header.field f)

instance (f : HeaderField) : Decidable (p.Reaches f) := inferInstanceAs (Decidable (¬_))

/-- The header once the output is written. -/
def overwrite (header : Header T) : Header T :=
  { header with
    state := if p.Reaches .state then (p.spill header).1 else header.state
    joinWaker := if p.Reaches .joinWaker then (p.spill header).2 else header.joinWaker }

/-- The write reaches no field of the header beside the cell. -/
def Spares : Prop := ∀ f, f ≠ .output → ¬p.Reaches f

variable {p}

/-- **An output of at most a word spares the other fields.** -/
theorem spares_of_fits (fits : p.size ≤ p.header.word.size) : p.Spares := by
  intro f other reaches
  exact reaches (p.header.outputWrites_apart fits other)

theorem overwrite_of_spares (spares : p.Spares) (header : Header T) :
    p.overwrite header = header := by
  simp only [overwrite, if_neg (spares .state (by decide)),
    if_neg (spares .joinWaker (by decide))]

/-- **In the header of seven words exactly the outputs of at most a word do**: the join waker lies
behind the cell. -/
theorem packedHeader_spares_iff {p : Placement WakerWords T} (packed : p.header = packedHeader) :
    p.Spares ↔ p.size ≤ 8 := by
  constructor
  · intro spares
    have apart : (p.header.outputWrites p.size).Apart (p.header.field .joinWaker) :=
      not_not.mp (spares .joinWaker (by decide))
    rw [packed, Region.apart_iff] at apart
    change p.size = 0 ∨ 16 = 0 ∨ 32 + p.size ≤ 40 ∨ 40 + 16 ≤ 32 at apart
    omega
  · intro fits
    refine spares_of_fits ?_
    rw [packed]
    exact fits

end Placement

/-! ## The machine of a placed output -/

/-- The next operation of the call is the write of the output. -/
def Frame.writesOutput : Frame T → Bool
  | .poll (.storeOutput _) => true
  | _ => false

/-- One step of a thread inside the calls of the stack. -/
def placedMove (p : Placement W T) (creator : Creator) (s : Cell T) (stack : List (Frame T))
    (l : Label T) : Outcome T :=
  (move creator s stack l).map fun r =>
    if stack.head?.any Frame.writesOutput then
      ({ r.1 with toHeader := p.overwrite r.1.toHeader }, r.2)
    else r

/-- The machine of one task whose output is written at the cell. -/
def placedMachine (p : Placement W T) (creator : Creator) : Machine (State T) (Action T) where
  initial s := ∃ n, s = spawnedWith T n
  step := Pool.step fun _ => placedMove p creator

/-- **An output that spares the other fields has a field of its own.** -/
theorem placedMachine_of_spares {p : Placement W T} (spares : p.Spares) (creator : Creator) :
    placedMachine p creator = machine creator := by
  have same : placedMove p creator = move creator := by
    funext s stack l
    simp only [placedMove, Placement.overwrite_of_spares spares, ite_self]
    exact Option.map_id'
  rw [placedMachine, same]
  rfl

end LoonyRuntime.Task
