import LoonyRuntime.Task.Allocation
import LoonyRuntime.Task.State

/-!
# Where the output is stored

The header of a task keeps a pointer to the output slot in a cell. `poll`, `try_read_output` and
`deallocate` call `get` on the cell and use what it gives, which is the address of the cell, for
the pointer. So the three agree with one another (`tryReadOutput_storeOutput`), at the cell and not
at the slot: `outputInSlot_iff` says that exactly the outputs of size zero are stored as intended.

What the write does to a field of the header is said by `field_unchanged_iff`, field by field and
for every placement of the fields. An output that fits into the cell reaches no other field, so
the state word and the join waker survive it (`takes_of_fits`).

The header is placed in memory here: `HeaderFields` says how its words and its join waker are kept
and where, and the operations on the header are stores and loads.
-/

set_option autoImplicit false

namespace LoonyRuntime.Task

open Memory TaskState

/-! ## The header in memory -/

/-- The fields of `Header`. -/
inductive HeaderField where
  | state
  | scheduler
  | vtable
  | future
  | output
  | joinWaker
deriving DecidableEq, Repr

/-- How the fields of the header are kept: five words and an `Option<Waker>`, each at an offset
of its own. -/
structure HeaderFields (W : Type) where
  word : Encoding Usize
  waker : Encoding (Option W)
  offset : HeaderField → Nat

variable {W : Type}

/-- The bytes of a field in a header at address zero. -/
def HeaderFields.field (h : HeaderFields W) : HeaderField → Region
  | .joinWaker => ⟨h.offset .joinWaker, h.waker.size⟩
  | f => ⟨h.offset f, h.word.size⟩

/-- A placement of the fields: each inside the header, no two of them sharing a byte. -/
structure HeaderLayout (W : Type) extends TypeLayout, HeaderFields W where
  inside : ∀ f, (toHeaderFields.field f).Within ⟨0, size⟩
  apart : ∀ f g, f ≠ g → (toHeaderFields.field f).Apart (toHeaderFields.field g)

/-- What an output of `size` bytes covers when it is written at the cell of the pointer to it, in a
header at address zero. -/
def HeaderLayout.outputWrites (h : HeaderLayout W) (size : Nat) : Region := ⟨h.offset .output, size⟩

/-- Written at the cell, an output of at most a word reaches no other field. -/
theorem HeaderLayout.outputWrites_apart (h : HeaderLayout W) {size : Nat}
    (fits : size ≤ h.word.size) {f : HeaderField} (other : f ≠ .output) :
    (h.outputWrites size).Apart (h.field f) := by
  have cell : (h.outputWrites size).Within (h.field .output) :=
    ⟨Nat.le_refl _, Nat.add_le_add_left fits _⟩
  exact (h.apart .output f other.symm).of_within cell

/-- The types and the address of one task. -/
structure Allocation (W : Type) where
  header : HeaderLayout W
  future : TypeLayout
  output : TypeLayout
  base : Nat
  nonnull : base ≠ 0

/-- A value of a type of this layout: its bytes. -/
abbrev TypeLayout.Value (t : TypeLayout) := { bytes : List Byte // bytes.length = t.size }

namespace Allocation

variable (a : Allocation W)

/-- The slots that `create_raw_task` reserves. -/
def slots : Slots := createRawTask a.header.toTypeLayout a.future a.output a.base

/-- The bytes of a field of the task's header. -/
def field (f : HeaderField) : Region := (a.header.field f).above a.base

/-- `header.output.get()`. `UnsafeCell::get` gives the address of the cell, not the pointer to the
output slot that is kept in it. -/
def outputGet : Nat := (a.field .output).start

/-- The bytes `VTableFor::poll` writes when the future returns `Ready`: `ptr::write` of a `T`. -/
def pollWrites : Region := ⟨a.outputGet, a.output.size⟩

/-- The bytes `try_read_output` reads: `ptr::read` of a `T`. -/
def tryReadOutputReads : Region := ⟨a.outputGet, a.output.size⟩

/-- The bytes `VTableFor::deallocate` destroys: `destroy_output` of a `T`. -/
def deallocateDestroys : Region := ⟨a.outputGet, a.output.size⟩

/-- The state word. -/
def loadState (m : Bytes) : Usize := a.header.word.load m (a.field .state).start

/-- `state.fetch_or`. -/
def fetchOr (m : Bytes) (bits : Usize) : Bytes :=
  a.header.word.store m (a.field .state).start (a.loadState m ||| bits)

/-- The join waker. -/
def loadJoinWaker (m : Bytes) : Option W := a.header.waker.load m (a.field .joinWaker).start

/-- `join_waker.get().replace` and `take`. -/
def storeJoinWaker (m : Bytes) (waker : Option W) : Bytes :=
  a.header.waker.store m (a.field .joinWaker).start waker

/-- `set_join_waker`: the memory, and whether the task is already complete. -/
def setJoinWaker (m : Bytes) (waker : W) : Bytes × Bool :=
  let prev := a.loadState m
  (a.storeJoinWaker (a.fetchOr m joinInterest.bits) (some waker), prev &&& complete.bits != 0)

/-- The write of the output. -/
def storeOutput (m : Bytes) (output : a.output.Value) : Bytes :=
  m.store a.pollWrites.start output.1

/-- The `Ready` branch of `VTableFor::poll` up to the wake of the join handle: the memory, and the
join waker that it takes. -/
def pollReady (m : Bytes) (output : a.output.Value) : Bytes × Option W :=
  let stored := a.storeOutput m output
  let prev := a.loadState stored
  let marked := a.fetchOr stored complete.bits
  if prev &&& joinInterest.bits != 0 then
    (a.storeJoinWaker marked none, a.loadJoinWaker marked)
  else (marked, none)

/-- `try_read_output`. -/
def tryReadOutput (m : Bytes) : Option (List Byte) :=
  let state := a.loadState m
  if state &&& complete.bits == 0 then none
  else if state &&& aborted.bits != 0 then none
  else some (m.load a.tryReadOutputReads)

/-- The output that `VTableFor::deallocate` destroys, if it does. -/
def deallocateOutput (m : Bytes) : Option Region :=
  if a.outputGet != 0 && a.loadState m &&& complete.bits != 0 then some a.deallocateDestroys
  else none

/-- **The output lives in its slot**: what is written is the slot that was reserved, what is read
and what is destroyed is what was written, no field of the header is touched, and the join waker
that is taken is the one that was stored. -/
structure OutputInSlot : Prop where
  written : a.pollWrites.bytes = a.slots.output.bytes
  read : a.tryReadOutputReads.bytes = a.pollWrites.bytes
  destroyed : ∀ m r, a.deallocateOutput m = some r → r.bytes = a.pollWrites.bytes
  overlaps : ∀ f, a.pollWrites.Apart (a.field f)
  unchanged : ∀ m output f, (a.storeOutput m output).load (a.field f) = m.load (a.field f)
  taken : ∀ m waker output, (a.pollReady (a.setJoinWaker m waker).1 output).2 = some waker

/-! ## What the operations leave alone -/

section Frame

variable {a} {m : Bytes} {output : a.output.Value}

/-- The fields of the header share no byte. -/
theorem field_apart {f g : HeaderField} (differ : f ≠ g) : (a.field f).Apart (a.field g) :=
  Region.above_apart_above.mpr (a.header.apart f g differ)

/-- **A field survives the write of every output** exactly if it shares no byte with the bytes
written. -/
theorem field_unchanged_iff {f : HeaderField} :
    (∀ m output, (a.storeOutput m output).load (a.field f) = m.load (a.field f)) ↔
      a.pollWrites.Apart (a.field f) := by
  rw [Bytes.apart_iff_load_store]
  constructor
  · intro unchanged m values fills
    exact unchanged m ⟨values, fills⟩
  · intro unchanged m output
    exact unchanged m output.1 output.2

/-- **An output that fits into the cell reaches no other field.** -/
theorem apart_of_fits (fits : a.output.size ≤ a.header.word.size) {f : HeaderField}
    (other : f ≠ .output) : a.pollWrites.Apart (a.field f) :=
  Region.above_apart_above.mpr (a.header.outputWrites_apart fits other)

@[simp] theorem loadState_fetchOr (bits : Usize) :
    a.loadState (a.fetchOr m bits) = a.loadState m ||| bits :=
  a.header.word.load_store _ _ _

@[simp] theorem loadJoinWaker_storeJoinWaker (waker : Option W) :
    a.loadJoinWaker (a.storeJoinWaker m waker) = waker :=
  a.header.waker.load_store _ _ _

@[simp] theorem loadJoinWaker_fetchOr (bits : Usize) :
    a.loadJoinWaker (a.fetchOr m bits) = a.loadJoinWaker m := by
  apply a.header.waker.load_of_apart
  rw [a.header.word.length_encode]
  exact field_apart (f := .state) (g := .joinWaker) nofun

@[simp] theorem loadState_storeJoinWaker (waker : Option W) :
    a.loadState (a.storeJoinWaker m waker) = a.loadState m := by
  apply a.header.word.load_of_apart
  rw [a.header.waker.length_encode]
  exact field_apart (f := .joinWaker) (g := .state) nofun

theorem loadState_storeOutput (apart : a.pollWrites.Apart (a.field .state)) :
    a.loadState (a.storeOutput m output) = a.loadState m := by
  apply a.header.word.load_of_apart
  rw [output.2]
  exact apart

theorem loadJoinWaker_storeOutput (apart : a.pollWrites.Apart (a.field .joinWaker)) :
    a.loadJoinWaker (a.storeOutput m output) = a.loadJoinWaker m := by
  apply a.header.waker.load_of_apart
  rw [output.2]
  exact apart

/-- **The join waker that is taken is the one that was stored**, if the output fits into the
cell. -/
theorem takes_of_fits (fits : a.output.size ≤ a.header.word.size) (waker : W) :
    (a.pollReady (a.setJoinWaker m waker).1 output).2 = some waker := by
  have state : ∀ m, a.loadState (a.storeOutput m output) = a.loadState m := fun m =>
    loadState_storeOutput (apart_of_fits fits nofun)
  have joinWaker : ∀ m, a.loadJoinWaker (a.storeOutput m output) = a.loadJoinWaker m := fun m =>
    loadJoinWaker_storeOutput (apart_of_fits fits nofun)
  have interested : ∀ word : Usize,
      ((word ||| joinInterest.bits) &&& joinInterest.bits != 0) = true := by
    intro word
    have set : ∀ m : BitVec 4, Marks.hasJoinInterest (m ||| 8) = true := by decide
    have marked := hasJoinInterest_marks (word ||| joinInterest.bits)
    rw [marks_or_joinInterest, set] at marked
    exact marked
  simp only [pollReady, setJoinWaker, state, loadState_storeJoinWaker, loadState_fetchOr,
    interested, if_true, loadJoinWaker_fetchOr, joinWaker, loadJoinWaker_storeJoinWaker]

/-- **What is read back is what the future returned**, if the output fits into the cell and the
task is not aborted: the three functions agree with one another. -/
theorem tryReadOutput_storeOutput (fits : a.output.size ≤ a.header.word.size)
    (live : Marks.isAborted (marks (a.loadState m)) = false) :
    a.tryReadOutput (a.fetchOr (a.storeOutput m output) complete.bits) = some output.1 := by
  have state : a.loadState (a.storeOutput m output) = a.loadState m :=
    loadState_storeOutput (apart_of_fits fits nofun)
  have finished : ((a.loadState m ||| complete.bits) &&& complete.bits == 0) = false := by
    have marked := completeMask_marks (a.loadState m ||| complete.bits)
    have notIdle : ∀ m : BitVec 4, Marks.isIdle (m ||| 3) = false := by decide
    rw [marks_or_complete, notIdle] at marked
    simpa using marked
  have going : ((a.loadState m ||| complete.bits) &&& aborted.bits != 0) = false := by
    have marked := isAborted_marks (a.loadState m ||| complete.bits)
    rw [marks_or_complete] at marked
    exact marked.trans ((Marks.isAborted_or_complete _).trans live)
  have kept : (a.fetchOr (a.storeOutput m output) complete.bits).load a.tryReadOutputReads =
      (a.storeOutput m output).load a.tryReadOutputReads := by
    apply Bytes.load_store_apart
    rw [a.header.word.length_encode]
    exact (apart_of_fits fits (f := .state) nofun).symm
  have read : (a.storeOutput m output).load a.tryReadOutputReads = output.1 := by
    have stored := m.load_store a.pollWrites.start output.1
    rwa [output.2] at stored
  simp only [tryReadOutput, loadState_fetchOr, state, finished, going, kept, read, if_false,
    Bool.false_eq_true]

end Frame

/-! ## The slot that is not used -/

section Slot

variable {a}

/-- The cell is in the header, so it starts before the output slot. -/
theorem outputGet_lt (a : Allocation W) : a.outputGet < a.slots.output.start := by
  have two : Nontrivial Usize := ⟨0, 1, by decide⟩
  have filled : 0 < a.header.word.size := a.header.word.size_pos
  have inside := (a.header.inside .output).2
  simp only [Region.stop, HeaderFields.field] at inside
  simp only [outputGet, field, Region.above, HeaderFields.field, slots, createRawTask]
  omega

/-- An output that is not empty is not written to its slot. -/
theorem written_slot_iff : a.pollWrites.bytes = a.slots.output.bytes ↔ a.output.size = 0 := by
  rw [Region.bytes_eq_iff]
  constructor
  · rintro (same | ⟨empty, -⟩)
    · have starts : a.pollWrites.start = a.slots.output.start := congrArg Region.start same
      exact absurd starts (Nat.ne_of_lt a.outputGet_lt)
    · exact empty
  · intro empty
    exact .inr ⟨empty, empty⟩

/-- **The output lives in its slot exactly if it has size zero.** -/
theorem outputInSlot_iff (a : Allocation W) : a.OutputInSlot ↔ a.output.size = 0 := by
  constructor
  · intro stored
    exact written_slot_iff.mp stored.written
  · intro empty
    have overlaps : ∀ f, a.pollWrites.Apart (a.field f) := fun f =>
      Region.apart_of_size_zero empty
    exact {
      written := written_slot_iff.mpr empty
      read := rfl
      destroyed := by
        intro m r destroyed
        simp only [deallocateOutput] at destroyed
        split at destroyed
        · cases destroyed
          rfl
        · cases destroyed
      overlaps
      unchanged := fun m output f => field_unchanged_iff.mpr (overlaps f) m output
      taken := fun m waker output => takes_of_fits (by omega) waker }

end Slot

end Allocation

/-! ## A header of seven words -/

/-- A waker: the words of its data and of its vtable, which is not null. -/
abbrev WakerWords := { words : Usize × Usize // words.2 ≠ 0 }

/-- `Option<Waker>`: a null vtable is no waker. -/
def wakerEncoding : Encoding (Option WakerWords) :=
  ((Encoding.word 8).prod (Encoding.word 8)).map
    (fun waker => match waker with
      | some words => words.1
      | none => (0, 0))
    (fun words => if live : words.2 ≠ 0 then some ⟨words, live⟩ else none)
    (by
      intro waker
      cases waker with
      | none => rfl
      | some words => exact dif_pos words.2)

/-- The fields in the order of the source, without gaps. -/
def packedHeader : HeaderLayout WakerWords where
  toTypeLayout := .units 3 7
  word := .word 8
  waker := wakerEncoding
  offset
    | .state => 0
    | .scheduler => 8
    | .vtable => 16
    | .future => 24
    | .output => 32
    | .joinWaker => 40
  inside f := by cases f <;> decide
  apart f g differ := by
    cases f <;> cases g <;> first | exact absurd rfl differ | decide

/-- A task whose future returns two words. -/
def twoWords : Allocation WakerWords where
  header := packedHeader
  future := .units 3 2
  output := .units 3 2
  base := 64
  nonnull := by decide

/-- Two words written at the cell end inside the join waker. -/
theorem twoWords_not_in_slot : ¬twoWords.OutputInSlot := by
  intro stored
  have apart := stored.overlaps .joinWaker
  revert apart
  decide

end LoonyRuntime.Task
