import LoonyRuntime.Memory.Heap
import LoonyRuntime.Task.Output
import LoonyRuntime.Task.OutputSlot

/-!
# What a task allocates and gives back

`create_raw_task` allocates one block for the header, the future and the output, a box for the
schedule closure and a box for the `SchedulerData`. `deallocate` makes boxes of the addresses of
the future and of the output, drops these, and gives back the block.

Both addresses are inside the block, so the drop of such a box gives back memory that is no block
of the allocator, unless its type has size zero: in every heap that creations and deallocations
lead to, `deallocate` is defined exactly for a future of size zero, and for an output of size zero
too where the word has a bit of `COMPLETE` (`deallocates_iff`). The two boxes of the scheduler are
given back by nothing, so both stay for every task ever created (`boxes_stay`).

The outputs here fit into the cell of the header that they are written to, so the pointers of the
header that `deallocate` follows are those that `create_raw_task` stored.
-/

set_option autoImplicit false

namespace LoonyRuntime.Task

open TaskState Concurrent Memory

variable {T W : Type}

/-! ## A task in memory -/

/-- A task that `create_raw_task` makes: its parts, the layout of its block, and its two boxes. -/
structure RawTask (W : Type) extends Allocation W where
  layout : Layout
  asked : taskLayout header.toTypeLayout future output = some layout
  sum : header.size + future.size + output.size ≤ isizeMax
  fits : output.size ≤ header.word.size
  /-- The type of the schedule closure, and its box. -/
  closure : TypeLayout
  data : Nat
  /-- The box of the `SchedulerData`. -/
  scheduler : Nat

namespace RawTask

variable (t : RawTask W)

/-- The block of the task. -/
def block : Block := ⟨⟨t.base, t.layout.size⟩, t.layout.align⟩

/-- `Box::new(scheduler_data)`. -/
def dataBox : Block := ⟨⟨t.data, t.closure.size⟩, t.closure.align⟩

/-- `Box::new(SchedulerData { schedule, data })`: two words. -/
def schedulerBox : Block := ⟨⟨t.scheduler, 16⟩, 8⟩

/-- `create_raw_task`, what it allocates. There is none where the allocator has no room there. -/
def create (h : Heap) : Option Heap :=
  (h.alloc t.block).bind fun h => (h.allocBox t.dataBox).bind fun h => h.allocBox t.schedulerBox

/-- The box that `destroy_future` makes of the pointer to the future. -/
def futureBox : Block := ⟨t.slots.future, t.future.align⟩

/-- The box that `destroy_output` makes of `header.output.get()`. -/
def outputBox : Block := ⟨⟨t.outputGet, t.output.size⟩, t.output.align⟩

/-- `VTableFor::deallocate` of a task with that word, what it gives back. There is none where it is
undefined. -/
def deallocate (state : Usize) (h : Heap) : Option Heap :=
  let destroyFuture := if t.slots.future.start != 0 then h.freeBox t.futureBox else some h
  destroyFuture.bind fun h =>
    let destroyOutput :=
      if t.outputGet != 0 && state &&& complete.bits != 0 then h.freeBox t.outputBox else some h
    destroyOutput.bind fun h => h.free t.block

/-- The boxes of the scheduler. -/
def boxes : List Block := Heap.boxed t.schedulerBox ++ Heap.boxed t.dataBox

/-! ## The boxes that `deallocate` makes -/

/-- The cell of the output has bytes. -/
theorem word_pos : 0 < t.header.word.size :=
  have two : Nontrivial Usize := ⟨0, 1, by decide⟩
  t.header.word.size_pos

/-- The block has the size of its three parts. -/
theorem layout_size : t.layout.size = t.header.size + t.future.size + t.output.size := by
  rw [taskLayout_size t.sum t.asked]
  simp [Nat.add_assoc]

/-- The cell of the output lies in the header. -/
theorem cell_inside :
    t.base ≤ t.outputGet ∧ t.outputGet + t.header.word.size ≤ t.base + t.header.size := by
  have inside := t.header.inside .output
  simp only [Region.Within, Region.stop, HeaderFields.field] at inside
  simp only [Allocation.outputGet, Allocation.field, Region.above, HeaderFields.field]
  omega

theorem header_pos : 0 < t.header.size := by
  have cell := t.cell_inside
  have filled := t.word_pos
  omega

/-- The future's box starts inside the block, and is not the block. -/
theorem futureBox_inside :
    (0 < t.futureBox.size → t.futureBox.start ∈ t.block.bytes) ∧ t.futureBox ≠ t.block := by
  have filled := t.header_pos
  constructor
  · intro positive
    have size : 0 < t.future.size := positive
    refine Region.mem_bytes.mpr ⟨Nat.le_add_right .., ?_⟩
    simp only [futureBox, block, Allocation.slots, createRawTask, layout_size]
    omega
  · intro same
    have start : t.base + t.header.size = t.base := congrArg (fun b : Block => b.start) same
    omega

/-- The output's box starts inside the block, and is not the block. -/
theorem outputBox_inside :
    (0 < t.outputBox.size → t.outputBox.start ∈ t.block.bytes) ∧ t.outputBox ≠ t.block := by
  have filled := t.header_pos
  have cell := t.cell_inside
  have word := t.word_pos
  constructor
  · intro _
    refine Region.mem_bytes.mpr ⟨cell.1, ?_⟩
    simp only [outputBox, block, layout_size]
    omega
  · intro same
    have size : t.output.size = t.layout.size := congrArg (fun b : Block => b.size) same
    rw [layout_size] at size
    omega

/-- **`deallocate` of an allocated task is defined exactly if neither box has a block**, and gives
back the task's block only. -/
theorem deallocate_eq_some_iff {h h' : Heap} {state : Usize} (allocated : t.block ∈ h.blocks) :
    t.deallocate state h = some h' ↔
      (t.future.size = 0 ∧ (state &&& complete.bits ≠ 0 → t.output.size = 0)) ∧
        h.free t.block = some h' := by
  have first : (t.slots.future.start != 0) = true := by
    have filled := t.header_pos
    simp only [Allocation.slots, createRawTask, bne_iff_ne]
    omega
  have second : (t.outputGet != 0) = true := by
    have cell := t.cell_inside
    have base := t.nonnull
    simp only [bne_iff_ne]
    omega
  obtain ⟨futureInside, futureOther⟩ := t.futureBox_inside
  obtain ⟨outputInside, outputOther⟩ := t.outputBox_inside
  simp only [deallocate, first, second, if_true, Bool.true_and, bne_iff_ne,
    Option.bind_eq_some_iff]
  constructor
  · rintro ⟨h₁, freedFuture, h₂, freedOutput, freed⟩
    obtain ⟨noFuture, rfl⟩ := (Heap.freeBox_inside_iff allocated futureInside futureOther).mp
      freedFuture
    by_cases destroys : state &&& complete.bits ≠ 0
    · rw [if_pos destroys] at freedOutput
      obtain ⟨noOutput, rfl⟩ := (Heap.freeBox_inside_iff allocated outputInside outputOther).mp
        freedOutput
      exact ⟨⟨noFuture, fun _ => noOutput⟩, freed⟩
    · rw [if_neg destroys] at freedOutput
      cases freedOutput
      exact ⟨⟨noFuture, fun here => absurd here destroys⟩, freed⟩
  · rintro ⟨⟨noFuture, noOutput⟩, freed⟩
    refine ⟨h, (Heap.freeBox_inside_iff allocated futureInside futureOther).mpr ⟨noFuture, rfl⟩,
      h, ?_, freed⟩
    by_cases destroys : state &&& complete.bits ≠ 0
    · rw [if_pos destroys]
      exact (Heap.freeBox_inside_iff allocated outputInside outputOther).mpr
        ⟨noOutput destroys, rfl⟩
    · rw [if_neg destroys]

theorem create_eq_some {h h' : Heap} (created : t.create h = some h') :
    h'.blocks.Perm (t.block :: (h.blocks ++ t.boxes)) := by
  simp only [create, Option.bind_eq_some_iff] at created
  obtain ⟨h₁, block, h₂, data, scheduler⟩ := created
  rw [Heap.allocBox_eq_some scheduler, Heap.allocBox_eq_some data, Heap.alloc_eq_some block,
    ← List.append_assoc, boxes]
  exact (List.perm_middle).trans (List.perm_append_comm.cons _)

end RawTask

/-! ## Tasks that come and go -/

/-- The heap, the tasks that are not deallocated with their words, and all that were created. -/
structure TaskHeap (W : Type) where
  heap : Heap
  live : List (RawTask W × Usize)
  made : List (RawTask W)

/-- What happens to the tasks of a program. Operations on the word of a task leave the heap as it
is. -/
inductive TaskHeapAction (W : Type) where
  | create (task : RawTask W)
  | setState (i : Nat) (state : Usize)
  | deallocate (i : Nat)

/-- One step. A deallocation that is undefined has none. -/
def TaskHeap.step (s : TaskHeap W) : TaskHeapAction W → Option (TaskHeap W)
  | .create t =>
      (t.create s.heap).map fun h => ⟨h, (t, (idle.withRefcount 1).bits) :: s.live, t :: s.made⟩
  | .setState i state => s.live[i]?.map fun t => { s with live := s.live.set i (t.1, state) }
  | .deallocate i =>
      s.live[i]?.bind fun t => (t.1.deallocate t.2 s.heap).map fun h =>
        { s with heap := h, live := s.live.eraseIdx i }

/-- The tasks of a program that starts with other blocks on its heap. -/
def taskHeapMachine (start : Heap) : Machine (TaskHeap W) (TaskHeapAction W) where
  initial s := s = ⟨start, [], []⟩
  step := TaskHeap.step

/-- What the heap should hold: the blocks of the live tasks, the boxes of all that were made, and
what was there before. -/
def TaskHeap.expected (start : Heap) (s : TaskHeap W) : List Block :=
  s.live.map (·.1.block) ++ (s.made.flatMap RawTask.boxes ++ start.blocks)

theorem TaskHeap.block_mem {start : Heap} {s : TaskHeap W} {i : Nat} {t : RawTask W × Usize}
    (holds : s.heap.blocks.Perm (s.expected start)) (found : s.live[i]? = some t) :
    t.1.block ∈ s.heap.blocks := by
  refine holds.mem_iff.mpr (List.mem_append_left _ ?_)
  exact List.mem_map.mpr ⟨t, List.mem_of_getElem? found, rfl⟩

/-- A step keeps what the heap holds. -/
theorem TaskHeap.step_expected {start : Heap} {s s' : TaskHeap W} {a : TaskHeapAction W}
    (holds : s.heap.blocks.Perm (s.expected start)) (taken : s.step a = some s') :
    s'.heap.blocks.Perm (s'.expected start) := by
  cases a with
  | create t =>
      obtain ⟨h, created, rfl⟩ := Option.map_eq_some_iff.mp taken
      refine (t.create_eq_some created).trans (.cons _ ?_)
      refine (holds.append_right t.boxes).trans ?_
      simp only [expected, List.flatMap_cons, List.append_assoc]
      refine .append_left _ ?_
      rw [← List.append_assoc]
      exact List.perm_append_comm
  | setState i state =>
      obtain ⟨t, found, rfl⟩ := Option.map_eq_some_iff.mp taken
      have same : (s.live.set i (t.1, state)).map (·.1.block) = s.live.map (·.1.block) := by
        obtain ⟨within, rfl⟩ := List.getElem?_eq_some_iff.mp found
        have kept : i < (s.live.map (·.1.block)).length := by simpa using within
        rw [List.map_set]
        simpa using List.set_getElem_self kept
      simpa only [expected, same] using holds
  | deallocate i =>
      obtain ⟨t, found, deallocated⟩ := Option.bind_eq_some_iff.mp taken
      obtain ⟨h, gone, rfl⟩ := Option.map_eq_some_iff.mp deallocated
      have freed := ((t.1.deallocate_eq_some_iff (block_mem holds found)).mp gone).2
      have live : (s.live.map (·.1.block)).Perm
          (t.1.block :: (s.live.eraseIdx i).map (·.1.block)) := by
        obtain ⟨within, rfl⟩ := List.getElem?_eq_some_iff.mp found
        exact (List.getElem_cons_eraseIdx_perm within).symm.map _
      have before := (Heap.free_perm freed).symm.trans (holds.trans (live.append_right _))
      exact before.cons_inv

/-- What the heap holds in every reached state. -/
theorem heap_holds {start : Heap} {s : TaskHeap W} (reached : (taskHeapMachine start).Reaches s) :
    s.heap.blocks.Perm (s.expected start) := by
  refine reached.invariant (I := fun s => s.heap.blocks.Perm (s.expected start)) ?_ ?_
  · rintro _ rfl
    exact .refl _
  · intro s a s' _ holds _ taken
    exact TaskHeap.step_expected holds taken

/-- **A task that has not been deallocated can be, without undefined behaviour, exactly if its
future has size zero, and its output too if the word has a bit of `COMPLETE`.** -/
theorem deallocates_iff {start : Heap} {s : TaskHeap W}
    (reached : (taskHeapMachine start).Reaches s) {i : Nat} {t : RawTask W} {state : Usize}
    (found : s.live[i]? = some (t, state)) :
    (∃ s', (taskHeapMachine start).step s (.deallocate i) = some s') ↔
      t.future.size = 0 ∧ (state &&& complete.bits ≠ 0 → t.output.size = 0) := by
  have allocated := TaskHeap.block_mem (heap_holds reached) found
  constructor
  · rintro ⟨s', taken⟩
    obtain ⟨u, here, deallocated⟩ := Option.bind_eq_some_iff.mp taken
    obtain rfl : u = (t, state) := Option.some.inj (here.symm.trans found)
    obtain ⟨h, gone, -⟩ := Option.map_eq_some_iff.mp deallocated
    exact ((t.deallocate_eq_some_iff allocated).mp gone).1
  · intro empty
    obtain ⟨h, freed⟩ := Heap.exists_free_iff.mpr allocated
    have gone := (t.deallocate_eq_some_iff allocated).mpr ⟨empty, freed⟩
    refine ⟨{ s with heap := h, live := s.live.eraseIdx i }, ?_⟩
    refine Option.bind_eq_some_iff.mpr ⟨(t, state), found, ?_⟩
    exact Option.map_eq_some_iff.mpr ⟨h, gone, rfl⟩

/-- A task whose future has size zero and returns a word. -/
def oneWord : RawTask WakerWords where
  header := packedHeader
  future := .units 0 0
  output := .units 3 1
  base := 128
  nonnull := by decide
  layout := ⟨64, 8, ⟨3, rfl⟩, Nat.le_of_ble_eq_true rfl⟩
  asked := rfl
  sum := Nat.le_of_ble_eq_true rfl
  fits := Nat.le_of_ble_eq_true rfl
  closure := .units 3 1
  data := 512
  scheduler := 1024

/-- The state after the creation of that task. -/
theorem oneWord_created : ∃ s : TaskHeap WakerWords, (taskHeapMachine .empty).Reaches s ∧
    s.live[0]? = some (oneWord, (idle.withRefcount 1).bits) ∧ s.made = [oneWord] := by
  have room : (oneWord.create .empty).isSome = true := by decide
  obtain ⟨h, created⟩ := Option.isSome_iff_exists.mp room
  refine ⟨⟨h, [(oneWord, (idle.withRefcount 1).bits)], [oneWord]⟩, ?_, rfl, rfl⟩
  refine .step (a := .create oneWord) (.start rfl) trivial ?_
  simp only [taskHeapMachine, TaskHeap.step, created, Option.map_some]

/-- It can be deallocated before its first poll, and not once a wake has made it `SCHEDULED`: then
`deallocate` makes a box of the output, which has a word. -/
theorem deallocates_iff_created : ∃ s : TaskHeap WakerWords,
    s.live[0]? = some (oneWord, scheduled.bits) ∧
    ((∃ s', (taskHeapMachine .empty).step s (.deallocate 0) = some s') ↔
      oneWord.future.size = 0 ∧
        (scheduled.bits &&& complete.bits ≠ 0 → oneWord.output.size = 0)) := by
  obtain ⟨s, reached, found, -⟩ := oneWord_created
  have woken : (taskHeapMachine .empty).Reaches
      ({ s with live := s.live.set 0 (oneWord, scheduled.bits) } : TaskHeap WakerWords) := by
    refine .step (a := .setState 0 scheduled.bits) reached trivial ?_
    simp only [taskHeapMachine, TaskHeap.step, found, Option.map_some]
  have here : (s.live.set 0 (oneWord, scheduled.bits))[0]? = some (oneWord, scheduled.bits) :=
    Pool.getElem?_set_self _ found
  exact ⟨_, here, deallocates_iff woken here⟩

/-- **The boxes of the scheduler stay**, of every task that was ever created; besides these the
heap holds the blocks of the tasks that are not deallocated, and what was there before. -/
theorem boxes_stay {start : Heap} {s : TaskHeap W} (reached : (taskHeapMachine start).Reaches s) :
    (∀ t ∈ s.made, ∀ b ∈ t.boxes, b ∈ s.heap.blocks) ∧
      s.heap.blocks.Perm
        (s.live.map (·.1.block) ++ (s.made.flatMap RawTask.boxes ++ start.blocks)) := by
  have holds := heap_holds reached
  refine ⟨?_, holds⟩
  intro t made b box
  refine holds.mem_iff.mpr (List.mem_append_right _ (List.mem_append_left _ ?_))
  exact List.mem_flatMap.mpr ⟨t, made, box⟩

theorem boxes_stay_created : ∃ s : TaskHeap WakerWords, s.made = [oneWord] ∧
    (∀ t ∈ s.made, ∀ b ∈ t.boxes, b ∈ s.heap.blocks) ∧
      s.heap.blocks.Perm
        (s.live.map (·.1.block) ++ (s.made.flatMap RawTask.boxes ++ Heap.empty.blocks)) := by
  obtain ⟨s, reached, -, made⟩ := oneWord_created
  exact ⟨s, made, boxes_stay reached⟩

/-! ## The calls of `deallocate` that the protocol makes -/

/-- A call of `deallocate`, of a poll or of `drop_waker`. -/
def Frame.closes : Frame T → Bool
  | .poll .deallocate => true
  | .dropWaker .deallocate => true
  | _ => false

/-- **Where the protocol calls `deallocate`**, in whatever run, the task is `COMPLETE`, so for a
task whose output fits its cell the call is defined exactly if the future and the output have size
zero. -/
theorem call_deallocates_iff {creator : Creator} {s : State T}
    (reached : (machine creator).Reaches s) {i : Nat} {frame : Frame T} {rest : List (Frame T)}
    (found : s.threads[i]? = some (frame :: rest)) (closes : frame.closes = true)
    {t : RawTask W} {h : Heap} (allocated : t.block ∈ h.blocks) :
    (fromBits s.shared.state).isComplete = true ∧
      ((∃ h', t.deallocate s.shared.state h = some h') ↔
        t.future.size = 0 ∧ t.output.size = 0) := by
  have relies := (soundAt reached).relies i _ found frame List.mem_cons_self
  have finished : Marks.isComplete (marks s.shared.state) = true := by
    unfold Frame.closes at closes
    split at closes
    · exact relies
    · exact relies
    · cases closes
  have destroys : s.shared.state &&& complete.bits ≠ 0 := by
    rw [← bne_iff_ne, completeMask_marks, Marks.isIdle_of_isComplete finished]
    rfl
  refine ⟨by rw [isComplete_marks]; exact finished, ?_⟩
  constructor
  · rintro ⟨h', gone⟩
    obtain ⟨⟨noFuture, noOutput⟩, -⟩ := (t.deallocate_eq_some_iff allocated).mp gone
    exact ⟨noFuture, noOutput destroys⟩
  · rintro ⟨noFuture, noOutput⟩
    obtain ⟨h', freed⟩ := Heap.exists_free_iff.mpr allocated
    exact ⟨h', (t.deallocate_eq_some_iff allocated).mpr ⟨⟨noFuture, fun _ => noOutput⟩, freed⟩⟩

/-- The future gives out two clones of its waker and is ready, and one of them is dropped. -/
def cloneDropped : List (Action Unit) :=
  [(0, .begin .run), (0, .begin (.clone true)), (0, .begin (.clone true)), (0, .ready ()),
   (0, .next), (0, .next), (0, .next), (0, .next), (0, .begin .dropWaker), (0, .next)]

theorem call_deallocates_iff_cloneDropped :
    ∃ (s : State Unit) (frame : Frame Unit) (rest : List (Frame Unit)) (h : Heap),
      s.threads[0]? = some (frame :: rest) ∧ frame.closes = true ∧ oneWord.block ∈ h.blocks ∧
      (fromBits s.shared.state).isComplete = true ∧
      ((∃ h', oneWord.deallocate s.shared.state h = some h') ↔
        oneWord.future.size = 0 ∧ oneWord.output.size = 0) := by
  obtain ⟨s, reached, tested⟩ := (machine .createTask).exists_reaches_of_test
    (fun s : State Unit => s.threads[0]?.any fun stack => stack.head?.any Frame.closes)
    cloneDropped ⟨1, rfl⟩ (by decide)
  obtain ⟨stack, found, top⟩ := (Option.any_eq_true _ _).mp tested
  obtain ⟨frame, first, closes⟩ := (Option.any_eq_true _ _).mp top
  obtain ⟨rest, rfl⟩ := List.head?_eq_some_iff.mp first
  obtain ⟨tasks, reachedTasks, live, -⟩ := oneWord_created
  have allocated := TaskHeap.block_mem (heap_holds reachedTasks) live
  exact ⟨s, frame, rest, tasks.heap, found, closes, allocated,
    call_deallocates_iff reached found closes allocated⟩

end LoonyRuntime.Task
