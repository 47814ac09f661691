import LoonyRuntime.Concurrent.Threads
import LoonyRuntime.Task.State

/-!
# Polls, wakes and joins of one task

The machine of one task and of everything that refers to it: the entries it has in run queues,
the polls of its future, the calls on its wakers and the calls of the owner of its join handle.
Each thread carries the stack of such calls it is inside of, and a step is one atomic operation
of the call on top, or a new call made by code of the user (`Begin`): the code of a thread that
is inside no call, or the body of the future while it is polled.

The header's fields are the source's. The environment of the header is counted: `queue` is the
number of entries the task has in run queues, `wakers` the number of clones of its wakers that
are alive, `borrows` the number of calls that hold a clone by reference. The log lists what has
happened, latest first.

Three readings are fixed here. A wake call counts as returned at its last operation on the task:
the load that makes it break, or the push of the entry (`notify_worker` touches neither the word
nor the task's entries). `Handle::current()` in the closure of `create_task` may find a handle or
not at each call, so both continuations are steps. The memory of the header is taken to stay
readable after `deallocate`; when that call is made too early is the subject of
`Task.References`.
-/

set_option autoImplicit false

namespace LoonyRuntime.Task

open TaskState Concurrent

/-! ## Calls in progress -/

/-- Which function made the task. The schedule closure of `create_task` pushes to the injector
of the current runtime handle, or runs the task when there is none. The one of
`create_task_with_shared` pushes to the shared injector. -/
inductive Creator where
  | createTask
  | createTaskWithShared
deriving DecidableEq, Repr

/-- The vtable of a waker: the one in `raw.rs` or the one in `waker.rs`. -/
inductive WakerImpl where
  | raw
  | waker
deriving DecidableEq, Repr

/-- How a wake call holds its waker: by reference the waker of the poll's own context, by
reference a clone, or by value a clone. -/
inductive Via where
  | context
  | byRef
  | byValue
deriving DecidableEq, Repr

/-- Whether a wake goes on from the word it loaded to the exchange. -/
def WakerImpl.proceeds (impl : WakerImpl) (current : Usize) : Bool :=
  let state := fromBits current
  if state.isComplete || state.isAborted then false
  else if state.isScheduled || state.isRunning then false
  else match impl with
    | .raw => true
    | .waker => state.isIdle

/-- The word a wake exchanges for `current`. -/
def WakerImpl.desired : WakerImpl → Usize → Usize
  | .raw, current => wakeBits current
  | .waker, current => wakeBitsMasked current

/-- A wake goes on from a word exactly when it is idle and not aborted. -/
theorem proceeds_iff (impl : WakerImpl) (word : Usize) :
    impl.proceeds word = true ↔
      Marks.isIdle (marks word) = true ∧ Marks.isAborted (marks word) = false := by
  have finite : ∀ m : BitVec 4,
      ((if (Marks.isComplete m || Marks.isAborted m) = true then false
        else if (Marks.isScheduled m || Marks.isRunning m) = true then false
        else Marks.isIdle m) = true ↔ Marks.isIdle m = true ∧ Marks.isAborted m = false) ∧
      ((if (Marks.isComplete m || Marks.isAborted m) = true then false
        else if (Marks.isScheduled m || Marks.isRunning m) = true then false
        else true) = true ↔ Marks.isIdle m = true ∧ Marks.isAborted m = false) := by
    decide
  cases impl
  · simpa [WakerImpl.proceeds] using (finite (marks word)).2
  · simpa [WakerImpl.proceeds] using (finite (marks word)).1

/-- From an idle word both wakers exchange it for the same marks. -/
theorem marks_desired (impl : WakerImpl) {word : Usize}
    (idle : Marks.isIdle (marks word) = true) : marks (impl.desired word) = marks word ||| 1 := by
  have finite : ∀ m : BitVec 4, Marks.isIdle m = true → (m &&& 12) ||| 1 = m ||| 1 := by decide
  cases impl
  · exact marks_wakeBits word
  · exact (marks_wakeBitsMasked word).trans (finite _ idle)

@[simp] theorem refs_desired (impl : WakerImpl) (word : Usize) :
    refs (impl.desired word) = refs word := by
  cases impl
  · exact refs_wakeBits word
  · exact refs_wakeBitsMasked word

/-- Where a wake is: at its load, at the exchange of a word it may schedule from, at
`Task::schedule`, or waiting for a run that the schedule closure made on this thread. -/
inductive WakePc (impl : WakerImpl) where
  | load
  | compareExchange (current : { word : Usize // impl.proceeds word = true })
  | schedule
  | ranInline

/-- Where `VTableFor::poll` is. -/
inductive PollPc (T : Type) where
  | future
  | storeOutput (output : T)
  | setComplete
  | takeJoinWaker
  | wakeJoin (waker : Nat)
  | release
  | dropContext
  | deallocate

/-- Where `drop_waker` is. -/
inductive DropPc where
  | fetchSub
  | deallocate

/-- Where `JoinHandle::poll` is. -/
inductive JoinPc where
  | load (cx : Nat)
  | tryReadOutput (seen : Usize)
  | setInterest (cx : Nat)
  | storeWaker (cx : Nat) (prev : Usize)

/-- Where `abort_task` is. -/
inductive AbortPc where
  | fetchOr
  | load
  | takeJoinWaker
  | wakeJoin (waker : Nat)

/-- Where `JoinHandle::drop` is. -/
inductive HandleDropPc where
  | load
  | clearInterest
  | takeJoinWaker

/-- A call in progress on a thread. -/
inductive Frame (T : Type) where
  | poll (pc : PollPc T)
  | wake (impl : WakerImpl) (via : Via) (pc : WakePc impl)
  | dropWaker (pc : DropPc)
  | joinPoll (pc : JoinPc)
  | abort (pc : AbortPc)
  | dropHandle (pc : HandleDropPc)

/-! ## The task and its log -/

inductive JoinError where
  | aborted
  | panic
  | alreadyTaken
deriving DecidableEq, Repr

/-- The result of a poll. -/
inductive Poll (α : Type) where
  | ready (value : α)
  | pending
deriving DecidableEq, Repr

/-- What has happened to the task. -/
inductive Event (T : Type) where
  | pollBegan
  | futureReady (output : T)
  | futurePending
  | released
  | scheduled
  | wakeReturned (via : Via)
  | joinGiven (cx : Nat)
  | joinReturned (result : Poll (Except JoinError T))
  | joinWoken (waker : Nat)
  | abortCalled
  | handleDropped
  | outputDestroyed
  | deallocated
deriving DecidableEq

structure Header (T : Type) where
  state : Usize
  output : Option T
  joinWaker : Option Nat

/-- The join handle: free, inside a call of its owner, or dropped. -/
inductive HandleState where
  | idle
  | busy
  | dropped
deriving DecidableEq, Repr

/-- The header of a task with the environment that refers to it. -/
structure Cell (T : Type) extends Header T where
  queue : Nat
  wakers : Nat
  borrows : Nat
  handle : HandleState
  log : List (Event T)

variable {T : Type}

def Cell.record (s : Cell T) (e : Event T) : Cell T := { s with log := e :: s.log }

/-- A task made by `create_raw_task` and spawned: its word is `IDLE` with one reference, and one
entry of it is in a run queue. -/
def Cell.spawned : Cell T where
  state := (idle.withRefcount 1).bits
  output := none
  joinWaker := none
  queue := 1
  wakers := 0
  borrows := 0
  handle := .idle
  log := []

/-- A result of one operation: the task after it, and the frames that replace the top one. -/
abbrev Outcome (T : Type) := Option (Cell T × List (Frame T))

/-! ## The operations of each call -/

/-- `VTableFor::deallocate`. -/
def deallocate (s : Cell T) : Cell T :=
  if s.state &&& complete.bits != 0 then (s.record .outputDestroyed).record .deallocated
  else s.record .deallocated

/-- The test of `drop_waker` on the word before its `fetch_sub`. -/
def lastReference (prev : Usize) : Bool :=
  (fromBits prev).refcount == 1 && (fromBits prev).isComplete

/-- `VTableFor::poll`. The future's own result is a label, so `future` has no operation here. -/
def advancePoll (s : Cell T) : PollPc T → Outcome T
  | .future => none
  | .storeOutput output => some ({ s with output := some output }, [.poll .setComplete])
  | .setComplete =>
      let next : PollPc T :=
        if s.state &&& joinInterest.bits != 0 then .takeJoinWaker else .release
      some ({ s with state := s.state ||| complete.bits }, [.poll next])
  | .takeJoinWaker =>
      match s.joinWaker with
      | some waker => some ({ s with joinWaker := none }, [.poll (.wakeJoin waker)])
      | none => some (s, [.poll .release])
  | .wakeJoin waker => some (s.record (.joinWoken waker), [.poll .release])
  | .release =>
      some ({ s with state := s.state - refOne }.record .released, [.poll .dropContext])
  | .dropContext =>
      -- the context's waker goes out of scope: `drop_waker`
      some ({ s with state := s.state - refOne },
        if lastReference s.state then [.poll .deallocate] else [])
  | .deallocate => some (deallocate s, [])

/-- The end of a wake call: a waker held by value is gone, a borrow ends. -/
def Cell.wakeReturns (s : Cell T) : Via → Cell T
  | .context => s.record (.wakeReturned .context)
  | .byRef => { s with borrows := s.borrows - 1 }.record (.wakeReturned .byRef)
  | .byValue => s.record (.wakeReturned .byValue)

/-- `wake_waker` and `wake_by_ref_waker`, of `raw.rs` and of `waker.rs`. -/
def advanceWake (impl : WakerImpl) (via : Via) (s : Cell T) : WakePc impl → Outcome T
  | .load =>
      if may : impl.proceeds s.state = true then
        some (s, [.wake impl via (.compareExchange ⟨s.state, may⟩)])
      else some (s.wakeReturns via, [])
  | .compareExchange current =>
      if s.state = current.1 then
        some ({ s with state := impl.desired current.1 }.record .scheduled,
          [.wake impl via .schedule])
      else some (s, [.wake impl via .load])
  | .schedule => some ({ s with queue := s.queue + 1 }.wakeReturns via, [])
  | .ranInline => some (s.wakeReturns via, [])

/-- `drop_waker`. -/
def advanceDrop (s : Cell T) : DropPc → Outcome T
  | .fetchSub =>
      some ({ s with state := s.state - refOne },
        if lastReference s.state then [.dropWaker .deallocate] else [])
  | .deallocate => some (deallocate s, [])

/-- The end of a call of the handle's owner. -/
def Cell.joinReturns (s : Cell T) (result : Poll (Except JoinError T)) : Outcome T :=
  some ({ s with handle := .idle }.record (.joinReturned result), [])

/-- `JoinHandle::poll`, with `set_join_waker` and `try_read_output`. Reading an output slot that
was never written is undefined and has no step. -/
def advanceJoin (s : Cell T) : JoinPc → Outcome T
  | .load cx =>
      let state := fromBits s.state
      if state.isComplete then some (s, [.joinPoll (.tryReadOutput s.state)])
      else if state.isAborted then s.joinReturns (.ready (.error .aborted))
      else some (s, [.joinPoll (.setInterest cx)])
  | .tryReadOutput seen =>
      if s.state &&& complete.bits != 0 && s.state &&& aborted.bits == 0 then
        match s.output with
        | some output => s.joinReturns (.ready (.ok output))
        | none => none
      else if (fromBits seen).isAborted then s.joinReturns (.ready (.error .aborted))
      else s.joinReturns (.ready (.error .alreadyTaken))
  | .setInterest cx =>
      some ({ s with state := s.state ||| joinInterest.bits },
        [.joinPoll (.storeWaker cx s.state)])
  | .storeWaker cx prev =>
      if prev &&& complete.bits != 0 then
        some ({ s with joinWaker := some cx }, [.joinPoll (.load cx)])
      else { s with joinWaker := some cx }.joinReturns .pending

/-- `abort_task`. -/
def advanceAbort (s : Cell T) : AbortPc → Outcome T
  | .fetchOr =>
      some ({ s with state := s.state ||| aborted.bits }.record .abortCalled, [.abort .load])
  | .load =>
      if s.state &&& joinInterest.bits != 0 then some (s, [.abort .takeJoinWaker])
      else some ({ s with handle := .idle }, [])
  | .takeJoinWaker =>
      match s.joinWaker with
      | some waker => some ({ s with joinWaker := none }, [.abort (.wakeJoin waker)])
      | none => some ({ s with handle := .idle }, [])
  | .wakeJoin waker => some ({ s with handle := .idle }.record (.joinWoken waker), [])

/-- `JoinHandle::drop`. -/
def advanceHandleDrop (s : Cell T) : HandleDropPc → Outcome T
  | .load =>
      if (fromBits s.state).isComplete then some (s, [.dropHandle .clearInterest])
      else some ({ s with handle := .dropped }.record .handleDropped, [])
  | .clearInterest =>
      some ({ s with state := s.state &&& ~~~joinInterest.bits }, [.dropHandle .takeJoinWaker])
  | .takeJoinWaker =>
      some ({ s with joinWaker := none, handle := .dropped }.record .handleDropped, [])

/-- The next operation of a call. -/
def Frame.advance (s : Cell T) : Frame T → Outcome T
  | .poll pc => advancePoll s pc
  | .wake impl via pc => advanceWake impl via s pc
  | .dropWaker pc => advanceDrop s pc
  | .joinPoll pc => advanceJoin s pc
  | .abort pc => advanceAbort s pc
  | .dropHandle pc => advanceHandleDrop s pc

/-! ## Calls that code of the user makes -/

/-- A call that code of the user makes. -/
inductive Begin where
  /-- Take an entry of the task from a run queue and run it: `Task::run`. -/
  | run
  | clone (context : Bool)
  | wake (impl : WakerImpl) (via : Via)
  | dropWaker
  | joinPoll (cx : Nat)
  | abort
  | dropHandle
deriving DecidableEq, Repr

/-- A clone can be moved out of its place when some clone is held by no call by reference. -/
def Cell.movable (s : Cell T) : Bool := (if s.borrows = 0 then 0 else 1) < s.wakers

/-- The first effect of a call, and its frame. `inFuture` says that the caller is the body of the
future, which has the waker of its context at hand. -/
def Begin.call (inFuture : Bool) (s : Cell T) : Begin → Outcome T
  | .run =>
      if 0 < s.queue then
        some ({ s with queue := s.queue - 1 }.record .pollBegan, [.poll .future])
      else none
  | .clone context =>
      if (if context then inFuture else decide (0 < s.wakers)) then
        some ({ s with state := s.state + refOne, wakers := s.wakers + 1 }, [])
      else none
  | .wake impl .context =>
      if inFuture then some (s, [.wake impl .context .load]) else none
  | .wake impl .byRef =>
      if 0 < s.wakers then
        some ({ s with borrows := s.borrows + 1 }, [.wake impl .byRef .load])
      else none
  | .wake impl .byValue =>
      if s.movable then
        some ({ s with wakers := s.wakers - 1 }, [.wake impl .byValue .load])
      else none
  | .dropWaker =>
      if s.movable then some ({ s with wakers := s.wakers - 1 }, [.dropWaker .fetchSub])
      else none
  | .joinPoll cx =>
      if s.handle = .idle then
        some ({ s with handle := .busy }.record (.joinGiven cx), [.joinPoll (.load cx)])
      else none
  | .abort =>
      if s.handle = .idle then some ({ s with handle := .busy }, [.abort .fetchOr]) else none
  | .dropHandle =>
      if s.handle = .idle then some ({ s with handle := .busy }, [.dropHandle .load]) else none

/-! ## The machine -/

/-- A label of a thread's step. -/
inductive Label (T : Type) where
  /-- Code of the user makes a call. -/
  | begin (call : Begin)
  /-- The future returns `Ready`. -/
  | ready (output : T)
  /-- The future returns `Pending`. -/
  | pending
  /-- The next operation of the call on top. -/
  | next
  /-- `compare_exchange_weak` fails although the word is the expected one. -/
  | spurious
  /-- The closure of `create_task` finds no current handle and runs the task. -/
  | runInline

/-- One step of a thread inside the calls of the stack. -/
def move (creator : Creator) (s : Cell T) : List (Frame T) → Label T → Outcome T
  | [], .begin call => call.call false s
  | .poll .future :: rest, .begin call =>
      (call.call true s).map fun r => (r.1, r.2 ++ .poll .future :: rest)
  | .poll .future :: rest, .ready output =>
      some (s.record (.futureReady output), .poll (.storeOutput output) :: rest)
  | .poll .future :: rest, .pending =>
      some (s.record .futurePending, .poll .release :: rest)
  | .wake .waker via (.compareExchange _) :: rest, .spurious =>
      some (s, .wake .waker via .load :: rest)
  | .wake impl via .schedule :: rest, .runInline =>
      if creator = .createTask then
        some (s.record .pollBegan, .poll .future :: .wake impl via .ranInline :: rest)
      else none
  | frame :: rest, .next => (frame.advance s).map fun r => (r.1, r.2 ++ rest)
  | _, _ => none

/-- The states of a task with any number of threads. -/
abbrev State (T : Type) := Pool (Cell T) (List (Frame T))

/-- A thread and the label of its step. -/
abbrev Action (T : Type) := Nat × Label T

/-- The spawned task, with `n` threads inside no call. -/
def spawnedWith (T : Type) (n : Nat) : State T := ⟨.spawned, List.replicate n []⟩

/-- The machine of one task. -/
def machine (creator : Creator) : Machine (State T) (Action T) where
  initial s := ∃ n, s = spawnedWith T n
  step := Pool.step fun _ => move creator

end LoonyRuntime.Task
