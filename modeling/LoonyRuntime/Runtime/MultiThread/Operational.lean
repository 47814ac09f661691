import LoonyRuntime.Concurrent.Monitor

/-!
# The multi-thread scheduler

The machine of `multi_thread.rs` and of the parts of `handle.rs` that use its queues: `n` workers
in `WorkerThread::run`, and any number of other threads. A step is one operation on the shared
state. Code of the user runs on the other threads and inside `Task::run`; it may spawn or wake a
task, which pushes an entry and calls `notify_worker`, help in `block_on`, or call `shutdown`.

An entry of a queue is a number, fresh at its push. A thread is at a point, above the calls it
returns to; no such call holds a lock or an entry (`Caller`), so every lock and every entry taken
out of a queue is seen at the point.

Three things are left out. `ThreadUnpark::park` is never called, so that `unpark` finds no thread
and does nothing; the choice of its index by `LAST_NOTIFIED` has no effect either. The parks and
the yields of `block_on` touch no shared state. `shutdown` takes `&mut self` and drains the
handles of the workers, and is called once.
-/

set_option autoImplicit false

namespace LoonyRuntime.Runtime.MultiThread

open Concurrent

/-! ## Points -/

/-- Where `WorkerThread::run` is, with `WorkerThread::steal_work`. -/
inductive WorkerPc where
  | head
  | popLocal
  | lockStealers
  | steal (offset : Nat)
  /-- The guard of the stealers is dropped on the return of `steal_work`. -/
  | unlockStealers (found : Option Nat)
  | stealInjector
  | lockSleep
  | decActive
  /-- The double check: `worker.pop()`. -/
  | checkPop
  /-- The double check: `shared.injector.steal()`. -/
  | checkSteal
  | whileHead
  | wait
  | waiting
  | reacquire
  /-- The check after the wait: `worker.pop()`. -/
  | wakePop
  /-- The check after the wait: `shared.injector.steal()`. -/
  | wakeSteal
  | incActive
  | unlockSleep
  | exited
deriving DecidableEq, Repr

/-- Where `Shared::notify_worker` is. -/
inductive NotifyPc where
  | lockMutex
  | notify
  | unlockMutex
  | lockUnparkers
  | unpark
  | unlockUnparkers
deriving DecidableEq, Repr

/-- Where `MultiThread::steal_work` is. -/
inductive StealPc where
  | lockStealers
  | steal (target : Nat)
  | stealInjector
  | unlockStealers (found : Option Nat)
deriving DecidableEq, Repr

/-- Where `MultiThread::shutdown` is, after its store of the flag. The guard of the unparkers is
dropped on its return. -/
inductive ShutdownPc where
  | lockMutex
  | notifyAll
  | unlockMutex
  | lockUnparkers
  | unparkAll
  | join (worker : Nat)
  | unlockUnparkers
deriving DecidableEq, Repr

/-- Where a thread is. -/
inductive Point where
  /-- Code of the user outside of `Task::run`. -/
  | user
  /-- The thread has taken the entry, and calls `Task::run` on it next. -/
  | hold (entry : Nat)
  /-- Code of the user inside `Task::run`. -/
  | run (entry : Nat)
  | worker (pc : WorkerPc)
  | notifyWorker (pc : NotifyPc)
  | stealWork (pc : StealPc)
  | processSomeTasks (left : Nat)
  | shutdown (pc : ShutdownPc)
deriving DecidableEq, Repr

/-- A call that a thread returns to. -/
inductive Caller where
  | run (entry : Nat)
  | worker
  | processSomeTasks (left : Nat)
deriving DecidableEq, Repr

def Caller.resume : Caller → Point
  | .run entry => .run entry
  | .worker => .worker .head
  | .processSomeTasks left => .processSomeTasks left

structure Thread where
  point : Point
  below : List Caller
deriving DecidableEq, Repr

/-- The return of the call on top. -/
def Thread.resume : List Caller → Thread
  | [] => ⟨.user, []⟩
  | caller :: rest => ⟨caller.resume, rest⟩

/-! ## The shared state -/

structure Shared where
  injector : List Nat
  /-- The local queues of the workers. -/
  locals : List (List Nat)
  stealers : Monitor
  unparkers : Monitor
  /-- `mutex` with `condvar`. -/
  mutex : Monitor
  active : BitVec 64
  shutdown : Bool
  /-- The workers whose thread has ended. -/
  exited : List Nat
  /-- The number of entries pushed so far. -/
  pushed : Nat
  /-- The entries that were passed to `Task::run`. -/
  ran : List Nat
deriving DecidableEq, Repr

namespace Shared

def new (n : Nat) : Shared where
  injector := []
  locals := List.replicate n []
  stealers := .new
  unparkers := .new
  mutex := .new
  active := BitVec.ofNat 64 n
  shutdown := false
  exited := []
  pushed := 0
  ran := []

/-- `Worker::pop`, or a `Stealer::steal` that succeeds. -/
def pop (s : Shared) (worker : Nat) : Option (Nat × Shared) :=
  match s.locals[worker]? with
  | some (entry :: rest) => some (entry, { s with locals := s.locals.set worker rest })
  | _ => none

/-- `Stealer::steal`. With `retry` it comes back with `Steal::Retry`. -/
def steal (s : Shared) (retry : Bool) (target : Nat) : Option (Nat × Shared) :=
  if retry = true then none else s.pop target

/-- `Injector::steal`. With `retry` it comes back with `Steal::Retry`. -/
def stealInjector (s : Shared) (retry : Bool) : Option (Nat × Shared) :=
  if retry = true then none
  else match s.injector with
    | entry :: rest => some (entry, { s with injector := rest })
    | [] => none

/-- `Injector::push`. -/
def push (s : Shared) : Shared :=
  { s with injector := s.injector ++ [s.pushed], pushed := s.pushed + 1 }

theorem pop_eq_some {s s' : Shared} {worker entry : Nat}
    (popped : s.pop worker = some (entry, s')) :
    ∃ rest, s.locals[worker]? = some (entry :: rest) ∧
      s' = { s with locals := s.locals.set worker rest } := by
  simp only [pop] at popped
  split at popped
  · next head rest queue =>
      cases popped
      exact ⟨rest, queue, rfl⟩
  · cases popped

theorem steal_eq_some {s s' : Shared} {retry : Bool} {target entry : Nat}
    (stolen : s.steal retry target = some (entry, s')) :
    ∃ rest, s.locals[target]? = some (entry :: rest) ∧
      s' = { s with locals := s.locals.set target rest } := by
  simp only [steal] at stolen
  split at stolen
  · cases stolen
  · exact pop_eq_some stolen

theorem stealInjector_eq_some {s s' : Shared} {retry : Bool} {entry : Nat}
    (stolen : s.stealInjector retry = some (entry, s')) :
    ∃ rest, s.injector = entry :: rest ∧ s' = { s with injector := rest } := by
  simp only [stealInjector] at stolen
  split at stolen
  · cases stolen
  · split at stolen
    · next head rest queue =>
        cases stolen
        exact ⟨rest, queue, rfl⟩
    · cases stolen

/-- A steal from the injector that does not come back with `Retry` finds nothing only if there
is nothing. -/
theorem injector_eq_nil {s : Shared} (none : s.stealInjector false = none) : s.injector = [] := by
  simp only [stealInjector, Bool.false_eq_true, if_false] at none
  split at none
  · cases none
  · next empty => exact empty

end Shared

/-! ## Steps -/

/-- A result of one operation of a thread. -/
abbrev Outcome := Option (Shared × Thread)

/-- `WorkerThread::run` of worker `i` of `n`. -/
def advanceWorker (n : Nat) (retry : Bool) (i : Nat) (s : Shared) (below : List Caller) :
    WorkerPc → Outcome
  | .head =>
      if s.shutdown = true then
        some ({ s with exited := i :: s.exited }, ⟨.worker .exited, below⟩)
      else some (s, ⟨.worker .popLocal, below⟩)
  | .popLocal =>
      match s.pop i with
      | some (entry, s') => some (s', ⟨.hold entry, .worker :: below⟩)
      | none => some (s, ⟨.worker .lockStealers, below⟩)
  | .lockStealers =>
      (s.stealers.acquire i).map fun m => ({ s with stealers := m }, ⟨.worker (.steal 0), below⟩)
  | .steal offset =>
      let start := (i + 1) % n
      if offset < n - 1 then
        match s.steal retry ((start + offset) % n) with
        | some (entry, s') => some (s', ⟨.worker (.unlockStealers (some entry)), below⟩)
        | none => some (s, ⟨.worker (.steal (offset + 1)), below⟩)
      else some (s, ⟨.worker (.unlockStealers none), below⟩)
  | .unlockStealers found =>
      some ({ s with stealers := s.stealers.release },
        match found with
        | some entry => ⟨.hold entry, .worker :: below⟩
        | none => ⟨.worker .stealInjector, below⟩)
  | .stealInjector =>
      match s.stealInjector retry with
      | some (entry, s') => some (s', ⟨.hold entry, .worker :: below⟩)
      | none => some (s, ⟨.worker .lockSleep, below⟩)
  | .lockSleep =>
      (s.mutex.acquire i).map fun m => ({ s with mutex := m }, ⟨.worker .decActive, below⟩)
  | .decActive => some ({ s with active := s.active - 1 }, ⟨.worker .checkPop, below⟩)
  | .checkPop =>
      -- `is_some()` drops the task that was popped
      match s.pop i with
      | some (_, s') => some (s', ⟨.worker .incActive, below⟩)
      | none => some (s, ⟨.worker .checkSteal, below⟩)
  | .checkSteal =>
      match s.stealInjector retry with
      | some (_, s') => some (s', ⟨.worker .incActive, below⟩)
      | none => some (s, ⟨.worker .whileHead, below⟩)
  | .whileHead =>
      some (s, ⟨.worker (if s.shutdown = true then .incActive else .wait), below⟩)
  | .wait => some ({ s with mutex := s.mutex.wait i }, ⟨.worker .waiting, below⟩)
  | .reacquire =>
      (s.mutex.acquire i).map fun m => ({ s with mutex := m }, ⟨.worker .wakePop, below⟩)
  | .wakePop =>
      match s.pop i with
      | some (_, s') => some (s', ⟨.worker .incActive, below⟩)
      | none => some (s, ⟨.worker .wakeSteal, below⟩)
  | .wakeSteal =>
      match s.stealInjector retry with
      | some (_, s') => some (s', ⟨.worker .incActive, below⟩)
      | none => some (s, ⟨.worker .whileHead, below⟩)
  | .incActive => some ({ s with active := s.active + 1 }, ⟨.worker .unlockSleep, below⟩)
  | .unlockSleep => some ({ s with mutex := s.mutex.release }, ⟨.worker .head, below⟩)
  | .waiting => none
  | .exited => none

/-- `Shared::notify_worker`. Its `notify_one` is a label of its own. -/
def advanceNotify (i : Nat) (s : Shared) (below : List Caller) : NotifyPc → Outcome
  | .lockMutex =>
      (s.mutex.acquire i).map fun m => ({ s with mutex := m }, ⟨.notifyWorker .notify, below⟩)
  | .notify => none
  | .unlockMutex =>
      some ({ s with mutex := s.mutex.release }, ⟨.notifyWorker .lockUnparkers, below⟩)
  | .lockUnparkers =>
      (s.unparkers.acquire i).map fun m =>
        ({ s with unparkers := m }, ⟨.notifyWorker .unpark, below⟩)
  | .unpark => some (s, ⟨.notifyWorker .unlockUnparkers, below⟩)
  | .unlockUnparkers => some ({ s with unparkers := s.unparkers.release }, .resume below)

/-- `MultiThread::steal_work`, after which `block_on` runs what was found. -/
def advanceSteal (n : Nat) (retry : Bool) (i : Nat) (s : Shared) (below : List Caller) :
    StealPc → Outcome
  | .lockStealers =>
      (s.stealers.acquire i).map fun m => ({ s with stealers := m }, ⟨.stealWork (.steal 0), below⟩)
  | .steal target =>
      if target < n then
        match s.steal retry target with
        | some (entry, s') => some (s', ⟨.stealWork (.unlockStealers (some entry)), below⟩)
        | none => some (s, ⟨.stealWork (.steal (target + 1)), below⟩)
      else some (s, ⟨.stealWork .stealInjector, below⟩)
  | .stealInjector =>
      match s.stealInjector retry with
      | some (entry, s') => some (s', ⟨.stealWork (.unlockStealers (some entry)), below⟩)
      | none => some (s, ⟨.stealWork (.unlockStealers none), below⟩)
  | .unlockStealers found =>
      some ({ s with stealers := s.stealers.release },
        match found with
        | some entry => ⟨.hold entry, below⟩
        | none => .resume below)

/-- `Handle::process_some_tasks`, with `left` rounds of its loop to go. -/
def advanceProcess (retry : Bool) (s : Shared) (below : List Caller) : Nat → Outcome
  | 0 => some (s, .resume below)
  | left + 1 =>
      match s.stealInjector retry with
      | some (entry, s') => some (s', ⟨.hold entry, .processSomeTasks left :: below⟩)
      | none => some (s, .resume below)

/-- `MultiThread::shutdown`. -/
def advanceShutdown (n : Nat) (i : Nat) (s : Shared) (below : List Caller) : ShutdownPc → Outcome
  | .lockMutex =>
      (s.mutex.acquire i).map fun m => ({ s with mutex := m }, ⟨.shutdown .notifyAll, below⟩)
  | .notifyAll =>
      some ({ s with mutex := s.mutex.notifyAll }, ⟨.shutdown .unlockMutex, below⟩)
  | .unlockMutex =>
      some ({ s with mutex := s.mutex.release }, ⟨.shutdown .lockUnparkers, below⟩)
  | .lockUnparkers =>
      (s.unparkers.acquire i).map fun m =>
        ({ s with unparkers := m }, ⟨.shutdown .unparkAll, below⟩)
  | .unparkAll => some (s, ⟨.shutdown (.join 0), below⟩)
  | .join worker =>
      if worker < n then
        if worker ∈ s.exited then some (s, ⟨.shutdown (.join (worker + 1)), below⟩) else none
      else some (s, ⟨.shutdown .unlockUnparkers, below⟩)
  | .unlockUnparkers => some ({ s with unparkers := s.unparkers.release }, .resume below)

/-- A call that code of the user makes. -/
inductive Call where
  /-- `MultiThread::spawn`, `Handle::spawn_task` or a schedule closure: the push. -/
  | spawn
  | stealWork
  | processSomeTasks
  | shutdown
deriving DecidableEq, Repr

/-- A label of a thread's step. -/
inductive Label where
  /-- Code of the user makes a call. -/
  | begin (call : Call)
  /-- The next operation. With `retry` a steal comes back with `Steal::Retry`. -/
  | next (retry : Bool)
  /-- The wait on the condvar ends, by a notification or spuriously. -/
  | wake
  /-- `notify_one` wakes this worker, if any waits. -/
  | notify (choice : Nat)
  /-- `Task::run` returns. -/
  | finish
deriving DecidableEq, Repr

/-- The next operation of a thread. -/
def advance (n : Nat) (retry : Bool) (i : Nat) (s : Shared) (t : Thread) : Outcome :=
  match t.point with
  | .user => none
  | .hold entry => some ({ s with ran := entry :: s.ran }, ⟨.run entry, t.below⟩)
  | .run _ => none
  | .worker pc => advanceWorker n retry i s t.below pc
  | .notifyWorker pc => advanceNotify i s t.below pc
  | .stealWork pc => advanceSteal n retry i s t.below pc
  | .processSomeTasks left => advanceProcess retry s t.below left
  | .shutdown pc => advanceShutdown n i s t.below pc

/-- Code of the user makes a call, which returns to the callers `below`. -/
def begins (s : Shared) (below : List Caller) : Call → Outcome
  | .spawn => some (s.push, ⟨.notifyWorker .lockMutex, below⟩)
  | .stealWork => some (s, ⟨.stealWork .lockStealers, below⟩)
  | .processSomeTasks => some (s, ⟨.processSomeTasks 10, below⟩)
  | .shutdown =>
      if s.shutdown = true then none
      else some ({ s with shutdown := true }, ⟨.shutdown .lockMutex, below⟩)

/-- One step of thread `i`. Steals come back with `Retry` only if `retries`. -/
def move (n : Nat) (retries : Bool) (i : Nat) (s : Shared) (t : Thread) : Label → Outcome
  | .begin call =>
      match t.point with
      | .user => begins s t.below call
      | .run entry => begins s (.run entry :: t.below) call
      | _ => none
  | .next retry => if retry = true ∧ retries = false then none else advance n retry i s t
  | .wake =>
      if t.point = .worker .waiting then
        some ({ s with mutex := s.mutex.leave i }, ⟨.worker .reacquire, t.below⟩)
      else none
  | .notify choice =>
      if t.point = .notifyWorker .notify then
        (s.mutex.notifyOne choice).map fun m =>
          ({ s with mutex := m }, ⟨.notifyWorker .unlockMutex, t.below⟩)
      else none
  | .finish =>
      match t.point with
      | .run _ => some (s, .resume t.below)
      | _ => none

abbrev State := Pool Shared Thread

/-- `n` workers at the start of their loops, and `others` threads in code of the user. -/
def startWith (n others : Nat) : State :=
  ⟨.new n, List.replicate n ⟨.worker .head, []⟩ ++ List.replicate others ⟨.user, []⟩⟩

/-- The machine of a scheduler with `n` workers. -/
def machine (n : Nat) (retries : Bool) : Machine State (Nat × Label) where
  initial s := ∃ others, s = startWith n others
  step := Pool.step (move n retries)

end LoonyRuntime.Runtime.MultiThread
