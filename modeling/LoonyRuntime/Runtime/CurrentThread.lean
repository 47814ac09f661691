import LoonyRuntime.Collections.Worklist
import Mathlib.Data.List.Induction
import Mathlib.Data.List.Perm.Subperm

/-!
# The current-thread runtime

`scheduler/current_thread.rs` keeps the queue of tasks and the parker in cells of the thread.
`TASK_QUEUE` is a `RefCell`, which `run_until_idle` borrows mutably for its whole loop. A runtime
has an injector of its own, to which its handle pushes.

What the poll of a task spawns is a parameter `poll` of the model: a list of calls of the entry
points, in order. Everything here happens on the thread that drives the runtimes, except that a
handle may be used anywhere.

The loop drains the queue in first-in first-out order exactly when no queued task spawns onto the
thread (`drains_iff`), and everything spawned onto a runtime is run exactly when no handle was used
(`runs_everything_iff`). The runtimes of a thread share the two cells (`cells_shared`).
-/

set_option autoImplicit false

namespace LoonyRuntime.Runtime.CurrentThread

open Collections

variable {Task : Type}

/-! ## State -/

/-- A `RefCell`: its value, or nothing while it is mutably borrowed. -/
abbrev RefCell (α : Type) := Option α

/-- `CurrentThread`: the injector of its handle, whether its parker holds a notification, and its
shutdown flag. -/
structure Instance (Task : Type) where
  injector : List Task
  notified : Bool
  shutdown : Bool
deriving DecidableEq, Repr

/-- A thread: `TASK_QUEUE`, `PARKER` as the index of a runtime, the runtimes that were created on
it, and the tasks that were passed to `Task::run`, in order. -/
structure State (Task : Type) where
  taskQueue : RefCell (List Task)
  parker : Option Nat
  runtimes : List (Instance Task)
  ran : List Task
deriving DecidableEq, Repr

/-- An operation returns a value, or panics with a `BorrowMutError`. -/
abbrev Result (Task : Type) (α : Type) := State Task × Option α

/-! ## Entry points -/

/-- The entry points of a spawn, with the runtime. -/
inductive Entry where
  | spawn (runtime : Nat)
  | spawnTask (runtime : Nat)
  | spawnLocal
  /-- `spawn_task` of a handle of the runtime. -/
  | handle (runtime : Nat)
deriving DecidableEq, Repr

/-- `ThreadParker::unpark`. The thread that runs it is not parked. -/
def State.unpark (s : State Task) (runtime : Nat) : State Task :=
  { s with runtimes := s.runtimes.modify runtime fun r => { r with notified := true } }

/-- The queue is borrowed, the task is pushed, and then a parker is unparked. -/
def enqueue (unpark : State Task → State Task) (t : Task) (s : State Task) : Result Task Unit :=
  match s.taskQueue with
  | none => (s, none)
  | some q => (unpark { s with taskQueue := some (q ++ [t]) }, some ())

/-- `CurrentThread::spawn`. -/
def spawn (runtime : Nat) : Task → State Task → Result Task Unit :=
  enqueue (·.unpark runtime)

/-- `CurrentThread::spawn_task`. -/
def spawnTask (runtime : Nat) : Task → State Task → Result Task Unit :=
  enqueue (·.unpark runtime)

/-- `current_thread::spawn_local`. -/
def spawnLocal : Task → State Task → Result Task Unit :=
  enqueue fun s => match s.parker with
    | some runtime => s.unpark runtime
    | none => s

/-- `Handle::spawn_task`. The `notify_worker` of such a handle finds neither a waiting worker nor an
unparker. -/
def handleSpawnTask (runtime : Nat) (t : Task) (s : State Task) : Result Task Unit :=
  ({ s with
      runtimes := s.runtimes.modify runtime fun r => { r with injector := r.injector ++ [t] } },
    some ())

def Entry.call : Entry → Task → State Task → Result Task Unit
  | .spawn runtime => CurrentThread.spawn runtime
  | .spawnTask runtime => CurrentThread.spawnTask runtime
  | .spawnLocal => CurrentThread.spawnLocal
  | .handle runtime => handleSpawnTask runtime

/-! ## Running tasks -/

/-- The spawns of a poll, in order. A panic leaves the poll. -/
def spawnAll : List (Entry × Task) → State Task → Result Task Unit
  | [], s => (s, some ())
  | (e, t) :: rest, s =>
      match e.call t s with
      | (s', some ()) => spawnAll rest s'
      | (s', none) => (s', none)

section Polls

variable (poll : Task → List (Entry × Task))

/-- `Task::run`. -/
def run (t : Task) (s : State Task) : Result Task Unit :=
  spawnAll (poll t) { s with ran := s.ran ++ [t] }

/-- The loop of `run_until_idle`, which has the queue to itself. The borrow ends with the loop, also
by a panic. -/
def drain : List Task → State Task → Result Task Unit
  | [], s => ({ s with taskQueue := some [] }, some ())
  | t :: rest, s =>
      match run poll t s with
      | (s', some ()) => drain rest s'
      | (s', none) => ({ s' with taskQueue := some rest }, none)

/-- `CurrentThread::run_until_idle`. -/
def runUntilIdle (s : State Task) : Result Task Unit :=
  match s.taskQueue with
  | none => (s, none)
  | some q => drain poll q { s with taskQueue := none }

/-- `CurrentThread::is_idle`. -/
def State.isIdle (s : State Task) : Bool := s.taskQueue.any (·.isEmpty)

/-- `CurrentThread::shutdown`. -/
def shutdown (runtime : Nat) (s : State Task) : Result Task Unit :=
  let s := { s with runtimes := s.runtimes.modify runtime fun r => { r with shutdown := true } }
  let s := s.unpark runtime
  match s.taskQueue with
  | none => (s, none)
  | some _ => ({ s with taskQueue := some [], parker := none }, some ())

/-- `ThreadParker::park_timeout` once it returns: it has taken the notification, if there was one by
the end of the wait. -/
def State.park (s : State Task) (runtime : Nat) : State Task :=
  { s with runtimes := s.runtimes.modify runtime fun r => { r with notified := false } }

def State.isShutdown (s : State Task) (runtime : Nat) : Bool :=
  (s.runtimes[runtime]?.map (·.shutdown)).getD false

/-- `CurrentThread::turn`, which tells whether the runtime still runs. -/
def turn (runtime : Nat) (s : State Task) : Result Task Bool :=
  match runUntilIdle poll s with
  | (s, none) => (s, none)
  | (s, some ()) =>
      let s := if s.isIdle && !s.isShutdown runtime then s.park runtime else s
      (s, some !s.isShutdown runtime)

/-- `CurrentThread::new`. -/
def new (s : State Task) : State Task :=
  { s with parker := some s.runtimes.length, runtimes := s.runtimes ++ [⟨[], false, false⟩] }

/-- What the thread does between two polls of its own. -/
inductive Op (Task : Type) where
  | new
  | spawn (entry : Entry) (task : Task)
  | turn (runtime : Nat)
  | shutdown (runtime : Nat)
deriving DecidableEq, Repr

/-- An operation of the thread. A panic may be caught. -/
def perform (s : State Task) : Op Task → State Task
  | .new => new s
  | .spawn entry t => (entry.call t s).1
  | .turn runtime => (turn poll runtime s).1
  | .shutdown runtime => (shutdown runtime s).1

/-- A thread on which no runtime has been created. -/
def fresh : State Task := ⟨some [], none, [], []⟩

/-- The operations of a thread, from its start. -/
def exec (ops : List (Op Task)) : State Task := ops.foldl (perform poll) fresh

end Polls

/-! ## Draining the queue -/

/-- The entry point pushes to the queue of the thread. -/
def Entry.isLocal : Entry → Bool
  | .handle _ => false
  | _ => true

/-- The tasks that a poll spawns onto the thread. -/
def localSpawns (spawns : List (Entry × Task)) : List Task :=
  (spawns.filter (·.1.isLocal)).map (·.2)

/-- The shutdown flags of the runtimes. -/
def State.flags (s : State Task) : List Bool := s.runtimes.map (·.shutdown)

/-- The states agree beside the injectors and the notifications. -/
structure Beside (s s' : State Task) : Prop where
  taskQueue : s'.taskQueue = s.taskQueue
  parker : s'.parker = s.parker
  flags : s'.flags = s.flags
  ran : s'.ran = s.ran

/-- A change of one runtime that leaves its shutdown flag leaves all flags. -/
theorem flags_modify {runtimes : List (Instance Task)} {runtime : Nat}
    {f : Instance Task → Instance Task} (same : ∀ r, (f r).shutdown = r.shutdown) :
    (runtimes.modify runtime f).map (·.shutdown) = runtimes.map (·.shutdown) := by
  apply List.ext_getElem?
  intro k
  simp only [List.getElem?_map, List.getElem?_modify]
  cases runtimes[k]? with
  | none => rfl
  | some r =>
      simp only [Option.map_some]
      split
      · exact congrArg some (same r)
      · rfl

theorem beside_handleSpawnTask (runtime : Nat) (t : Task) (s : State Task) :
    Beside s (handleSpawnTask runtime t s).1 :=
  ⟨rfl, rfl, flags_modify fun _ => rfl, rfl⟩

/-- While the queue is borrowed, a poll gets through exactly when it spawns nothing onto the
thread. -/
theorem spawnAll_borrowed (spawns : List (Entry × Task)) {s : State Task}
    (borrowed : s.taskQueue = none) :
    Beside s (spawnAll spawns s).1 ∧
      ((spawnAll spawns s).2 = some () ↔ localSpawns spawns = []) := by
  induction spawns generalizing s with
  | nil => exact ⟨⟨rfl, rfl, rfl, rfl⟩, iff_of_true rfl rfl⟩
  | cons first rest ih =>
      obtain ⟨entry, t⟩ := first
      cases entry with
      | spawn runtime | spawnTask runtime | spawnLocal =>
          have stuck : ∀ unpark, enqueue unpark t s = (s, none) := by
            intro unpark
            simp only [enqueue, borrowed]
          simp only [spawnAll, Entry.call, spawn, spawnTask, spawnLocal, stuck]
          exact ⟨⟨rfl, rfl, rfl, rfl⟩, iff_of_false nofun nofun⟩
      | handle runtime =>
          have beside := beside_handleSpawnTask runtime t s
          obtain ⟨later, returned⟩ := ih (beside.taskQueue.trans borrowed)
          exact ⟨⟨later.taskQueue.trans beside.taskQueue, later.parker.trans beside.parker,
            later.flags.trans beside.flags, later.ran.trans beside.ran⟩, returned⟩

section Draining

/-- Tasks are taken from the front of the queue `q`, all of them unless one panics. -/
structure Takes (poll : Task → List (Entry × Task)) (q : List Task) (s : State Task)
    (r : Result Task Unit) : Prop where
  front : ∃ taken left, q = taken ++ left ∧ r.1.taskQueue = some left ∧
    r.1.ran = s.ran ++ taken ∧ (r.2 = some () → left = [])
  parker : r.1.parker = s.parker
  flags : r.1.flags = s.flags
  returned : r.2 = some () ↔ ∀ t ∈ q, localSpawns (poll t) = []

theorem drain_takes (poll : Task → List (Entry × Task)) (q : List Task) {s : State Task}
    (borrowed : s.taskQueue = none) : Takes poll q s (drain poll q s) := by
  induction q generalizing s with
  | nil =>
      refine ⟨⟨[], [], rfl, rfl, (List.append_nil _).symm, fun _ => rfl⟩, rfl, rfl, ?_⟩
      exact iff_of_true rfl nofun
  | cons t rest ih =>
      obtain ⟨beside, returned⟩ :=
        spawnAll_borrowed (poll t) (s := { s with ran := s.ran ++ [t] }) borrowed
      simp only [drain, run]
      generalize spawnAll (poll t) { s with ran := s.ran ++ [t] } = r at beside returned
      obtain ⟨s', _ | _⟩ := r
      · refine ⟨⟨[t], rest, rfl, rfl, beside.ran, nofun⟩, beside.parker, beside.flags, ?_⟩
        refine iff_of_false nofun fun none => ?_
        cases returned.mpr (none t List.mem_cons_self)
      · have later := ih (beside.taskQueue.trans borrowed)
        obtain ⟨taken, left, split, queue, ran, all⟩ := later.front
        refine ⟨⟨t :: taken, left, ?_, queue, ?_, all⟩, later.parker.trans beside.parker,
          later.flags.trans beside.flags, ?_⟩
        · rw [split, List.cons_append]
        · rw [ran, beside.ran, List.append_assoc]
          rfl
        · rw [later.returned, List.forall_mem_cons]
          exact (and_iff_right (returned.mp rfl)).symm

theorem runUntilIdle_takes (poll : Task → List (Entry × Task)) {q : List Task} {s : State Task}
    (queue : s.taskQueue = some q) : Takes poll q s (runUntilIdle poll s) := by
  simp only [runUntilIdle, queue]
  obtain ⟨front, parker, flags, returned⟩ :=
    drain_takes poll q (s := { s with taskQueue := none }) rfl
  exact ⟨front, parker, flags, returned⟩

/-- A `run_until_idle` that returns has run the queue in order, and leaves it empty. -/
theorem Takes.all {poll : Task → List (Entry × Task)} {q : List Task} {s : State Task}
    {r : Result Task Unit} (takes : Takes poll q s r) (returned : r.2 = some ()) :
    r.1.taskQueue = some [] ∧ r.1.ran = s.ran ++ q := by
  obtain ⟨taken, left, rfl, queue, ran, all⟩ := takes.front
  obtain rfl := all returned
  exact ⟨queue, by rw [ran, List.append_nil]⟩

/-- `run_until_idle` returns without a panic, has passed the tasks of the queue, and those spawned
onto it on the way, to `Task::run` once each in first-in first-out order, and leaves the queue
empty. -/
def Drains (poll : Task → List (Entry × Task)) (q : List Task) (s : State Task) : Prop :=
  let r := runUntilIdle poll { s with taskQueue := some q }
  r.2 = some () ∧ r.1.taskQueue = some [] ∧
    ∃ log, Fifo (fun t => localSpawns (poll t)) q log ∧ r.1.ran = s.ran ++ log

/-- **`run_until_idle` drains the queue exactly when no task in it spawns onto the thread.** -/
theorem drains_iff (poll : Task → List (Entry × Task)) (q : List Task) (s : State Task) :
    Drains poll q s ↔ ∀ t ∈ q, localSpawns (poll t) = [] := by
  have takes : Takes poll q { s with taskQueue := some q }
      (runUntilIdle poll { s with taskQueue := some q }) := runUntilIdle_takes poll rfl
  constructor
  · rintro ⟨returned, -⟩
    exact takes.returned.mp returned
  · intro none
    have returned := takes.returned.mpr none
    obtain ⟨empty, ran⟩ := takes.all returned
    exact ⟨returned, empty, q, fifo_self_iff.mpr none, ran⟩

/-- The poll of the task `0` spawns the task `1` with `spawn_local`. -/
def spawnsOnce : Nat → List (Entry × Nat)
  | 0 => [(.spawnLocal, 1)]
  | _ => []

/-- A queued task spawns another one, and `run_until_idle` panics. -/
theorem spawn_within_run_panics :
    (runUntilIdle spawnsOnce { fresh with taskQueue := some [0] }).2 = none ∧
      Fifo (fun t => localSpawns (spawnsOnce t)) [0] [0, 1] ∧
      ¬Drains spawnsOnce [0] fresh := by
  refine ⟨by decide, .handle (.handle .done), ?_⟩
  rintro ⟨returned, -⟩
  exact absurd returned (by decide)

end Draining

/-! ## Runs of the thread -/

/-- What an operation spawns. -/
def Op.spawned? : Op Task → Option (Entry × Task)
  | .spawn entry t => some (entry, t)
  | _ => none

/-- The spawns among the operations, in order. -/
def spawns (ops : List (Op Task)) : List (Entry × Task) := ops.filterMap Op.spawned?

/-- The operation leaves the tasks in the queue. -/
def Op.keepsQueue : Op Task → Bool
  | .turn _ | .shutdown _ => false
  | _ => true

/-- The operation leaves the parker of the thread. -/
def Op.keepsParker : Op Task → Bool
  | .new | .shutdown _ => false
  | _ => true

section Runs

variable (poll : Task → List (Entry × Task)) {s : State Task} {q : List Task}

theorem beside_unpark (s : State Task) (runtime : Nat) : Beside s (s.unpark runtime) :=
  ⟨rfl, rfl, flags_modify fun _ => rfl, rfl⟩

theorem beside_park (s : State Task) (runtime : Nat) : Beside s (s.park runtime) :=
  ⟨rfl, rfl, flags_modify fun _ => rfl, rfl⟩

/-- A spawn onto the thread pushes to the back, and a handle pushes to an injector. -/
theorem call_spawns (entry : Entry) (t : Task) (queue : s.taskQueue = some q) :
    Beside { s with taskQueue := some (q ++ localSpawns [(entry, t)]) } (entry.call t s).1 := by
  cases entry with
  | spawn runtime | spawnTask runtime =>
      simp only [Entry.call, spawn, spawnTask, enqueue, queue]
      exact beside_unpark _ runtime
  | spawnLocal =>
      simp only [Entry.call, spawnLocal, enqueue, queue]
      split
      · exact beside_unpark _ _
      · exact ⟨rfl, rfl, rfl, rfl⟩
  | handle runtime =>
      obtain ⟨same, parker, flags, ran⟩ := beside_handleSpawnTask runtime t s
      refine ⟨?_, parker, flags, ran⟩
      rw [Entry.call, same, queue]
      exact congrArg some (List.append_nil q).symm

/-- After `run_until_idle` a turn only parks. -/
theorem beside_turn (runtime : Nat) (s : State Task) :
    Beside (runUntilIdle poll s).1 (turn poll runtime s).1 ∧
      ((turn poll runtime s).2 = none ↔ (runUntilIdle poll s).2 = none) := by
  simp only [turn]
  generalize runUntilIdle poll s = r
  obtain ⟨s', _ | _⟩ := r
  · exact ⟨⟨rfl, rfl, rfl, rfl⟩, iff_of_true rfl rfl⟩
  · refine ⟨?_, iff_of_false nofun nofun⟩
    simp only
    split
    · exact beside_park s' runtime
    · exact ⟨rfl, rfl, rfl, rfl⟩

theorem shutdown_eq (runtime : Nat) (queue : s.taskQueue = some q) :
    (shutdown runtime s).1.taskQueue = some [] ∧ (shutdown runtime s).1.parker = none ∧
      (shutdown runtime s).1.ran = s.ran := by
  simp [shutdown, State.unpark, queue]

/-- Between two operations the queue is not borrowed. An operation but a shutdown only moves tasks
from the front of the queue to those that were run, and spawns to its back. -/
theorem perform_taskQueue (queue : s.taskQueue = some q) (op : Op Task) :
    ∃ q', (perform poll s op).taskQueue = some q' ∧ ((∀ runtime, op ≠ .shutdown runtime) →
      (perform poll s op).ran ++ q' = s.ran ++ q ++ localSpawns (spawns [op])) := by
  cases op with
  | new => exact ⟨q, queue, fun _ => (List.append_nil _).symm⟩
  | spawn entry t =>
      have beside := call_spawns entry t queue
      refine ⟨_, beside.taskQueue, ?_⟩
      intro _
      have ran : (perform poll s (.spawn entry t)).ran = s.ran := beside.ran
      rw [ran, ← List.append_assoc]
      rfl
  | turn runtime =>
      obtain ⟨taken, left, rfl, after, grown, -⟩ := (runUntilIdle_takes poll queue).front
      have beside := (beside_turn poll runtime s).1
      refine ⟨left, beside.taskQueue.trans after, ?_⟩
      intro _
      have ran : (perform poll s (.turn runtime)).ran = s.ran ++ taken := beside.ran.trans grown
      rw [ran, List.append_assoc]
      exact (List.append_nil _).symm
  | shutdown runtime =>
      exact ⟨[], (shutdown_eq runtime queue).1, fun other => absurd rfl (other runtime)⟩

@[simp] theorem exec_append (before after : List (Op Task)) :
    exec poll (before ++ after) = after.foldl (perform poll) (exec poll before) :=
  List.foldl_append

theorem localSpawns_append (first second : List (Op Task)) :
    localSpawns (spawns (first ++ second)) =
      localSpawns (spawns first) ++ localSpawns (spawns second) := by
  simp [localSpawns, spawns, List.filterMap_append]

/-- **What was spawned onto the thread has been run in order, and the rest is queued in order**, as
long as no runtime was shut down. -/
theorem exec_taskQueue (ops : List (Op Task)) :
    ∃ q, (exec poll ops).taskQueue = some q ∧ ((∀ runtime, .shutdown runtime ∉ ops) →
      (exec poll ops).ran ++ q = localSpawns (spawns ops)) := by
  induction ops using List.reverseRecOn with
  | nil => exact ⟨[], rfl, fun _ => rfl⟩
  | append_singleton ops op ih =>
      obtain ⟨q, queue, ran⟩ := ih
      obtain ⟨q', queue', ran'⟩ := perform_taskQueue poll queue op
      rw [exec_append, List.foldl_cons, List.foldl_nil]
      refine ⟨q', queue', ?_⟩
      intro running
      rw [localSpawns_append, ← ran fun runtime member =>
        running runtime (List.mem_append_left _ member)]
      apply ran'
      rintro runtime rfl
      exact running runtime (List.mem_append_right _ List.mem_cons_self)

/-- **Everything that was spawned has been run after a `run_until_idle` that returns, exactly when
no task was spawned through a handle.** No runtime was shut down before. The spawns are those that
the thread makes between its polls: what the polls of an earlier turn spawn through a handle is not
counted among them, and goes to an injector as well. -/
theorem runs_everything_iff (ops : List (Op Task))
    (running : ∀ runtime, .shutdown runtime ∉ ops)
    (returned : (runUntilIdle poll (exec poll ops)).2 = some ()) :
    ((spawns ops).map (·.2)).Subperm (runUntilIdle poll (exec poll ops)).1.ran ↔
      ∀ spawn ∈ spawns ops, spawn.1.isLocal = true := by
  obtain ⟨q, queue, ran⟩ := exec_taskQueue poll ops
  rw [((runUntilIdle_takes poll queue).all returned).2, ran running]
  constructor
  · intro all
    have length := all.length_le
    rw [localSpawns, List.length_map, List.length_map] at length
    exact List.length_filter_eq_length_iff.mp
      (Nat.le_antisymm (List.length_filter_le _ _) length)
  · intro pushed
    rw [localSpawns, List.filter_eq_self.mpr pushed]

/-- Tasks are spawned through all entry points but a handle. -/
theorem runs_everything_spawned : ((spawns [.new, .spawn (.spawn 0) 3, .spawn .spawnLocal 4,
      .spawn (.spawnTask 0) 5]).map (·.2)).Subperm
    (runUntilIdle (fun _ => []) (exec (fun _ => []) [.new, .spawn (.spawn 0) 3,
      .spawn .spawnLocal 4, .spawn (.spawnTask 0) 5])).1.ran :=
  (runs_everything_iff _ _ (by simp) (by decide)).mpr (by decide)

/-- A task that is spawned through the handle stays in the injector. -/
theorem handle_spawn_stays :
    let r := runUntilIdle (fun _ => []) (exec (fun _ => []) [.new, .spawn (.handle 0) 3])
    r.2 = some () ∧ ¬((spawns [.new, .spawn (.handle 0) 3]).map (·.2)).Subperm r.1.ran ∧
      r.1.runtimes.map (·.injector) = [[3]] := by
  decide

end Runs

/-! ## Several runtimes on one thread -/

/-- The number of runtimes that were created. -/
def created (ops : List (Op Task)) : Nat :=
  ops.countP fun op => match op with
    | .new => true
    | _ => false

/-- The queue `q` and the parker after the operations `ops` belong to the thread, not to one of its
runtimes. -/
structure SharedCells (poll : Task → List (Entry × Task)) (ops : List (Op Task))
    (q : List Task) : Prop where
  queue : (exec poll ops).taskQueue = some q
  /-- The tasks stay queued, and later ones come behind them, as long as no runtime of the thread
  turns or is shut down. -/
  stays : ∀ after, (∀ op ∈ after, op.keepsQueue = true) →
    (exec poll (ops ++ after)).taskQueue = some (q ++ localSpawns (spawns after))
  /-- A turn of any runtime runs tasks from the front, all of them unless it panics. -/
  turned : ∀ runtime, ∃ taken left, q = taken ++ left ∧
    (exec poll (ops ++ [.turn runtime])).taskQueue = some left ∧
    (exec poll (ops ++ [.turn runtime])).ran = (exec poll ops).ran ++ taken ∧
    ((turn poll runtime (exec poll ops)).2 ≠ none → left = [])
  /-- The shutdown of any runtime discards them. -/
  discarded : ∀ runtime, (exec poll (ops ++ [.shutdown runtime])).taskQueue = some [] ∧
    (exec poll (ops ++ [.shutdown runtime])).ran = (exec poll ops).ran
  /-- `spawn_local` unparks the runtime that was created last, which has not been shut down, if none
  has been since. -/
  unparks : ∀ earlier later t, ops = earlier ++ .new :: later →
    (∀ op ∈ later, op.keepsParker = true) →
    ∃ r, (exec poll (ops ++ [.spawn .spawnLocal t])).runtimes[created earlier]? = some r ∧
      r.notified = true ∧ r.shutdown = false

section Sharing

variable (poll : Task → List (Entry × Task)) {s : State Task} {q : List Task}

theorem perform_keepsQueue (queue : s.taskQueue = some q) {op : Op Task}
    (keeps : op.keepsQueue = true) :
    (perform poll s op).taskQueue = some (q ++ localSpawns (spawns [op])) := by
  cases op with
  | new => exact queue.trans (by simp [spawns, localSpawns, Op.spawned?])
  | spawn entry t => exact (call_spawns entry t queue).taskQueue
  | turn runtime | shutdown runtime => cases keeps

theorem foldl_keepsQueue {after : List (Op Task)} (queue : s.taskQueue = some q)
    (keeps : ∀ op ∈ after, op.keepsQueue = true) :
    (after.foldl (perform poll) s).taskQueue = some (q ++ localSpawns (spawns after)) := by
  induction after generalizing s q with
  | nil => exact queue.trans (by simp [spawns, localSpawns])
  | cons op rest ih =>
      have first := perform_keepsQueue poll queue (keeps op List.mem_cons_self)
      have later := ih first fun op' member => keeps op' (List.mem_cons_of_mem op member)
      rw [List.foldl_cons, later, List.append_assoc, ← localSpawns_append, List.singleton_append]

/-- An operation that neither creates a runtime nor shuts one down leaves the parker and the
flags. -/
theorem perform_keepsParker (queue : s.taskQueue = some q) {op : Op Task}
    (keeps : op.keepsParker = true) :
    (perform poll s op).parker = s.parker ∧ (perform poll s op).flags = s.flags := by
  cases op with
  | spawn entry t =>
      have beside := call_spawns entry t queue
      exact ⟨beside.parker, beside.flags⟩
  | turn runtime =>
      have takes := runUntilIdle_takes poll queue
      have beside := (beside_turn poll runtime s).1
      exact ⟨beside.parker.trans takes.parker, beside.flags.trans takes.flags⟩
  | new | shutdown runtime => cases keeps

theorem foldl_keepsParker {after : List (Op Task)} (queue : s.taskQueue = some q)
    (keeps : ∀ op ∈ after, op.keepsParker = true) :
    (after.foldl (perform poll) s).parker = s.parker ∧
      (after.foldl (perform poll) s).flags = s.flags := by
  induction after generalizing s q with
  | nil => exact ⟨rfl, rfl⟩
  | cons op rest ih =>
      obtain ⟨parker, flags⟩ :=
        perform_keepsParker poll queue (keeps op List.mem_cons_self)
      obtain ⟨q', queue', -⟩ := perform_taskQueue poll queue op
      obtain ⟨parker', flags'⟩ := ih queue' fun op' member =>
        keeps op' (List.mem_cons_of_mem op member)
      exact ⟨parker'.trans parker, flags'.trans flags⟩

/-- Every runtime that was created has its place. -/
theorem flags_length (ops : List (Op Task)) : (exec poll ops).flags.length = created ops := by
  induction ops using List.reverseRecOn with
  | nil => rfl
  | append_singleton ops op ih =>
      obtain ⟨q, queue, -⟩ := exec_taskQueue poll ops
      rw [exec_append, List.foldl_cons, List.foldl_nil, created, List.countP_append, ← created,
        ← ih]
      cases op with
      | new => simp [perform, new, State.flags]
      | spawn entry t =>
          rw [(perform_keepsParker poll queue rfl).2]
          rfl
      | turn runtime =>
          rw [(perform_keepsParker poll queue rfl).2]
          rfl
      | shutdown runtime =>
          simp only [perform, shutdown, queue]
          simp [State.flags, State.unpark]

/-- **`spawn_local` unparks the runtime that was created last**, as long as none has been shut down
since. -/
theorem spawnLocal_unparks {earlier later : List (Op Task)} (t : Task)
    (keeps : ∀ op ∈ later, op.keepsParker = true) :
    ∃ r, (exec poll (earlier ++ .new :: later ++ [.spawn .spawnLocal t])).runtimes[created
        earlier]? = some r ∧ r.notified = true ∧ r.shutdown = false := by
  obtain ⟨q₀, queue₀, -⟩ := exec_taskQueue poll earlier
  obtain ⟨q, queue, -⟩ := exec_taskQueue poll (earlier ++ .new :: later)
  have length := flags_length poll earlier
  have before : (exec poll (earlier ++ .new :: later)).parker = some (created earlier) ∧
      (exec poll (earlier ++ .new :: later)).flags = (exec poll earlier).flags ++ [false] := by
    have created : (new (exec poll earlier)).taskQueue = some q₀ := queue₀
    rw [exec_append, List.foldl_cons]
    obtain ⟨parker, flags⟩ := foldl_keepsParker poll created keeps
    refine ⟨parker.trans ?_, flags.trans ?_⟩
    · simp [new, ← length, State.flags]
    · simp [new, State.flags]
  rw [exec_append _ _ [Op.spawn .spawnLocal t], List.foldl_cons, List.foldl_nil]
  generalize exec poll (earlier ++ .new :: later) = s at before queue
  obtain ⟨parker, flags⟩ := before
  have here : s.flags[created earlier]? = some false := by
    rw [flags, ← length, List.getElem?_concat_length]
  obtain ⟨r, found, runs⟩ : ∃ r, s.runtimes[created earlier]? = some r ∧ r.shutdown = false := by
    simpa [State.flags] using here
  refine ⟨{ r with notified := true }, ?_, rfl, runs⟩
  simp [perform, Entry.call, spawnLocal, enqueue, queue, parker, State.unpark, found]

/-- **The runtimes of a thread share its queue and its parker.** -/
theorem cells_shared (ops : List (Op Task)) :
    ∃ q, SharedCells poll ops q := by
  obtain ⟨q, queue, -⟩ := exec_taskQueue poll ops
  refine ⟨q, queue, fun after keeps => ?_, fun runtime => ?_, fun runtime => ?_, ?_⟩
  · rw [exec_append]
    exact foldl_keepsQueue poll queue keeps
  · have takes := runUntilIdle_takes poll queue
    obtain ⟨taken, left, split, after, ran, all⟩ := takes.front
    obtain ⟨beside, panics⟩ := beside_turn poll runtime (exec poll ops)
    rw [exec_append]
    refine ⟨taken, left, split, beside.taskQueue.trans after, beside.ran.trans ran, ?_⟩
    intro turned
    apply all
    cases returned : (runUntilIdle poll (exec poll ops)).2 with
    | none => exact absurd (panics.mpr returned) turned
    | some _ => rfl
  · obtain ⟨empty, -, ran⟩ := shutdown_eq (s := exec poll ops) runtime queue
    rw [exec_append]
    exact ⟨empty, ran⟩
  · rintro earlier later t rfl keeps
    exact spawnLocal_unparks poll t keeps

/-- The shutdown of one runtime discards the task that was spawned on another, and takes the parker
of the thread, while the other runs. -/
theorem shutdown_discards_foreign :
    let ops : List (Op Nat) := [.new, .new, .spawn (.spawn 1) 3]
    let s := exec (fun _ => []) (ops ++ [.shutdown 0])
    (exec (fun _ => []) ops).taskQueue = some [3] ∧ s.taskQueue = some [] ∧ s.ran = [] ∧
      s.parker = none ∧ s.flags = [true, false] := by
  decide

end Sharing

end LoonyRuntime.Runtime.CurrentThread
