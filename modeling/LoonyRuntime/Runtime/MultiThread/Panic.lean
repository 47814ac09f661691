import LoonyRuntime.Runtime.MultiThread.Active
import LoonyRuntime.Task.Account

/-!
# Polls that panic

The scheduler and its tasks in one machine. A thread inside `Task::run` polls the task of the entry
it has taken, and code of the user on it calls the wakers and the join handles of any task. The
push of a wake is a push of the scheduler.

A poll may panic. Neither `VTableFor::poll` nor `WorkerThread::run` catches the panic. It drops the
waker of the context, skips what the poll had still to do, and goes on through `Task::run`: out of
a `process_some_tasks`, into the body of a future that was helping, which may catch it or not, and
out of the loop of a worker, whose thread ends.

So the first panic that has unwound before the shutdown damages the scheduler
(`undamaged_along_iff`): a worker that it went through has left its loop and is still counted as
active, and the join handle of the task cannot say so, since `JoinHandle::poll` never returns
`JoinError::Panic` (`not_pollsTo_panic`).
-/

set_option autoImplicit false

namespace LoonyRuntime.Task

variable {T : Type}

/-! ## `JoinHandle::poll` on its own -/

/-- `JoinHandle::poll`, at the given point and left alone, returns the result. -/
inductive PollsTo : Cell T → JoinPc → Poll (Except JoinError T) → Prop where
  | returns {s s' : Cell T} {pc : JoinPc} {result : Poll (Except JoinError T)}
      (advanced : advanceJoin s pc = some (s', []))
      (logged : s'.log.head? = some (.joinReturned result)) : PollsTo s pc result
  | next {s s' : Cell T} {pc pc' : JoinPc} {result : Poll (Except JoinError T)}
      (advanced : advanceJoin s pc = some (s', [.joinPoll pc'])) (later : PollsTo s' pc' result) :
      PollsTo s pc result

/-- **`JoinHandle::poll` never returns `JoinError::Panic`.** -/
theorem not_pollsTo_panic {s : Cell T} {pc : JoinPc} :
    ¬PollsTo s pc (.ready (.error .panic)) := by
  generalize panics : (Poll.ready (.error .panic) : Poll (Except JoinError T)) = result
  intro polls
  induction polls with
  | next _ _ ih => exact ih panics
  | @returns s s' pc result advanced logged =>
      subst panics
      cases pc with
      | load cx =>
          simp only [advanceJoin, Cell.joinReturns] at advanced
          split at advanced
          · cases advanced
          · split at advanced
            · cases advanced
              cases logged
            · cases advanced
      | tryReadOutput seen =>
          simp only [advanceJoin, Cell.joinReturns] at advanced
          split at advanced
          · split at advanced
            · cases advanced
              cases logged
            · cases advanced
          · split at advanced
            · cases advanced
              cases logged
            · cases advanced
              cases logged
      | setInterest cx => cases advanced
      | storeWaker cx prev =>
          simp only [advanceJoin, Cell.joinReturns] at advanced
          split at advanced
          · cases advanced
          · cases advanced
            cases logged

/-- It returns `Pending` as long as the task is idle and not aborted. -/
theorem pollsTo_pending {s : Cell T} (cx : Nat) (idle : Marks.isIdle (marks s.state) = true)
    (live : Marks.isAborted (marks s.state) = false) : PollsTo s (.load cx) .pending := by
  have incomplete : Marks.isComplete (marks s.state) = false := by
    cases complete : Marks.isComplete (marks s.state) with
    | false => rfl
    | true =>
        rw [Marks.isIdle_of_isComplete complete] at idle
        cases idle
  have prev : (s.state &&& TaskState.complete.bits != 0) = false := by
    rw [completeMask_marks, idle]
    rfl
  have loaded : advanceJoin s (.load cx) = some (s, [.joinPoll (.setInterest cx)]) := by
    simp [advanceJoin, incomplete, live]
  have stored : advanceJoin { s with state := s.state ||| TaskState.joinInterest.bits }
      (.storeWaker cx s.state) = Cell.joinReturns
        { s with state := s.state ||| TaskState.joinInterest.bits, joinWaker := some cx }
        .pending := by
    simp only [advanceJoin, prev]
    rfl
  exact .next loaded (.next rfl (.returns stored rfl))

end LoonyRuntime.Task

namespace LoonyRuntime.Runtime.MultiThread

open Concurrent

variable {T : Type}

/-! ## Threads with calls on tasks -/

/-- The scheduler with its tasks. -/
structure TaskShared (T : Type) extends Shared where
  tasks : List (Task.Cell T)
  /-- The task of each entry. -/
  taskOf : List Nat
  /-- The tasks a poll of which has panicked and unwound. -/
  unwound : List Nat

/-- A thread of the scheduler, and the calls on tasks it is inside of. -/
structure TaskThread (T : Type) where
  thread : Thread
  /-- The calls of its code outside of `Task::run`, and of every `Task::run` it is inside of, the
  innermost first. -/
  windows : List (List (Nat × Task.Frame T))
  /-- The tasks whose polls the panic in flight has gone through. -/
  unwinding : List Nat

abbrev TaskOutcome (T : Type) := Option (TaskShared T × TaskThread T)

/-- Code of the user may run at this point. -/
def Thread.atUser (t : Thread) : Bool :=
  match t.point with
  | .user | .run _ => true
  | _ => false

/-- The future whose body runs. -/
def TaskThread.future (t : TaskThread T) : Option Nat :=
  match t.windows with
  | ((task, .poll .future) :: _) :: _ => some task
  | _ => none

/-- Code of the user is on top: the body of a future, or code outside of every call. -/
def TaskThread.userCode (t : TaskThread T) : Bool :=
  t.thread.atUser &&
    match t.windows with
    | ((_, .poll .future) :: _) :: _ => true
    | [] :: _ => t.thread.point == .user
    | _ => false

/-- It is not being unwound. -/
def TaskThread.inUser (t : TaskThread T) : Bool := t.unwinding.isEmpty && t.userCode

/-- The innermost window with calls on a task on top. -/
def enter (task : Nat) (frames : List (Task.Frame T)) (window : List (Nat × Task.Frame T))
    (windows : List (List (Nat × Task.Frame T))) : List (List (Nat × Task.Frame T)) :=
  (frames.map (task, ·) ++ window) :: windows

/-! ## Steps -/

/-- A step of the scheduler. -/
def lift (s : TaskShared T) (t : TaskThread T) (r : Shared × Thread) :
    TaskShared T × TaskThread T :=
  ({ s with toShared := r.1 }, { t with thread := r.2 })

/-- `Task::run` begins to poll the task of the entry. -/
def beginPoll (s : TaskShared T) (t : TaskThread T) (entry : Nat) : TaskOutcome T :=
  match s.taskOf[entry]? with
  | none => none
  | some task => match s.tasks[task]? with
    | none => none
    | some cell =>
        let began := { cell with queue := cell.queue - 1 }.record .pollBegan
        some ({ s with tasks := s.tasks.set task began },
          { t with windows := [(task, .poll .future)] :: t.windows })

/-- A step of the scheduler, with what it does to the tasks. -/
def schedMove (n : Nat) (retries : Bool) (i : Nat) (s : TaskShared T) (t : TaskThread T)
    (l : Label) : TaskOutcome T :=
  match move n retries i s.toShared t.thread l with
  | none => none
  | some r =>
    let s' := (lift s t r).1
    let t' := (lift s t r).2
    match l with
    | .begin .spawn =>
        if t.inUser = true then
          some ({ s' with tasks := s.tasks ++ [.spawned], taskOf := s.taskOf ++ [s.tasks.length] },
            t')
        else none
    | .begin _ => if t.inUser = true then some (s', t') else none
    | .finish =>
        match t.unwinding, t.windows with
        | [], [] :: windows => some (s', { t' with windows := windows })
        | _, _ => none
    | _ =>
        match t.thread.point with
        | .hold entry => beginPoll s' t' entry
        | _ => some (s', t')

/-- Code of the user begins a call on a task. -/
def callMove (s : TaskShared T) (t : TaskThread T) (task : Nat) (call : Task.Begin) :
    TaskOutcome T :=
  if t.inUser = true ∧ call ≠ .run then
    match s.tasks[task]?, t.windows with
    | some cell, window :: windows =>
        (call.call (t.future == some task) cell).map fun r =>
          ({ s with tasks := s.tasks.set task r.1 },
            { t with windows := enter task r.2 window windows })
    | _, _ => none
  else none

/-- The call pushes an entry by `Task::schedule`. -/
def pushes : Task.Frame T → Task.Label T → Bool
  | .wake _ _ .schedule, .next => true
  | _, _ => false

/-- The call on top has this step. While the thread is unwound, only wakers are dropped. -/
def mayStep (t : TaskThread T) : Task.Frame T → Task.Label T → Bool
  | _, .begin _ => false
  | .dropWaker _, _ => t.thread.atUser
  | _, _ => t.thread.atUser && t.unwinding.isEmpty

/-- A step of the call on top. -/
def taskMove (n : Nat) (retries : Bool) (creator : Task.Creator) (i : Nat) (s : TaskShared T)
    (t : TaskThread T) (l : Task.Label T) : TaskOutcome T :=
  match t.windows with
  | ((task, frame) :: window) :: windows =>
      match s.tasks[task]? with
      | none => none
      | some cell =>
        if mayStep t frame l = true then
          match Task.move creator cell [frame] l with
          | none => none
          | some r =>
              let s' := { s with tasks := s.tasks.set task r.1 }
              let t' := { t with windows := enter task r.2 window windows }
              if pushes frame l = true then
                (move n retries i s.toShared t.thread (.begin .spawn)).map fun r =>
                  ({ (lift s' t' r).1 with taskOf := s.taskOf ++ [task] }, (lift s' t' r).2)
              else some (s', t')
        else none
  | _ => none

/-- The poll on top panics, or a panic goes through it: the context's waker is dropped. -/
def panicMove (s : TaskShared T) (t : TaskThread T) : TaskOutcome T :=
  match t.thread.atUser, t.windows with
  | true, ((task, .poll .future) :: window) :: windows =>
      some (s, { t with
        windows := ((task, .dropWaker .fetchSub) :: window) :: windows
        unwinding := task :: t.unwinding })
  | _, _ => none

/-- A wake that is unwound gives its borrow back. -/
def endBorrow (cell : Task.Cell T) : Task.Via → Task.Cell T
  | .byRef => { cell with borrows := cell.borrows - 1 }
  | _ => cell

/-- Where a panic comes out of `Task::run` that no worker has called. -/
def Thread.unwindTo : List Caller → Thread
  | .processSomeTasks _ :: below => .resume below
  | below => .resume below

/-- A panic goes through a wake that ran a task, or out of a `Task::run`. -/
def unwindMove (s : TaskShared T) (t : TaskThread T) : TaskOutcome T :=
  match t.unwinding, t.windows, t.thread with
  | _ :: _, ((task, .wake _ via .ranInline) :: window) :: windows, _ =>
      match s.tasks[task]? with
      | none => none
      | some cell =>
          some ({ s with tasks := s.tasks.set task (endBorrow cell via) },
            { t with windows := window :: windows })
  | _ :: _, [] :: windows, ⟨.run _, below⟩ =>
      if below.head? = some .worker then none
      else some (s, { t with thread := .unwindTo below, windows := windows })
  | _, _, _ => none

/-- A panic goes out of the loop of a worker, and ends its thread. -/
def dieMove (i : Nat) (s : TaskShared T) (t : TaskThread T) : TaskOutcome T :=
  match t.unwinding, t.windows, t.thread with
  | _ :: _, [] :: windows, ⟨.run _, .worker :: below⟩ =>
      some ({ s with exited := i :: s.exited, unwound := t.unwinding ++ s.unwound },
        ⟨⟨.worker .exited, below⟩, windows, []⟩)
  | _, _, _ => none

/-- Code of the user catches a panic, or the panic ends the thread of a helper. A thread that is no
more is one that takes no further step. -/
def catchMove (s : TaskShared T) (t : TaskThread T) : TaskOutcome T :=
  if t.unwinding ≠ [] ∧ t.userCode = true then
    some ({ s with unwound := t.unwinding ++ s.unwound }, { t with unwinding := [] })
  else none

inductive TaskLabel (T : Type) where
  | sched (l : Label)
  | call (task : Nat) (call : Task.Begin)
  | task (l : Task.Label T)
  | panic
  | unwind
  /-- The panic ends the thread of a worker. -/
  | die
  /-- The panic is caught, or ends another thread that was helping. -/
  | caught

/-- One step of thread `i`. -/
def TaskThread.move (n : Nat) (retries : Bool) (creator : Task.Creator) (i : Nat)
    (s : TaskShared T) (t : TaskThread T) : TaskLabel T → TaskOutcome T
  | .sched l => schedMove n retries i s t l
  | .call task call => callMove s t task call
  | .task l => taskMove n retries creator i s t l
  | .panic => panicMove s t
  | .unwind => unwindMove s t
  | .die => dieMove i s t
  | .caught => catchMove s t

abbrev TaskState (T : Type) := Pool (TaskShared T) (TaskThread T)

/-- The scheduler of `startWith`, without tasks. -/
def taskStart (T : Type) (n others : Nat) : TaskState T where
  shared := { Shared.new n with tasks := [], taskOf := [], unwound := [] }
  threads := (startWith n others).threads.map fun t => ⟨t, [[]], []⟩

/-- The machine of a scheduler with `n` workers and tasks that may panic. -/
def panicking (T : Type) (n : Nat) (retries : Bool) (creator : Task.Creator) :
    Machine (TaskState T) (Nat × TaskLabel T) where
  initial s := ∃ others, s = taskStart T n others
  step := Pool.step (TaskThread.move n retries creator)

/-! ## What a step does to the scheduler -/

/-- The panic in flight comes to its end: it is caught, or it ends the thread of a worker or of a
helper. -/
def TaskLabel.ends : TaskLabel T → Bool
  | .die | .caught => true
  | _ => false

/-- What a step other than the end of a panic does to the scheduler. -/
inductive SchedStep (n : Nat) (retries : Bool) (i : Nat) (s : Shared) (t : Thread) (s' : Shared)
    (t' : Thread) : Prop where
  | step (step : Step n retries i s t s' t')
  | beside (shared : s' = s) (thread : t' = t)
  | unwinds {entry : Nat} {below : List Caller} (inside : t = ⟨.run entry, below⟩)
      (outside : t' = .unwindTo below) (other : below.head? ≠ some .worker) (shared : s' = s)

section Moves

variable {n : Nat} {retries : Bool} {creator : Task.Creator} {i : Nat} {s s' : TaskShared T}
  {t t' : TaskThread T}

theorem schedStep_of_schedMove {l : Label}
    (moved : schedMove n retries i s t l = some (s', t')) :
    SchedStep n retries i s.toShared t.thread s'.toShared t'.thread ∧ s'.unwound = s.unwound := by
  unfold schedMove at moved
  split at moved
  · cases moved
  · next r stepped =>
      have step := SchedStep.step (step_of_move stepped)
      dsimp only at moved
      split at moved
      · split at moved
        · cases moved
          exact ⟨step, rfl⟩
        · cases moved
      · split at moved
        · cases moved
          exact ⟨step, rfl⟩
        · cases moved
      · split at moved
        · cases moved
          exact ⟨step, rfl⟩
        · cases moved
      · split at moved
        · unfold beginPoll at moved
          split at moved
          · cases moved
          · split at moved
            · cases moved
            · cases moved
              exact ⟨step, rfl⟩
        · cases moved
          exact ⟨step, rfl⟩

theorem schedStep_of_taskMove {l : Task.Label T}
    (moved : taskMove n retries creator i s t l = some (s', t')) :
    SchedStep n retries i s.toShared t.thread s'.toShared t'.thread ∧ s'.unwound = s.unwound := by
  unfold taskMove at moved
  split at moved
  · split at moved
    · cases moved
    · split at moved
      · split at moved
        · cases moved
        · dsimp only at moved
          split at moved
          · obtain ⟨r, stepped, same⟩ := Option.map_eq_some_iff.mp moved
            cases same
            exact ⟨.step (step_of_move stepped), rfl⟩
          · cases moved
            exact ⟨.beside rfl rfl, rfl⟩
      · cases moved
  · cases moved

/-- **A step that does not end a panic** is a step of the scheduler, leaves it, or unwinds. -/
theorem schedStep_of_move {l : TaskLabel T} (goes_on : l.ends = false)
    (moved : t.move n retries creator i s l = some (s', t')) :
    SchedStep n retries i s.toShared t.thread s'.toShared t'.thread ∧ s'.unwound = s.unwound := by
  cases l with
  | sched l => exact schedStep_of_schedMove moved
  | task l => exact schedStep_of_taskMove moved
  | call task call =>
      simp only [TaskThread.move, callMove] at moved
      split at moved
      · split at moved
        · obtain ⟨r, -, same⟩ := Option.map_eq_some_iff.mp moved
          cases same
          exact ⟨.beside rfl rfl, rfl⟩
        · cases moved
      · cases moved
  | panic =>
      simp only [TaskThread.move, panicMove] at moved
      split at moved
      · cases moved
        exact ⟨.beside rfl rfl, rfl⟩
      · cases moved
  | unwind =>
      simp only [TaskThread.move, unwindMove] at moved
      split at moved
      · split at moved
        · cases moved
        · cases moved
          exact ⟨.beside rfl rfl, rfl⟩
      · next inside =>
          split at moved
          · cases moved
          · next other =>
              cases moved
              exact ⟨.unwinds inside rfl other rfl, rfl⟩
      · cases moved
  | die | caught => cases goes_on

/-- **The end of a panic** leaves the flag, and the polls it went through are unwound. -/
theorem unwound_of_ends {l : TaskLabel T} (ends : l.ends = true)
    (moved : t.move n retries creator i s l = some (s', t')) :
    s'.shutdown = s.shutdown ∧ ∃ task, task ∈ s'.unwound := by
  cases l with
  | die =>
      simp only [TaskThread.move, dieMove] at moved
      split at moved
      · next unwinding _ _ =>
          cases moved
          have some_poll : t.unwinding ++ s.unwound ≠ [] := by simp [unwinding]
          exact ⟨rfl, List.exists_mem_of_ne_nil _ some_poll⟩
      · cases moved
  | caught =>
      simp only [TaskThread.move, catchMove] at moved
      split at moved
      · next unwinding =>
          cases moved
          obtain ⟨task, member⟩ := List.exists_mem_of_ne_nil _ unwinding.1
          exact ⟨rfl, task, List.mem_append_left _ member⟩
      · cases moved
  | _ => cases ends

end Moves

/-! ## Damage -/

/-- **The scheduler is undamaged**: every worker is in its loop, the counter counts the workers that
are awake, and the join handle of every task that panicked returns `JoinError::Panic`. -/
structure Undamaged (n : Nat) (s : TaskState T) : Prop where
  workers : ∀ i, i < n → ∃ t, s.threads[i]? = some t ∧ t.thread.inLoop = true
  active : s.shared.active = BitVec.ofNat 64 (total (fun t => t.thread.awake) s.threads)
  joins : ∀ task ∈ s.shared.unwound, ∃ cell, s.shared.tasks[task]? = some cell ∧
    ∀ cx, Task.PollsTo cell (.load cx) (.ready (.error .panic))

/-- It is before the shutdown. -/
def UndamagedBefore (n : Nat) (s : TaskState T) : Prop :=
  s.shared.shutdown = false → Undamaged n s

/-- The join handle of a task that panicked does not return `JoinError::Panic`. -/
theorem Undamaged.unwound_eq_nil {n : Nat} {s : TaskState T} (inv : Undamaged n s) :
    s.shared.unwound = [] := by
  by_contra some_task
  obtain ⟨task, member⟩ := List.exists_mem_of_ne_nil _ some_task
  obtain ⟨cell, -, polls⟩ := inv.joins task member
  exact Task.not_pollsTo_panic (polls 0)

theorem unwindTo_inLoop (e : Nat) (b : List Caller) :
    (Thread.unwindTo b).inLoop = Thread.inLoop ⟨.run e, b⟩ := by
  have resumed : ∀ b : List Caller, (Thread.resume b).inLoop = Thread.inLoop ⟨.run e, b⟩ := by
    intro b
    rw [Thread.resume_inLoop]
    simp [Thread.inLoop, Thread.isWorker, Thread.ended]
  cases b with
  | nil => exact resumed []
  | cons caller below =>
      cases caller with
      | processSomeTasks left =>
          show (Thread.resume below).inLoop = _
          rw [resumed]
          simp [Thread.inLoop, Thread.isWorker, Thread.ended]
      | run e' => exact resumed (.run e' :: below)
      | worker => exact resumed (.worker :: below)

theorem unwindTo_inSleep (b : List Caller) : (Thread.unwindTo b).inSleep = 0 := by
  cases b with
  | nil => rfl
  | cons caller below =>
      cases caller with
      | processSomeTasks left => exact Thread.resume_inSleep below
      | run e => rfl
      | worker => rfl

section Steps

variable {n : Nat} {retries : Bool} {i : Nat} {s s' : Shared} {t t' : Thread}

theorem SchedStep.inLoop (step : SchedStep n retries i s t s' t') (running : s.shutdown = false) :
    t'.inLoop = t.inLoop := by
  cases step with
  | step step => exact step.inLoop running
  | beside _ thread => rw [thread]
  | unwinds inside outside _ _ => rw [inside, outside, unwindTo_inLoop]

theorem SchedStep.counts (step : SchedStep n retries i s t s' t') (running : s.shutdown = false)
    {R : Nat} (counted : s.active = BitVec.ofNat 64 (t.awake + R)) :
    s'.active = BitVec.ofNat 64 (t'.awake + R) := by
  cases step with
  | step step => exact step.counts running counted
  | beside shared thread =>
      rw [shared, thread]
      exact counted
  | unwinds inside outside _ shared =>
      have same : t'.awake = t.awake := by
        rw [inside, outside, Thread.awake, unwindTo_inLoop _ _, unwindTo_inSleep]
        rfl
      rw [shared, same]
      exact counted

theorem SchedStep.flag (step : SchedStep n retries i s t s' t') (shutdown : s.shutdown = true) :
    s'.shutdown = true := by
  cases step with
  | step step => exact step.flag shutdown
  | beside shared _ => rw [shared, shutdown]
  | unwinds _ _ _ shared => rw [shared, shutdown]

end Steps

/-- A step of the machine. -/
theorem move_of_taken {n : Nat} {retries : Bool} {creator : Task.Creator} {s s' : TaskState T}
    {i : Nat} {l : TaskLabel T} (taken : (panicking T n retries creator).step s (i, l) = some s') :
    ∃ t shared t', s.threads[i]? = some t ∧
      t.move n retries creator i s.shared l = some (shared, t') ∧
      s' = ⟨shared, s.threads.set i t'⟩ := by
  replace taken : Pool.step (TaskThread.move n retries creator) s (i, l) = some s' := taken
  exact Pool.step_eq_some taken

/-- **A step that does not end a panic does no damage.** -/
theorem Undamaged.step {n : Nat} {retries : Bool} {creator : Task.Creator} {s : TaskState T}
    {i : Nat} {l : TaskLabel T} {shared : TaskShared T} {t t' : TaskThread T}
    (inv : Undamaged n s) (running : s.shared.shutdown = false) (found : s.threads[i]? = some t)
    (goes_on : l.ends = false) (moved : t.move n retries creator i s.shared l = some (shared, t')) :
    Undamaged n ⟨shared, s.threads.set i t'⟩ := by
  obtain ⟨step, unwound⟩ := schedStep_of_move goes_on moved
  refine ⟨fun j within => ?_, ?_, fun task member => ?_⟩
  · obtain ⟨u, foundU, loop⟩ := inv.workers j within
    by_cases same : j = i
    · subst same
      obtain rfl : t = u := Option.some.inj (found.symm.trans foundU)
      exact ⟨t', Pool.getElem?_set_self t' found, (step.inLoop running).trans loop⟩
    · exact ⟨u, (List.getElem?_set_ne (Ne.symm same)).trans foundU, loop⟩
  · have active := inv.active
    rw [total_eq_others found] at active
    rw [total_set_others t' found]
    exact step.counts running active
  · rw [unwound, inv.unwound_eq_nil] at member
    cases member

theorem undamaged_taskStart (n others : Nat) : Undamaged n (taskStart T n others) := by
  refine ⟨fun i within => ?_, ?_, fun task member => by cases member⟩
  · refine ⟨⟨⟨.worker .head, []⟩, [[]], []⟩, ?_, rfl⟩
    simp [taskStart, startWith, List.getElem?_append, within]
  · have workers : total (fun t : TaskThread T => t.thread.awake) (taskStart T n others).threads =
        n := by
      simp [taskStart, startWith, total, Thread.awake, Thread.inLoop, Thread.isWorker,
        Thread.ended, Thread.inSleep]
    rw [workers]
    rfl

/-- **The scheduler is undamaged up to the shutdown exactly along the runs in which no panic comes
to its end before.** -/
theorem undamaged_along_iff (n others : Nat) (retries : Bool) (creator : Task.Creator)
    (labels : List (Nat × TaskLabel T)) :
    (panicking T n retries creator).Always (UndamagedBefore n) (taskStart T n others) labels ↔
      (panicking T n retries creator).Meets
        (fun s a => a.2.ends = true → s.shared.shutdown = true) (taskStart T n others) labels := by
  refine Machine.always_iff_meets ?_ (.start ⟨others, rfl⟩) fun _ => undamaged_taskStart n others
  rintro s ⟨i, l⟩ s' - before taken
  obtain ⟨t, shared, t', found, moved, rfl⟩ := move_of_taken taken
  show UndamagedBefore n _ ↔ (l.ends = true → s.shared.shutdown = true)
  cases ends : l.ends with
  | true =>
      obtain ⟨flag, task, member⟩ := unwound_of_ends ends moved
      constructor
      · intro after _
        by_contra running
        have undamaged := after (flag.trans (Bool.eq_false_of_not_eq_true running))
        rw [undamaged.unwound_eq_nil] at member
        cases member
      · intro late running
        rw [← flag, running] at late
        cases late rfl
  | false =>
      refine iff_of_true (fun running => ?_) fun now => ?_
      · cases flag : s.shared.shutdown with
        | true =>
            rw [(schedStep_of_move ends moved).1.flag flag] at running
            cases running
        | false => exact (before flag).step flag found ends moved
      · cases now

/-- Thread `1` spawns a task. The worker takes it from the injector, and its first poll panics. -/
def pollPanics : List (Nat × TaskLabel Unit) :=
  (1, .sched (.begin .spawn)) :: List.replicate 7 (0, .sched (.next false)) ++
    [(0, .panic), (0, .task .next), (0, .die)]

/-- The only worker has left its loop and is counted as active, and the join handle of the task
that panicked returns `Pending`. -/
theorem panic_damages : ∃ s : TaskState Unit, (panicking Unit 1 false .createTask).Reaches s ∧
    ¬UndamagedBefore 1 s ∧ (∀ t ∈ s.threads, t.thread.inLoop = false) ∧ s.shared.active = 1 ∧
      0 ∈ s.shared.unwound ∧ ∃ cell, s.shared.tasks[0]? = some cell ∧
        ∀ cx, Task.PollsTo cell (.load cx) .pending := by
  obtain ⟨s, reached, tested⟩ := (panicking Unit 1 false .createTask).exists_reaches_of_test
    (fun s => !s.shared.shutdown && s.threads.all (fun t => !t.thread.inLoop) &&
      s.shared.active == 1 && s.shared.unwound == [0] &&
      s.shared.tasks.map (·.state) == [0])
    pollPanics ⟨1, rfl⟩ (by decide)
  simp only [Bool.and_eq_true, Bool.not_eq_true', beq_iff_eq, List.all_eq_true] at tested
  obtain ⟨⟨⟨⟨running, left⟩, active⟩, unwound⟩, words⟩ := tested
  have member : 0 ∈ s.shared.unwound := by
    rw [unwound]
    exact List.mem_cons_self
  refine ⟨s, reached, fun before => ?_, left, active, member, ?_⟩
  · have undamaged := before running
    rw [undamaged.unwound_eq_nil] at member
    cases member
  · obtain ⟨cell, tasks, word⟩ := List.map_eq_singleton_iff.mp words
    refine ⟨cell, by rw [tasks]; rfl, fun cx => Task.pollsTo_pending cx ?_ ?_⟩
    · rw [word]
      decide
    · rw [word]
      decide

end LoonyRuntime.Runtime.MultiThread
