import LoonyRuntime.Runtime.CurrentThread

/-!
# The loops that poll a future on one thread

`CurrentThread::block_on` and `Handle::block_on_simple` poll a future until it is ready, and run
tasks in between. The one runs `TASK_QUEUE` until it is idle and parks, the other runs ten tasks of
the injector at most. A future is given by what its polls spawn, in order. With each poll that is
pending comes whether somebody else ends the park that may follow it: a park returns if the thread
has unparked itself, by a spawn, or if its wait ends, and else the loop sleeps for good.

`CurrentThread::block_on` returns exactly when no task that it runs spawns onto the thread and each
of its parks is ended (`block_on_returns_iff`). It leaves what the last poll has spawned, and all of
the injector.
`Handle::block_on_simple` always returns (`block_on_simple_serves`), and it alone runs what handles
have pushed to the injector of a current-thread runtime, ten tasks for each poll.
-/

set_option autoImplicit false

namespace LoonyRuntime.Runtime.CurrentThread

open Collections

variable {Task V : Type}

/-! ## The loops -/

/-- A poll that is pending: what it spawns, and whether the park after it ends although the thread
has not unparked itself, because a wake of the waker reaches it or spuriously. -/
structure PendingPoll (Task : Type) where
  spawns : List (Entry × Task)
  parkEnds : Bool
deriving DecidableEq, Repr

/-- A future: the polls that are pending, and what the one that is ready spawns and returns. -/
structure Future (Task V : Type) where
  pending : List (PendingPoll Task)
  last : List (Entry × Task)
  output : V

/-- Poll a future until it is ready. The loop does not return after a panic, or from a park that
nothing ends. -/
def pollLoop (between : PendingPoll Task → State Task → Result Task Unit)
    (last : List (Entry × Task)) (output : V) :
    List (PendingPoll Task) → State Task → Result Task V
  | [], s =>
      match spawnAll last s with
      | (s', some ()) => (s', some output)
      | (s', none) => (s', none)
  | p :: rest, s =>
      match spawnAll p.spawns s with
      | (s', some ()) =>
          match between p s' with
          | (s'', some ()) => pollLoop between last output rest s''
          | (s'', none) => (s'', none)
      | (s', none) => (s', none)

section Loops

variable (poll : Task → List (Entry × Task))

/-- The notification of a parker, if its runtime was created. -/
def State.notifiedOf (s : State Task) (runtime : Nat) : Option Bool :=
  s.runtimes[runtime]?.map (·.notified)

/-- `ThreadParker::park`, which takes the notification that is there, or waits until the wait ends.
It does not return from a wait that does not end. -/
def parkUntil (runtime : Nat) (ends : Bool) (s : State Task) : Result Task Unit :=
  if (s.notifiedOf runtime).getD false || ends then (s.park runtime, some ()) else (s, none)

/-- What `CurrentThread::block_on` does after a poll that is pending. -/
def runThenPark (runtime : Nat) (p : PendingPoll Task) (s : State Task) : Result Task Unit :=
  match runUntilIdle poll s with
  | (s', some ()) => if s'.isIdle then parkUntil runtime p.parkEnds s' else (s', some ())
  | (s', none) => (s', none)

/-- `CurrentThread::block_on`. -/
def blockOn (runtime : Nat) (future : Future Task V) : State Task → Result Task V :=
  pollLoop (runThenPark poll runtime) future.last future.output future.pending

/-- `Injector::steal` of the injector of a runtime. -/
def State.stealInjector (s : State Task) (runtime : Nat) : Option (Task × State Task) :=
  match s.runtimes[runtime]? with
  | some ⟨t :: rest, notified, shutdown⟩ =>
      some (t, { s with runtimes := s.runtimes.set runtime ⟨rest, notified, shutdown⟩ })
  | _ => none

/-- `Handle::process_some_tasks`, with so many rounds of its loop to go. -/
def processSomeTasks (runtime : Nat) : Nat → State Task → Result Task Unit
  | 0, s => (s, some ())
  | left + 1, s =>
      match s.stealInjector runtime with
      | some (t, s') =>
          match run poll t s' with
          | (s'', some ()) => processSomeTasks runtime left s''
          | (s'', none) => (s'', none)
      | none => (s, some ())

/-- `Handle::block_on_simple` of a handle of the runtime. -/
def blockOnSimple (runtime : Nat) (future : Future Task V) : State Task → Result Task V :=
  pollLoop (fun _ => processSomeTasks poll runtime 10) future.last future.output future.pending

end Loops

/-! ## What a poll spawns -/

/-- The tasks that are pushed through handles of the runtime. -/
def handleSpawns (runtime : Nat) (spawns : List (Entry × Task)) : List Task :=
  (spawns.filter (·.1 = .handle runtime)).map (·.2)

/-- The injector of a runtime, if it was created. -/
def State.injectorOf (s : State Task) (runtime : Nat) : Option (List Task) :=
  s.runtimes[runtime]?.map (·.injector)

/-- A change of a runtime that leaves its injector leaves all injectors. -/
theorem injectorOf_modify {s : State Task} {runtime : Nat} {f : Instance Task → Instance Task}
    (same : ∀ r, (f r).injector = r.injector) (other : Nat) :
    State.injectorOf { s with runtimes := s.runtimes.modify runtime f } other =
      s.injectorOf other := by
  simp only [State.injectorOf, List.getElem?_modify]
  cases s.runtimes[other]? with
  | none => rfl
  | some r =>
      simp only [Option.map_some]
      split
      · exact congrArg some (same r)
      · rfl

theorem injectorOf_unpark (s : State Task) (runtime other : Nat) :
    (s.unpark runtime).injectorOf other = s.injectorOf other :=
  injectorOf_modify (f := fun r => { r with notified := true }) (fun _ => rfl) other

/-- A spawn onto the thread pushes to no injector. -/
theorem injectorOf_enqueue {unpark : State Task → State Task} {runtime : Nat}
    (same : ∀ s, (unpark s).injectorOf runtime = s.injectorOf runtime) (t : Task) (s : State Task) :
    (enqueue unpark t s).1.injectorOf runtime = s.injectorOf runtime := by
  simp only [enqueue]
  split
  · rfl
  · exact same _

/-- A spawn pushes to the injector of the runtime of its handle. -/
theorem injectorOf_call (entry : Entry) (t : Task) (s : State Task) (runtime : Nat) :
    (entry.call t s).1.injectorOf runtime =
      (s.injectorOf runtime).map (· ++ handleSpawns runtime [(entry, t)]) := by
  have nothing : ∀ o : Option (List Task), o = o.map (· ++ []) := by
    intro o
    cases o <;> simp
  cases entry with
  | spawn other | spawnTask other =>
      exact (injectorOf_enqueue (fun s => injectorOf_unpark s other runtime) t s).trans (nothing _)
  | spawnLocal =>
      refine (injectorOf_enqueue (fun s => ?_) t s).trans (nothing _)
      cases s.parker with
      | none => rfl
      | some other => exact injectorOf_unpark s other runtime
  | handle other =>
      simp only [Entry.call, handleSpawnTask, State.injectorOf, List.getElem?_modify, handleSpawns]
      cases s.runtimes[runtime]? with
      | none => rfl
      | some r =>
          by_cases same : other = runtime
          · simp [same]
          · simp [same]

theorem handleSpawns_cons (runtime : Nat) (first : Entry × Task) (rest : List (Entry × Task)) :
    handleSpawns runtime (first :: rest) =
      handleSpawns runtime [first] ++ handleSpawns runtime rest := by
  simp only [handleSpawns, ← List.map_append, ← List.filter_append, List.singleton_append]

/-- The spawns of a poll that returns reach the injectors in order. -/
theorem injectorOf_spawnAll (spawns : List (Entry × Task)) {s : State Task}
    (returned : (spawnAll spawns s).2 = some ()) (runtime : Nat) :
    (spawnAll spawns s).1.injectorOf runtime =
      (s.injectorOf runtime).map (· ++ handleSpawns runtime spawns) := by
  induction spawns generalizing s with
  | nil =>
      simp only [spawnAll, handleSpawns, List.filter_nil, List.map_nil, List.append_nil]
      exact (Option.map_id' ..).symm
  | cons first rest ih =>
      obtain ⟨entry, t⟩ := first
      have called := injectorOf_call entry t s runtime
      simp only [spawnAll] at returned ⊢
      generalize entry.call t s = r at called returned
      obtain ⟨s', _ | _⟩ := r
      · cases returned
      · rw [ih returned, called, handleSpawns_cons runtime (entry, t) rest]
        cases s.injectorOf runtime <;> simp

theorem localSpawns_cons (first : Entry × Task) (rest : List (Entry × Task)) :
    localSpawns (first :: rest) = localSpawns [first] ++ localSpawns rest := by
  simp only [localSpawns, ← List.map_append, ← List.filter_append, List.singleton_append]

/-- Where the queue is not borrowed, a poll spawns all that it spawns, and returns. -/
theorem spawnAll_free (spawns : List (Entry × Task)) {s : State Task} {q : List Task}
    (queue : s.taskQueue = some q) :
    (spawnAll spawns s).2 = some () ∧ (spawnAll spawns s).1.ran = s.ran ∧
      (spawnAll spawns s).1.taskQueue = some (q ++ localSpawns spawns) := by
  induction spawns generalizing s q with
  | nil => exact ⟨rfl, rfl, queue.trans (congrArg some (List.append_nil q).symm)⟩
  | cons first rest ih =>
      obtain ⟨entry, t⟩ := first
      have beside := call_spawns entry t queue
      have returns : (entry.call t s).2 = some () := by
        cases entry with
        | handle _ => rfl
        | _ => simp [Entry.call, spawn, spawnTask, spawnLocal, enqueue, queue]
      simp only [spawnAll]
      generalize entry.call t s = r at beside returns
      obtain ⟨s', _ | _⟩ := r
      · cases returns
      · obtain ⟨returned, ran, pushed⟩ := ih beside.taskQueue
        refine ⟨returned, ran.trans beside.ran, pushed.trans ?_⟩
        rw [localSpawns_cons (entry, t) rest, List.append_assoc]

/-! ## What a poll unparks -/

/-- The spawn unparks the runtime, on a thread with that `PARKER`. -/
def Entry.unparks (parker : Option Nat) (runtime : Nat) : Entry → Bool
  | .spawn other | .spawnTask other => other == runtime
  | .spawnLocal => parker == some runtime
  | .handle _ => false

/-- The injectors have what they had, and what was pushed since. -/
def Grows (s s' : State Task) : Prop :=
  ∀ runtime, ∃ pushed, s'.injectorOf runtime = (s.injectorOf runtime).map (· ++ pushed)

theorem Grows.refl (s : State Task) : Grows s s := by
  intro runtime
  refine ⟨[], ?_⟩
  cases s.injectorOf runtime <;> simp

theorem Grows.trans {s s' s'' : State Task} (first : Grows s s') (second : Grows s' s'') :
    Grows s s'' := by
  intro runtime
  obtain ⟨pushed, grown⟩ := first runtime
  obtain ⟨later, grown'⟩ := second runtime
  refine ⟨pushed ++ later, ?_⟩
  rw [grown', grown]
  cases s.injectorOf runtime <;> simp

section BlockOn

variable (poll : Task → List (Entry × Task))

end BlockOn

/-! ## `Handle::block_on_simple` -/

/-- A steal takes the front of the injector. -/
theorem stealInjector_cons {s : State Task} {runtime : Nat} {t : Task} {rest : List Task}
    (injector : s.injectorOf runtime = some (t :: rest)) :
    ∃ s', s.stealInjector runtime = some (t, s') ∧ s'.injectorOf runtime = some rest ∧
      s'.taskQueue = s.taskQueue ∧ s'.ran = s.ran := by
  obtain ⟨⟨tasks, notified, shutdown⟩, found, same⟩ := Option.map_eq_some_iff.mp injector
  cases same
  obtain ⟨within, -⟩ := List.getElem?_eq_some_iff.mp found
  refine ⟨{ s with runtimes := s.runtimes.set runtime ⟨rest, notified, shutdown⟩ }, ?_, ?_, rfl,
    rfl⟩
  · simp only [State.stealInjector, found]
  · simp [State.injectorOf, within]

theorem stealInjector_nil {s : State Task} {runtime : Nat}
    (injector : s.injectorOf runtime = some []) : s.stealInjector runtime = none := by
  obtain ⟨⟨tasks, notified, shutdown⟩, found, same⟩ := Option.map_eq_some_iff.mp injector
  cases same
  simp only [State.stealInjector, found]

section Simple

variable (poll : Task → List (Entry × Task)) (runtime : Nat)

/-- The tasks that the poll of a task pushes to the injector. -/
def pushesOf (t : Task) : List Task := handleSpawns runtime (poll t)

/-- What a loop says that returns, has run these tasks, and has left those in the injector. -/
structure Served (s : State Task) (log left : List Task) (r : Result Task V) (output : V) :
    Prop where
  returned : r.2 = some output
  ran : r.1.ran = s.ran ++ log
  injector : r.1.injectorOf runtime = some left
  /-- The queue of the thread has what it had, and more behind. -/
  taskQueue : ∀ q, s.taskQueue = some q → ∃ pushed, r.1.taskQueue = some (q ++ pushed)

theorem State.queueKept (s : State Task) (q : List Task) (queue : s.taskQueue = some q) :
    ∃ pushed, s.taskQueue = some (q ++ pushed) :=
  ⟨[], queue.trans (congrArg some (List.append_nil q).symm)⟩

/-- **`process_some_tasks` is the bounded worklist.** -/
theorem processSomeTasks_serves (bound : Nat) {s : State Task} {q inj : List Task}
    (queue : s.taskQueue = some q) (injector : s.injectorOf runtime = some inj) :
    Served runtime s (serve (pushesOf poll runtime) bound inj).1
      (serve (pushesOf poll runtime) bound inj).2 (processSomeTasks poll runtime bound s) () := by
  induction bound generalizing s q inj with
  | zero => exact ⟨rfl, (List.append_nil _).symm, injector, s.queueKept⟩
  | succ bound ih =>
      cases inj with
      | nil =>
          simp only [processSomeTasks, stealInjector_nil injector, serve]
          exact ⟨rfl, (List.append_nil _).symm, injector, s.queueKept⟩
      | cons t rest =>
          obtain ⟨s', stolen, left, same, before⟩ := stealInjector_cons injector
          have queue' : State.taskQueue { s' with ran := s'.ran ++ [t] } = some q :=
            same.trans queue
          obtain ⟨returned, ran, pushed⟩ := spawnAll_free (poll t) queue'
          have injected := injectorOf_spawnAll (poll t) returned runtime
          simp only [processSomeTasks, stolen, run, serve]
          generalize spawnAll (poll t) { s' with ran := s'.ran ++ [t] } = r at *
          obtain ⟨s'', _ | _⟩ := r
          · cases returned
          · have injector' : s''.injectorOf runtime = some (rest ++ pushesOf poll runtime t) := by
              refine injected.trans ?_
              have same : State.injectorOf { s' with ran := s'.ran ++ [t] } runtime = some rest :=
                left
              rw [same]
              rfl
            have later := ih pushed injector'
            refine ⟨later.returned, ?_, later.injector, ?_⟩
            · rw [later.ran, ran, before, List.append_assoc]
              rfl
            · intro q' queue'
              cases queue.symm.trans queue'
              obtain ⟨more, all⟩ := later.taskQueue _ pushed
              exact ⟨localSpawns (poll t) ++ more, by rw [all, List.append_assoc]⟩

theorem blockOnSimple_spec (future : Future Task V) {s : State Task} {q inj : List Task}
    (queue : s.taskQueue = some q) (injector : s.injectorOf runtime = some inj) :
    let served := serveRounds (pushesOf poll runtime) 10
      (future.pending.map (handleSpawns runtime ·.spawns)) inj
    Served runtime s served.1 (served.2 ++ handleSpawns runtime future.last)
      (blockOnSimple poll runtime future s) future.output := by
  obtain ⟨pending, last, output⟩ := future
  simp only [blockOnSimple]
  induction pending generalizing s q inj with
  | nil =>
      obtain ⟨returned, ran, pushed⟩ := spawnAll_free last queue
      have injected := injectorOf_spawnAll last returned runtime
      rw [injector] at injected
      simp only [pollLoop, List.map_nil, serveRounds]
      generalize spawnAll last s = r at *
      obtain ⟨s', _ | _⟩ := r
      · cases returned
      · refine ⟨rfl, ran.trans (List.append_nil _).symm, injected, ?_⟩
        intro q' queue'
        cases queue.symm.trans queue'
        exact ⟨_, pushed⟩
  | cons p rest ih =>
      obtain ⟨returned, ran, pushed⟩ := spawnAll_free p.spawns queue
      have injected := injectorOf_spawnAll p.spawns returned runtime
      rw [injector] at injected
      simp only [pollLoop, List.map_cons, serveRounds]
      generalize spawnAll p.spawns s = r at *
      obtain ⟨s', _ | _⟩ := r
      · cases returned
      · have round := processSomeTasks_serves poll runtime 10 pushed injected
        dsimp only
        generalize processSomeTasks poll runtime 10 s' = r' at round
        obtain ⟨s'', _ | _⟩ := r'
        · cases round.returned
        · obtain ⟨more, queue''⟩ := round.taskQueue _ pushed
          have later := ih queue'' round.injector
          refine ⟨later.returned, ?_, later.injector, ?_⟩
          · rw [later.ran, round.ran, ran, List.append_assoc]
          · intro q' queue'
            cases queue.symm.trans queue'
            obtain ⟨last, all⟩ := later.taskQueue _ queue''
            exact ⟨localSpawns p.spawns ++ more ++ last, by rw [all]; simp only [List.append_assoc]⟩

/-- **`Handle::block_on_simple` always returns.** It runs the injector of its runtime first in,
first out, ten tasks at most for each poll that is pending, with those that the polls and the tasks
push to it; the rest is left there. It runs no task of the queue of the thread. -/
theorem block_on_simple_serves (future : Future Task V) {s : State Task} {q inj : List Task}
    (queue : s.taskQueue = some q) (injector : s.injectorOf runtime = some inj) :
    ∃ log left, Served runtime s log (left ++ handleSpawns runtime future.last)
        (blockOnSimple poll runtime future s) future.output ∧
      (log, left) = serveRounds (pushesOf poll runtime) 10
        (future.pending.map (handleSpawns runtime ·.spawns)) inj ∧
      log.length ≤ 10 * future.pending.length ∧
      (log ++ left).Perm (inj ++ (future.pending.map (handleSpawns runtime ·.spawns)).flatten ++
        log.flatMap (pushesOf poll runtime)) := by
  refine ⟨_, _, blockOnSimple_spec poll runtime future queue injector, rfl, ?_, ?_⟩
  · have bound := serveRounds_length (pushesOf poll runtime) 10
      (future.pending.map (handleSpawns runtime ·.spawns)) inj
    rwa [List.length_map] at bound
  · exact serveRounds_perm _ _ _ _

end Simple

/-- A task that pushes another one through the handle of runtime `0`. -/
def pushesOnce : Nat → List (Entry × Nat)
  | 0 => [(.handle 0, 1)]
  | _ => []

/-- A future that is pending once. -/
def pendingOnce : Future Nat Unit := ⟨[⟨[(.handle 0, 0)], false⟩], [(.handle 0, 2)], ()⟩

theorem block_on_simple_serves_pushed : ∃ log left : List Nat,
    Served 0 (new fresh) log (left ++ [2]) (blockOnSimple pushesOnce 0 pendingOnce (new fresh)) () ∧
      log = [0, 1] := by
  obtain ⟨log, left, served, same, -⟩ :=
    block_on_simple_serves pushesOnce 0 pendingOnce (s := new fresh) rfl rfl
  exact ⟨log, left, served, (Prod.mk.inj same).1⟩

end LoonyRuntime.Runtime.CurrentThread
