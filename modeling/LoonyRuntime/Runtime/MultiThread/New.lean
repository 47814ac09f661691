import LoonyRuntime.Runtime.MultiThread.Active

/-!
# The constructor of the multi-thread scheduler

`MultiThread::new` makes the queues and the shared state, and then spawns one thread after the
other. A worker runs `WorkerThread::run` from its spawn on, beside the rest of the constructor. A
spawn that fails returns from `new` with the error, by the `?` after it: the handles of the workers
that were started are dropped, which detaches them, and nothing is written to the shared state.

Nobody but the workers holds the shared state before `new` returns, and after an error nobody else
ever does. So the queues stay empty (`Idle`), no worker has anything to run that could call
`shutdown`, and the flag is never set.
-/

set_option autoImplicit false

namespace LoonyRuntime.Runtime.MultiThread

open Concurrent

namespace New

/-! ## The machine -/

/-- How far `MultiThread::new` is. -/
inductive Construction where
  | spawning
  /-- It has returned the error of the spawn of this index. -/
  | failed (index : Nat)
  | returned
deriving DecidableEq, Repr

/-- The shared state with the workers that were started, and the constructor. -/
structure State where
  pool : MultiThread.State
  construction : Construction
deriving DecidableEq, Repr

inductive Label where
  /-- `thread::Builder::spawn` of the next index succeeds. -/
  | spawn
  /-- It returns an error. -/
  | spawnFails
  /-- All the workers are started, and `new` returns. -/
  | finish
  /-- A step of a worker. -/
  | worker (index : Nat) (label : MultiThread.Label)
deriving DecidableEq, Repr

/-- The index of the next spawn is the number of workers that were started. -/
def State.next (s : State) : Nat := s.pool.threads.length

/-- One more worker is at the start of `WorkerThread::run`. -/
def State.start (s : State) : State :=
  { s with pool := ⟨s.pool.shared, s.pool.threads ++ [⟨.worker .head, []⟩]⟩ }

/-- One step of the constructor or of a worker, of a scheduler with `numThreads` workers. -/
def step (numThreads : Nat) (retries : Bool) (s : State) : Label → Option State
  | .spawn =>
      if s.construction = .spawning ∧ s.next < numThreads then some s.start else none
  | .spawnFails =>
      if s.construction = .spawning ∧ s.next < numThreads then
        some { s with construction := .failed s.next }
      else none
  | .finish =>
      if s.construction = .spawning ∧ s.next = numThreads then
        some { s with construction := .returned }
      else none
  | .worker i l =>
      (Pool.step (move numThreads retries) s.pool (i, l)).map fun pool => { s with pool }

/-- The machine of `MultiThread::new` with its workers. -/
def machine (numThreads : Nat) (retries : Bool) : Machine State Label where
  initial s := s = ⟨⟨.new numThreads, []⟩, .spawning⟩
  step := step numThreads retries

/-! ## Workers without work -/

/-- A worker in its loop that has found no task. -/
def searches (t : Thread) : Bool :=
  match t.point with
  | .worker .exited | .worker (.unlockStealers (some _)) => false
  | .worker _ => true
  | _ => false

/-- No queue has a task, and nobody has called `shutdown`. -/
structure Quiet (s : Shared) : Prop where
  running : s.shutdown = false
  injector : s.injector = []
  locals : ∀ (i : Nat) (queue : List Nat), s.locals[i]? = some queue → queue = []

theorem quiet_new (n : Nat) : Quiet (.new n) := by
  refine ⟨rfl, rfl, ?_⟩
  intro i queue found
  exact List.eq_of_mem_replicate (List.mem_of_getElem? found)

/-- A worker in its loop has not ended. -/
theorem inLoop_of_searches {t : Thread} (searching : searches t = true) : t.inLoop = true := by
  obtain ⟨point, below⟩ := t
  cases point with
  | worker pc =>
      cases pc with
      | exited => cases searching
      | _ => rfl
  | _ => cases searching

section Steps

variable {n : Nat} {retries : Bool} {i : Nat} {s s' : Shared} {t t' : Thread}

/-- **A worker that finds no task stays in its loop**, and leaves the queues and the flag. -/
theorem Quiet.step (quiet : Quiet s) (searching : searches t = true)
    (step : Step n retries i s t s' t') : Quiet s' ∧ searches t' = true := by
  have keeps : s'.shutdown = s.shutdown → s'.injector = s.injector → s'.locals = s.locals →
      Quiet s' := by
    intro shutdown injector locals
    exact ⟨shutdown ▸ quiet.running, injector ▸ quiet.injector, locals ▸ quiet.locals⟩
  cases step with
  | exit shutdown =>
      rw [quiet.running] at shutdown
      cases shutdown
  | popFound queue | stealFound queue | checkPopFound queue | wakePopFound queue =>
      cases quiet.locals _ _ queue
  | injectorFound queue | checkStealFound queue | wakeStealFound queue =>
      rw [quiet.injector] at queue
      cases queue
  | unlockFound => cases searching
  | whileShutdown shutdown =>
      rw [quiet.running] at shutdown
      cases shutdown
  | enter | popNone | lockStealers | stealNext | stealNone | unlockNone | injectorNone
  | lockSleep | decActive | checkPopNone | checkStealNone | whileRunning | wait | wake | reacquire
  | wakePopNone | wakeStealNone | incActive | unlockSleep => exact ⟨keeps rfl rfl rfl, rfl⟩
  | _ => cases searching

end Steps

/-! ## Runs -/

/-- Every worker that was started searches for a task, and the constructor has started as many as
it has come to. -/
structure Idle (s : State) : Prop where
  quiet : Quiet s.pool.shared
  searching : ∀ t ∈ s.pool.threads, searches t = true
  failed : ∀ k, s.construction = .failed k → s.next = k

variable {numThreads : Nat} {retries : Bool}

theorem idle_step {s s' : State} {l : Label} (inv : Idle s)
    (taken : step numThreads retries s l = some s') : Idle s' := by
  cases l with
  | spawn =>
      simp only [step, Option.ite_none_right_eq_some, Option.some.injEq] at taken
      obtain ⟨⟨spawning, -⟩, rfl⟩ := taken
      refine ⟨inv.quiet, ?_, ?_⟩
      · intro t member
        rcases List.mem_append.mp member with before | started
        · exact inv.searching t before
        · rw [List.mem_singleton.mp started]
          rfl
      · intro k failed
        replace failed : s.construction = .failed k := failed
        rw [spawning] at failed
        cases failed
  | spawnFails =>
      simp only [step, Option.ite_none_right_eq_some, Option.some.injEq] at taken
      obtain ⟨-, rfl⟩ := taken
      refine ⟨inv.quiet, inv.searching, ?_⟩
      intro k failed
      cases failed
      rfl
  | finish =>
      simp only [step, Option.ite_none_right_eq_some, Option.some.injEq] at taken
      obtain ⟨-, rfl⟩ := taken
      refine ⟨inv.quiet, inv.searching, ?_⟩
      intro k failed
      cases failed
  | worker i label =>
      obtain ⟨pool, worked, rfl⟩ := Option.map_eq_some_iff.mp taken
      obtain ⟨t, shared, t', found, moved, rfl⟩ := Pool.step_eq_some worked
      have member := List.mem_of_getElem? found
      obtain ⟨quiet, searching⟩ :=
        inv.quiet.step (inv.searching t member) (step_of_move moved)
      refine ⟨quiet, ?_, ?_⟩
      · intro u member
        rcases List.mem_or_eq_of_mem_set member with before | rfl
        · exact inv.searching u before
        · exact searching
      · intro k failed
        have same : (s.pool.threads.set i t').length = s.pool.threads.length := List.length_set
        exact same.trans (inv.failed k failed)

/-- **Every run keeps the workers idle.** -/
theorem idle {s : State} (reached : (machine numThreads retries).Reaches s) : Idle s := by
  refine reached.invariant ?_ ?_
  · rintro _ rfl
    refine ⟨quiet_new numThreads, ?_, ?_⟩
    · intro t member
      cases member
    · intro k failed
      cases failed
  · intro s l s' _ inv _ taken
    exact idle_step inv taken

/-- A worker started by a constructor that failed is in its loop, however long it runs. -/
theorem inLoop_of_failed {s : State} (reached : (machine numThreads retries).Reaches s) :
    ∀ t ∈ s.pool.threads, t.inLoop = true := fun t member =>
  inLoop_of_searches ((idle reached).searching t member)

/-- The flag is set, and the worker is not left asleep on the condvar. -/
def ToldToStop (s : Shared) (worker : Nat) : Prop :=
  s.shutdown = true ∧ worker ∉ s.mutex.waiting

/-- **When the constructor has failed, its workers have been told to stop** exactly if none was
started, that is, if the first spawn failed. -/
theorem toldToStop_iff {k : Nat} {s : State} (reached : (machine numThreads retries).Reaches s)
    (failed : s.construction = .failed k) :
    (∀ i < s.next, ToldToStop s.pool.shared i) ↔ k = 0 := by
  have inv := idle reached
  have started : s.next = k := inv.failed k failed
  constructor
  · intro told
    by_contra some
    obtain ⟨shutdown, -⟩ := told 0 (by omega)
    rw [inv.quiet.running] at shutdown
    cases shutdown
  · intro none i within
    omega

/-- The second of three spawns fails while the first worker is at its pop. -/
theorem toldToStop_iff_second :
    ∃ s : State, (machine 3 false).Reaches s ∧ s.construction = .failed 1 ∧
      ((∀ i < s.next, ToldToStop s.pool.shared i) ↔ 1 = 0) := by
  obtain ⟨s, reached, passes⟩ := (machine 3 false).exists_reaches_of_test
    (fun s => decide (s.construction = .failed 1))
    [.spawn, .worker 0 (.next false), .spawnFails] rfl (by decide)
  have failed := of_decide_eq_true passes
  exact ⟨s, reached, failed, toldToStop_iff reached failed⟩

/-- The first of two workers falls asleep while the second spawn fails: it sleeps on, and the flag
is not set. -/
theorem worker_left_asleep :
    ∃ s : State, (machine 2 false).Reaches s ∧ s.construction = .failed 1 ∧
      ¬ ∀ i < s.next, ToldToStop s.pool.shared i := by
  obtain ⟨s, reached, passes⟩ := (machine 2 false).exists_reaches_of_test
    (fun s => decide (s.construction = .failed 1 ∧ 0 < s.next ∧ 0 ∈ s.pool.shared.mutex.waiting))
    (.spawn :: List.replicate 13 (.worker 0 (.next false)) ++ [.spawnFails]) rfl (by decide)
  obtain ⟨failed, started, asleep⟩ := of_decide_eq_true passes
  exact ⟨s, reached, failed, fun told => (told 0 started).2 asleep⟩

end New

end LoonyRuntime.Runtime.MultiThread
