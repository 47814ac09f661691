import LoonyRuntime.Concurrent.Simulation
import LoonyRuntime.Runtime.MultiThread.Shutdown

/-!
# What a thread waits for

A thread of the scheduler has a step, or it is `Blocked`: its worker has ended, it sleeps on the
condvar, it awaits a lock, or it is in a join of shutdown (`moves_iff`). In every run the owner of
an awaited lock is another thread, and that thread has a step, or is in a join of shutdown
(`waits_for_mover`). So the locks alone never deadlock: a chain of waiting threads has length one,
and it ends in shutdown or in a thread that moves.

Once the flag of shutdown is set, `left` bounds the steps that a worker has yet to take in its loop.
Each of them lowers it (`left_of_move`), so a worker makes one more round at most, and starts one
more entry at most (`stops_soon`). Shutdown that returns has joined every worker
(`shutdown_ends_all`).
-/

set_option autoImplicit false

namespace LoonyRuntime.Runtime.MultiThread

open Concurrent

/-! ## Steps that are there -/

/-- The thread has a step. The return from a wait counts once the thread is notified. -/
def Thread.Moves (n : Nat) (retries : Bool) (i : Nat) (s : Shared) (t : Thread) : Prop :=
  ∃ l, (l = .wake → i ∉ s.mutex.waiting) ∧ (move n retries i s t l).isSome = true

/-- What a thread without a step waits for. -/
inductive Blocked (n i : Nat) (s : Shared) (t : Thread) : Prop where
  | ended (here : t.point = .worker .exited)
  | asleep (here : t.point = .worker .waiting) (unnotified : i ∈ s.mutex.waiting)
  | lock {m : Monitor} {j : Nat} (awaits : t.awaits s = some m) (owner : m.owner = some j)
  | join {w : Nat} (here : t.point = .shutdown (.join w)) (within : w < n) (running : w ∉ s.exited)

section Steps

variable {n : Nat} {retries : Bool} {i : Nat} {s : Shared} {t : Thread} {below : List Caller}

theorem Thread.Moves.of_advance (steps : (advance n false i s t).isSome = true) :
    t.Moves n retries i s :=
  ⟨.next false, nofun, by simpa [move] using steps⟩

/-- A thread takes a lock, or waits for its owner. -/
theorem moves_or_blocked_of_awaits {m : Monitor} {f : Monitor → Shared × Thread}
    (awaits : t.awaits s = some m) (takes : advance n false i s t = (m.acquire i).map f) :
    t.Moves n retries i s ∨ Blocked n i s t := by
  cases owner : m.owner with
  | none =>
      refine .inl (.of_advance ?_)
      rw [takes, Monitor.acquire_of_free owner]
      rfl
  | some j => exact .inr (.lock awaits owner)

theorem moves_or_blocked_worker (pc : WorkerPc) :
    Thread.Moves n retries i s ⟨.worker pc, below⟩ ∨ Blocked n i s ⟨.worker pc, below⟩ := by
  cases pc with
  | lockStealers | lockSleep | reacquire => exact moves_or_blocked_of_awaits rfl rfl
  | waiting =>
      by_cases unnotified : i ∈ s.mutex.waiting
      · exact .inr (.asleep rfl unnotified)
      · exact .inl ⟨.wake, fun _ => unnotified, rfl⟩
  | exited => exact .inr (.ended rfl)
  | head | popLocal | steal _ | stealInjector | checkPop | checkSteal | wakePop | wakeSteal =>
      refine .inl (.of_advance ?_)
      simp only [advance, advanceWorker]
      repeat' split
      all_goals rfl
  | _ => exact .inl (.of_advance rfl)

theorem moves_or_blocked_notify (pc : NotifyPc) :
    Thread.Moves n retries i s ⟨.notifyWorker pc, below⟩ ∨
      Blocked n i s ⟨.notifyWorker pc, below⟩ := by
  cases pc with
  | lockMutex | lockUnparkers => exact moves_or_blocked_of_awaits rfl rfl
  | notify =>
      obtain ⟨choice, notified⟩ := s.mutex.exists_notifyOne
      exact .inl ⟨.notify choice, nofun, by simpa [move] using notified⟩
  | _ => exact .inl (.of_advance rfl)

theorem moves_or_blocked_steal (pc : StealPc) :
    Thread.Moves n retries i s ⟨.stealWork pc, below⟩ ∨ Blocked n i s ⟨.stealWork pc, below⟩ := by
  cases pc with
  | lockStealers => exact moves_or_blocked_of_awaits rfl rfl
  | unlockStealers found => exact .inl (.of_advance rfl)
  | steal _ | stealInjector =>
      refine .inl (.of_advance ?_)
      simp only [advance, advanceSteal]
      repeat' split
      all_goals rfl

theorem moves_or_blocked_shutdown (pc : ShutdownPc) :
    Thread.Moves n retries i s ⟨.shutdown pc, below⟩ ∨ Blocked n i s ⟨.shutdown pc, below⟩ := by
  cases pc with
  | lockMutex | lockUnparkers => exact moves_or_blocked_of_awaits rfl rfl
  | join w =>
      by_cases waits : w < n ∧ w ∉ s.exited
      · exact .inr (.join rfl waits.1 waits.2)
      · refine .inl (.of_advance ?_)
        simp only [advance, advanceShutdown]
        split
        · next within => simp [not_and_not_right.mp waits within]
        · rfl
  | _ => exact .inl (.of_advance rfl)

theorem moves_or_blocked (t : Thread) : t.Moves n retries i s ∨ Blocked n i s t := by
  obtain ⟨point, below⟩ := t
  cases point with
  | user => exact .inl ⟨.begin .spawn, nofun, rfl⟩
  | hold e => exact .inl (.of_advance rfl)
  | run e => exact .inl ⟨.finish, nofun, rfl⟩
  | worker pc => exact moves_or_blocked_worker pc
  | notifyWorker pc => exact moves_or_blocked_notify pc
  | stealWork pc => exact moves_or_blocked_steal pc
  | processSomeTasks left =>
      refine .inl (.of_advance ?_)
      cases left with
      | zero => rfl
      | succ left =>
          simp only [advance, advanceProcess]
          split <;> rfl
  | shutdown pc => exact moves_or_blocked_shutdown pc

/-- A step takes no lock that is owned. -/
theorem Step.free {s' : Shared} {t' : Thread} (step : Step n retries i s t s' t') {m : Monitor}
    (awaits : t.awaits s = some m) : m.owner = none := by
  cases step with
  | lockStealers taken | lockSleep taken | reacquire taken | notifyLock taken
  | notifyLockUnparkers taken | helpLock taken | shutdownLock taken | shutdownLockUnparkers taken =>
      cases awaits
      exact (Monitor.acquire_eq_some taken).1
  | _ => cases awaits

/-- **A thread has a step exactly when it is not blocked.** -/
theorem moves_iff : t.Moves n retries i s ↔ ¬Blocked n i s t := by
  constructor
  · rintro ⟨l, notified, moves⟩ blocked
    obtain ⟨⟨s', t'⟩, moved⟩ := Option.isSome_iff_exists.mp moves
    have step := step_of_move moved
    cases blocked with
    | ended here => exact step.exited.1 here
    | asleep here unnotified =>
        obtain ⟨point, below⟩ := t
        cases here
        cases l with
        | wake => exact notified rfl unnotified
        | _ => simp [move, advance, advanceWorker] at moved
    | lock awaits owner => cases owner.symm.trans (step.free awaits)
    | join here within running =>
        obtain ⟨point, below⟩ := t
        cases here
        cases step with
        | join ended => exact running ended
        | joined all => omega
  · exact (moves_or_blocked t).resolve_right

end Steps

/-! ## Owners -/

/-- The owner of each lock is a thread. -/
structure Owned (s : State) : Prop where
  mutex : ∀ j, s.shared.mutex.owner = some j → j < s.threads.length
  unparkers : ∀ j, s.shared.unparkers.owner = some j → j < s.threads.length
  stealers : ∀ j, s.shared.stealers.owner = some j → j < s.threads.length

theorem owned {n : Nat} {retries : Bool} {ok : State → Nat × Label → Prop} {s : State}
    (reached : (machine n retries).ReachesWhen ok s) : Owned s := by
  refine reached.invariant ?_ ?_
  · rintro _ ⟨others, rfl⟩
    exact ⟨nofun, nofun, nofun⟩
  · rintro s ⟨i, l⟩ s' - inv - taken
    obtain ⟨t, shared, t', found, step, -, rfl⟩ := step_of_taken taken
    have mover : i < s.threads.length := (List.getElem?_eq_some_iff.mp found).1
    refine ⟨?_, ?_, ?_⟩ <;> intro j owner <;> rw [List.length_set]
    · rcases step.usesMutex.owner_cases owner with before | rfl
      · exact inv.mutex j before
      · exact mover
    · rcases step.usesUnparkers.owner_cases owner with before | rfl
      · exact inv.unparkers j before
      · exact mover
    · rcases step.usesStealers.owner_cases owner with before | rfl
      · exact inv.stealers j before
      · exact mover

/-- The thread holds one of the locks. -/
def Thread.holdsSome (t : Thread) : Bool := t.holdsMutex || t.holdsUnparkers || t.holdsStealers

/-- A thread takes no lock while it holds one. -/
theorem Thread.holdsSome_of_awaits {s : Shared} {t : Thread} {m : Monitor}
    (awaits : t.awaits s = some m) : t.holdsSome = false := by
  unfold Thread.awaits at awaits
  split at awaits
  case h_9 => cases awaits
  all_goals
    next here => simp [holdsSome, holdsMutex, holdsUnparkers, holdsStealers, here]

/-- A thread that holds a lock is blocked in a join of shutdown only. -/
theorem Blocked.joins {n i : Nat} {s : Shared} {t : Thread} (blocked : Blocked n i s t)
    (holds : t.holdsSome = true) : ∃ w, t.point = .shutdown (.join w) ∧ w < n ∧ w ∉ s.exited := by
  cases blocked with
  | ended here | asleep here _ =>
      simp [Thread.holdsSome, Thread.holdsMutex, Thread.holdsUnparkers, Thread.holdsStealers,
        here] at holds
  | lock awaits owner => cases (Thread.holdsSome_of_awaits awaits).symm.trans holds
  | join here within running => exact ⟨_, here, within, running⟩

/-- The owner of an awaited lock is a thread that holds it. -/
theorem holder_of_awaited {s : State} (locks : Locked s) (owned : Owned s) {t : Thread}
    {m : Monitor} {j : Nat} (awaits : t.awaits s.shared = some m) (owner : m.owner = some j) :
    ∃ u, s.threads[j]? = some u ∧ u.holdsSome = true := by
  have lock : m = s.shared.mutex ∨ m = s.shared.unparkers ∨ m = s.shared.stealers := by
    unfold Thread.awaits at awaits
    split at awaits <;> cases awaits <;> simp
  rcases lock with rfl | rfl | rfl
  · have found := List.getElem?_eq_getElem (owned.mutex j owner)
    exact ⟨_, found, by simp [Thread.holdsSome, (locks.mutex.owner j _ found).mpr owner]⟩
  · have found := List.getElem?_eq_getElem (owned.unparkers j owner)
    exact ⟨_, found, by simp [Thread.holdsSome, (locks.unparkers.owner j _ found).mpr owner]⟩
  · have found := List.getElem?_eq_getElem (owned.stealers j owner)
    exact ⟨_, found, by simp [Thread.holdsSome, (locks.stealers.owner j _ found).mpr owner]⟩

/-- **The locks alone never deadlock.** In every run a thread without a step is a worker that has
ended or sleeps on the condvar, or is in a join of shutdown, or awaits a lock; and then the owner of
that lock is another thread, which has a step, or is in a join of shutdown, after the store of the
flag. -/
theorem waits_for_mover {n : Nat} {retries : Bool} {s : State}
    (reached : (machine n retries).Reaches s) {i : Nat} {t : Thread}
    (found : s.threads[i]? = some t) :
    (t.Moves n retries i s.shared ↔ ¬Blocked n i s.shared t) ∧
      ∀ m j, t.awaits s.shared = some m → m.owner = some j →
        j ≠ i ∧ ∃ u, s.threads[j]? = some u ∧ (u.Moves n retries j s.shared ∨
          s.shared.shutdown = true ∧
            ∃ w, u.point = .shutdown (.join w) ∧ w < n ∧ w ∉ s.shared.exited) := by
  refine ⟨moves_iff, ?_⟩
  intro m j awaits owner
  obtain ⟨u, foundU, holds⟩ := holder_of_awaited (locked reached) (owned reached) awaits owner
  refine ⟨?_, u, foundU, ?_⟩
  · rintro rfl
    cases found.symm.trans foundU
    cases (Thread.holdsSome_of_awaits awaits).symm.trans holds
  · have either : u.Moves n retries j s.shared ∨ Blocked n j s.shared u := moves_or_blocked u
    rcases either with moves | blocked
    · exact .inl moves
    · obtain ⟨w, here, within, running⟩ := blocked.joins holds
      refine .inr ⟨?_, w, here, within, running⟩
      have shuts : u.shutsDown ≤ total Thread.shutsDown s.threads :=
        le_total (List.mem_of_getElem? foundU)
      have one := once reached
      rw [Once] at one
      have here : u.shutsDown = 1 := by simp [Thread.shutsDown, here]
      by_contra running
      rw [Bool.eq_false_of_not_eq_true running, Bool.toNat_false] at one
      omega

/-- The worker holds the mutex in its double check, and a pusher awaits it. -/
def pusherWaits : List (Nat × Label) :=
  List.replicate 7 (0, .next false) ++ [(1, .begin .spawn)]

theorem waits_for_mover_pusher : ∃ s : State, (∃ t, s.threads[1]? = some t ∧
    t.awaits s.shared = some s.shared.mutex) ∧ s.shared.mutex.owner = some 0 ∧
    ∃ u, s.threads[0]? = some u ∧ (u.Moves 1 false 0 s.shared ∨ s.shared.shutdown = true ∧
      ∃ w, u.point = .shutdown (.join w) ∧ w < 1 ∧ w ∉ s.shared.exited) := by
  obtain ⟨s, reached, tested⟩ := (machine 1 false).exists_reaches_of_test
    (fun s => s.threads[1]? == some ⟨.notifyWorker .lockMutex, []⟩ &&
      s.shared.mutex.owner == some 0) pusherWaits ⟨1, rfl⟩ (by decide)
  obtain ⟨found, owner⟩ : s.threads[1]? = some ⟨.notifyWorker .lockMutex, []⟩ ∧
      s.shared.mutex.owner = some 0 := by simpa using tested
  exact ⟨s, ⟨_, found, rfl⟩, owner, ((waits_for_mover reached found).2 _ 0 rfl owner).2⟩

/-! ## After the flag is set -/

/-- The steps that a worker takes at most from here to the end of its loop, once the flag is set. -/
def WorkerPc.left (n : Nat) : WorkerPc → Nat
  | .exited => 0
  | .head => 1
  | .unlockSleep => 2
  | .incActive => 3
  | .whileHead => 4
  | .checkSteal | .wakeSteal => 5
  | .checkPop | .wakePop => 6
  | .decActive | .reacquire => 7
  | .lockSleep | .waiting => 8
  | .stealInjector | .wait => 9
  | .unlockStealers _ => 10
  | .steal offset => 11 + (n - 1 - offset)
  | .lockStealers => 12 + (n - 1)
  | .popLocal => 13 + (n - 1)

/-- The worker has yet to look for an entry, or has found one. -/
def WorkerPc.looks : WorkerPc → Bool
  | .popLocal | .lockStealers | .steal _ | .unlockStealers _ | .stealInjector => true
  | _ => false

namespace Thread

/-- A worker in its loop, and outside of `Task::run`. -/
def atLoop (t : Thread) : Bool :=
  match t.point with
  | .worker _ => t.below == []
  | .hold _ => t.below == [.worker]
  | _ => false

/-- A worker that runs an entry from its loop next. -/
def starts (t : Thread) : Bool :=
  match t.point with
  | .hold _ => t.atLoop
  | _ => false

/-- The worker may still run an entry from its loop. -/
def mayStart (t : Thread) : Bool :=
  match t.point with
  | .worker pc => t.atLoop && pc.looks
  | _ => t.atLoop

/-- The steps in its loop that the worker takes at most. A call returns to the head of the loop. -/
def left (n : Nat) (t : Thread) : Nat :=
  match t.point with
  | .worker pc => if t.atLoop then pc.left n else 1
  | _ => if t.atLoop then 2 else 1

/-- A `block_on` runs below code of the user. -/
def nests (t : Thread) : Bool :=
  match t.point with
  | .user => t.below.isEmpty
  | .stealWork _ => t.below != [.worker]
  | _ => true

theorem resume_nests (b : List Caller) : (resume b).nests = true := by
  cases b with
  | nil => rfl
  | cons caller rest => cases caller <;> rfl

/-- A call returns to the head of a loop, or to another call. -/
theorem resume_atLoop {b : List Caller} (loop : (resume b).atLoop = true) :
    resume b = ⟨.worker .head, []⟩ := by
  cases b with
  | nil => cases loop
  | cons caller rest =>
      cases caller with
      | worker =>
          obtain rfl : rest = [] := by simpa [resume, Caller.resume, atLoop] using loop
          rfl
      | run _ | processSomeTasks _ => cases loop

/-- A worker in its loop is at a point of it, or holds an entry that it found there. -/
theorem atLoop_cases {t : Thread} (loop : t.atLoop = true) :
    (∃ pc, t = ⟨.worker pc, []⟩) ∨ ∃ e, t = ⟨.hold e, [.worker]⟩ := by
  obtain ⟨point, below⟩ := t
  cases point with
  | worker pc => exact .inl ⟨pc, by simpa [atLoop] using loop⟩
  | hold e => exact .inr ⟨e, by simpa [atLoop] using loop⟩
  | _ => cases loop

theorem out_of_loop (n : Nat) {t : Thread} (out : t.atLoop = false) :
    t.left n = 1 ∧ t.starts = false ∧ t.mayStart = false := by
  obtain ⟨point, below⟩ := t
  cases point <;> simp [left, starts, mayStart, out]

end Thread

section Flag

variable {n : Nat} {retries : Bool} {i : Nat} {s s' : Shared} {t t' : Thread}

theorem Step.nests (step : Step n retries i s t s' t') (nests : t.nests = true) :
    t'.nests = true := by
  cases step with
  | finish | notifyReturn | helpUnlockNone | processReturn | shutdownReturn =>
      exact Thread.resume_nests _
  | help =>
      rename_i b
      cases b with
      | nil => rfl
      | cons => cases nests
  | helpLock | helpFound | helpNext | helpNone | helpInjectorFound | helpInjectorNone => exact nests
  | _ => rfl

theorem Thread.startWith_nests {others : Nat} :
    Pool.Each (fun _ t => t.nests = true) (startWith n others).threads := by
  intro i t found
  rcases startWith_cases found with ⟨-, rfl⟩ | ⟨-, rfl⟩ <;> rfl

/-- The scan goes on to the next target before the last one only. -/
theorem offset_lt_of_move {l : Label} {offset : Nat} {below : List Caller}
    (moved : move n retries i s ⟨.worker (.steal offset), below⟩ l = some (s', t'))
    (next : t'.point = .worker (.steal (offset + 1))) : offset < n - 1 := by
  by_contra last
  cases l with
  | next retry =>
      simp only [move, advance, advanceWorker, if_neg last] at moved
      split at moved
      · cases moved
      · cases moved
        cases next
  | _ => simp [move] at moved

/-- A worker comes back to its loop at the head. -/
theorem Step.enters_loop (step : Step n retries i s t s' t') (nests : t.nests = true)
    (out : t.atLoop = false) (loop : t'.atLoop = true) : t' = ⟨.worker .head, []⟩ := by
  cases step with
  | finish | notifyReturn | helpUnlockNone | processReturn | shutdownReturn =>
      exact Thread.resume_atLoop loop
  | helpUnlockFound =>
      simp only [Thread.nests, Thread.atLoop, bne_iff_ne, beq_iff_eq] at nests loop
      exact absurd loop nests
  | popFound | unlockFound | injectorFound =>
      simp only [Thread.atLoop, beq_iff_eq, beq_eq_false_iff_ne, List.cons.injEq,
        true_and] at out loop
      exact absurd loop out
  | _ => first | cases loop | exact nomatch out.symm.trans loop

/-- **Once the flag is set, a step of a worker in its loop takes it nearer to the end.** -/
theorem left_of_move {l : Label} (flag : s.shutdown = true) (nests : t.nests = true)
    (moved : move n retries i s t l = some (s', t')) :
    t'.left n + t.atLoop.toNat ≤ t.left n ∧
      t'.mayStart.toNat + t.starts.toNat ≤ t.mayStart.toNat := by
  have step := step_of_move moved
  cases loop : t.atLoop with
  | false =>
      obtain ⟨left, starts, mayStart⟩ := Thread.out_of_loop n loop
      rw [left, starts, mayStart]
      cases later : t'.atLoop with
      | false =>
          obtain ⟨left', -, mayStart'⟩ := Thread.out_of_loop n later
          rw [left', mayStart']
          exact ⟨le_rfl, le_rfl⟩
      | true =>
          rw [step.enters_loop nests loop later]
          exact ⟨le_rfl, le_rfl⟩
  | true =>
      rcases Thread.atLoop_cases loop with ⟨pc, rfl⟩ | ⟨e, rfl⟩
      · cases step with
        | enter running | whileRunning running => exact nomatch running.symm.trans flag
        | stealNext =>
            have further := offset_lt_of_move moved rfl
            simp [Thread.left, Thread.mayStart, Thread.starts, Thread.atLoop, WorkerPc.left,
              WorkerPc.looks]
            omega
        | popFound =>
            simp [Thread.left, Thread.mayStart, Thread.starts, Thread.atLoop, WorkerPc.left,
              WorkerPc.looks]
            omega
        | _ =>
            simp [Thread.left, Thread.mayStart, Thread.starts, Thread.atLoop, WorkerPc.left,
              WorkerPc.looks]
      · cases step with
        | run => exact ⟨le_rfl, le_rfl⟩

end Flag

/-- A step of worker `i` at such a point. -/
def stepsOf (p : Thread → Bool) (i : Nat) (s : State) (a : Nat × Label) : Bool :=
  a.1 == i && (s.threads[i]?).any p

theorem WorkerPc.left_le {n : Nat} (pos : 0 < n) (pc : WorkerPc) : pc.left n ≤ n + 12 := by
  cases pc <;> simp [left] <;> omega

theorem Thread.left_le {n : Nat} (pos : 0 < n) (t : Thread) : t.left n ≤ n + 12 := by
  obtain ⟨point, below⟩ := t
  cases point with
  | worker pc =>
      have bound := pc.left_le pos
      simp only [left]
      split <;> omega
  | _ =>
      simp only [left]
      split <;> omega

theorem nests {n : Nat} {retries : Bool} {ok : State → Nat × Label → Prop} {s : State}
    (reached : (machine n retries).ReachesWhen ok s) :
    Pool.Each (fun _ t => t.nests = true) s.threads := by
  refine reached.invariant (I := fun s => Pool.Each (fun _ t => t.nests = true) s.threads) ?_ ?_
  · rintro _ ⟨others, rfl⟩
    exact Thread.startWith_nests
  · rintro s ⟨i, l⟩ s' - inv - taken
    obtain ⟨t, shared, t', found, step, -, rfl⟩ := step_of_taken taken
    exact Pool.interference_free inv (step.nests (inv i t found)) fun _ _ _ _ nests => nests

/-- A reached state in which the flag is set. -/
structure Flagged (n : Nat) (retries : Bool) (s : State) : Prop where
  reached : (machine n retries).Reaches s
  flag : s.shared.shutdown = true

/-- A step keeps the flag set, and takes a worker that steps in its loop nearer to the end. -/
theorem Flagged.step {n : Nat} {retries : Bool} {s s' : State} {a : Nat × Label}
    (inv : Flagged n retries s) (taken : (machine n retries).step s a = some s') (i : Nat) :
    Flagged n retries s' ∧
      (s'.threads[i]?).elim 0 (Thread.left n) + (stepsOf Thread.atLoop i s a).toNat ≤
        (s.threads[i]?).elim 0 (Thread.left n) ∧
      (s'.threads[i]?).elim 0 (·.mayStart.toNat) + (stepsOf Thread.starts i s a).toNat ≤
        (s.threads[i]?).elim 0 (·.mayStart.toNat) := by
  obtain ⟨j, l⟩ := a
  have reached' : (machine n retries).Reaches s' := .step inv.reached trivial taken
  obtain ⟨t, shared, t', found, step, moved, rfl⟩ := step_of_taken taken
  refine ⟨⟨reached', step.flag inv.flag⟩, ?_⟩
  by_cases same : j = i
  · subst same
    have nearer := left_of_move inv.flag (nests inv.reached j t found) moved
    simpa [stepsOf, found, Pool.getElem?_set_self t' found] using nearer
  · simp [stepsOf, same, List.getElem?_set_ne same]

/-- **A worker stops soon.** Once the flag is set, over any run of all threads, each worker takes at
most `n + 12` more steps in its loop, one round through it, and starts at most one more entry
there. -/
theorem stops_soon {n : Nat} {retries : Bool} {s s' : State} {i : Nat}
    {labels : List (Nat × Label)} (reached : (machine n retries).Reaches s)
    (flag : s.shared.shutdown = true) (within : i < n)
    (ran : (machine n retries).run s labels = some s') :
    (machine n retries).count (stepsOf Thread.atLoop i) s labels ≤ n + 12 ∧
      (machine n retries).count (stepsOf Thread.starts i) s labels ≤ 1 := by
  have inv : Flagged n retries s := ⟨reached, flag⟩
  have loops := Machine.count_le_of_lowers (fun _ _ _ inv taken => (inv.step taken i).1)
    (fun _ _ _ inv taken => (inv.step taken i).2.1) inv ran
  have starts := Machine.count_le_of_lowers (fun _ _ _ inv taken => (inv.step taken i).1)
    (fun _ _ _ inv taken => (inv.step taken i).2.2) inv ran
  have steps : (s.threads[i]?).elim 0 (Thread.left n) ≤ n + 12 := by
    cases s.threads[i]? with
    | none => exact Nat.zero_le _
    | some t => exact t.left_le (Nat.zero_lt_of_lt within)
  have entries : (s.threads[i]?).elim 0 (·.mayStart.toNat) ≤ 1 := by
    cases s.threads[i]? with
    | none => exact Nat.zero_le _
    | some t => exact Bool.toNat_le _
  omega

/-- The worker has passed the head of its loop, and an entry waits, when the flag is set. -/
def flaggedPastHead : List (Nat × Label) :=
  [(1, .begin .spawn), (0, .next false), (2, .begin .shutdown)]

/-- It starts the entry, comes back to the head and ends. -/
def lastRound : List (Nat × Label) :=
  List.replicate 6 (0, .next false) ++ [(0, .finish), (0, .next false)]

theorem stops_soon_started : ∃ s s' : State, (machine 1 false).run s lastRound = some s' ∧
    s'.shared.exited = [0] ∧
    (machine 1 false).count (stepsOf Thread.atLoop 0) s lastRound ≤ 13 ∧
    (machine 1 false).count (stepsOf Thread.starts 0) s lastRound ≤ 1 := by
  obtain ⟨s, start⟩ := Option.isSome_iff_exists.mp
    (by decide : ((machine 1 false).run (startWith 1 2) flaggedPastHead).isSome = true)
  have reached : (machine 1 false).Reaches s :=
    Machine.reachesWhen_of_runWhen (.start ⟨2, rfl⟩) start
  obtain ⟨s', later⟩ := Option.isSome_iff_exists.mp
    (by decide : ((machine 1 false).run (startWith 1 2)
      (flaggedPastHead ++ lastRound)).isSome = true)
  have tested : ((machine 1 false).run (startWith 1 2) flaggedPastHead).map
      (·.shared.shutdown) = some true := by decide
  have ended : ((machine 1 false).run (startWith 1 2) (flaggedPastHead ++ lastRound)).map
      (·.shared.exited) = some [0] := by decide
  rw [start] at tested
  rw [later] at ended
  rw [Machine.run_append, start] at later
  exact ⟨s, s', later, Option.some.inj ended,
    stops_soon reached (Option.some.inj tested) Nat.zero_lt_one later⟩

/-! ## After the joins -/

/-- Shutdown has joined all workers before it returns. -/
def JoinedAll (n : Nat) (s : State) : Prop :=
  Pool.Each (fun _ t => t.point = .shutdown .unlockUnparkers → ∀ w, w < n → w ∈ s.shared.exited)
    s.threads

theorem Step.exited_subset {n : Nat} {retries : Bool} {i : Nat} {s s' : Shared} {t t' : Thread}
    (step : Step n retries i s t s' t') {w : Nat} (member : w ∈ s.exited) : w ∈ s'.exited := by
  rcases step.exited.2 with same | ⟨more, -⟩
  · exact same ▸ member
  · exact more ▸ List.mem_cons_of_mem i member

/-- Shutdown goes on from its joins after the last one. -/
theorem Step.joinedAll {n : Nat} {retries : Bool} {i : Nat} {s s' : Shared} {t t' : Thread}
    (step : Step n retries i s t s' t') (here : t'.point = .shutdown .unlockUnparkers) :
    ∃ k, t.point = .shutdown (.join k) ∧ n ≤ k := by
  cases step with
  | @joined _ k all => exact ⟨k, rfl, all⟩
  | finish | notifyReturn | helpUnlockNone | processReturn | shutdownReturn =>
      exact absurd here (Thread.resume_ne_shutdown _ _)
  | _ => cases here

theorem joinedAll {n : Nat} {retries : Bool} {ok : State → Nat × Label → Prop} {s : State}
    (reached : (machine n retries).ReachesWhen ok s) : JoinedAll n s := by
  refine reached.invariant (I := JoinedAll n) ?_ ?_
  · rintro _ ⟨others, rfl⟩ i t found here
    rcases startWith_cases found with ⟨-, rfl⟩ | ⟨-, rfl⟩ <;> cases here
  · rintro s ⟨i, l⟩ s' before inv - taken
    obtain ⟨t, shared, t', found, step, -, rfl⟩ := step_of_taken taken
    refine Pool.interference_free inv ?_ ?_
    · intro here w within
      obtain ⟨k, joining, all⟩ := step.joinedAll here
      have exited := (ended before).joined i t found k joining w (Nat.lt_of_lt_of_le within all)
      exact step.exited_subset exited
    · intro j u _ _ joined here w within
      exact step.exited_subset (joined here w within)

/-- **When shutdown returns, every worker has ended**, and it never steps again: in every later
state of every run it is where it was. -/
theorem shutdown_ends_all {n : Nat} {retries : Bool} {s s' : State} {i : Nat} {t : Thread}
    {labels : List (Nat × Label)} (reached : (machine n retries).Reaches s)
    (found : s.threads[i]? = some t) (here : t.point = .shutdown .unlockUnparkers)
    (ran : (machine n retries).run s labels = some s') :
    ∀ w, w < n → ∃ u, s'.threads[w]? = some u ∧ u.point = .worker .exited := by
  intro w within
  have exited : w ∈ s.shared.exited := joinedAll reached i t found here w within
  have later : (machine n retries).Reaches s' ∧ w ∈ s'.shared.exited := by
    refine Machine.runWhen_invariant (I := fun s => w ∈ s.shared.exited) ?_ reached exited ran
    rintro s ⟨j, l⟩ s' - member - taken
    obtain ⟨t, shared, t', -, step, -, rfl⟩ := step_of_taken taken
    exact step.exited_subset member
  exact (ended later.1).exited w later.2

/-- Two idle workers are shut down. -/
def shutsTwoDown : List (Nat × Label) :=
  (2, .begin .shutdown) :: List.replicate 5 (2, .next false) ++
    [(0, .next false), (1, .next false)] ++ List.replicate 3 (2, .next false)

theorem shutdown_ends_all_two : ∃ s : State, s.threads[2]? = some ⟨.shutdown .unlockUnparkers, []⟩ ∧
    ∀ w, w < 2 → ∃ u, s.threads[w]? = some u ∧ u.point = .worker .exited := by
  obtain ⟨s, reached, tested⟩ := (machine 2 false).exists_reaches_of_test
    (fun s => s.threads[2]? == some ⟨.shutdown .unlockUnparkers, []⟩) shutsTwoDown ⟨1, rfl⟩
    (by decide)
  have found : s.threads[2]? = some ⟨.shutdown .unlockUnparkers, []⟩ := by simpa using tested
  have stays : (machine 2 false).run s [] = some s := rfl
  exact ⟨s, found, shutdown_ends_all reached found rfl stays⟩

end LoonyRuntime.Runtime.MultiThread
