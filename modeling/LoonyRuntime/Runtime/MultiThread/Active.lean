import LoonyRuntime.Runtime.MultiThread.Sleep

/-!
# The counter of active workers

A worker takes itself out of `shared.active` before it sleeps, and adds itself again after.
`inSleep` marks the points in between, so that a step changes the counter by what it changes there
(`Step.active`). While the shutdown flag is not set no worker leaves its loop by itself
(`Step.inLoop`), and the counter moves with the workers that are awake in their loops
(`Step.counts`).

The points in between are those of a worker that has executed its `fetch_sub` once more than its
`fetch_add` (`inSleep_of_run`), whichever of the two increments of the source it comes to. So the
counter is the number of workers without those, in every state of every run (`active_exact`).
-/

set_option autoImplicit false

namespace LoonyRuntime.Runtime.MultiThread

open Concurrent

namespace Thread

/-- A worker between its `fetch_sub` on `active` and the `fetch_add` that follows. -/
def inSleep (t : Thread) : Nat :=
  match t.point with
  | .worker .checkPop | .worker .checkSteal | .worker .whileHead | .worker .wait
  | .worker .waiting | .worker .reacquire | .worker .wakePop | .worker .wakeSteal
  | .worker .incActive => 1
  | _ => 0

/-- A worker whose thread has ended. -/
def ended (t : Thread) : Bool :=
  match t.point with
  | .worker .exited => true
  | _ => false

/-- A worker whose thread has not left `WorkerThread::run`. -/
def inLoop (t : Thread) : Bool := t.isWorker && !t.ended

/-- A worker in its loop and not in its sleep section. -/
def awake (t : Thread) : Nat := t.inLoop.toNat - t.inSleep

theorem resume_inSleep (b : List Caller) : (resume b).inSleep = 0 := by
  cases b with
  | nil => rfl
  | cons caller rest => cases caller <;> rfl

/-- A thread that returns to a worker is in the loop of that worker. -/
theorem resume_inLoop (b : List Caller) : (resume b).inLoop = b.contains .worker := by
  cases b with
  | nil => rfl
  | cons caller rest => cases caller <;> simp [resume, Caller.resume, inLoop, isWorker, ended]

theorem awake_add_inSleep (t : Thread) : t.awake + t.inSleep = t.inLoop.toNat := by
  have bound : t.inSleep ≤ t.inLoop.toNat := by
    obtain ⟨point, below⟩ := t
    cases point with
    | worker pc => cases pc <;> simp [inSleep, inLoop, isWorker, ended]
    | _ => exact Nat.zero_le _
  rw [awake]
  omega

end Thread

section Steps

variable {n : Nat} {retries : Bool} {i : Nat} {s s' : Shared} {t t' : Thread}

/-- **A step changes the counter by what it changes in the sleep section.** -/
theorem Step.active (step : Step n retries i s t s' t') :
    s'.active + BitVec.ofNat 64 t'.inSleep = s.active + BitVec.ofNat 64 t.inSleep := by
  cases step with
  | decActive =>
      show s.active - 1#64 + 1#64 = s.active + 0#64
      rw [BitVec.sub_add_cancel, BitVec.add_zero]
  | incActive =>
      show s.active + 1#64 + 0#64 = s.active + 1#64
      rw [BitVec.add_zero]
  | finish | notifyReturn | helpUnlockNone | processReturn | shutdownReturn =>
      rw [Thread.resume_inSleep]
      rfl
  | _ => rfl

/-- No worker leaves its loop before the shutdown flag is set. -/
theorem Step.inLoop (step : Step n retries i s t s' t') (running : s.shutdown = false) :
    t'.inLoop = t.inLoop := by
  cases step with
  | exit shutdown =>
      rw [running] at shutdown
      cases shutdown
  | finish | notifyReturn | helpUnlockNone | processReturn | shutdownReturn =>
      rw [Thread.resume_inLoop]
      simp [Thread.inLoop, Thread.isWorker, Thread.ended]
  | _ => simp [Thread.inLoop, Thread.isWorker, Thread.ended]

/-- **The counter moves with the workers that are awake.** -/
theorem Step.counts (step : Step n retries i s t s' t') (running : s.shutdown = false) {R : Nat}
    (counted : s.active = BitVec.ofNat 64 (t.awake + R)) :
    s'.active = BitVec.ofNat 64 (t'.awake + R) := by
  have loop : t'.awake + t'.inSleep = t.awake + t.inSleep := by
    rw [Thread.awake_add_inSleep, Thread.awake_add_inSleep, step.inLoop running]
  have same : s'.active + BitVec.ofNat 64 t'.inSleep =
      BitVec.ofNat 64 (t'.awake + R) + BitVec.ofNat 64 t'.inSleep := by
    rw [step.active, counted, ← BitVec.ofNat_add, ← BitVec.ofNat_add]
    congr 1
    omega
  exact add_right_cancel same

/-- A step takes a worker into its sleep section by the `fetch_sub`, and out of it by the
`fetch_add`. -/
theorem Step.inSleep (step : Step n retries i s t s' t') :
    t'.inSleep + (t.point == .worker .incActive).toNat =
      t.inSleep + (t.point == .worker .decActive).toNat := by
  cases step with
  | finish | notifyReturn | helpUnlockNone | processReturn | shutdownReturn =>
      rw [Thread.resume_inSleep]
      rfl
  | _ => rfl

end Steps

/-! ## Runs -/

section Runs

variable {n : Nat} {retries : Bool} {s s' : State}

/-- A step of worker `i` at this point of its loop. -/
def executes (i : Nat) (pc : WorkerPc) (s : State) (a : Nat × Label) : Bool :=
  a.1 == i && (s.threads[i]?).any fun t => t.point == .worker pc

/-- The number of times that worker `i` has executed the operation at this point. -/
def executions (n : Nat) (retries : Bool) (i : Nat) (pc : WorkerPc) : State →
    List (Nat × Label) → Nat :=
  (machine n retries).count (executes i pc)

/-- Worker `i` is in its sleep section. -/
def sleeping (i : Nat) (s : State) : Nat := (s.threads[i]?).elim 0 Thread.inSleep

theorem sleeping_of_taken {i : Nat} {a : Nat × Label}
    (taken : (machine n retries).step s a = some s') :
    sleeping i s' + (executes i .incActive s a).toNat =
      sleeping i s + (executes i .decActive s a).toNat := by
  obtain ⟨j, l⟩ := a
  obtain ⟨t, shared, t', found, step, -, rfl⟩ := step_of_taken taken
  by_cases same : j = i
  · subst same
    simp only [sleeping, executes, Pool.getElem?_set_self t' found, found, Option.elim_some,
      Option.any_some, beq_self_eq_true, Bool.true_and]
    exact step.inSleep
  · have other : (j == i) = false := beq_false_of_ne same
    simp only [sleeping, executes, List.getElem?_set_ne same, other, Bool.false_and]

/-- **A worker sleeps exactly if it has executed its `fetch_sub` once more than its
`fetch_add`.** -/
theorem inSleep_of_run {others i : Nat} {labels : List (Nat × Label)}
    (ran : (machine n retries).run (startWith n others) labels = some s) :
    sleeping i s + executions n retries i .incActive (startWith n others) labels =
      executions n retries i .decActive (startWith n others) labels := by
  have start : sleeping i (startWith n others) = 0 := by
    unfold sleeping
    cases found : (startWith n others).threads[i]? with
    | none => rfl
    | some t => rcases startWith_cases found with ⟨-, rfl⟩ | ⟨-, rfl⟩ <;> rfl
  have changed := Machine.count_telescopes (f := sleeping i) (p := executes i .decActive)
    (q := executes i .incActive) (fun _ _ _ taken => sleeping_of_taken taken) ran
  rwa [start, Nat.zero_add] at changed

/-- The counter and the sleepers add up to `n`, and only the first `n` threads are workers. -/
structure Counted (n : Nat) (s : State) : Prop where
  active : s.shared.active + BitVec.ofNat 64 (total Thread.inSleep s.threads) = BitVec.ofNat 64 n
  workers : Pool.Each (fun i t => t.isWorker = true → i < n) s.threads

theorem counted_startWith (n others : Nat) : Counted n (startWith n others) := by
  have none : total Thread.inSleep (startWith n others).threads = 0 := by
    apply total_eq_zero
    intro t member
    obtain ⟨i, found⟩ := List.mem_iff_getElem?.mp member
    rcases startWith_cases found with ⟨-, rfl⟩ | ⟨-, rfl⟩ <;> rfl
  refine ⟨?_, ?_⟩
  · rw [none]
    exact BitVec.add_zero _
  · intro i t found worker
    rcases startWith_cases found with ⟨within, -⟩ | ⟨-, rfl⟩
    · exact within
    · cases worker

/-- **Every step keeps the workers counted.** -/
theorem Counted.step {a : Nat × Label} (inv : Counted n s)
    (taken : (machine n retries).step s a = some s') : Counted n s' := by
  obtain ⟨i, l⟩ := a
  obtain ⟨t, shared, t', found, step, -, rfl⟩ := step_of_taken taken
  refine ⟨?_, ?_⟩
  · have before := inv.active
    rw [total_eq_others found, BitVec.ofNat_add, ← BitVec.add_assoc] at before
    rw [total_set_others t' found, BitVec.ofNat_add, ← BitVec.add_assoc, step.active]
    exact before
  · exact Pool.interference_free inv.workers
      (fun worker => inv.workers i t found (step.isWorker worker)) fun _ _ _ _ => id

/-- **In every reached state the workers are counted.** -/
theorem counted (reached : (machine n retries).Reaches s) : Counted n s := by
  apply reached.invariant
  · rintro s ⟨others, rfl⟩
    exact counted_startWith n others
  · rintro s a s' - inv - taken
    exact inv.step taken

/-- There are at most `n` workers. -/
theorem Counted.workers_le (inv : Counted n s) :
    total (fun t => t.isWorker.toNat) s.threads ≤ n := by
  apply total_le_places
  · intro t
    exact Bool.toNat_le _
  · intro i t found pos
    apply inv.workers i t found
    cases worker : t.isWorker with
    | true => rfl
    | false => simp [worker] at pos

theorem Thread.inSleep_le_isWorker (t : Thread) : t.inSleep ≤ t.isWorker.toNat := by
  have loop := t.awake_add_inSleep
  have bound : t.inLoop.toNat ≤ t.isWorker.toNat := by
    unfold Thread.inLoop
    cases t.isWorker <;> cases t.ended <;> decide
  omega

/-- The sleepers are workers, so there are at most `n`. -/
theorem Counted.inSleep_le (inv : Counted n s) : total Thread.inSleep s.threads ≤ n :=
  (total_le_total Thread.inSleep_le_isWorker).trans inv.workers_le

/-- A worker that is about to leave the counter is still counted. -/
theorem Counted.inSleep_lt {i : Nat} {t : Thread} (inv : Counted n s)
    (found : s.threads[i]? = some t) (leaves : t.point = .worker .decActive) :
    total Thread.inSleep s.threads < n := by
  have awake : t.inSleep = 0 := by
    simp only [Thread.inSleep, leaves]
  have worker : t.isWorker.toNat = 1 := by
    simp [Thread.isWorker, leaves]
  have bound := inv.workers_le
  have rest : others Thread.inSleep i s.threads ≤ others (fun t => t.isWorker.toNat) i s.threads :=
    total_le_total Thread.inSleep_le_isWorker
  rw [total_eq_others found, worker] at bound
  rw [total_eq_others found, awake]
  omega

/-- **The counter is exact.** In every run of any number of workers that fits into a `usize`, the
counter and the workers that have executed their `fetch_sub` once more than their `fetch_add` add
up to the number of workers. So it does not underflow, it is never more than that number, and it
is that number when every worker has left its loop. -/
theorem active_exact (numThreads : BitVec 64) (retries : Bool) (others : Nat)
    (labels : List (Nat × Label)) {s : State}
    (ran : (machine numThreads.toNat retries).run (startWith numThreads.toNat others) labels =
      some s) :
    s.shared.active.toNat + total Thread.inSleep s.threads = numThreads.toNat ∧
      (∀ i, sleeping i s +
          executions numThreads.toNat retries i .incActive (startWith numThreads.toNat others)
            labels =
        executions numThreads.toNat retries i .decActive (startWith numThreads.toNat others)
          labels) ∧
      s.shared.active.toNat ≤ numThreads.toNat ∧
      (∀ (i : Nat) (t : Thread), s.threads[i]? = some t → t.point = .worker .decActive →
        0 < s.shared.active.toNat) ∧
      ((∀ t ∈ s.threads, t.isWorker = true → t.ended = true) → s.shared.active = numThreads) := by
  have inv : Counted numThreads.toNat s :=
    counted (Machine.reachesWhen_of_runWhen (.start ⟨others, rfl⟩) ran)
  have exact : s.shared.active.toNat + total Thread.inSleep s.threads = numThreads.toNat := by
    have active := congrArg BitVec.toNat inv.active
    have bound := inv.inSleep_le
    have counter := s.shared.active.isLt
    have workers := numThreads.isLt
    rw [BitVec.toNat_add, BitVec.toNat_ofNat, BitVec.toNat_ofNat] at active
    omega
  refine ⟨exact, fun i => inSleep_of_run ran, Nat.le.intro exact, ?_, ?_⟩
  · intro i t found leaves
    have asleep := inv.inSleep_lt found leaves
    omega
  · intro ended
    have none : total Thread.inSleep s.threads = 0 := by
      apply total_eq_zero
      intro t member
      have bound := t.inSleep_le_isWorker
      have loop := t.awake_add_inSleep
      unfold Thread.inLoop at loop
      cases worker : t.isWorker with
      | false => simpa [worker] using bound
      | true =>
          rw [worker, ended t member worker] at loop
          simp only [Bool.not_true, Bool.and_false, Bool.toNat_false] at loop
          omega
    apply BitVec.eq_of_toNat_eq
    omega

/-- The steps of a worker that finds no work, up to its `fetch_sub`. -/
def fallsAsleep : List (Nat × Label) := List.replicate 8 (0, .next false)

/-- The only worker has left the counter. -/
theorem active_exact_fallsAsleep : ∃ s : State,
    (machine 1 false).run (startWith 1 0) fallsAsleep = some s ∧ sleeping 0 s = 1 ∧
      s.shared.active.toNat + total Thread.inSleep s.threads = 1 :=
  ⟨_, rfl, rfl, (active_exact 1#64 false 0 fallsAsleep rfl).1⟩

end Runs

end LoonyRuntime.Runtime.MultiThread
