import LoonyRuntime.Runtime.MultiThread.Steps

/-!
# Workers asleep

A push is not made under `shared.mutex`, but its notification is. A worker that has found the
injector empty keeps the mutex until it waits, so that the notification of a later push comes
after. `Alert` is the invariant: when a worker is about to wait, or all workers are asleep, the
injector is empty or a pusher has yet to notify (`Covered`). So the workers do not all sleep on
pending work (`some_worker_awake`).
-/

set_option autoImplicit false

namespace LoonyRuntime.Runtime.MultiThread

open Concurrent

namespace Thread

/-- A pusher between its push and its `notify_one`. -/
def pushing (t : Thread) : Nat :=
  match t.point with
  | .notifyWorker .lockMutex | .notifyWorker .notify => 1
  | _ => 0

/-- A worker that has found the injector empty and is about to wait. -/
def checked (t : Thread) : Bool :=
  match t.point with
  | .worker .whileHead | .worker .wait => true
  | _ => false

/-- A thread inside `WorkerThread::run`. -/
def isWorker (t : Thread) : Bool :=
  (match t.point with
    | .worker _ => true
    | _ => false) || t.below.contains .worker

theorem resume_pushing (b : List Caller) :
    (resume b).pushing = 0 ∧ (resume b).checked = false := by
  cases b with
  | nil => exact ⟨rfl, rfl⟩
  | cons caller rest => cases caller <;> exact ⟨rfl, rfl⟩

theorem holdsMutex_of_checked {t : Thread} (checked : t.checked = true) :
    t.holdsMutex = true := by
  obtain ⟨point, below⟩ := t
  unfold Thread.checked at checked
  split at checked
  · next same =>
      cases same
      rfl
  · next same =>
      cases same
      rfl
  · cases checked

theorem isWorker_of_waits {t : Thread} (waits : t.waits = true) : t.isWorker = true := by
  unfold Thread.waits at waits
  split at waits
  · next same => simp [isWorker, same]
  · cases waits

theorem isWorker_of_resume {b : List Caller} (worker : (resume b).isWorker = true) :
    b.contains .worker = true := by
  cases b with
  | nil => cases worker
  | cons caller rest =>
      cases caller with
      | worker => rfl
      | run e => simpa [resume, Caller.resume, isWorker] using worker
      | processSomeTasks left => simpa [resume, Caller.resume, isWorker] using worker

end Thread

/-- The injector is empty, or a pusher has yet to notify. -/
def Covered (s : State) : Prop :=
  s.shared.injector = [] ∨ 0 < total Thread.pushing s.threads

/-- Only workers sleep, and a worker about to wait or a sleep of all workers is covered. -/
structure Alert (n : Nat) (s : State) : Prop where
  workers : Pool.Each (fun i t => t.isWorker = true → i < n) s.threads
  checked : Pool.Each (fun _ t => t.checked = true → Covered s) s.threads
  asleep : (∀ i, i < n → i ∈ s.shared.mutex.waiting) → Covered s

section Steps

variable {n : Nat} {retries : Bool} {i : Nat} {s s' : Shared} {t t' : Thread}

/-- Every step but the notification keeps a state covered. -/
theorem Step.covers (step : Step n retries i s t s' t') (R : Nat)
    (silent : t.point ≠ .notifyWorker .notify)
    (covered : s.injector = [] ∨ 0 < t.pushing + R) : s'.injector = [] ∨ 0 < t'.pushing + R := by
  cases step with
  | notify => exact absurd rfl silent
  | spawn | spawnInRun => exact .inr (Nat.lt_of_lt_of_le Nat.one_pos (Nat.le_add_right 1 R))
  | injectorFound queue | checkStealFound queue | wakeStealFound queue | helpInjectorFound queue
  | processFound queue =>
      rcases covered with empty | pending
      · rw [queue] at empty
        cases empty
      · exact .inr pending
  | finish | notifyReturn | helpUnlockNone | processReturn | shutdownReturn =>
      rw [(Thread.resume_pushing _).1]
      exact covered
  | _ => exact covered

/-- A worker comes to the point before the wait with the injector empty, or from there. -/
theorem Step.checks (step : Step n false i s t s' t') (checked : t'.checked = true) :
    s'.injector = [] ∨ t.checked = true ∧ t.point ≠ .notifyWorker .notify := by
  cases step with
  | checkStealNone empty | wakeStealNone empty => exact .inl (empty.resolve_left Bool.false_ne_true)
  | whileRunning => exact .inr ⟨rfl, nofun⟩
  | finish | notifyReturn | helpUnlockNone | processReturn | shutdownReturn =>
      rw [(Thread.resume_pushing _).2] at checked
      cases checked
  | _ => cases checked

/-- A thread inside `WorkerThread::run` was inside of it. -/
theorem Step.isWorker (step : Step n retries i s t s' t') (worker : t'.isWorker = true) :
    t.isWorker = true := by
  cases step with
  | finish | notifyReturn | helpUnlockNone | processReturn | shutdownReturn =>
      simpa [Thread.isWorker] using Thread.isWorker_of_resume worker
  | spawnInRun | helpInRun | processInRun | shutdownInRun | processFound =>
      simpa [Thread.isWorker] using worker
  | run | notifyLock | notify | notifyUnlock | notifyLockUnparkers | notifyUnpark | helpLock
  | helpFound | helpNext | helpNone | helpInjectorFound | helpInjectorNone | helpUnlockFound
  | shutdownLock | notifyAll | shutdownUnlock | shutdownLockUnparkers | unparkAll | join | joined
  | spawn | help | process | shutdown => exact worker
  | _ => rfl

/-- The notification is made under the mutex, and takes one of those asleep, if any. -/
theorem Step.notifies (step : Step n retries i s t s' t')
    (notifies : t.point = .notifyWorker .notify) :
    t.holdsMutex = true ∧ t'.checked = false ∧
      ∃ choice, s.mutex.notifyOne choice = some s'.mutex := by
  cases step with
  | notify notified => exact ⟨rfl, rfl, _, notified⟩
  | _ => cases notifies

end Steps

theorem alert_startWith {n : Nat} (others : Nat) : Alert n (startWith n others) := by
  refine ⟨fun i t found worker => ?_, fun i t found checked => ?_, fun _ => .inl rfl⟩
  · rcases startWith_cases found with ⟨within, -⟩ | ⟨-, rfl⟩
    · exact within
    · cases worker
  · rcases startWith_cases found with ⟨-, rfl⟩ | ⟨-, rfl⟩ <;> cases checked

/-- **Every step keeps the scheduler alert**, if steals succeed whenever they can. -/
theorem Alert.step {n : Nat} (some_worker : 0 < n) {s s' : State} {a : Nat × Label}
    (locks : Locked s) (inv : Alert n s) (taken : (machine n false).step s a = some s') :
    Alert n s' := by
  obtain ⟨i, l⟩ := a
  obtain ⟨t, shared, t', found, step, -, rfl⟩ := step_of_taken taken
  have covers : t.point ≠ .notifyWorker .notify → Covered s →
      Covered ⟨shared, s.threads.set i t'⟩ := by
    intro silent covered
    simp only [Covered, total_eq_others found, total_set_others t' found] at covered ⊢
    exact step.covers _ silent covered
  refine ⟨?_, ?_, fun all => ?_⟩
  · exact Pool.interference_free inv.workers
      (fun worker => inv.workers i t found (step.isWorker worker)) fun _ _ _ _ => id
  · refine Pool.interference_free inv.checked (fun now => ?_) fun j u other foundU before now => ?_
    · rcases step.checks now with empty | ⟨checked, silent⟩
      · exact .inl empty
      · exact covers silent (inv.checked i t found checked)
    · by_cases notifies : t.point = .notifyWorker .notify
      · have hold := (step.notifies notifies).1
        exact absurd (locks.mutex.exclusive foundU found (Thread.holdsMutex_of_checked now) hold)
          other
      · exact covers notifies (before now)
  · by_cases notifies : t.point = .notifyWorker .notify
    · -- a notification leaves some worker awake: nobody slept, or its choice did
      obtain ⟨-, -, choice, notified⟩ := step.notifies notifies
      exfalso
      rcases Monitor.notifyOne_eq_some notified with ⟨empty, same⟩ | ⟨chosen, same⟩
      · have first := all 0 some_worker
        rw [same, empty] at first
        cases first
      · obtain ⟨u, foundU, waits⟩ := locks.mutex.waiting choice chosen
        have within := inv.workers choice u foundU (Thread.isWorker_of_waits waits)
        have still := all choice within
        rw [same, Monitor.mem_leave_waiting] at still
        exact still.2 rfl
    · apply covers notifies
      cases waits : t'.waits with
      | true => exact inv.checked i t found (by simp [Thread.checked, step.waits waits])
      | false =>
          apply inv.asleep
          intro j within
          rcases step.usesMutex.mem_waiting (all j within) with before | ⟨-, -, enters⟩
          · exact before
          · rw [waits] at enters
            cases enters

/-- **The workers do not all sleep on pending work.** If the injector is not empty and no pusher
is between its push and its notification, some worker is not blocked in the wait. -/
theorem some_worker_awake {n : Nat} (some_worker : 0 < n) {s : State}
    (reached : (machine n false).Reaches s) (work : s.shared.injector ≠ [])
    (notified : ∀ t ∈ s.threads,
      t.point ≠ .notifyWorker .lockMutex ∧ t.point ≠ .notifyWorker .notify) :
    ∃ i, i < n ∧ i ∉ s.shared.mutex.waiting := by
  have inv : Alert n s := by
    refine reached.invariant ?_ ?_
    · rintro _ ⟨others, rfl⟩
      exact alert_startWith others
    · exact fun s a s' before inv _ taken => inv.step some_worker (locked before) taken
  by_contra none
  have all : ∀ i, i < n → i ∈ s.shared.mutex.waiting := fun i within => by
    by_contra awake
    exact none ⟨i, within, awake⟩
  rcases inv.asleep all with empty | pending
  · exact work empty
  · obtain ⟨t, member, pushing⟩ := exists_of_total_pos pending
    obtain ⟨locking, notifying⟩ := notified t member
    unfold Thread.pushing at pushing
    split at pushing
    · next same => exact locking same
    · next same => exact notifying same
    · cases pushing

/-- The only worker falls asleep, and an entry is pushed and notified. -/
def notifiedAsleep : List (Nat × Label) :=
  List.replicate 12 (0, .next false) ++
    [(1, .begin .spawn), (1, .next false), (1, .notify 0), (1, .next false)]

/-- In such a run the worker is awake. -/
theorem some_worker_awake_notifiedAsleep : ∃ s, (machine 1 false).Reaches s ∧
    s.shared.injector = [0] ∧ ∃ i, i < 1 ∧ i ∉ s.shared.mutex.waiting := by
  obtain ⟨s, reached, tested⟩ := (machine 1 false).exists_reaches_of_test
    (fun s => s.shared.injector == [0] && s.threads.all fun t =>
      t.point != .notifyWorker .lockMutex && t.point != .notifyWorker .notify)
    notifiedAsleep ⟨1, rfl⟩ (by decide)
  simp only [Bool.and_eq_true, beq_iff_eq, List.all_eq_true, bne_iff_ne] at tested
  obtain ⟨work, notified⟩ := tested
  exact ⟨s, reached, work, some_worker_awake Nat.one_pos reached (by simp [work]) notified⟩

end LoonyRuntime.Runtime.MultiThread
