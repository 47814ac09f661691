import LoonyRuntime.Task.Scheduling

/-!
# Local tasks and their thread

`task::spawn_local` and `CurrentThread::spawn` make a task with `create_task` and put an entry of it
into the `TASK_QUEUE` of the thread. Only that thread, the home of the task, takes entries from
there. The schedule closure of `create_task` does not know the home: it pushes to the injector of
the current handle of whatever thread wakes the task, or it runs the task on that thread.

The machine is that of `create_task`, with the number of the entries that are in the `TASK_QUEUE`.
The others are in injectors, from which any thread may take them.

A task stays `Confined` to its home exactly along the runs in which every wake that schedules it
does so at home, without a current handle (`confined_along_iff`). In such a run every poll of the
future is executed by the home (`polled_at_home`).
-/

set_option autoImplicit false

namespace LoonyRuntime.Task

open Concurrent

variable {T : Type}

/-! ## The machine -/

/-- A task with the number of its entries in the `TASK_QUEUE` of its home. -/
structure LocalCell (T : Type) where
  cell : Cell T
  taskQueue : Nat

inductive LocalLabel (T : Type) where
  /-- The home takes an entry from its `TASK_QUEUE` and runs it. -/
  | runQueued
  /-- A step of the task. An entry that is run comes from an injector. -/
  | task (l : Label T)

def LocalLabel.base : LocalLabel T → Label T
  | .runQueued => .begin .run
  | .task l => l

/-- The number of entries in the `TASK_QUEUE` after a step of thread `i`. -/
def LocalLabel.queued (home i : Nat) (s : LocalCell T) : LocalLabel T → Option Nat
  | .runQueued => if i = home ∧ 0 < s.taskQueue then some (s.taskQueue - 1) else none
  | .task (.begin .run) => if s.taskQueue < s.cell.queue then some s.taskQueue else none
  | .task _ => some s.taskQueue

/-- One step of thread `i`. -/
def moveLocal (home i : Nat) (s : LocalCell T) (stack : List (Frame T)) (l : LocalLabel T) :
    Option (LocalCell T × List (Frame T)) :=
  (l.queued home i s).bind fun n =>
    (move .createTask s.cell stack l.base).map fun r => (⟨r.1, n⟩, r.2)

abbrev LocalState (T : Type) := Pool (LocalCell T) (List (Frame T))

/-- The spawned task, with its entry in the `TASK_QUEUE` of its home. -/
def spawnedLocally (T : Type) (n : Nat) : LocalState T :=
  ⟨⟨.spawned, 1⟩, List.replicate n []⟩

/-- The machine of a local task. -/
def localMachine (T : Type) (home : Nat) : Machine (LocalState T) (Nat × LocalLabel T) where
  initial s := ∃ n, s = spawnedLocally T n
  step := Pool.step (moveLocal home)

/-! ## Confinement -/

/-- Every poll of the future is executed by the home. -/
def PolledAtHome (home : Nat) (s : LocalState T) : Prop :=
  Pool.Each (fun i stack => (∃ pc, Frame.poll pc ∈ stack) → i = home) s.threads

/-- The task is polled at home, and all its entries are in the queue of the home. -/
def Confined (home : Nat) (s : LocalState T) : Prop :=
  s.shared.taskQueue = s.shared.cell.queue ∧ PolledAtHome home s

/-- No wake pushes the task to an injector, and a wake that runs it does so at home. -/
def staysHome (home : Nat) (s : LocalState T) (a : Nat × LocalLabel T) : Bool :=
  match s.threads[a.1]? with
  | none => true
  | some stack =>
      match opOf s.shared.cell stack a.2.base with
      | .push _ => false
      | .runInline => a.1 == home
      | _ => true

/-- The polls that a thread executes. -/
def pollsOf (stack : List (Frame T)) : Nat :=
  total Frame.polls stack + total Frame.closingPolls stack

theorem pollsOf_pos_iff {stack : List (Frame T)} :
    0 < pollsOf stack ↔ ∃ pc, Frame.poll pc ∈ stack := by
  constructor
  · intro pos
    have one : 0 < total Frame.polls stack ∨ 0 < total Frame.closingPolls stack := by
      unfold pollsOf at pos
      omega
    rcases one with polls | closes
    · obtain ⟨frame, member, counts⟩ := exists_of_total_pos polls
      cases frame with
      | poll pc => exact ⟨pc, member⟩
      | _ => cases counts
    · obtain ⟨frame, member, counts⟩ := exists_of_total_pos closes
      cases frame with
      | poll pc => exact ⟨pc, member⟩
      | _ => cases counts
  · rintro ⟨pc, member⟩
    have polls := le_total (f := Frame.polls) member
    have closes := le_total (f := Frame.closingPolls) member
    unfold pollsOf
    cases pc with
    | deallocate => exact Nat.lt_add_left _ closes
    | _ => exact Nat.lt_add_right _ polls

/-- The entries that an operation takes. -/
def Op.takes : Op → Nat
  | .run => 1
  | _ => 0

/-- The entries that an operation pushes. -/
def Op.pushes : Op → Nat
  | .push _ => 1
  | _ => 0

/-- The polls that an operation begins. -/
def Op.begins : Op → Nat
  | .run | .runInline => 1
  | _ => 0

/-- What an operation does to the entries and to the polls. -/
theorem Account.Step.entries {op : Op} {a a' : Account} (step : Account.Step op a a') :
    a'.queue + op.takes = a.queue + op.pushes ∧ op.begins ≤ a'.inProgress ∧
      a'.inProgress ≤ a.inProgress + op.begins := by
  have last : a.lastReference.toNat ≤ 1 := Bool.toNat_le _
  cases step with
  | proceed user idle live | takeJoin => simp [Op.takes, Op.pushes, Op.begins]
  | run entry after | runInline entry after | dropContext entry user after
  | deallocatePoll entry user after
  | breakOff waker user done after | schedule user idle live after
  | push waker entry user after | inlineReturn waker call user after
  | dropClone waker user after | deallocateDrop call user after | interest marks after
  | quiet user after | clone waker after | complete poll after
  | ready after | release after | abort after | dropHandle after =>
      have queue := congrArg Account.queue after
      have polls := congrArg Account.polls after
      have closing := congrArg Account.closingPolls after
      simp only [Op.takes, Op.pushes, Op.begins, Account.inProgress] at queue polls closing ⊢
      omega

/-- An entry is taken by a call of `Task::run`. -/
theorem eq_run_of_opOf {s : Cell T} {stack : List (Frame T)} {l : Label T}
    (run : opOf s stack l = .run) : l = .begin .run := by
  unfold opOf at run
  split at run
  · next call => cases call <;> first | rfl | cases run
  · cases run
  · cases run
  · next frame rest => exact absurd run (frame.op_ne s).1
  · cases run

/-- What one step of a thread does to the entries and to its polls. -/
theorem entries_of_move {creator : Creator} {s s' : Cell T} {stack after : List (Frame T)}
    {l : Label T} (moved : move creator s stack l = some (s', after)) :
    s'.queue + (opOf s stack l).takes = s.queue + (opOf s stack l).pushes ∧
      (opOf s stack l).begins ≤ pollsOf after ∧
      pollsOf after ≤ pollsOf stack + (opOf s stack l).begins :=
  (move_account (fun _ => 0) moved).entries

section Steps

variable {home : Nat} {s s' : LocalState T} {i : Nat} {l : LocalLabel T}

theorem localStep_of_taken (taken : (localMachine T home).step s (i, l) = some s') :
    ∃ stack n cell after, s.threads[i]? = some stack ∧ l.queued home i s.shared = some n ∧
      move .createTask s.shared.cell stack l.base = some (cell, after) ∧
      s' = ⟨⟨cell, n⟩, s.threads.set i after⟩ := by
  replace taken : Pool.step (moveLocal home) s (i, l) = some s' := taken
  obtain ⟨stack, shared, after, found, moved, rfl⟩ := Pool.step_eq_some taken
  obtain ⟨n, queued, moved⟩ := Option.bind_eq_some_iff.mp moved
  obtain ⟨⟨cell, after⟩, base, same⟩ := Option.map_eq_some_iff.mp moved
  cases same
  exact ⟨stack, n, cell, after, found, queued, base, rfl⟩

/-- From a confined task an entry is taken at home alone. -/
theorem queued_of_confined (confined : s.shared.taskQueue = s.shared.cell.queue) {n : Nat}
    (stack : List (Frame T)) (queued : l.queued home i s.shared = some n) :
    n + (opOf s.shared.cell stack l.base).takes = s.shared.taskQueue ∧
      (opOf s.shared.cell stack l.base = .run → i = home) := by
  cases l with
  | runQueued =>
      simp only [LocalLabel.queued] at queued
      split at queued
      · next both =>
          cases queued
          exact ⟨Nat.sub_add_cancel both.2, fun _ => both.1⟩
      · cases queued
  | task l =>
      unfold LocalLabel.queued at queued
      split at queued
      · next same => cases same
      · split at queued
        · omega
        · cases queued
      · next other same =>
          cases same
          cases queued
          have outside : opOf s.shared.cell stack l ≠ .run := by
            intro run
            exact other (eq_run_of_opOf run)
          refine ⟨?_, fun run => absurd run outside⟩
          unfold Op.takes
          split
          · next run => exact absurd run outside
          · rfl

/-- **A step keeps the task confined exactly when it meets the condition.** -/
theorem confined_step_iff (inv : Confined home s)
    (taken : (localMachine T home).step s (i, l) = some s') :
    Confined home s' ↔ staysHome home s (i, l) = true := by
  obtain ⟨confined, atHome⟩ := inv
  obtain ⟨stack, n, cell, after, found, queued, moved, rfl⟩ := localStep_of_taken taken
  obtain ⟨entries, begins, polls⟩ := entries_of_move moved
  obtain ⟨left, ranAtHome⟩ := queued_of_confined confined stack queued
  have elsewhere : PolledAtHome home ⟨⟨cell, n⟩, s.threads.set i after⟩ ↔
      (0 < pollsOf after → i = home) := by
    rw [pollsOf_pos_iff]
    exact Pool.each_set_iff found atHome fun _ _ _ _ => id
  have before : 0 < pollsOf stack → i = home := fun pos =>
    atHome i stack found (pollsOf_pos_iff.mp pos)
  simp only [Confined, elsewhere, staysHome, found]
  cases kind : opOf s.shared.cell stack l.base with
  | push owned =>
      simp only [kind, Op.takes, Op.pushes] at entries left
      refine iff_of_false ?_ nofun
      rintro ⟨same, -⟩
      omega
  | runInline =>
      simp only [kind, Op.takes, Op.pushes, Op.begins] at entries left begins
      rw [beq_iff_eq]
      constructor
      · exact fun stays => stays.2 begins
      · exact fun same => ⟨by omega, fun _ => same⟩
  | run =>
      simp only [kind, Op.takes, Op.pushes] at entries left
      exact iff_of_true ⟨by omega, fun _ => ranAtHome kind⟩ rfl
  | _ =>
      simp only [kind, Op.takes, Op.pushes, Op.begins] at entries left polls
      refine iff_of_true ⟨by omega, fun pos => before ?_⟩ rfl
      omega

/-- An entry in an injector may be run by any thread that is free. -/
theorem entry_strays {other : Nat} (away : other ≠ home) (free : s.threads[other]? = some [])
    (pushed : s.shared.taskQueue < s.shared.cell.queue) :
    ∃ s', (localMachine T home).step s (other, .task (.begin .run)) = some s' ∧
      ¬PolledAtHome home s' := by
  have entry : 0 < s.shared.cell.queue := Nat.zero_lt_of_lt pushed
  have taken : ∃ shared, (localMachine T home).step s (other, .task (.begin .run)) =
      some ⟨shared, s.threads.set other [.poll .future]⟩ := by
    simp [localMachine, Pool.step, free, moveLocal, LocalLabel.queued, pushed, LocalLabel.base,
      move, Begin.call, entry]
  obtain ⟨shared, taken⟩ := taken
  refine ⟨_, taken, fun atHome => away ?_⟩
  exact atHome other _ (Pool.getElem?_set_self _ free) ⟨.future, List.mem_cons_self⟩

end Steps

theorem confined_spawnedLocally (home n : Nat) : Confined home (spawnedLocally T n) := by
  refine ⟨rfl, ?_⟩
  rintro i stack found ⟨pc, member⟩
  rw [List.eq_of_mem_replicate (List.mem_of_getElem? found)] at member
  cases member

/-- **The task stays confined exactly along the runs whose steps meet the condition.** -/
theorem confined_along_iff (home n : Nat) (labels : List (Nat × LocalLabel T)) :
    (localMachine T home).Always (Confined home) (spawnedLocally T n) labels ↔
      (localMachine T home).Meets (fun s a => staysHome home s a = true) (spawnedLocally T n)
        labels := by
  refine Machine.always_iff_meets (fun s a s' _ inv taken => ?_) (.start ⟨n, rfl⟩)
    (confined_spawnedLocally home n)
  obtain ⟨i, l⟩ := a
  exact confined_step_iff inv taken

/-- **Every poll of a local task is executed at home** in a run in which every wake that schedules
the task does so at home without a current handle. -/
theorem polled_at_home {home : Nat} {s : LocalState T}
    (reached : (localMachine T home).ReachesWhen (fun s a => staysHome home s a = true) s) :
    PolledAtHome home s := by
  have inv : Confined home s := by
    refine reached.invariant ?_ ?_
    · rintro _ ⟨n, rfl⟩
      exact confined_spawnedLocally home n
    · rintro s ⟨i, l⟩ s' - inv meets taken
      exact (confined_step_iff inv taken).mpr meets
  exact inv.2

/-- Thread `0` runs the task, whose future clones its waker and returns `Pending`. -/
def pollsOnce : List (Nat × LocalLabel Nat) :=
  [(0, .runQueued), (0, .task (.begin (.clone true))), (0, .task .pending), (0, .task .next),
    (0, .task .next)]

/-- Thread `i` wakes the clone and runs the task in the schedule closure. -/
def wakesInline (i : Nat) : List (Nat × LocalLabel Nat) :=
  [(i, .task (.begin (.wake .raw .byRef))), (i, .task .next), (i, .task .next),
    (i, .task .runInline)]

/-- Thread `i` is in the body of the future, and in a wake that runs it. -/
def pollsInline (i : Nat) (s : LocalState Nat) : Bool :=
  match s.threads[i]? with
  | some [.poll .future, .wake .raw .byRef .ranInline] => true
  | _ => false

/-- The home wakes its task, and polls it inside of the wake. -/
theorem polled_at_home_wokenAtHome : ∃ s : LocalState Nat,
    (localMachine Nat 0).ReachesWhen (fun s a => staysHome 0 s a = true) s ∧
      pollsInline 0 s = true ∧ PolledAtHome 0 s := by
  obtain ⟨s, reached, tested⟩ := (localMachine Nat 0).exists_reachesWhen_of_test
    (fun s a => staysHome 0 s a = true) (pollsInline 0) (pollsOnce ++ wakesInline 0) ⟨2, rfl⟩
    (by decide)
  exact ⟨s, reached, tested, polled_at_home reached⟩

/-- Another thread without a runtime wakes the task, and polls it inside of the wake. -/
theorem polled_elsewhere : ∃ s : LocalState Nat,
    (localMachine Nat 0).Reaches s ∧ ¬PolledAtHome 0 s := by
  obtain ⟨s, reached, tested⟩ := (localMachine Nat 0).exists_reaches_of_test
    (pollsInline 1) (pollsOnce ++ wakesInline 1) ⟨2, rfl⟩ (by decide)
  refine ⟨s, reached, ?_⟩
  intro atHome
  unfold pollsInline at tested
  split at tested
  · next found => exact absurd (atHome 1 _ found ⟨.future, by simp⟩) (by decide)
  · cases tested

end LoonyRuntime.Task
