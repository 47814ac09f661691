import LoonyRuntime.Runtime.Context

/-!
# The context of a worker's thread

`WorkerThread::run` writes two cells of its thread: `CURRENT_CONTEXT` gets the `Shared` of its
runtime and `CURRENT_WORKER` its number. A `ContextGuard` of `MultiThread::block_on` saves and
restores both. An `EnterGuard` of `Handle::enter` saves and restores the context alone, so that a
handle of another runtime leaves the number of the worker beside a `Shared` it does not belong to.

The thread is the one of `Runtime.Context`, with the worker that runs on it. Where guards are
dropped newest first, a drop puts back the two cells as they were before its guard, and they are
paired along a run exactly when, while a worker is set, `Handle::enter` puts no other `Shared` than
that of the worker's runtime (`paired_along_iff_nested`).
-/

set_option autoImplicit false

namespace LoonyRuntime.Runtime.Context

open Concurrent Scoped

/-! ## A thread with its worker -/

/-- A thread, with the runtime and the number of the worker that runs on it. -/
structure WorkerState extends State where
  home : Option (Nat × Nat)
deriving DecidableEq, Repr

/-- What the thread does. -/
inductive WorkerOp where
  /-- `WorkerThread::run` is entered, as the code of a new thread. -/
  | start (runtime index : Nat)
  /-- `WorkerThread::run` is left, inside no `block_on`. -/
  | stop
  /-- Code of the user. -/
  | user (op : Op)
deriving DecidableEq, Repr

namespace WorkerState

/-- `current_shared`. -/
def currentShared (s : WorkerState) : Option Nat := s.context.cell

/-- `current_worker`. -/
def currentWorker (s : WorkerState) : Option Nat := s.worker

/-- The runtime whose worker runs on the thread. -/
def homeShared (s : WorkerState) : Option Nat := s.home.map Prod.fst

def step (s : WorkerState) : WorkerOp → Option WorkerState
  | .start runtime index =>
      if s.home = none ∧ s.context.live = [] ∧ s.kind runtime = some .multiThread then
        some { s with
          context := ⟨some runtime, []⟩, worker := some index, home := some (runtime, index) }
      else none
  | .stop =>
      if s.home ≠ none ∧ s.innermost = none then
        some { s with context := s.context.clear, worker := none, home := none }
      else none
  | .user op => (Context.step s.toState op).map fun thread => { s with toState := thread }

end WorkerState

/-- The machine of a thread on which a worker may run. -/
def workerThread : Machine WorkerState WorkerOp where
  initial s := s = ⟨fresh, none⟩
  step := WorkerState.step

/-! ## The two cells -/

/-- A worker is set beside the `Shared` of the runtime whose worker it is. -/
def PairedAs (home : Option (Nat × Nat)) (shared worker : Option Nat) : Prop :=
  ∀ i, worker = some i → ∃ runtime, home = some (runtime, i) ∧ shared = some runtime

theorem pairedAs_none (home : Option (Nat × Nat)) (shared : Option Nat) :
    PairedAs home shared none := nofun

/-- Beside a worker of this thread, the one `Shared` that pairs is that of its runtime. -/
theorem pairedAs_iff {home : Option (Nat × Nat)} {shared shared' worker : Option Nat}
    (paired : PairedAs home shared worker) :
    PairedAs home shared' worker ↔ worker = none ∨ shared' = home.map Prod.fst := by
  cases worker with
  | none => exact iff_of_true (pairedAs_none home shared') (.inl rfl)
  | some i =>
      obtain ⟨runtime, rfl, -⟩ := paired i rfl
      constructor
      · intro paired'
        obtain ⟨runtime', same, rfl⟩ := paired' i rfl
        exact .inr (congrArg (Option.map Prod.fst) same).symm
      · rintro (none | rfl) j set
        · cases none
        · cases set
          exact ⟨runtime, rfl, rfl⟩

/-- `current_worker()` is `Some(i)` only on the thread of worker `i`, with `current_shared()` the
`Shared` of its runtime. -/
def Paired (s : WorkerState) : Prop := PairedAs s.home s.currentShared s.currentWorker

instance (s : WorkerState) : Decidable (Paired s) :=
  decidable_of_iff (s.worker = none ∨ ∃ i ∈ s.worker, ∃ r ∈ s.homeShared,
      s.home = some (r, i) ∧ s.context.cell = some r) <| by
    constructor
    · rintro (none | ⟨i, set, r, -, home, shared⟩) j here
      · rw [WorkerState.currentWorker, none] at here
        cases here
      · obtain rfl : i = j := Option.some.inj (set.symm.trans here)
        exact ⟨r, home, shared⟩
    · intro paired
      cases worker : s.worker with
      | none => exact .inl rfl
      | some i =>
          obtain ⟨r, home, shared⟩ := paired i worker
          exact .inr ⟨i, rfl, r, by simp [WorkerState.homeShared, home], home, shared⟩

/-- While a worker is set, `Handle::enter` is called on handles of its runtime alone. -/
def entersOwn (s : WorkerState) : WorkerOp → Bool
  | .user (.enter handle) =>
      s.worker.isNone || s.handles[handle]?.map (·.handle.shared) == s.homeShared
  | _ => true

/-- Guards are dropped newest first, and no runtime is shut down. -/
def dropsNewest (s : WorkerState) : WorkerOp → Bool
  | .user (.dropEnterGuard guard) => guard == 0
  | .user .exitBlockOn => s.innermost == some 0
  | .user (.shutdown _) => false
  | _ => true

/-! ## What an operation does to the two cells -/

/-- What an operation does to the context, the guards and the worker. -/
inductive Sets (s s' : WorkerState) : WorkerOp → Prop where
  | leaves {op : WorkerOp} (context : s'.context = s.context) (worker : s'.worker = s.worker)
      (home : s'.home = s.home) (silent : entersOwn s op = true) : Sets s s' op
  | starts {runtime index : Nat} (context : s'.context = ⟨some runtime, []⟩)
      (worker : s'.worker = some index) (home : s'.home = some (runtime, index)) :
      Sets s s' (.start runtime index)
  | stops (context : s'.context = s.context.clear) (outside : s.innermost = none)
      (worker : s'.worker = none) : Sets s s' .stop
  | enters {handle : Nat} (o : Obtained) (found : s.handles[handle]? = some o)
      (context : s'.context = s.context.enter LiveGuard.shared (.enterGuard o))
      (worker : s'.worker = s.worker) (home : s'.home = s.home) :
      Sets s s' (.user (.enter handle))
  | drops {guard : Nat} {o : Obtained} {old : Option Nat}
      (found : s.context.live[guard]? = some ⟨.enterGuard o, old⟩)
      (context : s'.context = ⟨old, s.context.live.eraseIdx guard⟩)
      (worker : s'.worker = s.worker) (home : s'.home = s.home) :
      Sets s s' (.user (.dropEnterGuard guard))
  | enterBlockOn {runtime : Nat}
      (context : s'.context = s.context.enter LiveGuard.shared (.contextGuard runtime s.worker))
      (worker : s'.worker = none) (home : s'.home = s.home) :
      Sets s s' (.user (.enterBlockOn runtime))
  | exitBlockOn {guard runtime : Nat} {oldWorker old : Option Nat}
      (innermost : s.innermost = some guard)
      (found : s.context.live[guard]? = some ⟨.contextGuard runtime oldWorker, old⟩)
      (context : s'.context = ⟨old, s.context.live.eraseIdx guard⟩)
      (worker : s'.worker = oldWorker) (home : s'.home = s.home) :
      Sets s s' (.user .exitBlockOn)

/-- **What an operation does to the two cells.** -/
theorem sets_of_step {s s' : WorkerState} {op : WorkerOp}
    (newest : dropsNewest s op = true) (taken : s.step op = some s') : Sets s s' op := by
  cases op with
  | start runtime index =>
      obtain ⟨-, same⟩ := Option.ite_none_right_eq_some.mp taken
      cases same
      exact .starts rfl rfl rfl
  | stop =>
      obtain ⟨⟨-, outside⟩, same⟩ := Option.ite_none_right_eq_some.mp taken
      cases same
      exact .stops rfl outside rfl
  | user op =>
      obtain ⟨thread, moved, rfl⟩ := Option.map_eq_some_iff.mp taken
      cases op with
      | new kind =>
          cases moved
          exact .leaves rfl rfl rfl rfl
      | handle runtime =>
          obtain ⟨h, -, rfl⟩ := Option.map_eq_some_iff.mp moved
          exact .leaves rfl rfl rfl rfl
      | clone handle =>
          obtain ⟨o, -, rfl⟩ := Option.map_eq_some_iff.mp moved
          exact .leaves rfl rfl rfl rfl
      | enter handle =>
          obtain ⟨o, found, rfl⟩ := Option.map_eq_some_iff.mp moved
          exact .enters o found rfl rfl rfl
      | guardHandle guard =>
          simp only [Context.step] at moved
          split at moved
          · cases moved
            exact .leaves rfl rfl rfl rfl
          · cases moved
      | current =>
          obtain ⟨h, -, rfl⟩ := Option.map_eq_some_iff.mp moved
          exact .leaves rfl rfl rfl rfl
      | dropEnterGuard guard =>
          simp only [Context.step, State.dropEnterGuard] at moved
          split at moved
          · next o old found =>
              obtain ⟨c, dropped, rfl⟩ := Option.map_eq_some_iff.mp moved
              simp only [Guarded.drop, found, Option.map_some, Option.some.injEq] at dropped
              exact .drops found dropped.symm rfl rfl
          · cases moved
      | enterBlockOn runtime =>
          simp only [Context.step] at moved
          split at moved
          · cases moved
            exact .enterBlockOn rfl rfl rfl
          · cases moved
      | exitBlockOn =>
          simp only [Context.step, State.exitBlockOn] at moved
          split at moved
          · cases moved
          · next guard innermost =>
              split at moved
              · next runtime oldWorker old found =>
                  obtain ⟨c, dropped, rfl⟩ := Option.map_eq_some_iff.mp moved
                  simp only [Guarded.drop, found, Option.map_some, Option.some.injEq] at dropped
                  exact .exitBlockOn innermost found dropped.symm rfl rfl
              · cases moved
      | shutdown runtime => cases newest

/-- Outside every `block_on` there is no `ContextGuard`. -/
theorem not_mem_of_innermost {s : State} (outside : s.innermost = none) {runtime : Nat}
    {oldWorker old : Option Nat} : ⟨.contextGuard runtime oldWorker, old⟩ ∉ s.context.live := by
  intro member
  have quiet := List.findIdx?_eq_none_iff.mp outside _ member
  cases quiet

/-! ## Guards that are dropped newest first -/

/-- The two cells are paired, and so are those that the guards restore, newest first. -/
def Unwinds (home : Option (Nat × Nat)) :
    Option Nat → Option Nat → List (Saved LiveGuard Nat) → Prop
  | shared, worker, [] => PairedAs home shared worker
  | shared, worker, ⟨.enterGuard _, old⟩ :: older =>
      PairedAs home shared worker ∧ Unwinds home old worker older
  | shared, worker, ⟨.contextGuard _ oldWorker, old⟩ :: older =>
      PairedAs home shared worker ∧ Unwinds home old oldWorker older

theorem Unwinds.paired {home : Option (Nat × Nat)} {shared worker : Option Nat}
    {live : List (Saved LiveGuard Nat)} (unwinds : Unwinds home shared worker live) :
    PairedAs home shared worker := by
  unfold Unwinds at unwinds
  split at unwinds
  · exact unwinds
  · exact unwinds.1
  · exact unwinds.1

/-- Beside no worker, guards of `Handle::enter` alone unwind. -/
theorem unwinds_of_no_worker (home : Option (Nat × Nat)) (shared : Option Nat)
    {live : List (Saved LiveGuard Nat)}
    (outside : ∀ runtime oldWorker old, ⟨.contextGuard runtime oldWorker, old⟩ ∉ live) :
    Unwinds home shared none live := by
  induction live generalizing shared with
  | nil => exact pairedAs_none home shared
  | cons saved older ih =>
      obtain ⟨guard, old⟩ := saved
      cases guard with
      | enterGuard o =>
          refine ⟨pairedAs_none home shared, ih old ?_⟩
          intro runtime oldWorker old' member
          exact outside runtime oldWorker old' (List.mem_cons_of_mem _ member)
      | contextGuard runtime oldWorker =>
          exact absurd List.mem_cons_self (outside runtime oldWorker old)

/-- The cells of a thread unwind. -/
def WorkerState.Unwinds (s : WorkerState) : Prop :=
  Context.Unwinds s.home s.context.cell s.worker s.context.live

/-- **Where guards are dropped newest first, the cells stay paired exactly if `Handle::enter` puts
the worker's own `Shared`**, and they unwind further. -/
theorem unwinds_step {s s' : WorkerState} {op : WorkerOp} (newest : dropsNewest s op = true)
    (unwinds : s.Unwinds) (sets : Sets s s' op) :
    (Paired s' ↔ entersOwn s op = true) ∧ (entersOwn s op = true → s'.Unwinds) := by
  have silent (own : entersOwn s op = true) (after : s'.Unwinds) :
      (Paired s' ↔ entersOwn s op = true) ∧ (entersOwn s op = true → s'.Unwinds) :=
    ⟨iff_of_true (Context.Unwinds.paired after) own, fun _ => after⟩
  cases sets with
  | leaves context worker home put =>
      refine silent ?_ ?_
      · cases op with
        | user op => cases op <;> first | rfl | exact put
        | _ => rfl
      · rw [WorkerState.Unwinds, context, worker, home]
        exact unwinds
  | starts context worker home =>
      refine silent rfl ?_
      rw [WorkerState.Unwinds, context, worker, home]
      intro i set
      cases set
      exact ⟨_, rfl, rfl⟩
  | stops context outside worker =>
      refine silent rfl ?_
      rw [WorkerState.Unwinds, context, worker]
      refine unwinds_of_no_worker _ _ ?_
      intro runtime oldWorker old
      exact not_mem_of_innermost outside
  | @enters handle o found context worker home =>
      have after : s'.Unwinds ↔ Paired s' ∧ s.Unwinds := by
        rw [WorkerState.Unwinds, Paired, WorkerState.currentShared, WorkerState.currentWorker,
          context, worker, home]
        exact Iff.rfl
      have decides : Paired s' ↔ entersOwn s (.user (.enter handle)) = true := by
        rw [Paired, WorkerState.currentShared, WorkerState.currentWorker, context, worker, home,
          pairedAs_iff (Context.Unwinds.paired unwinds)]
        simp [entersOwn, found, Guarded.enter, LiveGuard.shared, WorkerState.homeShared]
      exact ⟨decides, fun own => after.mpr ⟨decides.mpr own, unwinds⟩⟩
  | @drops guard o old found context worker home =>
      obtain rfl : guard = 0 := eq_of_beq newest
      refine silent rfl ?_
      rw [WorkerState.Unwinds] at unwinds ⊢
      rw [context, worker, home]
      cases live : s.context.live with
      | nil =>
          rw [live] at found
          cases found
      | cons saved older =>
          rw [live] at found unwinds
          cases found
          exact unwinds.2
  | enterBlockOn context worker home =>
      refine silent rfl ?_
      rw [WorkerState.Unwinds, context, worker, home]
      exact ⟨pairedAs_none _ _, unwinds⟩
  | @exitBlockOn guard runtime oldWorker old innermost found context worker home =>
      have first : guard = 0 := by simpa [dropsNewest, innermost] using newest
      subst first
      refine silent rfl ?_
      rw [WorkerState.Unwinds] at unwinds ⊢
      rw [context, worker, home]
      cases live : s.context.live with
      | nil =>
          rw [live] at found
          cases found
      | cons saved older =>
          rw [live] at found unwinds
          cases found
          exact unwinds.2

/-! ## Along every run -/

/-- **Where guards are dropped newest first, worker and context stay paired exactly along the runs
in which** `Handle::enter` is called on handles of the worker's own runtime, while a worker is
set. -/
theorem paired_along_iff_nested (ops : List WorkerOp) :
    (workerThread.restrict dropsNewest).Always Paired ⟨fresh, none⟩ ops ↔
      (workerThread.restrict dropsNewest).Meets (fun s op => entersOwn s op = true) ⟨fresh, none⟩
        ops := by
  refine Machine.always_iff_meets_of (R := WorkerState.Unwinds) ?_ ?_
    (fun _ => nofun) nofun
  · intro s op s' unwinds meets taken
    obtain ⟨newest, taken⟩ := Machine.restrict_step_eq_some taken
    exact (unwinds_step newest unwinds (sets_of_step newest taken)).2 meets
  · intro s op s' unwinds _ taken
    obtain ⟨newest, taken⟩ := Machine.restrict_step_eq_some taken
    exact (unwinds_step newest unwinds (sets_of_step newest taken)).1

/-- A worker of runtime `0` enters a handle of runtime `1`. -/
def entersForeign : List WorkerOp :=
  [.user (.new .multiThread), .user (.new .multiThread), .start 0 3, .user (.handle 1),
    .user (.enter 0)]

/-- The worker is number `3` still, beside the `Shared` of runtime `1`. -/
theorem worker_strays : ∃ s, (workerThread.restrict dropsNewest).Reaches s ∧ ¬Paired s ∧
    s.home = some (0, 3) ∧ s.currentWorker = some 3 ∧ s.currentShared = some 1 := by
  obtain ⟨s, reached, tested⟩ := (workerThread.restrict dropsNewest).exists_reaches_of_test
    (fun s => !decide (Paired s) && (s.home == some (0, 3) && (s.currentWorker == some 3 &&
      s.currentShared == some 1))) entersForeign rfl (by decide)
  refine ⟨s, reached, ?_⟩
  simpa using tested

end LoonyRuntime.Runtime.Context
