import LoonyRuntime.Concurrent.Machine
import LoonyRuntime.Scoped.Guards

/-!
# Handles and the context of a thread

`CURRENT_CONTEXT` is a cell of the thread that holds the `Shared` of a runtime. An `EnterGuard` of
`Handle::enter` and the `ContextGuard` of a `MultiThread::block_on` write it, save what was there,
and write that back. `MultiThread::shutdown` clears it. `Handle::current` reads it.

A handle reads one of two shutdown flags. A handle of a current-thread runtime carries the flag of
its scheduler; every other handle reads `Shared::shutdown`, which a current-thread runtime has, too,
and never sets. `Handle::current` makes its handle from the `Shared` alone.

The model is one thread with the runtimes that were created, by their index, and the handles that
were obtained. `Handle::current` follows the live guards exactly along the runs in which each drop
leaves as newest a guard of the runtime that was newest when the dropped one was created, and no
multi-thread runtime is shut down while a guard is alive (`current_along_iff`). The handles of a
runtime agree on its shutdown exactly if it has its flag in `Shared`, is not shut down, or has no
handle from `Handle::current` (`agree_iff`).
-/

set_option autoImplicit false

namespace LoonyRuntime.Runtime.Context

open Concurrent Scoped

/-! ## State -/

inductive RuntimeKind where
  | currentThread
  | multiThread
deriving DecidableEq, Repr

/-- A runtime: the flag in its `Shared`, and the flag of a `CurrentThread`. -/
structure Instance where
  kind : RuntimeKind
  sharedShutdown : Bool
  shutdown : Bool
deriving DecidableEq, Repr

/-- `Handle`, with the runtime whose `Shared`, whose injector and whose flag it refers to. -/
structure Handle where
  shared : Nat
  injector : Nat
  shutdown : Option Nat
deriving DecidableEq, Repr

/-- A handle that was obtained. `fromCurrent` says that it comes from `Handle::current`, maybe by
clones. -/
structure Obtained where
  handle : Handle
  fromCurrent : Bool
deriving DecidableEq, Repr

/-- A live guard. -/
inductive LiveGuard where
  /-- `EnterGuard`, with its handle. -/
  | enterGuard (handle : Obtained)
  /-- `ContextGuard` of a `block_on` scope, with the worker it has saved. -/
  | contextGuard (shared : Nat) (oldWorker : Option Nat)
deriving DecidableEq, Repr

/-- The runtime whose `Shared` the guard puts into the cell. -/
def LiveGuard.shared : LiveGuard → Nat
  | .enterGuard o => o.handle.shared
  | .contextGuard shared _ => shared

/-- A thread: `CURRENT_CONTEXT` with the live guards, `CURRENT_WORKER`, the runtimes, the handles,
and the calls of `shutdown` that were made. -/
structure State where
  context : Guarded LiveGuard Nat
  worker : Option Nat
  runtimes : List Instance
  handles : List Obtained
  shutdowns : List Nat
deriving DecidableEq, Repr

/-- A thread without a context, and no runtime yet. -/
def fresh : State := ⟨.new, none, [], [], []⟩

/-! ## Operations -/

namespace State

/-- `CurrentThread::handle` or `MultiThread::handle`. -/
def handle (s : State) (runtime : Nat) : Option Handle :=
  s.runtimes[runtime]?.map fun r =>
    match r.kind with
    | .currentThread => ⟨runtime, runtime, some runtime⟩
    | .multiThread => ⟨runtime, runtime, none⟩

/-- `Handle::current`. -/
def current (s : State) : Option Handle := s.context.cell.map fun r => ⟨r, r, none⟩

/-- `Handle::is_shutdown`. -/
def isShutdown (s : State) (h : Handle) : Bool :=
  match h.shutdown with
  | some runtime => (s.runtimes[runtime]?.map (·.shutdown)).getD false
  | none => (s.runtimes[h.shared]?.map (·.sharedShutdown)).getD false

def obtain (s : State) (o : Obtained) : State := { s with handles := o :: s.handles }

/-- `Handle::enter`. -/
def enter (s : State) (o : Obtained) : State :=
  { s with context := s.context.enter LiveGuard.shared (.enterGuard o) }

/-- The drop of an `EnterGuard`. -/
def dropEnterGuard (s : State) (guard : Nat) : Option State :=
  match s.context.live[guard]? with
  | some ⟨.enterGuard _, _⟩ => (s.context.drop guard).map fun c => { s with context := c }
  | _ => none

/-- `ContextGuard::new`, which `MultiThread::block_on` calls. -/
def enterBlockOn (s : State) (runtime : Nat) : State :=
  { s with
    context := s.context.enter LiveGuard.shared (.contextGuard runtime s.worker), worker := none }

/-- The newest `ContextGuard`, of the innermost `block_on`. -/
def innermost (s : State) : Option Nat :=
  s.context.live.findIdx? fun saved =>
    match saved.guard with
    | .contextGuard _ _ => true
    | .enterGuard _ => false

/-- The drop of a `ContextGuard`, when the innermost `block_on` is left. -/
def exitBlockOn (s : State) : Option State :=
  match s.innermost with
  | none => none
  | some guard =>
      match s.context.live[guard]? with
      | some ⟨.contextGuard _ oldWorker, _⟩ =>
          (s.context.drop guard).map fun c => { s with context := c, worker := oldWorker }
      | _ => none

/-- `CurrentThread::shutdown`. -/
def shutdownCurrentThread (s : State) (runtime : Nat) : State :=
  { s with runtimes := s.runtimes.modify runtime fun r => { r with shutdown := true } }

/-- `MultiThread::shutdown`. -/
def shutdownMultiThread (s : State) (runtime : Nat) : State :=
  { s with
    runtimes := s.runtimes.modify runtime fun r => { r with sharedShutdown := true }
    context := s.context.clear }

/-- The `shutdown` of a runtime, with a record of the call. -/
def shutdown (s : State) (runtime : Nat) : Option State :=
  s.runtimes[runtime]?.map fun r =>
    let s := { s with shutdowns := runtime :: s.shutdowns }
    match r.kind with
    | .currentThread => s.shutdownCurrentThread runtime
    | .multiThread => s.shutdownMultiThread runtime

end State

/-- What the thread does. -/
inductive Op where
  /-- `CurrentThread::new` or `MultiThread::new`. -/
  | new (kind : RuntimeKind)
  | handle (runtime : Nat)
  | clone (handle : Nat)
  | enter (handle : Nat)
  /-- The handle of an `EnterGuard`, which dereferences to it, is cloned. -/
  | guardHandle (guard : Nat)
  | current
  | dropEnterGuard (guard : Nat)
  | enterBlockOn (runtime : Nat)
  | exitBlockOn
  | shutdown (runtime : Nat)
deriving DecidableEq, Repr

def step (s : State) : Op → Option State
  | .new kind => some { s with runtimes := s.runtimes ++ [⟨kind, false, false⟩] }
  | .handle runtime => (s.handle runtime).map fun h => s.obtain ⟨h, false⟩
  | .clone handle => s.handles[handle]?.map s.obtain
  | .enter handle => s.handles[handle]?.map s.enter
  | .guardHandle guard =>
      match s.context.live[guard]? with
      | some ⟨.enterGuard o, _⟩ => some (s.obtain o)
      | _ => none
  | .current => s.current.map fun h => s.obtain ⟨h, true⟩
  | .dropEnterGuard guard => s.dropEnterGuard guard
  | .enterBlockOn runtime =>
      if (s.runtimes[runtime]?.map (·.kind)) = some .multiThread then some (s.enterBlockOn runtime)
      else none
  | .exitBlockOn => s.exitBlockOn
  | .shutdown runtime => s.shutdown runtime

/-- The machine of a thread. -/
def thread : Machine State Op where
  initial s := s = fresh
  step := step

/-! ## The current handle -/

/-- A runtime is shut down when no guard of it is alive. -/
def shutsUnguarded (s : State) : Op → Bool
  | .shutdown runtime => s.context.live.all fun saved => saved.guard.shared != runtime
  | _ => true

/-- `Handle::current` is a handle to the runtime of the newest live guard, if there is one. -/
def CurrentFollows (s : State) : Prop :=
  s.current.map (·.shared) = Guarded.newest LiveGuard.shared s.context.live

/-- What the runtime of the newest guard was when each live guard was created, newest first. -/
def noteBelow (s : State) (below : List (Option Nat)) : Op → List (Option Nat)
  | .enter _ | .enterBlockOn _ => Guarded.newest LiveGuard.shared s.context.live :: below
  | .dropEnterGuard guard => below.eraseIdx guard
  | .exitBlockOn => s.innermost.elim below below.eraseIdx
  | _ => below

/-- The newest guard that stays after a drop, and the guard that was the newest before the dropped
one was created, are of one runtime, or there is neither. -/
def leavesBelow (s : State) (below : List (Option Nat)) (guard : Nat) : Bool :=
  below[guard]? == some (Guarded.newest LiveGuard.shared (s.context.live.eraseIdx guard))

/-- A drop leaves a guard of the runtime that was the newest guard's before, and a multi-thread
runtime is shut down while no guard is alive. -/
def unwinds : State × List (Option Nat) → Op → Bool
  | (s, below), .dropEnterGuard guard => leavesBelow s below guard
  | (s, below), .exitBlockOn => s.innermost.all (leavesBelow s below)
  | (s, _), .shutdown runtime =>
      s.runtimes[runtime]?.map (·.kind) != some .multiThread || s.context.live.isEmpty
  | _, _ => true

instance : DecidablePred CurrentFollows := fun _ => inferInstanceAs (Decidable (_ = _))

/-- Guards are dropped newest first, and a multi-thread runtime is shut down while no guard is
alive. -/
def wellNested (s : State) : Op → Bool
  | .dropEnterGuard guard => guard == 0
  | .exitBlockOn => s.innermost == some 0
  | .shutdown runtime =>
      s.runtimes[runtime]?.map (·.kind) != some .multiThread || s.context.live.isEmpty
  | _ => true

theorem currentFollows_iff {s : State} : CurrentFollows s ↔ s.context.Follows LiveGuard.shared := by
  have same : s.current.map (·.shared) = s.context.cell := by
    cases cell : s.context.cell with
    | none => simp [State.current, cell]
    | some r => simp [State.current, cell]
  rw [CurrentFollows, same]
  exact Iff.rfl

/-- What an operation does to the context and its guards. -/
inductive Touches (s s' : State) : Op → Prop where
  | leaves {op : Op} (same : s'.context = s.context) (notes : ∀ below, noteBelow s below op = below)
      (silent : ∀ below, unwinds (s, below) op = true) : Touches s s' op
  | enters {op : Op} (guard : LiveGuard)
      (entered : s'.context = s.context.enter LiveGuard.shared guard)
      (notes : ∀ below,
        noteBelow s below op = Guarded.newest LiveGuard.shared s.context.live :: below)
      (silent : ∀ below, unwinds (s, below) op = true) : Touches s s' op
  | drops {op : Op} (k : Nat) (dropped : s.context.drop k = some s'.context)
      (notes : ∀ below, noteBelow s below op = below.eraseIdx k)
      (tells : ∀ below, unwinds (s, below) op = leavesBelow s below k)
      (first : wellNested s op = true → k = 0) : Touches s s' op
  | clears {runtime : Nat} (cleared : s'.context = s.context.clear)
      (multi : s.runtimes[runtime]?.map (·.kind) = some .multiThread) :
      Touches s s' (.shutdown runtime)

/-- **What an operation does to the context.** -/
theorem touches_of_step {s s' : State} {op : Op} (taken : step s op = some s') :
    Touches s s' op := by
  cases op with
  | new kind =>
      cases taken
      exact .leaves rfl (fun _ => rfl) fun _ => rfl
  | handle runtime =>
      obtain ⟨h, -, rfl⟩ := Option.map_eq_some_iff.mp taken
      exact .leaves rfl (fun _ => rfl) fun _ => rfl
  | clone handle =>
      obtain ⟨o, -, rfl⟩ := Option.map_eq_some_iff.mp taken
      exact .leaves rfl (fun _ => rfl) fun _ => rfl
  | enter handle =>
      obtain ⟨o, -, rfl⟩ := Option.map_eq_some_iff.mp taken
      exact .enters (.enterGuard o) rfl (fun _ => rfl) fun _ => rfl
  | guardHandle guard =>
      simp only [step] at taken
      split at taken
      · cases taken
        exact .leaves rfl (fun _ => rfl) fun _ => rfl
      · cases taken
  | current =>
      obtain ⟨h, -, rfl⟩ := Option.map_eq_some_iff.mp taken
      exact .leaves rfl (fun _ => rfl) fun _ => rfl
  | dropEnterGuard guard =>
      simp only [step, State.dropEnterGuard] at taken
      split at taken
      · obtain ⟨c, dropped, rfl⟩ := Option.map_eq_some_iff.mp taken
        exact .drops guard dropped (fun _ => rfl) (fun _ => rfl) eq_of_beq
      · cases taken
  | enterBlockOn runtime =>
      simp only [step] at taken
      split at taken
      · cases taken
        exact .enters (.contextGuard runtime s.worker) rfl (fun _ => rfl) fun _ => rfl
      · cases taken
  | exitBlockOn =>
      simp only [step, State.exitBlockOn] at taken
      split at taken
      · cases taken
      · next guard innermost =>
          split at taken
          · obtain ⟨c, dropped, rfl⟩ := Option.map_eq_some_iff.mp taken
            refine .drops guard dropped ?_ ?_ ?_
            · simp [noteBelow, innermost]
            · simp [unwinds, innermost]
            · intro nested
              simpa [wellNested, innermost] using nested
          · cases taken
  | shutdown runtime =>
      obtain ⟨r, found, rfl⟩ := Option.map_eq_some_iff.mp taken
      cases kind : r.kind with
      | currentThread =>
          refine .leaves ?_ (fun _ => rfl) ?_
          · simp [State.shutdownCurrentThread]
          · simp [unwinds, found, kind]
      | multiThread =>
          refine .clears ?_ ?_
          · simp [State.shutdownMultiThread]
          · simp [found, kind]

/-- The current handle follows the guards, and they have saved what was newest before them. -/
def Watched (w : State × List (Option Nat)) : Prop :=
  w.1.context.Follows LiveGuard.shared ∧ w.1.context.Saves w.2

/-- **A step keeps the context following exactly when it unwinds the guards**, and they have saved
what was newest before them. -/
theorem watched_step {s s' : State} {below : List (Option Nat)} {op : Op}
    (watched : Watched (s, below)) (taken : step s op = some s') :
    (CurrentFollows s' ↔ unwinds (s, below) op = true) ∧
      s'.context.Saves (noteBelow s below op) := by
  obtain ⟨follows, saves⟩ := watched
  rw [currentFollows_iff]
  cases touches_of_step taken with
  | leaves same notes silent =>
      rw [same, notes]
      exact ⟨iff_of_true follows (silent below), saves⟩
  | enters guard entered notes silent =>
      rw [entered, notes]
      exact ⟨iff_of_true (Guarded.follows_enter _ _ _) (silent below), saves.enter follows guard⟩
  | drops k dropped notes tells first =>
      rw [saves.follows_drop_iff dropped, notes, tells, leavesBelow, beq_iff_eq]
      exact ⟨Iff.rfl, saves.drop dropped⟩
  | clears cleared multi =>
      rw [cleared, Guarded.follows_clear_iff, unwinds, multi]
      exact ⟨by simp, saves.clear⟩

/-- **`Handle::current` follows the live guards exactly along the runs in which** each drop leaves
as newest a guard of the runtime that was the newest guard's when the dropped guard was created, or
none if there was none, and no multi-thread runtime is shut down while a guard is alive. -/
theorem current_along_iff (ops : List Op) :
    (thread.restrict shutsUnguarded).Always CurrentFollows fresh ops ↔
      ((thread.restrict shutsUnguarded).noting [] noteBelow).Meets (fun w op => unwinds w op = true)
        (fresh, []) ops := by
  have step {w w' : State × List (Option Nat)} {op : Op} (watched : Watched w)
      (noted : ((thread.restrict shutsUnguarded).noting [] noteBelow).step w op = some w') :
      (CurrentFollows w'.1 ↔ unwinds w op = true) ∧ w'.1.context.Saves w'.2 := by
    obtain ⟨s', taken, rfl⟩ := Option.map_eq_some_iff.mp noted
    exact watched_step watched (Machine.restrict_step_eq_some taken).2
  rw [← Machine.always_noting]
  refine Machine.always_iff_meets_of (R := Watched) ?_ ?_ ⟨rfl, rfl⟩ rfl
  · intro w op w' watched meets noted
    obtain ⟨decides, saves⟩ := step watched noted
    exact ⟨currentFollows_iff.mp (decides.mpr meets), saves⟩
  · intro w op w' watched _ noted
    exact (step watched noted).1

/-- **Guards that are dropped newest first are followed.** -/
theorem current_of_wellNested {s : State}
    (reached : thread.ReachesWhen (fun s a => wellNested s a = true) s) : CurrentFollows s := by
  rw [currentFollows_iff]
  refine (Machine.ReachesWhen.invariant (I := fun s => s.context.Follows LiveGuard.shared ∧
    Guarded.Nested LiveGuard.shared s.context.live) ?_ ?_ reached).1
  · rintro _ rfl
    exact ⟨Guarded.follows_new _, trivial⟩
  · rintro s op s' - ⟨follows, nested⟩ meets taken
    cases touches_of_step taken with
    | leaves same notes silent =>
        rw [same]
        exact ⟨follows, nested⟩
    | enters guard entered notes silent =>
        rw [entered]
        exact ⟨Guarded.follows_enter _ _ _, nested.enter follows guard⟩
    | drops k dropped notes tells first =>
        obtain rfl := first meets
        exact nested.follows_dropNewest dropped
    | clears cleared multi =>
        have none : s.context.live = [] := by simpa [wellNested, multi] using meets
        rw [cleared]
        exact ⟨Guarded.follows_clear_iff LiveGuard.shared |>.mpr none, nested⟩

/-- The handles of two runtimes are entered, and the inner guard is dropped. -/
theorem current_of_wellNested_innerDropped : ∃ s : State,
    s.context.live.length = 1 ∧ s.current = some ⟨1, 1, none⟩ ∧ CurrentFollows s := by
  obtain ⟨s, reached, tested⟩ := thread.exists_reachesWhen_of_test
    (fun s a => wellNested s a = true)
    (fun s => s.context.live.length == 1 && s.current == some ⟨1, 1, none⟩)
    [.new .multiThread, .new .currentThread, .handle 0, .handle 1, .enter 0, .enter 1,
      .dropEnterGuard 0] rfl (by decide)
  simp only [Bool.and_eq_true, beq_iff_eq] at tested
  exact ⟨s, tested.1, tested.2, current_of_wellNested reached⟩

/-- A runtime without a guard is shut down while a guard of another is alive; and two guards are
dropped, the oldest first. -/
theorem current_strays :
    (∃ s, (thread.restrict shutsUnguarded).Reaches s ∧ ¬CurrentFollows s ∧ s.current = none) ∧
      ∃ s, (thread.restrict shutsUnguarded).Reaches s ∧ ¬CurrentFollows s ∧
        s.context.live = [] := by
  constructor
  · obtain ⟨s, reached, tested⟩ := (thread.restrict shutsUnguarded).exists_reaches_of_test
      (fun s => !decide (CurrentFollows s) && s.current.isNone)
      [.new .multiThread, .new .multiThread, .handle 0, .enter 0, .shutdown 1] rfl (by decide)
    refine ⟨s, reached, ?_⟩
    simpa using tested
  · obtain ⟨s, reached, tested⟩ := (thread.restrict shutsUnguarded).exists_reaches_of_test
      (fun s => !decide (CurrentFollows s) && s.context.live.isEmpty)
      [.new .multiThread, .handle 0, .enter 0, .enter 0, .dropEnterGuard 1, .dropEnterGuard 0]
      rfl (by decide)
    refine ⟨s, reached, ?_⟩
    simpa using tested

/-! ## The shutdown flags -/

/-- The flag that a handle of the scheduler carries. -/
def RuntimeKind.flag (runtime : Nat) : RuntimeKind → Option Nat
  | .currentThread => some runtime
  | .multiThread => none

/-- The kind of a runtime that was created. -/
def State.kind (s : State) (runtime : Nat) : Option RuntimeKind :=
  s.runtimes[runtime]?.map (·.kind)

/-- The handle carries the flag of its scheduler, or none if it comes from `Handle::current`. -/
def Obtained.Carries (kind : Nat → Option RuntimeKind) (o : Obtained) : Prop :=
  ∃ k, kind o.handle.shared = some k ∧
    o.handle.shutdown = if o.fromCurrent = true then none else k.flag o.handle.shared

/-- A guard of a runtime that was created, with a handle that carries its flag. -/
def LiveGuard.Carries (kind : Nat → Option RuntimeKind) : LiveGuard → Prop
  | .enterGuard o => o.Carries kind
  | .contextGuard shared _ => (kind shared).isSome = true

/-- A runtime's own flags tell whether its `shutdown` was called. -/
def Instance.Tells (runtime : Nat) (shutdowns : List Nat) (r : Instance) : Prop :=
  match r.kind with
  | .currentThread =>
      (r.shutdown = true ↔ runtime ∈ shutdowns) ∧ r.sharedShutdown = false
  | .multiThread => r.sharedShutdown = true ↔ runtime ∈ shutdowns

/-- What holds of the handles and the flags. -/
structure Derived (s : State) : Prop where
  handles : ∀ o ∈ s.handles, o.Carries s.kind
  context : s.context.Holds (fun r => (s.kind r).isSome = true) (·.Carries s.kind)
  called : ∀ r ∈ s.shutdowns, (s.kind r).isSome = true
  flags : ∀ (runtime : Nat) (r : Instance), s.runtimes[runtime]? = some r →
    r.Tells runtime s.shutdowns

theorem Obtained.Carries.mono {kind kind' : Nat → Option RuntimeKind} {o : Obtained}
    (carries : o.Carries kind) (grows : ∀ r k, kind r = some k → kind' r = some k) :
    o.Carries kind' := by
  obtain ⟨k, found, flag⟩ := carries
  exact ⟨k, grows _ k found, flag⟩

theorem LiveGuard.Carries.mono {kind kind' : Nat → Option RuntimeKind} {g : LiveGuard}
    (carries : g.Carries kind) (grows : ∀ r k, kind r = some k → kind' r = some k) :
    g.Carries kind' := by
  cases g with
  | enterGuard o => exact Obtained.Carries.mono carries grows
  | contextGuard shared oldWorker =>
      obtain ⟨k, found⟩ := Option.isSome_iff_exists.mp carries
      exact Option.isSome_iff_exists.mpr ⟨k, grows shared k found⟩

/-- Runtimes that grow keep the handles and the guards. -/
theorem Derived.grow {s s' : State} (inv : Derived s)
    (grows : ∀ r k, s.kind r = some k → s'.kind r = some k) (handles : s'.handles = s.handles)
    (context : s'.context = s.context ∨ s'.context = s.context.clear)
    (called : ∀ r ∈ s'.shutdowns, (s'.kind r).isSome = true)
    (flags : ∀ (runtime : Nat) (r : Instance), s'.runtimes[runtime]? = some r →
      r.Tells runtime s'.shutdowns) :
    Derived s' where
  handles := fun o member => (inv.handles o (handles ▸ member)).mono grows
  context := by
    have known : ∀ r, (s.kind r).isSome = true → (s'.kind r).isSome = true := fun r here => by
      obtain ⟨k, found⟩ := Option.isSome_iff_exists.mp here
      exact Option.isSome_iff_exists.mpr ⟨k, grows r k found⟩
    have kept := inv.context.mono known fun g carries => carries.mono grows
    rcases context with same | cleared
    · rwa [same]
    · rw [cleared]
      exact kept.clear
  called := called
  flags := flags

/-- A handle more. -/
theorem Derived.obtain {s : State} (inv : Derived s) {o : Obtained} (carries : o.Carries s.kind) :
    Derived (s.obtain o) where
  handles := fun other member => by
    rcases List.mem_cons.mp member with rfl | before
    · exact carries
    · exact inv.handles other before
  context := inv.context
  called := inv.called
  flags := inv.flags

/-- A guard more. -/
theorem Derived.enter {s : State} (inv : Derived s) {g : LiveGuard} (carries : g.Carries s.kind)
    (worker : Option Nat) :
    Derived { s with context := s.context.enter LiveGuard.shared g, worker := worker } where
  handles := inv.handles
  context := by
    refine inv.context.enter ?_ carries
    cases g with
    | enterGuard o =>
        obtain ⟨k, found, -⟩ := carries
        exact Option.isSome_iff_exists.mpr ⟨k, found⟩
    | contextGuard shared oldWorker => exact carries
  called := inv.called
  flags := inv.flags

/-- A guard less. -/
theorem Derived.drop {s : State} (inv : Derived s) {k : Nat} {c : Guarded LiveGuard Nat}
    (dropped : s.context.drop k = some c) (worker : Option Nat) :
    Derived { s with context := c, worker := worker } where
  handles := inv.handles
  context := inv.context.drop dropped
  called := inv.called
  flags := inv.flags

/-- A flag that is set on the call of `shutdown` still tells. -/
theorem Derived.shutdown {s s' : State} (inv : Derived s) {runtime : Nat} {r : Instance}
    (found : s.runtimes[runtime]? = some r) {f : Instance → Instance}
    (same : ∀ r, (f r).kind = r.kind)
    (sets : r.Tells runtime s.shutdowns → (f r).Tells runtime (runtime :: s.shutdowns))
    (runtimes : s'.runtimes = s.runtimes.modify runtime f) (handles : s'.handles = s.handles)
    (context : s'.context = s.context ∨ s'.context = s.context.clear)
    (shutdowns : s'.shutdowns = runtime :: s.shutdowns) : Derived s' := by
  have kinds : s'.kind = s.kind := by
    funext other
    rw [State.kind, State.kind, runtimes, List.getElem?_modify]
    cases s.runtimes[other]? with
    | none => rfl
    | some r' => by_cases here : runtime = other <;> simp [here, same]
  refine inv.grow (fun other k here => kinds ▸ here) handles context ?_ ?_
  · intro other member
    rw [kinds]
    rcases List.mem_cons.mp (shutdowns ▸ member) with rfl | before
    · simp [State.kind, found]
    · exact inv.called other before
  · intro other r' here
    rw [runtimes, List.getElem?_modify] at here
    rw [shutdowns]
    by_cases mine : runtime = other
    · subst mine
      rw [found] at here
      obtain rfl : f r = r' := by simpa using here
      exact sets (inv.flags runtime r found)
    · have before : s.runtimes[other]? = some r' := by simpa [mine] using here
      have tells := inv.flags other r' before
      have recorded : other ∈ runtime :: s.shutdowns ↔ other ∈ s.shutdowns := by
        simp [Ne.symm mine]
      unfold Instance.Tells at tells ⊢
      rw [recorded]
      exact tells

/-- **Every operation keeps it.** -/
theorem Derived.step {s s' : State} {op : Op} (inv : Derived s)
    (taken : Context.step s op = some s') : Derived s' := by
  cases op with
  | new kind =>
      cases taken
      have unknown : s.kind s.runtimes.length = none := by simp [State.kind]
      have grows : ∀ r k, s.kind r = some k →
          State.kind { s with runtimes := s.runtimes ++ [⟨kind, false, false⟩] } r = some k := by
        intro r k here
        obtain ⟨instance', found, rfl⟩ := Option.map_eq_some_iff.mp here
        obtain ⟨within, -⟩ := List.getElem?_eq_some_iff.mp found
        simp [State.kind, List.getElem?_append_left within, found]
      refine inv.grow grows rfl (.inl rfl) (fun r member => ?_) fun runtime r here => ?_
      · obtain ⟨k, found⟩ := Option.isSome_iff_exists.mp (inv.called r member)
        exact Option.isSome_iff_exists.mpr ⟨k, grows r k found⟩
      · rcases Nat.lt_trichotomy runtime s.runtimes.length with within | rfl | beyond
        · exact inv.flags runtime r (by rwa [List.getElem?_append_left within] at here)
        · rw [List.getElem?_concat_length] at here
          cases here
          have uncalled : s.runtimes.length ∉ s.shutdowns := fun member => by
            have known := inv.called _ member
            rw [unknown] at known
            cases known
          cases kind <;> simp [Instance.Tells, uncalled]
        · rw [List.getElem?_eq_none (by simpa using beyond)] at here
          cases here
  | handle runtime =>
      obtain ⟨h, made, rfl⟩ := Option.map_eq_some_iff.mp taken
      obtain ⟨r, found, rfl⟩ := Option.map_eq_some_iff.mp made
      refine inv.obtain ⟨r.kind, ?_, ?_⟩ <;> cases kind : r.kind <;>
        simp [State.kind, RuntimeKind.flag, found, kind]
  | clone handle =>
      obtain ⟨o, found, rfl⟩ := Option.map_eq_some_iff.mp taken
      exact inv.obtain (inv.handles o (List.mem_of_getElem? found))
  | enter handle =>
      obtain ⟨o, found, rfl⟩ := Option.map_eq_some_iff.mp taken
      have carries : LiveGuard.Carries s.kind (.enterGuard o) :=
        inv.handles o (List.mem_of_getElem? found)
      exact inv.enter carries s.worker
  | guardHandle guard =>
      simp only [Context.step] at taken
      split at taken
      · next o old found =>
          cases taken
          exact inv.obtain (inv.context.live _ (List.mem_of_getElem? found))
      · cases taken
  | current =>
      obtain ⟨h, here, rfl⟩ := Option.map_eq_some_iff.mp taken
      obtain ⟨r, cell, rfl⟩ := Option.map_eq_some_iff.mp here
      obtain ⟨k, known⟩ := Option.isSome_iff_exists.mp (inv.context.cell r cell)
      exact inv.obtain ⟨k, known, rfl⟩
  | dropEnterGuard guard =>
      simp only [Context.step, State.dropEnterGuard] at taken
      split at taken
      · obtain ⟨c, dropped, rfl⟩ := Option.map_eq_some_iff.mp taken
        exact inv.drop dropped s.worker
      · cases taken
  | enterBlockOn runtime =>
      simp only [Context.step] at taken
      split at taken
      · next multi =>
          cases taken
          have carries : LiveGuard.Carries s.kind (.contextGuard runtime s.worker) :=
            Option.isSome_iff_exists.mpr ⟨_, multi⟩
          exact inv.enter carries none
      · cases taken
  | exitBlockOn =>
      simp only [Context.step, State.exitBlockOn] at taken
      split at taken
      · cases taken
      · split at taken
        · obtain ⟨c, dropped, rfl⟩ := Option.map_eq_some_iff.mp taken
          exact inv.drop dropped _
        · cases taken
  | shutdown runtime =>
      obtain ⟨r, found, rfl⟩ := Option.map_eq_some_iff.mp taken
      cases kind : r.kind with
      | currentThread =>
          refine inv.shutdown found (f := fun r => { r with shutdown := true }) (fun _ => rfl) ?_
            rfl rfl (.inl rfl) rfl
          simp [Instance.Tells, kind]
      | multiThread =>
          refine inv.shutdown found (f := fun r => { r with sharedShutdown := true })
            (fun _ => rfl) ?_ rfl rfl (.inr rfl) rfl
          simp [Instance.Tells, kind]

theorem derived {s : State} (reached : thread.Reaches s) : Derived s := by
  refine reached.invariant ?_ fun s op s' _ inv _ taken => inv.step taken
  rintro _ rfl
  exact ⟨nofun, .new, nofun, nofun⟩

/-- What `Handle::is_shutdown` reads on a handle to a runtime. -/
theorem Obtained.Carries.isShutdown {s : State} {o : Obtained} {runtime : Nat} {r : Instance}
    (carries : o.Carries s.kind) (shared : o.handle.shared = runtime)
    (found : s.runtimes[runtime]? = some r) :
    s.isShutdown o.handle =
      match r.kind with
      | .currentThread => if o.fromCurrent = true then r.sharedShutdown else r.shutdown
      | .multiThread => r.sharedShutdown := by
  obtain ⟨k, known, flag⟩ := carries
  subst shared
  obtain rfl : r.kind = k := by simpa [State.kind, found] using known
  unfold State.isShutdown
  rw [flag]
  cases kind : r.kind with
  | currentThread => cases o.fromCurrent <;> simp [RuntimeKind.flag, found]
  | multiThread => simp [RuntimeKind.flag, found]

/-- **The handles of a runtime agree on its shutdown**, true exactly when it was called, exactly if
the runtime is multi-threaded, was not shut down, or has no handle from `Handle::current`. -/
theorem agree_iff {s : State} (reached : thread.Reaches s) {runtime : Nat} {r : Instance}
    (found : s.runtimes[runtime]? = some r) :
    (∀ o ∈ s.handles, o.handle.shared = runtime →
      (s.isShutdown o.handle = true ↔ runtime ∈ s.shutdowns)) ↔
      r.kind = .multiThread ∨ runtime ∉ s.shutdowns ∨
        ∀ o ∈ s.handles, o.handle.shared = runtime → o.fromCurrent = false := by
  have inv := derived reached
  have tells := inv.flags runtime r found
  unfold Instance.Tells at tells
  cases kind : r.kind with
  | multiThread =>
      rw [kind] at tells
      refine iff_of_true ?_ (.inl rfl)
      intro o member shared
      rw [(inv.handles o member).isShutdown shared found, kind]
      exact tells
  | currentThread =>
      rw [kind] at tells
      have reads : ∀ o ∈ s.handles, o.handle.shared = runtime →
          ((s.isShutdown o.handle = true ↔ runtime ∈ s.shutdowns) ↔
            (runtime ∈ s.shutdowns → o.fromCurrent = false)) := by
        intro o member shared
        rw [(inv.handles o member).isShutdown shared found, kind]
        cases o.fromCurrent with
        | true => simp [tells.2]
        | false => simp [tells.1]
      constructor
      · intro agree
        by_cases called : runtime ∈ s.shutdowns
        · exact .inr (.inr fun o member shared =>
            (reads o member shared).mp (agree o member shared) called)
        · exact .inr (.inl called)
      · rintro (multi | uncalled | own) o member shared
        · cases multi
        · exact (reads o member shared).mpr fun called => absurd called uncalled
        · exact (reads o member shared).mpr fun _ => own o member shared

/-- A current-thread runtime with a handle of its own and one from `Handle::current` is shut
down. -/
def derivedThenShutdown : List Op :=
  [.new .currentThread, .handle 0, .enter 0, .current, .shutdown 0]

/-- The handle from `Handle::current` does not see the shutdown. -/
theorem handles_disagree : ∃ s, thread.Reaches s ∧ 0 ∈ s.shutdowns ∧
    s.handles.map (fun o => s.isShutdown o.handle) = [false, true] := by
  obtain ⟨s, reached, tested⟩ := thread.exists_reaches_of_test
    (fun s => decide (0 ∈ s.shutdowns) &&
      s.handles.map (fun o => s.isShutdown o.handle) == [false, true])
    derivedThenShutdown rfl (by decide)
  simp only [Bool.and_eq_true, decide_eq_true_eq, beq_iff_eq] at tested
  exact ⟨s, reached, tested⟩

/-- A handle of the scheduler and its clone see it. -/
theorem agree_clones : ∃ s : State, s.handles.length = 2 ∧
    ∀ o ∈ s.handles, o.handle.shared = 0 → (s.isShutdown o.handle = true ↔ 0 ∈ s.shutdowns) := by
  obtain ⟨s, reached, tested⟩ := thread.exists_reaches_of_test
    (fun s => s.runtimes[0]? == some ⟨.currentThread, false, true⟩ &&
      s.handles == [⟨⟨0, 0, some 0⟩, false⟩, ⟨⟨0, 0, some 0⟩, false⟩])
    [.new .currentThread, .handle 0, .clone 0, .shutdown 0] rfl (by decide)
  simp only [Bool.and_eq_true, beq_iff_eq] at tested
  obtain ⟨found, handles⟩ := tested
  refine ⟨s, by rw [handles]; rfl, (agree_iff reached found).mpr (.inr (.inr ?_))⟩
  rw [handles]
  simp

end LoonyRuntime.Runtime.Context
