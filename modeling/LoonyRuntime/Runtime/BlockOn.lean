import LoonyRuntime.Concurrent.Monitor
import LoonyRuntime.Concurrent.History

/-!
# Blocking on a future with a worker

`Handle::block_on_with_worker` of `handle.rs` polls the future under a mutex until its flag
`completed` is set. The flag is set by `wake`, the entry of its waker that is called by value.
`wake_by_ref` and the future do not set it.

Thread `0` runs the loop. Every thread may hold clones of the waker and wake them, thread `0` while
it polls the future or runs a task. Each operation on the mutex, the flag and the count of the `Arc`
is a step. The memory of the state is taken to stay in place after its last release.

A wake by value that comes before the output breaks the loop into the `unreachable!()` after it.
The loop has been left by the output exactly when no wake did (`leftByOutput_iff`).

The future is polled under the mutex, and both kinds of wake lock it. No thread comes to lock it
twice exactly when no poll wakes a waker of the state (`noRelock_along_iff`).
-/

set_option autoImplicit false

namespace LoonyRuntime.Runtime.BlockOn

open Concurrent

variable {Output : Type}

/-! ## Points -/

/-- Where the loop of `block_on_with_worker` is. -/
inductive LoopPc (Output : Type) where
  | lock
  | check
  /-- The future is being polled. -/
  | poll
  | unlock (output : Option Output)
  | unlockBreak
  /-- `process_some_tasks`, with the number of rounds left. -/
  | process (rounds : Nat)
  /-- A stolen task is being run. -/
  | run (rounds : Nat)
  /-- The function returns an output, or the `unreachable!()` after the loop panics. -/
  | leave (how : Option Output)
  | left (how : Option Output)
deriving DecidableEq, Repr

/-- Where `wake` or `wake_by_ref` is. -/
inductive WakePc where
  | lock (byValue : Bool)
  | take (byValue : Bool)
  | unlock (byValue : Bool) (waker : Option Nat)
  /-- The waker that was taken is woken. -/
  | wake (byValue : Bool) (waker : Nat)
  /-- The `Arc` that `wake` has made from its pointer is dropped. -/
  | dropArc
deriving DecidableEq, Repr

/-- A thread, in the loop or not, and in a wake or not. -/
structure Thread (Output : Type) where
  loop : Option (LoopPc Output)
  wake : Option WakePc
deriving DecidableEq, Repr

/-! ## Steps -/

/-- What is recorded of a run. -/
inductive Event (Output : Type) where
  /-- The future has been polled. -/
  | polled (output : Option Output)
  /-- A wake by value has set `completed`. -/
  | completed
  /-- The waker of the state has been woken. -/
  | woken (waker : Nat)
  /-- The function has returned an output, or has reached the `unreachable!()`. -/
  | left (how : Option Output)
deriving DecidableEq, Repr

/-- `BlockOnState` with its mutex and the count of its `Arc`. `clones` counts the clones of the
context's waker. The latest event comes first. -/
structure Shared (Output : Type) where
  mutex : Monitor
  waker : Option Nat
  completed : Bool
  strong : Nat
  clones : Nat
  log : List (Event Output)
deriving DecidableEq, Repr

/-- What code does with a waker. -/
inductive Call where
  | clone
  /-- A clone is woken by value. -/
  | wake
  | wakeByRef
  /-- A clone is dropped. -/
  | drop
deriving DecidableEq, Repr

inductive Label (Output : Type) where
  /-- The next operation. -/
  | next
  /-- The poll of the future returns. -/
  | polled (output : Option Output)
  /-- `injector.steal()` finds a task, or none. -/
  | steal (found : Bool)
  /-- The stolen task has been run. -/
  | ran
  | call (c : Call)
deriving DecidableEq, Repr

/-- `block_on_with_worker`, with `process_some_tasks`. -/
def LoopPc.advance (i : Nat) (s : Shared Output) :
    LoopPc Output → Label Output → Option (Shared Output × LoopPc Output)
  | .lock, .next => (s.mutex.acquire i).map fun m => ({ s with mutex := m }, .check)
  | .check, .next => some (s, if s.completed then .unlockBreak else .poll)
  | .poll, .polled output =>
      some ({ s with log := .polled output :: s.log }, .unlock output)
  | .unlock (some v), .next => some ({ s with mutex := s.mutex.release }, .leave (some v))
  | .unlock none, .next => some ({ s with mutex := s.mutex.release }, .process 10)
  | .unlockBreak, .next => some ({ s with mutex := s.mutex.release }, .leave none)
  | .process 0, .next => some (s, .lock)
  | .process (rounds + 1), .steal found => some (s, if found then .run rounds else .lock)
  | .run rounds, .ran => some (s, .process rounds)
  | .leave how, .next =>
      some ({ s with strong := s.strong - 1, log := .left how :: s.log }, .left how)
  | _, _ => none

/-- After the mutex and the taken waker, `wake` drops its `Arc` and `wake_by_ref` returns. -/
def WakePc.last (byValue : Bool) : Option WakePc :=
  if byValue then some .dropArc else none

/-- `wake` and `wake_by_ref`. -/
def WakePc.advance (i : Nat) (s : Shared Output) :
    WakePc → Option (Shared Output × Option WakePc)
  | .lock byValue =>
      (s.mutex.acquire i).map fun m => ({ s with mutex := m }, some (.take byValue))
  | .take true =>
      some ({ s with waker := none, completed := true, log := .completed :: s.log },
        some (.unlock true s.waker))
  | .take false => some ({ s with waker := none }, some (.unlock false s.waker))
  | .unlock byValue none => some ({ s with mutex := s.mutex.release }, last byValue)
  | .unlock byValue (some waker) =>
      some ({ s with mutex := s.mutex.release }, some (.wake byValue waker))
  | .wake byValue waker => some ({ s with log := .woken waker :: s.log }, last byValue)
  | .dropArc => some ({ s with strong := s.strong - 1 }, none)

/-- Outside of the loop, while the future is polled, while a task runs and after the loop a thread
runs code that may use wakers. -/
def LoopPc.user : Option (LoopPc Output) → Bool
  | none | some .poll | some (.run _) | some (.left _) => true
  | _ => false

/-- There is a waker at hand: a clone, or the one of the context of the poll. -/
def Shared.hasWaker (s : Shared Output) (loop : Option (LoopPc Output)) : Bool :=
  match loop with
  | some .poll => true
  | _ => decide (0 < s.clones)

/-- A waker is used. -/
def Call.begin (s : Shared Output) (loop : Option (LoopPc Output)) :
    Call → Option (Shared Output × Option WakePc)
  | .clone =>
      if s.hasWaker loop then some ({ s with clones := s.clones + 1 }, none) else none
  | .wake =>
      if 0 < s.clones then some ({ s with clones := s.clones - 1 }, some (.lock true)) else none
  | .wakeByRef => if s.hasWaker loop then some (s, some (.lock false)) else none
  | .drop => if 0 < s.clones then some ({ s with clones := s.clones - 1 }, none) else none

/-- One step of a thread. A wake runs to its end before the code that has called it goes on. -/
def Thread.move (i : Nat) (s : Shared Output) (t : Thread Output) (l : Label Output) :
    Option (Shared Output × Thread Output) :=
  match t.wake, l with
  | some pc, .next => (pc.advance i s).map fun r => (r.1, { t with wake := r.2 })
  | some _, _ => none
  | none, .call c =>
      if LoopPc.user t.loop then
        (c.begin s t.loop).map fun r => (r.1, { t with wake := r.2 })
      else none
  | none, l =>
      t.loop.bind fun pc => (pc.advance i s l).map fun r => (r.1, ⟨some r.2, none⟩)

abbrev State (Output : Type) := Pool (Shared Output) (Thread Output)

/-- The state, its mutex and the two counts at the head of the loop, with `n` other threads. -/
def start (Output : Type) (n : Nat) : State Output :=
  ⟨⟨.new, none, false, 2, 0, []⟩, ⟨some .lock, none⟩ :: List.replicate n ⟨none, none⟩⟩

/-- The machine of a call of `block_on_with_worker`. -/
def blockOn (Output : Type) : Machine (State Output) (Nat × Label Output) where
  initial s := ∃ n, s = start Output n
  step := Pool.step Thread.move

/-! ## The mutex -/

/-- The loop holds the mutex. -/
def LoopPc.holds : Option (LoopPc Output) → Bool
  | some .check | some .poll | some (.unlock _) | some .unlockBreak => true
  | _ => false

/-- A wake holds the mutex. -/
def WakePc.holds : Option WakePc → Bool
  | some (.take _) | some (.unlock _ _) => true
  | _ => false

def Thread.holds (t : Thread Output) : Bool := LoopPc.holds t.loop || WakePc.holds t.wake

def Thread.blocked (_ : Thread Output) : Bool := false

/-- One step of the loop. -/
inductive LoopStep (i : Nat) (s : Shared Output) :
    LoopPc Output → Shared Output → LoopPc Output → Prop where
  | lock {m : Monitor} (taken : s.mutex.acquire i = some m) :
      LoopStep i s .lock { s with mutex := m } .check
  | check : LoopStep i s .check s (if s.completed then .unlockBreak else .poll)
  | poll (output : Option Output) :
      LoopStep i s .poll { s with log := .polled output :: s.log } (.unlock output)
  | unlock (output : Option Output) :
      LoopStep i s (.unlock output) { s with mutex := s.mutex.release }
        (match output with | some v => .leave (some v) | none => .process 10)
  | unlockBreak : LoopStep i s .unlockBreak { s with mutex := s.mutex.release } (.leave none)
  | again : LoopStep i s (.process 0) s .lock
  | steal (rounds : Nat) (found : Bool) :
      LoopStep i s (.process (rounds + 1)) s (if found then .run rounds else .lock)
  | ran (rounds : Nat) : LoopStep i s (.run rounds) s (.process rounds)
  | leave (how : Option Output) :
      LoopStep i s (.leave how) { s with strong := s.strong - 1, log := .left how :: s.log }
        (.left how)

/-- One step of a wake. -/
inductive WakeStep (i : Nat) (s : Shared Output) :
    WakePc → Shared Output → Option WakePc → Prop where
  | lock (byValue : Bool) {m : Monitor} (taken : s.mutex.acquire i = some m) :
      WakeStep i s (.lock byValue) { s with mutex := m } (some (.take byValue))
  | complete :
      WakeStep i s (.take true)
        { s with waker := none, completed := true, log := .completed :: s.log }
        (some (.unlock true s.waker))
  | take : WakeStep i s (.take false) { s with waker := none } (some (.unlock false s.waker))
  | unlock (byValue : Bool) (waker : Option Nat) {pc : Option WakePc}
      (outside : WakePc.holds pc = false) :
      WakeStep i s (.unlock byValue waker) { s with mutex := s.mutex.release } pc
  | wake (byValue : Bool) (waker : Nat) :
      WakeStep i s (.wake byValue waker) { s with log := .woken waker :: s.log }
        (WakePc.last byValue)
  | dropArc : WakeStep i s .dropArc { s with strong := s.strong - 1 } none

/-- One step of a thread. -/
inductive Step (i : Nat) (s : Shared Output) :
    Thread Output → Shared Output → Thread Output → Prop where
  | loop {pc pc' : LoopPc Output} {s' : Shared Output} (step : LoopStep i s pc s' pc') :
      Step i s ⟨some pc, none⟩ s' ⟨some pc', none⟩
  | wake {loop : Option (LoopPc Output)} {pc : WakePc} {pc' : Option WakePc}
      {s' : Shared Output} (step : WakeStep i s pc s' pc') :
      Step i s ⟨loop, some pc⟩ s' ⟨loop, pc'⟩
  | call {loop : Option (LoopPc Output)} {pc' : Option WakePc} (clones : Nat)
      (outside : WakePc.holds pc' = false) :
      Step i s ⟨loop, none⟩ { s with clones := clones } ⟨loop, pc'⟩

section Inversion

variable {i : Nat} {s s' : Shared Output}

theorem loopStep_of_advance {pc pc' : LoopPc Output} {l : Label Output}
    (advanced : pc.advance i s l = some (s', pc')) : LoopStep i s pc s' pc' := by
  unfold LoopPc.advance at advanced
  split at advanced
  · obtain ⟨m, taken, same⟩ := Option.map_eq_some_iff.mp advanced
    cases same
    exact .lock taken
  · cases advanced
    exact .check
  · cases advanced
    exact .poll _
  · cases advanced
    exact .unlock _
  · cases advanced
    exact .unlock _
  · cases advanced
    exact .unlockBreak
  · cases advanced
    exact .again
  · cases advanced
    exact .steal _ _
  · cases advanced
    exact .ran _
  · cases advanced
    exact .leave _
  · cases advanced

@[simp] theorem holds_last (byValue : Bool) : WakePc.holds (WakePc.last byValue) = false := by
  cases byValue <;> rfl

theorem wakeStep_of_advance {pc : WakePc} {pc' : Option WakePc}
    (advanced : pc.advance i s = some (s', pc')) : WakeStep i s pc s' pc' := by
  unfold WakePc.advance at advanced
  split at advanced
  · obtain ⟨m, taken, same⟩ := Option.map_eq_some_iff.mp advanced
    cases same
    exact .lock _ taken
  · cases advanced
    exact .complete
  · cases advanced
    exact .take
  · cases advanced
    exact .unlock _ _ (holds_last _)
  · cases advanced
    exact .unlock _ _ rfl
  · cases advanced
    exact .wake _ _
  · cases advanced
    exact .dropArc

theorem step_of_begin {loop : Option (LoopPc Output)} {pc' : Option WakePc} {c : Call}
    (began : c.begin s loop = some (s', pc')) : Step i s ⟨loop, none⟩ s' ⟨loop, pc'⟩ := by
  cases c with
  | clone | wake | drop =>
      simp only [Call.begin] at began
      split at began
      · cases began
        exact .call _ rfl
      · cases began
  | wakeByRef =>
      simp only [Call.begin] at began
      split at began
      · cases began
        exact .call s.clones rfl
      · cases began

theorem step_of_move {t t' : Thread Output} {l : Label Output}
    (moved : t.move i s l = some (s', t')) : Step i s t s' t' := by
  obtain ⟨loop, wake⟩ := t
  cases wake with
  | some pc =>
      cases l with
      | next =>
          obtain ⟨⟨s', pc'⟩, advanced, same⟩ := Option.map_eq_some_iff.mp moved
          cases same
          exact .wake (wakeStep_of_advance advanced)
      | polled output | steal found | ran | call c => cases moved
  | none =>
      cases l with
      | call c =>
          simp only [Thread.move] at moved
          split at moved
          · obtain ⟨⟨s', pc'⟩, began, same⟩ := Option.map_eq_some_iff.mp moved
            cases same
            exact step_of_begin began
          · cases moved
      | next | polled output | steal found | ran =>
          obtain ⟨pc, rfl, moved⟩ := Option.bind_eq_some_iff.mp moved
          obtain ⟨⟨s', pc'⟩, advanced, same⟩ := Option.map_eq_some_iff.mp moved
          cases same
          exact .loop (loopStep_of_advance advanced)

end Inversion

theorem step_of_taken {s s' : State Output} {i : Nat} {l : Label Output}
    (taken : (blockOn Output).step s (i, l) = some s') :
    ∃ t shared t', s.threads[i]? = some t ∧ Step i s.shared t shared t' ∧
      s' = ⟨shared, s.threads.set i t'⟩ := by
  replace taken : Pool.step Thread.move s (i, l) = some s' := taken
  obtain ⟨t, shared, t', found, moved, same⟩ := Pool.step_eq_some taken
  exact ⟨t, shared, t', found, step_of_move moved, same⟩

/-- A thread holds the mutex once. -/
def Thread.HoldsOnce (t : Thread Output) : Prop :=
  LoopPc.holds t.loop = true → WakePc.holds t.wake = false

/-- The mutex agrees with the points of the threads. -/
structure Locked (s : State Output) : Prop where
  keeps : Monitor.Keeps Thread.holds Thread.blocked s.shared.mutex s.threads
  once : Pool.Each (fun _ t => t.HoldsOnce) s.threads

/-- A step uses the mutex in its order, and the thread still holds it once. -/
theorem Step.uses {i : Nat} {s s' : Shared Output} {t t' : Thread Output} (step : Step i s t s' t')
    (owner : t.holds = true ↔ s.mutex.owner = some i) (once : t.HoldsOnce) :
    Monitor.Uses Thread.holds Thread.blocked i t t' s.mutex s'.mutex ∧ t'.HoldsOnce := by
  cases step with
  | loop step =>
      cases step with
      | lock taken => exact ⟨.acquire rfl rfl taken, fun _ => rfl⟩
      | check =>
          refine ⟨.quiet rfl ?_, fun _ => rfl⟩
          cases s.completed <;> rfl
      | poll output => exact ⟨.quiet rfl rfl, fun _ => rfl⟩
      | unlock output =>
          refine ⟨.release rfl rfl ?_, fun _ => rfl⟩
          cases output <;> rfl
      | unlockBreak => exact ⟨.release rfl rfl rfl, fun _ => rfl⟩
      | again => exact ⟨.quiet rfl rfl, fun _ => rfl⟩
      | steal rounds found =>
          refine ⟨.quiet rfl ?_, fun _ => rfl⟩
          cases found <;> rfl
      | ran rounds => exact ⟨.quiet rfl rfl, fun _ => rfl⟩
      | leave how => exact ⟨.quiet rfl rfl, fun _ => rfl⟩
  | @wake loop pc pc' s' step =>
      have outside (holds : WakePc.holds (some pc) = true) : LoopPc.holds loop = false := by
        by_contra inside
        rw [once (Bool.eq_true_of_not_eq_false inside)] at holds
        cases holds
      cases step with
      | lock byValue taken =>
          refine ⟨.acquire rfl (by simp [Thread.holds, WakePc.holds]) taken, ?_⟩
          intro holds
          -- a wake inside of the poll finds the mutex taken by its own thread
          obtain ⟨free, -⟩ := Monitor.acquire_eq_some taken
          have mine := owner.mp (by simp [Thread.holds, show LoopPc.holds loop = true from holds])
          rw [free] at mine
          cases mine
      | complete | take =>
          refine ⟨.quiet rfl (by simp [Thread.holds, WakePc.holds]), ?_⟩
          intro holds
          rw [outside rfl] at holds
          cases holds
      | unlock byValue waker free =>
          refine ⟨.release rfl (by simp [Thread.holds, WakePc.holds]) ?_, fun _ => free⟩
          simp [Thread.holds, outside rfl, free]
      | wake byValue waker =>
          refine ⟨.quiet rfl ?_, fun _ => holds_last byValue⟩
          exact congrArg (LoopPc.holds loop || ·) (holds_last byValue)
      | dropArc => exact ⟨.quiet rfl rfl, fun _ => rfl⟩
  | @call loop pc' clones free =>
      refine ⟨.quiet rfl ?_, fun _ => free⟩
      exact congrArg (LoopPc.holds loop || ·) free

theorem Locked.step {s s' : State Output} {a : Nat × Label Output} (inv : Locked s)
    (taken : (blockOn Output).step s a = some s') : Locked s' := by
  obtain ⟨i, l⟩ := a
  obtain ⟨t, shared, t', found, step, rfl⟩ := step_of_taken taken
  obtain ⟨uses, once⟩ := step.uses (inv.keeps.owner i t found) (inv.once i t found)
  exact ⟨inv.keeps.uses found uses,
    Pool.interference_free inv.once once fun _ _ _ _ => id⟩

/-- A thread at the start, in the loop or outside of it. -/
theorem start_cases {n i : Nat} {t : Thread Output}
    (found : (start Output n).threads[i]? = some t) :
    i = 0 ∧ t = ⟨some .lock, none⟩ ∨ t = ⟨none, none⟩ := by
  cases i with
  | zero => exact .inl ⟨rfl, (Option.some.inj found).symm⟩
  | succ i =>
      exact .inr (List.eq_of_mem_replicate (List.mem_of_getElem? (l := List.replicate n _) found))

theorem locked {s : State Output} (reached : (blockOn Output).Reaches s) : Locked s := by
  refine reached.invariant ?_ fun s a s' _ inv _ taken => inv.step taken
  rintro _ ⟨n, rfl⟩
  refine ⟨.new fun t member => ?_, fun i t found _ => ?_⟩
  · obtain ⟨i, found⟩ := List.mem_iff_getElem?.mp member
    rcases start_cases found with ⟨-, rfl⟩ | rfl <;> rfl
  · rcases start_cases found with ⟨-, rfl⟩ | rfl <;> rfl

/-! ## How the loop is left -/

/-- The output with which a poll has returned. -/
def Event.output? : Event Output → Option Output
  | .polled output => output
  | _ => none

def Event.how? : Event Output → Option (Option Output)
  | .left how => some how
  | _ => none

/-- The outputs that the future has returned. -/
def outputs (log : List (Event Output)) : List Output := log.filterMap Event.output?

/-- The ways in which the loop has been left. -/
def exits (log : List (Event Output)) : List (Option Output) := log.filterMap Event.how?

/-- The loop has been left only with the output that the future has returned, and the
`unreachable!()` has not been reached. -/
def LeftByOutput (log : List (Event Output)) : Prop :=
  ∀ how ∈ exits log, ∃ v, how = some v ∧ outputs log = [v]

/-- No wake by value has set `completed` before the future has returned its output. -/
def NoEarlyWake (log : List (Event Output)) : Prop :=
  Justified (fun e earlier => e = .completed → outputs earlier ≠ []) log

section Logs

variable {log : List (Event Output)}

@[simp] theorem outputs_nil : outputs ([] : List (Event Output)) = [] := rfl

@[simp] theorem exits_nil : exits ([] : List (Event Output)) = [] := rfl

@[simp] theorem outputs_polled (output : Option Output) :
    outputs (.polled output :: log) = output.toList ++ outputs log := by
  cases output <;> rfl

@[simp] theorem outputs_completed : outputs (.completed :: log) = outputs log := rfl

@[simp] theorem outputs_woken (waker : Nat) : outputs (.woken waker :: log) = outputs log := rfl

@[simp] theorem outputs_left (how : Option Output) :
    outputs (.left how :: log) = outputs log := rfl

@[simp] theorem exits_polled (output : Option Output) :
    exits (.polled output :: log) = exits log := rfl

@[simp] theorem exits_completed : exits (.completed :: log) = exits log := rfl

@[simp] theorem exits_woken (waker : Nat) : exits (.woken waker :: log) = exits log := rfl

@[simp] theorem exits_left (how : Option Output) :
    exits (.left how :: log) = how :: exits log := rfl

theorem noEarlyWake_of_not_mem (unset : .completed ∉ log) : NoEarlyWake log := by
  rintro later _ earlier split rfl
  exact absurd (by simp [split]) unset

/-- A wake that has set the flag of a future without an output was early. -/
theorem not_noEarlyWake (set : .completed ∈ log) (pending : outputs log = []) :
    ¬NoEarlyWake log := by
  intro noEarly
  obtain ⟨later, earlier, split⟩ := List.append_of_mem set
  apply noEarly later .completed earlier split rfl
  rw [split] at pending
  exact (List.append_eq_nil_iff.mp
    ((List.filterMap_append (l := later)).symm.trans pending)).2

end Logs

/-- The output with which the loop is being left or has been left. -/
def LoopPc.outputs : LoopPc Output → List Output
  | .unlock (some v) | .leave (some v) | .left (some v) => [v]
  | _ => []

def LoopPc.exits : LoopPc Output → List (Option Output)
  | .left how => [how]
  | _ => []

/-- The loop has found `completed`. -/
def LoopPc.broken : LoopPc Output → Bool
  | .unlockBreak | .leave none | .left none => true
  | _ => false

/-- The log and the flag agree with the point of the loop. -/
structure Agrees (s : Shared Output) (pc : LoopPc Output) : Prop where
  set : s.completed = true ↔ .completed ∈ s.log
  outputs : BlockOn.outputs s.log = pc.outputs
  exits : BlockOn.exits s.log = pc.exits
  unset : pc = .poll → s.completed = false
  broken : pc.broken = true → s.completed = true
  noEarly : pc.outputs ≠ [] → NoEarlyWake s.log

section Agreement

variable {i : Nat} {s s' : Shared Output} {pc pc' : LoopPc Output}

/-- A step of the loop to a point with the same output and the same exit, with the log as it
was. -/
theorem Agrees.move (inv : Agrees s pc) (completed : s'.completed = s.completed)
    (log : s'.log = s.log) (outputs : pc'.outputs = pc.outputs) (exits : pc'.exits = pc.exits)
    (unset : pc' = .poll → s.completed = false)
    (broken : pc'.broken = true → s.completed = true) : Agrees s' pc' where
  set := by rw [completed, log, inv.set]
  outputs := by rw [log, outputs, inv.outputs]
  exits := by rw [log, exits, inv.exits]
  unset := by rwa [completed]
  broken := by rwa [completed]
  noEarly := by
    rw [log, outputs]
    exact inv.noEarly

theorem Agrees.loopStep (inv : Agrees s pc) (step : LoopStep i s pc s' pc') : Agrees s' pc' := by
  cases step with
  | lock taken => exact inv.move rfl rfl rfl rfl nofun nofun
  | check =>
      cases set : s.completed with
      | true => exact inv.move rfl rfl rfl rfl nofun fun _ => set
      | false => exact inv.move rfl rfl rfl rfl (fun _ => set) nofun
  | poll output =>
      have unset : .completed ∉ s.log := by
        rw [← inv.set, inv.unset rfl]
        exact nofun
      have pending : BlockOn.outputs s.log = [] := inv.outputs
      refine ⟨?_, ?_, inv.exits, nofun, nofun, fun _ => noEarlyWake_of_not_mem ?_⟩
      · simp [inv.set]
      · rw [outputs_polled, pending]
        cases output <;> rfl
      · simpa using unset
  | unlock output =>
      cases output with
      | none => exact inv.move rfl rfl rfl rfl nofun nofun
      | some v => exact inv.move rfl rfl rfl rfl nofun nofun
  | unlockBreak => exact inv.move rfl rfl rfl rfl nofun fun _ => inv.broken rfl
  | again => exact inv.move rfl rfl rfl rfl nofun nofun
  | steal rounds found => cases found <;> exact inv.move rfl rfl rfl rfl nofun nofun
  | ran rounds => exact inv.move rfl rfl rfl rfl nofun nofun
  | leave how =>
      have inside : BlockOn.exits s.log = [] := inv.exits
      refine ⟨?_, ?_, ?_, nofun, ?_, fun left => ?_⟩
      · simp [inv.set]
      · rw [outputs_left, inv.outputs]
        cases how <;> rfl
      · rw [exits_left, inside]
        rfl
      · cases how with
        | none => exact fun _ => inv.broken rfl
        | some v => exact nofun
      · cases how with
        | none => exact absurd rfl left
        | some v => exact justified_cons.mpr ⟨nofun, inv.noEarly nofun⟩

/-- A wake does not disturb the loop, if none sets the flag while the future is polled. -/
theorem Agrees.wakeStep (inv : Agrees s pc) {wake : WakePc} {wake' : Option WakePc}
    (step : WakeStep i s wake s' wake') (apart : WakePc.holds (some wake) = true → pc ≠ .poll) :
    Agrees s' pc := by
  cases step with
  | lock byValue taken => exact inv.move rfl rfl rfl rfl inv.unset inv.broken
  | complete =>
      refine ⟨by simp, inv.outputs, inv.exits, fun polls => absurd polls (apart rfl), fun _ => rfl,
        fun left => ?_⟩
      exact justified_cons.mpr ⟨fun _ => inv.outputs ▸ left, inv.noEarly left⟩
  | take => exact inv.move rfl rfl rfl rfl inv.unset inv.broken
  | unlock byValue waker outside => exact inv.move rfl rfl rfl rfl inv.unset inv.broken
  | wake byValue waker =>
      refine ⟨?_, inv.outputs, inv.exits, inv.unset, inv.broken, fun left => ?_⟩
      · simp [inv.set]
      · exact justified_cons.mpr ⟨nofun, inv.noEarly left⟩
  | dropArc => exact inv.move rfl rfl rfl rfl inv.unset inv.broken

end Agreement

/-- Thread `0` is in the loop and agrees with the log, and the others are not in the loop. -/
structure Looping (s : State Output) : Prop where
  loops : ∃ t, s.threads[0]? = some t ∧ t.loop ≠ none
  each : Pool.Each (fun i t => ∀ pc, t.loop = some pc → i = 0 ∧ Agrees s.shared pc) s.threads

theorem Looping.step {s s' : State Output} {a : Nat × Label Output} (inv : Looping s)
    (locked : Locked s) (taken : (blockOn Output).step s a = some s') : Looping s' := by
  obtain ⟨i, l⟩ := a
  obtain ⟨t, shared, t', found, step, rfl⟩ := step_of_taken taken
  obtain ⟨first, loops, inside⟩ := inv.loops
  refine ⟨?_, ?_⟩
  · by_cases same : i = 0
    · subst same
      obtain rfl : t = first := Option.some.inj (found.symm.trans loops)
      refine ⟨t', Pool.getElem?_set_self t' found, ?_⟩
      cases step with
      | loop step => exact nofun
      | wake step => exact inside
      | call clones outside => exact inside
    · refine ⟨first, ?_, inside⟩
      rwa [List.getElem?_set_ne same]
  · cases step with
    | @loop pc pc' shared step =>
        obtain ⟨rfl, agrees⟩ := inv.each i _ found pc rfl
        refine Pool.interference_free inv.each ?_ fun j u other _ each pc at_ => ?_
        · rintro _ ⟨⟩
          exact ⟨rfl, agrees.loopStep step⟩
        · exact absurd (each pc at_).1 other
    | @wake loop wake wake' shared step =>
        refine Pool.interference_free inv.each (fun pc at_ => ?_)
          fun j u other foundU each pc at_ => ?_
        · obtain ⟨first, agrees⟩ := inv.each i _ found pc at_
          refine ⟨first, agrees.wakeStep step ?_⟩
          intro holds polls
          -- the thread would hold the mutex twice
          have once : WakePc.holds (some wake) = false :=
            locked.once i _ found (by simp only [show loop = some pc from at_, polls]; rfl)
          rw [holds] at once
          cases once
        · obtain ⟨first, agrees⟩ := each pc at_
          refine ⟨first, agrees.wakeStep step fun holds polls => other ?_⟩
          -- two threads would hold the mutex
          refine (locked.keeps.exclusive found foundU ?_ ?_).symm
          · simp [Thread.holds, holds]
          · simp [Thread.holds, at_, polls, LoopPc.holds]
    | call clones outside =>
        have stays (pc : LoopPc Output) (agrees : Agrees s.shared pc) :
            Agrees { s.shared with clones := clones } pc :=
          agrees.move rfl rfl rfl rfl agrees.unset agrees.broken
        refine Pool.interference_free inv.each (fun pc at_ => ?_) fun j u _ _ each pc at_ => ?_
        · exact (inv.each i _ found pc at_).imp_right (stays pc)
        · exact (each pc at_).imp_right (stays pc)

theorem looping {s : State Output} (reached : (blockOn Output).Reaches s) : Looping s := by
  refine reached.invariant ?_ fun s a s' before inv _ taken => inv.step (locked before) taken
  rintro _ ⟨n, rfl⟩
  refine ⟨⟨⟨some .lock, none⟩, rfl, nofun⟩, ?_⟩
  intro i t found pc at_
  rcases start_cases found with ⟨rfl, rfl⟩ | rfl
  · cases at_
    exact ⟨rfl, by simp [start], rfl, rfl, nofun, nofun, fun left => absurd rfl left⟩
  · cases at_

/-- **The loop has been left by the output of the future exactly when no wake by value has set the
flag before the future has returned it.** -/
theorem leftByOutput_iff {s : State Output} (reached : (blockOn Output).Reaches s) :
    LeftByOutput s.shared.log ↔ (exits s.shared.log ≠ [] → NoEarlyWake s.shared.log) := by
  obtain ⟨⟨t, found, inside⟩, each⟩ := looping reached
  obtain ⟨pc, at_⟩ := Option.ne_none_iff_exists'.mp inside
  have agrees := (each 0 t found pc at_).2
  unfold LeftByOutput
  rw [agrees.exits, agrees.outputs]
  cases pc with
  | left how =>
      cases how with
      | none =>
          have set : .completed ∈ s.shared.log := agrees.set.mp (agrees.broken rfl)
          have early := not_noEarlyWake set agrees.outputs
          simp [LoopPc.exits, early]
      | some v => simp [LoopPc.exits, LoopPc.outputs, agrees.noEarly nofun]
  | _ => simp [LoopPc.exits]

/-- Thread `0` does its next `steps` operations. -/
def loops (steps : Nat) : List (Nat × Label Nat) := List.replicate steps (0, .next)

/-- The future clones the waker and returns `Pending`, and no task is found. -/
def pollsPending : List (Nat × Label Nat) :=
  loops 2 ++ [(0, .call .clone), (0, .polled none), (0, .next), (0, .steal false)]

/-- Thread `1` wakes the clone by value. -/
def wakes : List (Nat × Label Nat) := (1, .call .wake) :: List.replicate 4 (1, .next)

/-- The clone is woken by value after the future has returned its output. -/
theorem leftByOutput_wokenLate : ∃ s, (blockOn Nat).Reaches s ∧
    exits s.shared.log = [some 7] ∧ LeftByOutput s.shared.log := by
  obtain ⟨s, reached, tested⟩ := (blockOn Nat).exists_reaches_of_test
    (fun s => s.shared.log == [.left (some 7), .completed, .polled (some 7), .polled none])
    (pollsPending ++ loops 2 ++ [(0, .polled (some 7)), (0, .next)] ++ wakes ++ loops 1)
    ⟨1, rfl⟩ (by decide)
  have log := beq_iff_eq.mp tested
  refine ⟨s, reached, by rw [log]; rfl, (leftByOutput_iff reached).mpr ?_⟩
  intro _
  rw [log]
  simp [NoEarlyWake]

/-- The clone is woken by value while the future is pending: the `unreachable!()` is reached. -/
theorem unreachable_reached : ∃ s, (blockOn Nat).Reaches s ∧ ¬LeftByOutput s.shared.log := by
  obtain ⟨s, reached, tested⟩ := (blockOn Nat).exists_reaches_of_test
    (fun s => s.shared.log == [.left none, .completed, .polled none])
    (pollsPending ++ wakes ++ loops 4) ⟨1, rfl⟩ (by decide)
  refine ⟨s, reached, ?_⟩
  intro byOutput
  rw [beq_iff_eq.mp tested] at byOutput
  obtain ⟨v, same, -⟩ := byOutput none (by simp)
  cases same

/-! ## Wakes from inside a poll -/

/-- The next operation of the thread is to lock the mutex. -/
def Thread.locks (t : Thread Output) : Bool :=
  match t.wake, t.loop with
  | some (.lock _), _ => true
  | none, some .lock => true
  | _, _ => false

/-- No thread is to lock the mutex while it holds it. -/
def NoRelock (s : State Output) : Prop :=
  Pool.Each (fun i t => ¬(t.locks = true ∧ s.shared.mutex.owner = some i)) s.threads

/-- The future is being polled. -/
def LoopPc.polls : Option (LoopPc Output) → Bool
  | some .poll => true
  | _ => false

/-- Code that is run by a poll of the future wakes a waker of the state. -/
def Thread.wakesInPoll (t : Thread Output) : Label Output → Bool
  | .call .wake | .call .wakeByRef => LoopPc.polls t.loop
  | _ => false

/-- The step is such a wake. -/
def wakesInPoll (s : State Output) (a : Nat × Label Output) : Bool :=
  s.threads[a.1]?.any (·.wakesInPoll a.2)

/-- A wake is to lock the mutex, inside of a loop that holds it. -/
def Thread.relocks (t : Thread Output) : Bool :=
  match t.wake with
  | some (.lock _) => LoopPc.holds t.loop
  | _ => false

/-- The thread is to lock the mutex that it holds. -/
theorem Locked.relocks_iff {s : State Output} (locked : Locked s) {i : Nat} {t : Thread Output}
    (found : s.threads[i]? = some t) :
    t.relocks = true ↔ t.locks = true ∧ s.shared.mutex.owner = some i := by
  have owner : t.holds = true ↔ s.shared.mutex.owner = some i := locked.keeps.owner i t found
  rw [← owner]
  obtain ⟨loop, wake⟩ := t
  cases wake with
  | some pc => cases pc <;> simp [Thread.relocks, Thread.locks, Thread.holds, WakePc.holds]
  | none =>
      cases loop with
      | some pc =>
          cases pc <;>
            simp [Thread.relocks, Thread.locks, Thread.holds, LoopPc.holds, WakePc.holds]
      | none => simp [Thread.relocks, Thread.locks]

theorem relocks_eq_false {wake : Option WakePc} (loop : Option (LoopPc Output))
    (differs : ∀ byValue, wake ≠ some (.lock byValue)) :
    Thread.relocks ⟨loop, wake⟩ = false := by
  cases wake with
  | none => rfl
  | some pc =>
      cases pc with
      | lock byValue => exact absurd rfl (differs byValue)
      | _ => rfl

/-- A wake locks the mutex first. -/
theorem ne_lock_of_advance {i : Nat} {s s' : Shared Output} {pc : WakePc} {pc' : Option WakePc}
    (advanced : pc.advance i s = some (s', pc')) (byValue : Bool) :
    pc' ≠ some (.lock byValue) := by
  have after (byValue' : Bool) : WakePc.last byValue' ≠ some (.lock byValue) := by
    cases byValue' <;> nofun
  unfold WakePc.advance at advanced
  split at advanced
  · obtain ⟨m, -, same⟩ := Option.map_eq_some_iff.mp advanced
    cases same
    nofun
  all_goals
    cases advanced
    first | exact after _ | nofun

/-- **A step of a thread leads to such a lock exactly if** it wakes a waker from inside a poll. -/
theorem relocks_of_move {i : Nat} {s s' : Shared Output} {t t' : Thread Output} {l : Label Output}
    (moved : t.move i s l = some (s', t')) : t'.relocks = t.wakesInPoll l := by
  obtain ⟨loop, wake⟩ := t
  cases wake with
  | some pc =>
      cases l with
      | next =>
          obtain ⟨⟨s', pc'⟩, advanced, same⟩ := Option.map_eq_some_iff.mp moved
          cases same
          exact relocks_eq_false _ (ne_lock_of_advance advanced)
      | polled output | steal found | ran | call c => cases moved
  | none =>
      cases l with
      | call c =>
          obtain ⟨user, called⟩ := Option.ite_none_right_eq_some.mp moved
          obtain ⟨⟨s', pc'⟩, began, same⟩ := Option.map_eq_some_iff.mp called
          cases same
          -- code of the user runs where the loop does not hold the mutex, or in a poll
          have inPoll : LoopPc.holds loop = LoopPc.polls loop := by
            cases loop with
            | none => rfl
            | some pc => cases pc <;> first | rfl | cases user
          cases c with
          | clone | drop =>
              obtain ⟨-, same⟩ := Option.ite_none_right_eq_some.mp began
              cases same
              rfl
          | wake | wakeByRef =>
              obtain ⟨-, same⟩ := Option.ite_none_right_eq_some.mp began
              cases same
              exact inPoll
      | next | polled output | steal found | ran =>
          obtain ⟨pc, rfl, moved⟩ := Option.bind_eq_some_iff.mp moved
          obtain ⟨⟨s', pc'⟩, advanced, same⟩ := Option.map_eq_some_iff.mp moved
          cases same
          rfl

/-- **No thread of a run is to lock the mutex that it holds exactly if** no poll of the future wakes
a waker of the state. -/
theorem noRelock_along_iff (n : Nat) (labels : List (Nat × Label Output)) :
    (blockOn Output).Always NoRelock (start Output n) labels ↔
      (blockOn Output).Meets (fun s a => wakesInPoll s a = false) (start Output n) labels := by
  refine Machine.always_iff_meets ?_ (.start ⟨n, rfl⟩) ?_
  · rintro s ⟨i, l⟩ s' reached free taken
    have locked' : Locked s' := locked (.step reached trivial taken)
    replace taken : Pool.step Thread.move s (i, l) = some s' := taken
    obtain ⟨t, shared, t', found, moved, rfl⟩ := Pool.step_eq_some taken
    have tells : wakesInPoll s (i, l) = t'.relocks := by
      rw [relocks_of_move moved, wakesInPoll, found, Option.any_some]
    have mine := locked'.relocks_iff (Pool.getElem?_set_self t' found)
    rw [tells, Bool.eq_false_iff, ne_eq, mine]
    exact (locked reached).keeps.relock_iff locked'.keeps found free
  · intro i t found
    rcases start_cases found with ⟨-, rfl⟩ | rfl <;> simp [start, Monitor.new]

/-- **A thread that is to lock the mutex that it holds is stuck.** -/
theorem stuck_of_relocks {s : State Output} (reached : (blockOn Output).Reaches s) {i : Nat}
    {t : Thread Output} (found : s.threads[i]? = some t) (relocks : t.relocks = true)
    (l : Label Output) : (blockOn Output).step s (i, l) = none := by
  obtain ⟨-, owner⟩ := ((locked reached).relocks_iff found).mp relocks
  obtain ⟨loop, wake⟩ := t
  cases wake with
  | none => cases relocks
  | some pc =>
      cases pc with
      | lock byValue =>
          show Pool.step Thread.move s (i, l) = none
          cases l <;> simp [Pool.step, found, Thread.move, WakePc.advance, Monitor.acquire, owner]
      | _ => cases relocks

/-- The future wakes the waker of its context and returns `Pending`, as that of `yield_now` does:
the thread is stuck in its first poll. -/
theorem poll_locks_itself : ∃ s, (blockOn Nat).Reaches s ∧ ¬NoRelock s ∧
    ∀ l, (blockOn Nat).step s (0, l) = none := by
  obtain ⟨s, reached, tested⟩ := (blockOn Nat).exists_reaches_of_test
    (fun s => s.threads == [⟨some .poll, some (.lock false)⟩])
    (loops 2 ++ [(0, .call .wakeByRef)]) ⟨0, rfl⟩ (by decide)
  have found : s.threads[0]? = some ⟨some .poll, some (.lock false)⟩ := by
    rw [beq_iff_eq.mp tested]
    rfl
  refine ⟨s, reached, ?_, stuck_of_relocks reached found rfl⟩
  intro free
  exact free 0 _ found (((locked reached).relocks_iff found).mp rfl)

end LoonyRuntime.Runtime.BlockOn
