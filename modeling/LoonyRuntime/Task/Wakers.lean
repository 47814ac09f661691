import LoonyRuntime.Concurrent.Simulation
import LoonyRuntime.Task.Wake

/-!
# The two wakers of a task

`raw.rs` and `waker.rs` each have a `waker_from_task`. Their `clone_waker` and `drop_waker` are the
same, and their wakes differ in the guard before the exchange, in the way the new word is computed,
and in the exchange, which is weak in `waker.rs` and may fail on the expected word.

A thread makes calls on the wakers of a task of any word, while other threads install any words
between its operations. With the one `waker_from_task` or the other the run is the same, operation
by operation, as long as no weak exchange fails spuriously. A run with such failures is one without
them as far as anybody can see (`wakers_equivalent`): the failed call loads the word again, and the
other call is still at its exchange.

`Task::schedule` is the push of an entry here. What the scheduler then does with the task is left to
the other threads.
-/

set_option autoImplicit false

namespace LoonyRuntime.Task

open TaskState Concurrent

variable {T : Type}

/-! ## Calls on the wakers -/

/-- A call on a waker of the task. -/
inductive WakerCall where
  | clone
  | wake
  | wakeByRef
  | drop
deriving DecidableEq, Repr

def WakerCall.begin (impl : WakerImpl) : WakerCall → Begin
  | .clone => .clone false
  | .wake => .wake impl .byValue
  | .wakeByRef => .wake impl .byRef
  | .drop => .dropWaker

/-- Where the thread is: inside no call, or inside a wake or a drop. -/
inductive WakerPc where
  | idle
  | wake (impl : WakerImpl) (via : Via) (pc : WakePc impl)
  | drop (pc : DropPc)

/-- The call in progress, from its frames. -/
def WakerPc.ofFrames : List (Frame T) → WakerPc
  | [.wake impl via pc] => .wake impl via pc
  | [.dropWaker pc] => .drop pc
  | _ => .idle

/-- A task, and a thread that makes calls on its wakers. -/
structure WakerUser (T : Type) where
  cell : Cell T
  pc : WakerPc
  /-- The changes that the calls made to the word, latest first. -/
  changes : List (Usize × Usize)

inductive UserLabel where
  | call (call : WakerCall)
  /-- The next operation of the call in progress. -/
  | next
  /-- `compare_exchange_weak` fails although the word is the expected one. -/
  | spurious
  /-- Another thread installs a word. -/
  | install (word : Usize)
deriving DecidableEq, Repr

namespace WakerUser

/-- The thread is inside no call. -/
def start (cell : Cell T) : WakerUser T := ⟨cell, .idle, []⟩

/-- The result of an operation of the thread, which may have changed the word. -/
def operated (s : WakerUser T) (cell : Cell T) (pc : WakerPc) : WakerUser T where
  cell := cell
  pc := pc
  changes :=
    if cell.state = s.cell.state then s.changes
    else (s.cell.state, cell.state) :: s.changes

/-- The next operation of the call in progress. -/
def advance (s : WakerUser T) : Option (WakerUser T) :=
  match s.pc with
  | .idle => none
  | .wake impl via pc =>
      (advanceWake impl via s.cell pc).map fun r => s.operated r.1 (.ofFrames r.2)
  | .drop pc => (advanceDrop s.cell pc).map fun r => s.operated r.1 (.ofFrames r.2)

/-- One step of the thread, with the wakers of `impl`, or of the others. -/
def step (impl : WakerImpl) (s : WakerUser T) : UserLabel → Option (WakerUser T)
  | .call call =>
      match s.pc with
      | .idle =>
          ((call.begin impl).call false s.cell).map fun r => s.operated r.1 (.ofFrames r.2)
      | _ => none
  | .next => s.advance
  | .spurious =>
      match s.pc with
      | .wake .waker via (.compareExchange _) => some { s with pc := .wake .waker via .load }
      | _ => none
  | .install word => some { s with cell := { s.cell with state := word } }

end WakerUser

/-- The machine of a thread that uses the wakers of `impl`. -/
def wakerMachine (T : Type) (impl : WakerImpl) : Machine (WakerUser T) UserLabel where
  initial s := ∃ cell, s = .start cell
  step := WakerUser.step impl

/-! ## Operation by operation -/

/-- Both wakers go on from the same words. -/
theorem proceeds_raw_eq (word : Usize) :
    WakerImpl.raw.proceeds word = WakerImpl.waker.proceeds word :=
  Bool.eq_iff_iff.mpr ((proceeds_iff .raw word).trans (proceeds_iff .waker word).symm)

/-- Both wakers exchange a word that they go on from for the same word. -/
theorem desired_raw_eq {word : Usize} (proceeds : WakerImpl.raw.proceeds word = true) :
    WakerImpl.raw.desired word = WakerImpl.waker.desired word := by
  have idle := ((proceeds_iff .raw word).mp proceeds).1
  rw [desired_eq_or .raw idle, desired_eq_or .waker idle]

/-- The point of the wake of `waker.rs` that is the point of a wake of `raw.rs`. -/
def WakePc.toWaker : WakePc .raw → WakePc .waker
  | .load => .load
  | .compareExchange current =>
      .compareExchange ⟨current.1, (proceeds_raw_eq current.1).symm.trans current.2⟩
  | .schedule => .schedule
  | .ranInline => .ranInline

def WakerPc.toWaker : WakerPc → WakerPc
  | .wake .raw via pc => .wake .waker via pc.toWaker
  | pc => pc

def WakerUser.toWaker (s : WakerUser T) : WakerUser T := { s with pc := s.pc.toWaker }

/-- Two results of an operation are the same, and so is the point after it. -/
def SameOutcome (raw waker : Outcome T) : Prop :=
  waker.map (fun r => (r.1, WakerPc.ofFrames r.2)) =
    raw.map fun r => (r.1, (WakerPc.ofFrames r.2).toWaker)

/-- The next operation of a wake is the same with both wakers. -/
theorem sameOutcome_advanceWake (via : Via) (s : Cell T) (pc : WakePc .raw) :
    SameOutcome (advanceWake .raw via s pc) (advanceWake .waker via s pc.toWaker) := by
  cases pc with
  | load =>
      by_cases proceeds : WakerImpl.raw.proceeds s.state = true
      · have same := (proceeds_raw_eq s.state).symm.trans proceeds
        simp [SameOutcome, advanceWake, WakePc.toWaker, proceeds, same, WakerPc.ofFrames,
          WakerPc.toWaker]
      · have same : ¬WakerImpl.waker.proceeds s.state = true := by rwa [← proceeds_raw_eq]
        simp [SameOutcome, advanceWake, WakePc.toWaker, proceeds, same, WakerPc.ofFrames,
          WakerPc.toWaker]
  | compareExchange current =>
      by_cases expected : s.state = current.1
      · simp [SameOutcome, advanceWake, WakePc.toWaker, expected, desired_raw_eq current.2,
          WakerPc.ofFrames, WakerPc.toWaker]
      · simp [SameOutcome, advanceWake, WakePc.toWaker, expected, WakerPc.ofFrames,
          WakerPc.toWaker]
  | schedule | ranInline => rfl

/-- A wake of `waker.rs` is at no point of a wake of `raw.rs`. -/
theorem sameOutcome_waker (via : Via) (s : Cell T) (pc : WakePc .waker) :
    SameOutcome (advanceWake .waker via s pc) (advanceWake .waker via s pc) := by
  cases pc with
  | load =>
      by_cases proceeds : WakerImpl.waker.proceeds s.state = true
      all_goals simp [SameOutcome, advanceWake, proceeds, WakerPc.ofFrames, WakerPc.toWaker]
  | compareExchange current =>
      by_cases expected : s.state = current.1
      all_goals simp [SameOutcome, advanceWake, expected, WakerPc.ofFrames, WakerPc.toWaker]
  | schedule | ranInline => rfl

theorem sameOutcome_advanceDrop (s : Cell T) (pc : DropPc) :
    SameOutcome (advanceDrop s pc) (advanceDrop s pc) := by
  cases pc with
  | fetchSub =>
      by_cases last : lastReference s.state = true
      all_goals simp [SameOutcome, advanceDrop, last, WakerPc.ofFrames, WakerPc.toWaker]
  | deallocate => rfl

/-- The first effect of a call is the same with both wakers. -/
theorem sameOutcome_call (call : WakerCall) (s : Cell T) :
    SameOutcome ((call.begin .raw).call false s) ((call.begin .waker).call false s) := by
  cases call with
  | clone | wakeByRef =>
      by_cases alive : 0 < s.wakers
      all_goals simp [SameOutcome, WakerCall.begin, Begin.call, alive, WakerPc.ofFrames,
        WakerPc.toWaker, WakePc.toWaker]
  | wake | drop =>
      by_cases movable : s.movable = true
      all_goals simp [SameOutcome, WakerCall.begin, Begin.call, movable, WakerPc.ofFrames,
        WakerPc.toWaker, WakePc.toWaker]

theorem SameOutcome.map {raw waker : Outcome T} (same : SameOutcome raw waker)
    (s : WakerUser T) :
    waker.map (fun r => s.toWaker.operated r.1 (.ofFrames r.2)) =
      (raw.map fun r => s.operated r.1 (.ofFrames r.2)).map WakerUser.toWaker := by
  have operated := congrArg
    (Option.map fun r : Cell T × WakerPc => s.toWaker.operated r.1 r.2) same
  simp only [Option.map_map, Function.comp_def] at operated ⊢
  exact operated

/-- **A step with the wakers of `raw.rs` is the step with those of `waker.rs`**, as long as no
exchange fails spuriously. -/
theorem step_toWaker (s : WakerUser T) (l : UserLabel) (strong : l ≠ .spurious) :
    s.toWaker.step .waker l = (s.step .raw l).map WakerUser.toWaker := by
  obtain ⟨cell, pc, changes⟩ := s
  cases l with
  | spurious => exact absurd rfl strong
  | install word => rfl
  | call call =>
      cases pc with
      | idle => exact (sameOutcome_call call cell).map ⟨cell, .idle, changes⟩
      | wake impl via pc => cases impl <;> rfl
      | drop pc => rfl
  | next =>
      cases pc with
      | idle => rfl
      | drop pc => exact (sameOutcome_advanceDrop cell pc).map ⟨cell, .drop pc, changes⟩
      | wake impl via pc =>
          cases impl with
          | raw => exact (sameOutcome_advanceWake via cell pc).map ⟨cell, .wake .raw via pc, changes⟩
          | waker => exact (sameOutcome_waker via cell pc).map ⟨cell, .wake .waker via pc, changes⟩

/-! ## Spurious failures -/

/-- The thread is inside no wake of `waker.rs`. -/
def WakerPc.isRaw : WakerPc → Bool
  | .wake .waker _ _ => false
  | _ => true

theorem isRaw_ofFrames_advanceWake {via : Via} {s : Cell T} {pc : WakePc .raw}
    {r : Cell T × List (Frame T)} (advanced : advanceWake .raw via s pc = some r) :
    (WakerPc.ofFrames r.2).isRaw = true := by
  cases pc with
  | load | compareExchange =>
      simp only [advanceWake] at advanced
      split at advanced
      all_goals
        cases advanced
        rfl
  | schedule | ranInline =>
      cases advanced
      rfl

theorem isRaw_ofFrames_advanceDrop {s : Cell T} {pc : DropPc} {r : Cell T × List (Frame T)}
    (advanced : advanceDrop s pc = some r) : (WakerPc.ofFrames r.2).isRaw = true := by
  cases pc with
  | fetchSub =>
      simp only [advanceDrop, Option.some.injEq] at advanced
      subst advanced
      split <;> rfl
  | deallocate =>
      cases advanced
      rfl

theorem isRaw_ofFrames_call {call : WakerCall} {s : Cell T} {r : Cell T × List (Frame T)}
    (called : (call.begin .raw).call false s = some r) :
    (WakerPc.ofFrames r.2).isRaw = true := by
  cases call with
  | clone | wake | wakeByRef | drop =>
      obtain ⟨-, same⟩ := Option.ite_none_right_eq_some.mp called
      obtain rfl := Option.some.inj same
      rfl

/-- With the wakers of `raw.rs` the thread is inside no other. -/
theorem isRaw_of_step {s s' : WakerUser T} {l : UserLabel} (raw : s.pc.isRaw = true)
    (taken : s.step .raw l = some s') : s'.pc.isRaw = true := by
  obtain ⟨cell, pc, changes⟩ := s
  cases l with
  | install word =>
      cases taken
      exact raw
  | call call =>
      cases pc with
      | idle =>
          obtain ⟨r, called, rfl⟩ := Option.map_eq_some_iff.mp taken
          exact isRaw_ofFrames_call called
      | wake impl via pc => cases taken
      | drop pc => cases taken
  | next =>
      cases pc with
      | idle => cases taken
      | drop pc =>
          obtain ⟨r, advanced, rfl⟩ := Option.map_eq_some_iff.mp taken
          exact isRaw_ofFrames_advanceDrop advanced
      | wake impl via pc =>
          cases impl with
          | raw =>
              obtain ⟨r, advanced, rfl⟩ := Option.map_eq_some_iff.mp taken
              exact isRaw_ofFrames_advanceWake advanced
          | waker => cases raw
  | spurious =>
      cases pc with
      | wake impl via pc =>
          cases impl with
          | raw => cases taken
          | waker => cases raw
      | idle | drop => cases taken

/-- A run with the wakers of `raw.rs` has no spurious failure. -/
theorem strong_of_run {labels : List UserLabel} {s s' : WakerUser T} (raw : s.pc.isRaw = true)
    (ran : (wakerMachine T .raw).run s labels = some s') : .spurious ∉ labels := by
  induction labels generalizing s with
  | nil => exact List.not_mem_nil
  | cons l rest ih =>
      rw [Machine.run_cons] at ran
      obtain ⟨middle, taken, later⟩ := Option.bind_eq_some_iff.mp ran
      have further := ih (isRaw_of_step raw taken) later
      intro member
      rcases List.mem_cons.mp member with rfl | member
      · obtain ⟨cell, pc, changes⟩ := s
        cases pc with
        | wake impl via pc =>
            cases impl with
            | raw => cases taken
            | waker => cases raw
        | idle | drop => cases taken
      · exact further member

/-- What the calls and the other threads do, without the operations inside a call. -/
def UserLabel.visible : UserLabel → Option UserLabel
  | .call c => some (.call c)
  | .install word => some (.install word)
  | _ => none

/-- A user of `waker.rs`, and a user of `raw.rs` in its place: they are at the same point, or the
first is back at its load after a spurious failure while the second is still at its exchange. -/
structure Mirrors (s t : WakerUser T) : Prop where
  raw : t.pc.isRaw = true
  cell : s.cell = t.cell
  changes : s.changes = t.changes
  pc : s.pc = t.pc.toWaker ∨ ∃ via current,
    s.pc = .wake .waker via .load ∧ t.pc = .wake .raw via (.compareExchange current)

/-- **A step with the wakers of `waker.rs` is answered with those of `raw.rs`**, spurious failures
by no step. -/
theorem simulatedBy_raw :
    (wakerMachine T .waker).SimulatedBy (wakerMachine T .raw) UserLabel.visible
      UserLabel.visible Mirrors := by
  rintro s t l s' ⟨raw, cell, changes, pc⟩ taken
  replace taken : s.step .waker l = some s' := taken
  -- a step other than a spurious failure, from the same point
  have answers : ∀ t : WakerUser T, t.pc.isRaw = true → s = t.toWaker → l ≠ .spurious →
      ∃ t', (wakerMachine T .raw).run t [l] = some t' ∧ Mirrors s' t' := by
    rintro t raw rfl strong
    rw [step_toWaker t l strong] at taken
    obtain ⟨t', moved, rfl⟩ := Option.map_eq_some_iff.mp taken
    refine ⟨t', ?_, isRaw_of_step raw moved, rfl, rfl, .inl rfl⟩
    rw [Machine.run_cons]
    exact congrArg (Option.bind · _) moved
  obtain ⟨sCell, sPc, sChanges⟩ := s
  obtain ⟨tCell, tPc, tChanges⟩ := t
  obtain rfl : sCell = tCell := cell
  obtain rfl : sChanges = tChanges := changes
  rcases pc with same | ⟨via, current, behind, ahead⟩
  · obtain rfl : sPc = tPc.toWaker := same
    by_cases strong : l = .spurious
    · subst strong
      cases tPc with
      | wake impl via pc =>
          cases impl with
          | raw =>
              cases pc with
              | compareExchange current =>
                  cases taken
                  exact ⟨[], _, rfl, rfl, raw, rfl, rfl, .inr ⟨via, current, rfl, rfl⟩⟩
              | load | schedule | ranInline => cases taken
          | waker => cases raw
      | idle | drop => cases taken
    · obtain ⟨t', ran, follows⟩ := answers _ raw rfl strong
      refine ⟨[l], t', ran, ?_, follows⟩
      cases seen : l.visible <;> simp [seen]
  · obtain rfl : sPc = .wake .waker via .load := behind
    obtain rfl : tPc = .wake .raw via (.compareExchange current) := ahead
    cases l with
    | call call => cases taken
    | spurious => cases taken
    | install word =>
        cases taken
        exact ⟨[.install word], _, rfl, rfl, raw, rfl, rfl, .inr ⟨via, current, rfl, rfl⟩⟩
    | next =>
        by_cases expected : sCell.state = current.1
        · -- the word is the one that the other call is about to exchange
          have proceeds : WakerImpl.waker.proceeds sCell.state = true := by
            rw [expected, ← proceeds_raw_eq]
            exact current.2
          have loads : (⟨sCell, .wake .waker via .load, sChanges⟩ : WakerUser T).step .waker
              .next = some ⟨sCell, .wake .waker via (.compareExchange ⟨sCell.state, proceeds⟩),
                sChanges⟩ := by
            simp [WakerUser.step, WakerUser.advance, advanceWake, proceeds, WakerUser.operated,
              WakerPc.ofFrames]
          rw [loads] at taken
          cases taken
          refine ⟨[], _, rfl, rfl, raw, rfl, rfl, .inl ?_⟩
          simp [WakerPc.toWaker, WakePc.toWaker, expected]
        · -- it is another one: the other call fails, and is at its load as well
          have strong : UserLabel.next ≠ .spurious := by
            intro same
            cases same
          obtain ⟨t', ran, follows⟩ :=
            answers ⟨sCell, .wake .raw via .load, sChanges⟩ rfl rfl strong
          refine ⟨[.next, .next], t', ?_, rfl, follows⟩
          have fails : (wakerMachine T .raw).step
              ⟨sCell, .wake .raw via (.compareExchange current), sChanges⟩ .next =
                some ⟨sCell, .wake .raw via .load, sChanges⟩ := by
            simp [wakerMachine, WakerUser.step, WakerUser.advance, advanceWake, expected,
              WakerUser.operated, WakerPc.ofFrames]
          rw [Machine.run_cons, fails]
          exact ran

/-- **The two wakers are equivalent.** On a task of any word, as long as no exchange fails
spuriously, a run with the wakers of `waker.rs` is the run with those of `raw.rs`, operation by
operation. A run with spurious failures makes the changes to the word, the calls of
`Task::schedule` and the calls of `deallocate` of a run of `raw.rs` with the same calls and the same
words installed. -/
theorem wakers_equivalent (cell : Cell T) :
    (∀ labels, .spurious ∉ labels →
      (wakerMachine T .waker).run (.start cell) labels =
        ((wakerMachine T .raw).run (.start cell) labels).map WakerUser.toWaker) ∧
    ∀ labels s, (wakerMachine T .waker).run (.start cell) labels = some s →
      ∃ labels' s', (wakerMachine T .raw).run (.start cell) labels' = some s' ∧
        .spurious ∉ labels' ∧
        labels'.filterMap UserLabel.visible = labels.filterMap UserLabel.visible ∧
        s.changes = s'.changes ∧ s.cell = s'.cell := by
  constructor
  · intro labels strong
    refine Machine.run_map WakerUser.toWaker (p := fun l => l ≠ .spurious) step_toWaker ?_
      (.start cell)
    intro l member same
    exact strong (same ▸ member)
  · intro labels s ran
    have start : Mirrors (WakerUser.start cell) (.start cell) := ⟨rfl, rfl, rfl, .inl rfl⟩
    obtain ⟨labels', s', ran', same, follows⟩ := simulatedBy_raw.run start ran
    exact ⟨labels', s', ran', strong_of_run rfl ran', same, follows.changes, follows.cell⟩

/-- A spawned task with one waker. -/
def spawnedWaked : Cell Unit := { (Cell.spawned : Cell Unit) with wakers := 1 }

/-- The first exchange of a wake fails spuriously, another thread clones a waker, and the wake
tries again. -/
def wokenAgain : List UserLabel :=
  [.call .wakeByRef, .next, .spurious, .install 0x20000, .next, .next, .next, .call .drop, .next]

/-- The wakers of `raw.rs` schedule the task once as well. -/
theorem wakers_equivalent_wokenAgain :
    ∃ s, (wakerMachine Unit .waker).run (.start spawnedWaked) wokenAgain = some s ∧
      ∃ labels s', (wakerMachine Unit .raw).run (.start spawnedWaked) labels = some s' ∧
        s.changes = s'.changes ∧ s.cell = s'.cell := by
  have runs : ((wakerMachine Unit .waker).run (.start spawnedWaked) wokenAgain).isSome = true := by
    decide
  obtain ⟨s, ran⟩ := Option.isSome_iff_exists.mp runs
  obtain ⟨labels, s', ran', -, -, changes, cell⟩ :=
    (wakers_equivalent spawnedWaked).2 wokenAgain s ran
  exact ⟨s, ran, labels, s', ran', changes, cell⟩

end LoonyRuntime.Task
