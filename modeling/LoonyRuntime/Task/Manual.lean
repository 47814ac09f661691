import LoonyRuntime.Task.Output

/-!
# Manual wakers

A `ManualWaker` is a reference to the task that code of the user makes from the header. `new` adds
a reference and `drop` gives it back with the test of `drop_waker`. `wake` calls `Task::schedule`
without a look at the word, and leaves the word as it is. `into_waker` copies the header into a
waker and then drops the `ManualWaker`, which gives back the reference that the waker stands for.

The machine of the task is extended by these calls. A `ManualWaker::wake` that pushes is one step:
nothing but the push touches the task. Two properties are compared with the conditions that decide
them along a run: the wakes of both kinds make one entry at most between two runs of the task
(`wakesOnce_along_iff`), and the word counts the references (`balanced_along_iff`).
-/

set_option autoImplicit false

namespace LoonyRuntime.Task

open TaskState Concurrent

variable {T : Type}

/-! ## The machine -/

/-- A task, its `ManualWaker`s, and what the wakes have done since the latest run of it began. -/
structure ManualCell (T : Type) where
  cell : Cell T
  /-- The number of `ManualWaker`s. -/
  manuals : Nat
  /-- The entries that `ManualWaker::wake` made since then. -/
  manualEntries : Nat
  /-- The entries that the wakes of wakers made since then. -/
  wakerEntries : Nat
  /-- A wake went on to make an entry of a task that was not idle, or aborted, at any time. -/
  misplaced : Bool

inductive ManualLabel (T : Type) where
  | task (l : Label T)
  | new
  /-- `ManualWaker::wake`, whose schedule closure pushes an entry. -/
  | wake
  /-- `ManualWaker::wake`, whose schedule closure finds no current handle and runs the task. -/
  | wakeInline
  | intoWaker
  | drop

/-- The task may be woken: it is idle, and not aborted. -/
def Cell.wakeable (s : Cell T) : Bool :=
  (fromBits s.state).isIdle && !(fromBits s.state).isAborted

namespace ManualCell

/-- The state after an operation of the task. -/
def operated (s : ManualCell T) (cell : Cell T) : Op → ManualCell T
  | .run | .runInline => { s with cell, manualEntries := 0, wakerEntries := 0 }
  | .schedule => { s with cell, misplaced := s.misplaced || !s.cell.wakeable }
  | .push _ => { s with cell, wakerEntries := s.wakerEntries + 1 }
  | _ => { s with cell }

/-- The first effect of a call on the `ManualWaker`s, and its frames. -/
def call (creator : Creator) (s : ManualCell T) :
    ManualLabel T → Option (ManualCell T × List (Frame T))
  | .task _ => none
  | .new =>
      some ({ s with
        cell := { s.cell with state := s.cell.state + refOne }
        manuals := s.manuals + 1 }, [])
  | .wake =>
      if 0 < s.manuals then
        some ({ s with
          cell := { s.cell with queue := s.cell.queue + 1 }
          manualEntries := s.manualEntries + 1
          misplaced := s.misplaced || !s.cell.wakeable }, [])
      else none
  | .wakeInline =>
      if 0 < s.manuals ∧ creator = .createTask then
        some ({ s with
          cell := s.cell.record .pollBegan
          manualEntries := 0
          wakerEntries := 0 }, [.poll .future])
      else none
  | .intoWaker =>
      -- the waker has a copy of the header, and `self` is dropped
      if 0 < s.manuals then
        some ({ s with
          cell := { s.cell with wakers := s.cell.wakers + 1 }
          manuals := s.manuals - 1 }, [.dropWaker .fetchSub])
      else none
  | .drop =>
      if 0 < s.manuals then some ({ s with manuals := s.manuals - 1 }, [.dropWaker .fetchSub])
      else none

/-- `ManualWaker::new` adds a reference to the word, and nothing else. -/
theorem call_new {creator : Creator} {s s' : ManualCell T} {frames : List (Frame T)}
    (called : s.call creator .new = some (s', frames)) :
    ∃ word, word = s.cell.state + refOne ∧
      s' = { s with cell := { s.cell with state := word }, manuals := s.manuals + 1 } ∧
        frames = [] := by
  obtain ⟨same, none⟩ := Prod.mk.inj (Option.some.inj called)
  exact ⟨_, rfl, same.symm, none.symm⟩

@[simp] theorem operated_cell (s : ManualCell T) (cell : Cell T) (op : Op) :
    (s.operated cell op).cell = cell := by
  cases op <;> rfl

@[simp] theorem operated_manuals (s : ManualCell T) (cell : Cell T) (op : Op) :
    (s.operated cell op).manuals = s.manuals := by
  cases op <;> rfl

end ManualCell

/-- Code of the user: the code of a thread, or the body of the future. -/
def atUser : List (Frame T) → Bool
  | [] | .poll .future :: _ => true
  | _ => false

/-- One step of a thread inside the calls of the stack. -/
def moveManual (creator : Creator) (s : ManualCell T) (stack : List (Frame T)) :
    ManualLabel T → Option (ManualCell T × List (Frame T))
  | .task l =>
      (move creator s.cell stack l).map fun r => (s.operated r.1 (opOf s.cell stack l), r.2)
  | l =>
      if atUser stack then (s.call creator l).map fun r => (r.1, r.2 ++ stack) else none

abbrev ManualState (T : Type) := Pool (ManualCell T) (List (Frame T))

/-- A task with no `ManualWaker`, and `n` threads inside no call. -/
def manualWith (cell : Cell T) (n : Nat) : ManualState T :=
  ⟨⟨cell, 0, 0, 0, false⟩, List.replicate n []⟩

/-- The machine of a task with `ManualWaker`s. -/
def manualMachine (creator : Creator) : Machine (ManualState T) (Nat × ManualLabel T) where
  initial s := ∃ n, s = manualWith .spawned n
  step := Pool.step fun _ => moveManual creator

/-! ## Entries between two runs -/

/-- Since the latest run began the wakes have made one entry at most, and a wake went on to make an
entry only of a task that was idle and not aborted. -/
def WakesOnce (s : ManualState T) : Prop :=
  s.shared.manualEntries + s.shared.wakerEntries ≤ 1 ∧ s.shared.misplaced = false

/-- `ManualWaker::wake` is called on a task that is idle, not aborted and without an entry of a
`ManualWaker` since its latest run began, and no wake of a waker pushes where there is one. -/
def wakesInTurn (s : ManualState T) (a : Nat × ManualLabel T) : Bool :=
  match a.2, s.threads[a.1]? with
  | .wake, _ => s.shared.cell.wakeable && s.shared.manualEntries == 0
  | .task l, some stack =>
      match opOf s.shared.cell stack l with
      | .push _ => s.shared.manualEntries == 0
      | _ => true
  | _, _ => true

/-- The wakes of wakers make one entry: an idle task has none of them and none to come. -/
structure Scheduled (s : ManualCell T) (pending : Nat) : Prop where
  one : s.wakerEntries + pending ≤ 1
  idle : Marks.isIdle (marks s.cell.state) = true → s.wakerEntries + pending = 0

section Steps

variable {s s' : ManualCell T} {pending pending' : Nat}

theorem wakeable_iff (s : Cell T) : s.wakeable = true ↔
    Marks.isIdle (marks s.state) = true ∧ Marks.isAborted (marks s.state) = false := by
  simp [Cell.wakeable]

/-- Fewer entries, and the lifecycle as it was. -/
theorem Scheduled.of_fewer (inv : Scheduled s pending)
    (fewer : s'.wakerEntries + pending' ≤ s.wakerEntries + pending)
    (idle : Marks.isIdle (marks s'.cell.state) = true → Marks.isIdle (marks s.cell.state) = true) :
    Scheduled s' pending' := by
  refine ⟨fewer.trans inv.one, ?_⟩
  intro now
  have none := inv.idle (idle now)
  omega

/-- **An operation of the task keeps the entries of wakers**, and a wake of a waker goes on from a
task that may be woken. -/
theorem Scheduled.operated {op : Op} {a a' : Account} {cell : Cell T}
    (inv : Scheduled s a.pending) (step : Account.Step op a a')
    (before : a.marks = marks s.cell.state) (after : a'.marks = marks cell.state) :
    Scheduled (s.operated cell op) a'.pending ∧ (op = .schedule → s.cell.wakeable = true) := by
  have idle : Marks.isIdle (marks cell.state) = true →
      Marks.isIdle (marks s.cell.state) = true := by
    intro now
    by_contra busy
    rw [← before, Bool.not_eq_true] at busy
    rw [← after, step.marked busy] at now
    cases now
  cases step with
  | schedule _ free live same =>
      have none := inv.idle (before ▸ free)
      refine ⟨⟨?_, ?_⟩, fun _ => (wakeable_iff s.cell).mpr ⟨before ▸ free, before ▸ live⟩⟩
      · rw [same]
        change s.wakerEntries + (a.pending + 1) ≤ 1
        omega
      · have busy : ∀ m : BitVec 4, Marks.isIdle m = true → Marks.isIdle (m ||| 1) = false := by
          decide
        intro now
        replace now : Marks.isIdle (marks cell.state) = true := now
        rw [← after, same, busy _ free] at now
        cases now
  | push _ entry _ same =>
      refine ⟨inv.of_fewer ?_ idle, nofun⟩
      change s.wakerEntries + 1 + a'.pending ≤ _
      omega
  | run _ same =>
      refine ⟨inv.of_fewer ?_ idle, nofun⟩
      have pending : a'.pending = a.pending := by rw [same]
      change 0 + a'.pending ≤ _
      omega
  | runInline entry _ =>
      refine ⟨inv.of_fewer ?_ idle, nofun⟩
      change 0 + a'.pending ≤ _
      omega
  | proceed | takeJoin => exact ⟨inv.of_fewer (Nat.le_refl _) idle, nofun⟩
  | clone _ same | breakOff _ _ _ same | inlineReturn _ _ _ same | ready same | complete _ same
  | release same | dropContext _ _ same | dropClone _ _ same | deallocatePoll _ _ same
  | deallocateDrop _ _ same | abort same | interest _ same | dropHandle same | quiet _ same =>
      refine ⟨inv.of_fewer ?_ idle, nofun⟩
      have pending : a'.pending = a.pending := by rw [same]
      change s.wakerEntries + a'.pending ≤ _
      omega

/-- **A call on the `ManualWaker`s keeps the entries of wakers.** -/
theorem Scheduled.call {creator : Creator} {l : ManualLabel T} {frames : List (Frame T)}
    (inv : Scheduled s pending) (called : s.call creator l = some (s', frames)) :
    Scheduled s' pending ∧ total Frame.pending frames = 0 := by
  cases l with
  | task l => cases called
  | new =>
      obtain ⟨word, counted, rfl, rfl⟩ := ManualCell.call_new called
      refine ⟨inv.of_fewer (Nat.le_refl _) ?_, rfl⟩
      simp [counted]
  | wake | wakeInline | intoWaker | drop =>
      obtain ⟨-, same⟩ := Option.ite_none_right_eq_some.mp called
      cases same
      refine ⟨inv.of_fewer (Nat.add_le_add_right ?_ _) id, rfl⟩
      first | exact Nat.le_refl _ | exact Nat.zero_le _

end Steps

/-- The wakes between their exchange and their push. -/
def pendingWakes (s : ManualState T) : Nat := total (total Frame.pending) s.threads

section Runs

variable {creator : Creator} {s s' : ManualState T} {i : Nat} {l : ManualLabel T}

/-- A step of the machine is an operation of the task, or a call on the `ManualWaker`s. -/
theorem manualStep_of_taken (taken : (manualMachine creator).step s (i, l) = some s') :
    (∃ l' stack cell after, l = .task l' ∧ s.threads[i]? = some stack ∧
      move creator s.shared.cell stack l' = some (cell, after) ∧
      s' = ⟨s.shared.operated cell (opOf s.shared.cell stack l'), s.threads.set i after⟩) ∨
    ∃ stack shared frames, (∀ l', l ≠ .task l') ∧ s.threads[i]? = some stack ∧
      s.shared.call creator l = some (shared, frames) ∧
      s' = ⟨shared, s.threads.set i (frames ++ stack)⟩ := by
  replace taken : Pool.step (fun _ => moveManual creator) s (i, l) = some s' := taken
  obtain ⟨stack, shared, after, found, moved, rfl⟩ := Pool.step_eq_some taken
  cases l with
  | task l' =>
      obtain ⟨⟨cell, after⟩, operates, same⟩ := Option.map_eq_some_iff.mp moved
      cases same
      exact .inl ⟨l', stack, cell, after, rfl, found, operates, rfl⟩
  | new | wake | wakeInline | intoWaker | drop =>
      obtain ⟨-, calls⟩ := Option.ite_none_right_eq_some.mp moved
      obtain ⟨⟨shared, frames⟩, called, same⟩ := Option.map_eq_some_iff.mp calls
      cases same
      exact .inr ⟨stack, shared, frames, nofun, found, called, rfl⟩

/-- **Every step keeps the entries of wakers.** -/
theorem scheduled_step (inv : Scheduled s.shared (pendingWakes s))
    (taken : (manualMachine creator).step s (i, l) = some s') :
    Scheduled s'.shared (pendingWakes s') := by
  rcases manualStep_of_taken taken with ⟨l', stack, cell, after, rfl, found, moved, rfl⟩ |
    ⟨stack, shared, frames, -, found, called, rfl⟩
  · have step := move_account (fun f => others (total f) i s.threads) moved
    have kept : Scheduled s.shared
        (total Frame.pending stack + others (total Frame.pending) i s.threads) := by
      rw [← total_eq_others found]
      exact inv
    have scheduled := (kept.operated step rfl rfl).1
    simp only [pendingWakes, total_set_others after found]
    exact scheduled
  · obtain ⟨scheduled, none⟩ := inv.call called
    simp only [pendingWakes, total_set_others _ found, total_append, none, Nat.zero_add]
    rw [← total_eq_others found]
    exact scheduled

/-- **A step makes one entry too many, or one out of turn, exactly when it does not meet the
condition.** -/
theorem wakesOnce_step_iff (inv : Scheduled s.shared (pendingWakes s)) (once : WakesOnce s)
    (taken : (manualMachine creator).step s (i, l) = some s') :
    WakesOnce s' ↔ wakesInTurn s (i, l) = true := by
  obtain ⟨one, inPlace⟩ := once
  rcases manualStep_of_taken taken with ⟨l', stack, cell, after, rfl, found, moved, rfl⟩ |
    ⟨stack, shared, frames, other, found, called, rfl⟩
  · have step := move_account (fun f => others (total f) i s.threads) moved
    have kept : Scheduled s.shared
        (total Frame.pending stack + others (total Frame.pending) i s.threads) := by
      rw [← total_eq_others found]
      exact inv
    obtain ⟨-, goesOn⟩ := kept.operated step rfl rfl
    simp only [WakesOnce, wakesInTurn, found]
    cases op : opOf s.shared.cell stack l' with
    | push owned =>
        rw [op] at step
        have none : s.shared.wakerEntries = 0 := by
          cases step with
          | push _ entry _ _ =>
              have bound := kept.one
              simp only [accountOf] at entry
              omega
        change s.shared.manualEntries + (s.shared.wakerEntries + 1) ≤ 1 ∧ _ ↔ _
        rw [none, beq_iff_eq]
        exact ⟨fun both => by omega, fun zero => ⟨by omega, inPlace⟩⟩
    | schedule =>
        have free := goesOn op
        simp [ManualCell.operated, one, inPlace, free]
    | run | runInline => simp [ManualCell.operated, inPlace]
    | _ => simp [ManualCell.operated, one, inPlace]
  · cases l with
    | task l => exact absurd rfl (other l)
    | new =>
        obtain ⟨word, counted, rfl, rfl⟩ := ManualCell.call_new called
        exact iff_of_true ⟨one, inPlace⟩ rfl
    | wake =>
        obtain ⟨-, same⟩ := Option.ite_none_right_eq_some.mp called
        cases same
        have none : s.shared.cell.wakeable = true → s.shared.wakerEntries = 0 := by
          intro free
          have zero := inv.idle ((wakeable_iff s.shared.cell).mp free).1
          omega
        simp only [WakesOnce, wakesInTurn, inPlace, Bool.false_or, Bool.not_eq_eq_eq_not,
          Bool.not_false, Bool.and_eq_true, beq_iff_eq]
        constructor
        · rintro ⟨bound, free⟩
          exact ⟨free, by omega⟩
        · rintro ⟨free, zero⟩
          have noOther := none free
          exact ⟨by omega, free⟩
    | wakeInline =>
        obtain ⟨-, same⟩ := Option.ite_none_right_eq_some.mp called
        cases same
        exact iff_of_true ⟨Nat.zero_le _, inPlace⟩ rfl
    | intoWaker | drop =>
        obtain ⟨-, same⟩ := Option.ite_none_right_eq_some.mp called
        cases same
        exact iff_of_true ⟨one, inPlace⟩ rfl

end Runs

theorem scheduled_spawned (T : Type) (n : Nat) :
    Scheduled (manualWith (.spawned : Cell T) n).shared
      (pendingWakes (manualWith (.spawned : Cell T) n)) := by
  have none : pendingWakes (manualWith (.spawned : Cell T) n) = 0 := total_idle_eq_zero _ n
  rw [none]
  exact ⟨Nat.zero_le _, fun _ => rfl⟩

/-- **Between two runs the wakes of both kinds make one entry, of a task that may be woken, exactly
along the runs in which every `ManualWaker::wake` comes in turn.** -/
theorem wakesOnce_along_iff (creator : Creator) (n : Nat) (labels : List (Nat × ManualLabel T)) :
    (manualMachine creator).Always WakesOnce (manualWith .spawned n) labels ↔
      (manualMachine creator).Meets (fun s a => wakesInTurn s a = true) (manualWith .spawned n)
        labels := by
  refine Machine.always_iff_meets_of (R := fun s => Scheduled s.shared (pendingWakes s)) ?_ ?_
    (scheduled_spawned T n) ⟨Nat.zero_le _, rfl⟩
  · rintro s ⟨i, l⟩ s' inv - taken
    exact scheduled_step inv taken
  · rintro s ⟨i, l⟩ s' inv once taken
    exact wakesOnce_step_iff inv once taken

/-- A `ManualWaker` wakes the task twice after the completing poll has set `COMPLETE`. -/
def wokenAfterEnd : List (Nat × ManualLabel Unit) :=
  [(1, .new), (0, .task (.begin .run)), (0, .task (.ready ())), (0, .task .next),
   (0, .task .next), (1, .wake), (1, .wake)]

/-- Both wakes push an entry of the task, which is complete. -/
theorem wake_unchecked : ∃ s : ManualState Unit, (manualMachine .createTask).Reaches s ∧
    (fromBits s.shared.cell.state).isComplete = true ∧ s.shared.manualEntries = 2 ∧
      ¬WakesOnce s := by
  obtain ⟨s, reached, tested⟩ := (manualMachine .createTask).exists_reaches_of_test
    (fun s : ManualState Unit => (fromBits s.shared.cell.state).isComplete &&
      s.shared.manualEntries == 2) wokenAfterEnd ⟨2, rfl⟩ (by decide)
  rw [Bool.and_eq_true, beq_iff_eq] at tested
  refine ⟨s, reached, tested.1, tested.2, ?_⟩
  rintro ⟨one, -⟩
  omega

/-! ## References -/

/-- The `ManualWaker`s and wakers alive, those inside of a drop before its `fetch_sub` too. -/
def liveWakers (s : ManualState T) : Nat :=
  s.shared.manuals + s.shared.cell.wakers + total (total Frame.clones) s.threads

/-- The word counts the references of the start, `base`, and those alive. -/
def Balanced (base : Nat) (s : ManualState T) : Prop :=
  (fromBits s.shared.cell.state).refcount.toNat = base + liveWakers s

/-- The calls of the sequences: `ManualWaker::new`, `into_waker`, clones of wakers, and drops of
`ManualWaker`s and wakers. -/
def ManualLabel.counts : ManualLabel T → Bool
  | .new | .intoWaker | .drop => true
  | .task (.begin (.clone _)) | .task (.begin .dropWaker) | .task .next => true
  | _ => false

/-- The machine with these calls alone. -/
def countingMachine (T : Type) (creator : Creator) :
    Machine (ManualState T) (Nat × ManualLabel T) :=
  (manualMachine creator).restrict fun _ a => a.2.counts

/-- There is no `into_waker`, and the references fit in the count. -/
def keepsCount (base : Nat) (s : ManualState T) (a : Nat × ManualLabel T) : Bool :=
  match a.2 with
  | .intoWaker => false
  | .new | .task (.begin (.clone _)) => base + liveWakers s + 1 < 2 ^ 16
  | _ => true

/-- A drop in progress. -/
def Frame.isDrop : Frame T → Bool
  | .dropWaker _ => true
  | _ => false

/-- The threads are inside of no call but drops. -/
def OnlyDrops (s : ManualState T) : Prop :=
  Pool.Each (fun _ stack => ∀ f ∈ stack, Frame.isDrop f = true) s.threads

section Counting

variable {creator : Creator} {base : Nat} {s s' : ManualState T} {i : Nat} {l : ManualLabel T}

/-- What a step does to the word and to the references alive: nothing, one more, one less, or one
more alive that the word does not count. -/
inductive Counting (base : Nat) (s s' : ManualState T) : Nat × ManualLabel T → Prop where
  | same {a : Nat × ManualLabel T} (keeps : keepsCount base s a = true)
      (word : refs s'.shared.cell.state = refs s.shared.cell.state)
      (live : liveWakers s' = liveWakers s) : Counting base s s' a
  | more {a : Nat × ManualLabel T}
      (keeps : keepsCount base s a = decide (base + liveWakers s + 1 < 2 ^ 16))
      (word : refs s'.shared.cell.state = (refs s.shared.cell.state + 1) % 2 ^ 48)
      (live : liveWakers s' = liveWakers s + 1) : Counting base s s' a
  | less {a : Nat × ManualLabel T} (keeps : keepsCount base s a = true)
      (word : refs s'.shared.cell.state = (refs s.shared.cell.state + (2 ^ 48 - 1)) % 2 ^ 48)
      (live : liveWakers s = liveWakers s' + 1) : Counting base s s' a
  | uncounted (i : Nat) (word : refs s'.shared.cell.state = refs s.shared.cell.state)
      (live : liveWakers s' = liveWakers s + 1) : Counting base s s' (i, .intoWaker)

/-- **A step keeps the balance exactly when it meets the condition.** -/
theorem Counting.balanced_iff {a : Nat × ManualLabel T} (step : Counting base s s' a)
    (balanced : Balanced base s) : Balanced base s' ↔ keepsCount base s a = true := by
  have bound := refs_lt s.shared.cell.state
  simp only [Balanced, refcount_toNat] at balanced ⊢
  cases step with
  | same keeps word live =>
      rw [keeps, word, live]
      exact iff_of_true balanced rfl
  | more keeps word live =>
      rw [keeps, word, live, decide_eq_true_eq]
      omega
  | less keeps word live =>
      rw [keeps, word]
      refine iff_of_true ?_ rfl
      omega
  | uncounted i word live =>
      rw [word, live]
      refine iff_of_false ?_ nofun
      omega

/-- The references alive after a step of one thread. -/
theorem liveWakers_set {shared : ManualCell T} {stack after : List (Frame T)}
    (found : s.threads[i]? = some stack) (more less : Nat)
    (alive : shared.manuals + shared.cell.wakers + total Frame.clones after + less =
      s.shared.manuals + s.shared.cell.wakers + total Frame.clones stack + more) :
    liveWakers (⟨shared, s.threads.set i after⟩ : ManualState T) + less =
      liveWakers s + more := by
  simp only [liveWakers, total_set_others after found, total_eq_others found]
  omega

/-- A drop in progress gives back its reference, or calls `deallocate`. -/
theorem counting_of_advanceDrop {pc : DropPc} {rest frames : List (Frame T)} {cell : Cell T}
    {op : Op} (found : s.threads[i]? = some (.dropWaker pc :: rest))
    (advanced : advanceDrop s.shared.cell pc = some (cell, frames)) :
    Counting base s ⟨s.shared.operated cell op, s.threads.set i (frames ++ rest)⟩
        (i, .task .next) ∧ ∀ f ∈ frames, Frame.isDrop f = true := by
  cases pc with
  | fetchSub =>
      obtain ⟨rfl, rfl⟩ := Prod.mk.inj (Option.some.inj advanced)
      have drops : ∀ f ∈ (if lastReference s.shared.cell.state = true
          then [.dropWaker .deallocate] else [] : List (Frame T)),
          Frame.isDrop f = true ∧ f.clones = 0 := by
        split <;> simp [Frame.isDrop]
      have none := total_eq_zero Frame.clones fun f member => (drops f member).2
      refine ⟨.less rfl ?_ ?_, fun f member => (drops f member).1⟩
      · simp
      · refine (liveWakers_set found 0 1 ?_).symm
        simp only [ManualCell.operated_cell, ManualCell.operated_manuals, total_append, none,
          total_cons, Frame.clones]
        omega
  | deallocate =>
      cases advanced
      obtain ⟨state, -, -, -⟩ := deallocate_same s.shared.cell
      have wakers : (deallocate s.shared.cell).wakers = s.shared.cell.wakers := by
        unfold deallocate
        split <;> rfl
      refine ⟨.same rfl ?_ (liveWakers_set found 0 0 ?_), List.forall_mem_nil _⟩
      · simp [state]
      · simp only [ManualCell.operated_cell, ManualCell.operated_manuals, wakers, total_append,
          total_cons, total_nil, Frame.clones]

/-- **What a step of the sequences does**, and it leaves no call but drops in progress. -/
theorem counting_of_taken (drops : OnlyDrops s)
    (taken : (countingMachine T creator).step s (i, l) = some s') :
    Counting base s s' (i, l) ∧ OnlyDrops s' := by
  obtain ⟨counts, moved⟩ := Machine.restrict_step_eq_some taken
  -- the frames on top of a thread are replaced by drops
  have replaces : ∀ (shared : ManualCell T) (top rest frames : List (Frame T)),
      s.threads[i]? = some (top ++ rest) → (∀ f ∈ frames, Frame.isDrop f = true) →
      OnlyDrops (⟨shared, s.threads.set i (frames ++ rest)⟩ : ManualState T) := by
    intro shared top rest frames found new
    refine Pool.interference_free drops ?_ fun _ _ _ _ => id
    intro f member
    rcases List.mem_append.mp member with here | below
    · exact new f here
    · exact drops i _ found f (List.mem_append_right top below)
  have one : ∀ f ∈ ([.dropWaker .fetchSub] : List (Frame T)), Frame.isDrop f = true := by
    simp [Frame.isDrop]
  rcases manualStep_of_taken moved with ⟨l', stack, cell, after, rfl, found, operates, rfl⟩ |
    ⟨stack, shared, frames, other, found, called, rfl⟩
  · cases moves_of_move operates with
    | @call b _ _ effect =>
        cases effect with
        | clone context word counted atHand =>
            refine ⟨.more rfl ?_ (liveWakers_set found 1 0 ?_), replaces _ [] [] [] found nofun⟩
            · simp [counted]
            · simp only [ManualCell.operated_cell, ManualCell.operated_manuals]
              omega
        | dropWaker movable =>
            have alive := wakers_pos_of_movable movable
            refine ⟨.same rfl ?_ (liveWakers_set found 0 0 ?_), replaces _ [] [] _ found one⟩
            · simp
            · simp only [ManualCell.operated_cell, ManualCell.operated_manuals, total_nil,
                total_singleton, Frame.clones]
              omega
        | _ => cases counts
    | callInFuture rest effect | ready output rest | pending rest =>
        have drop := drops i _ found _ List.mem_cons_self
        cases drop
    | spurious via current rest | runInline impl via rest made => cases counts
    | @next frame _ frames rest advanced =>
        cases frame with
        | dropWaker pc =>
            obtain ⟨counting, new⟩ := counting_of_advanceDrop found advanced
            exact ⟨counting, replaces _ [.dropWaker pc] rest frames found new⟩
        | poll pc | wake impl via pc | joinPoll pc | abort pc | dropHandle pc =>
            have drop := drops i _ found _ List.mem_cons_self
            cases drop
  · cases l with
    | task l => exact absurd rfl (other l)
    | wake | wakeInline => cases counts
    | new =>
        obtain ⟨word, counted, rfl, rfl⟩ := ManualCell.call_new called
        refine ⟨.more rfl ?_ (liveWakers_set found 1 0 ?_), replaces _ [] stack [] found nofun⟩
        · simp [counted]
        · simp only [List.nil_append]
          omega
    | intoWaker =>
        obtain ⟨alive, same⟩ := Option.ite_none_right_eq_some.mp called
        cases same
        refine ⟨.uncounted i rfl (liveWakers_set found 1 0 ?_), replaces _ [] stack _ found one⟩
        simp only [total_append, total_singleton, Frame.clones]
        omega
    | drop =>
        obtain ⟨alive, same⟩ := Option.ite_none_right_eq_some.mp called
        cases same
        refine ⟨.same rfl rfl (liveWakers_set found 0 0 ?_), replaces _ [] stack _ found one⟩
        simp only [total_append, total_singleton, Frame.clones]
        omega

end Counting

/-- A task of any word, `n` threads inside no call, and no waker but those that the sequence
makes. -/
def unwakedWith (cell : Cell T) (n : Nat) : ManualState T :=
  manualWith { cell with wakers := 0, borrows := 0 } n

theorem liveWakers_unwakedWith (cell : Cell T) (n : Nat) : liveWakers (unwakedWith cell n) = 0 := by
  have none : total (total Frame.clones) (unwakedWith cell n).threads = 0 :=
    total_idle_eq_zero _ n
  rw [liveWakers, none]
  rfl

theorem onlyDrops_unwakedWith (cell : Cell T) (n : Nat) : OnlyDrops (unwakedWith cell n) := by
  intro i stack found f member
  rw [List.eq_of_mem_replicate (List.mem_of_getElem? found)] at member
  cases member

/-- **The word counts the references exactly along the sequences without `into_waker`** whose
references fit in the count, from any reference count on. -/
theorem balanced_along_iff (creator : Creator) (cell : Cell T) (n : Nat)
    (labels : List (Nat × ManualLabel T)) :
    (countingMachine T creator).Always (Balanced (fromBits cell.state).refcount.toNat)
        (unwakedWith cell n) labels ↔
      (countingMachine T creator).Meets
        (fun s a => keepsCount (fromBits cell.state).refcount.toNat s a = true)
        (unwakedWith cell n) labels := by
  refine Machine.always_iff_meets_of (R := OnlyDrops) ?_ ?_ (onlyDrops_unwakedWith cell n) ?_
  · rintro s ⟨i, l⟩ s' drops - taken
    obtain ⟨-, only⟩ : Counting 0 s s' (i, l) ∧ OnlyDrops s' := counting_of_taken drops taken
    exact only
  · rintro s ⟨i, l⟩ s' drops balanced taken
    exact (counting_of_taken drops taken).1.balanced_iff balanced
  · rw [Balanced, liveWakers_unwakedWith]
    exact (Nat.add_zero _).symm

/-- A spawned task has one reference. A `ManualWaker` of it becomes a waker: the waker is alive, and
the word counts one reference still. -/
theorem into_waker_uncounted : ∃ s : ManualState Unit,
    (countingMachine Unit .createTask).Reaches s ∧ liveWakers s = 1 ∧
      (fromBits s.shared.cell.state).refcount = 1 ∧ ¬Balanced 1 s := by
  obtain ⟨s, reached, tested⟩ := (countingMachine Unit .createTask).exists_reaches_of_test
    (fun s : ManualState Unit => liveWakers s == 1 &&
      (fromBits s.shared.cell.state).refcount == 1)
    [(0, .new), (0, .intoWaker), (0, .task .next)] ⟨1, rfl⟩ (by decide)
  rw [Bool.and_eq_true, beq_iff_eq, beq_iff_eq] at tested
  obtain ⟨live, count⟩ := tested
  refine ⟨s, reached, live, count, ?_⟩
  rw [Balanced, live, count]
  decide

end LoonyRuntime.Task
