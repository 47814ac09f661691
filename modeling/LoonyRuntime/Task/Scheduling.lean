import LoonyRuntime.Task.Account

/-!
# Wakes, polls and the end of a task

The entries of a task are conserved: each comes from the spawn or from a wake that moved the word
from `IDLE` to `SCHEDULED`, and each is queued, about to be pushed or polled
(`Account.Conserved`). No operation takes the word back to `IDLE`, so that one wake at most ever
succeeds and a task is polled at most twice (`begun_le_two`).

Three properties of a run follow under a condition on its steps:

* `wokenQueued_along_iff`: a wake that has returned finds its entry queued exactly when no wake
  breaks off after the second poll began, or while another wake has not pushed yet;
* `exclusive_of_scheduled_outside_polls`: polls exclude one another when no wake succeeds while a
  poll is in progress, `RUNNING` never being set;
* `not_polledAfterEnd_of_drained`: no poll begins after the end when no entry is left at the end,
  `VTableFor::poll` never reading the word.
-/

set_option autoImplicit false

namespace LoonyRuntime.Task

open TaskState Concurrent

variable {T : Type}

/-! ## Conservation of entries -/

namespace Account

/-- Entries are conserved, and the marks tell whether a wake has succeeded. -/
structure Conserved (a : Account) : Prop where
  entries : a.queue + a.pending + a.begun = 1 + a.scheduled
  once : a.scheduled ≤ 1
  idle : Marks.isIdle a.marks = true → a.scheduled = 0
  scheduled : Marks.isIdle a.marks = false → Marks.isComplete a.marks = false → a.scheduled = 1
  unborn : a.begun = 0 → a.users = 0 ∧ a.live = 0

theorem conserved_spawned : Conserved .spawned where
  entries := rfl
  once := Nat.zero_le 1
  idle := fun _ => rfl
  scheduled := by decide
  unborn := fun _ => ⟨rfl, rfl⟩

/-- An operation that keeps the number of entries, the polls begun, the wakes that succeeded and
the lifecycle conserves the entries. -/
theorem Conserved.of_same {a a' : Account} (inv : Conserved a)
    (entries : a'.queue + a'.pending = a.queue + a.pending) (begun : a'.begun = a.begun)
    (scheduled : a'.scheduled = a.scheduled)
    (idle : Marks.isIdle a'.marks = Marks.isIdle a.marks)
    (complete : Marks.isComplete a'.marks = Marks.isComplete a.marks)
    (unborn : a.users = 0 ∧ a.live = 0 → a'.users = 0 ∧ a'.live = 0) : Conserved a' where
  entries := by
    rw [entries, begun, scheduled]
    exact inv.entries
  once := scheduled ▸ inv.once
  idle := fun now => scheduled.trans (inv.idle (idle ▸ now))
  scheduled := fun notIdle notComplete =>
    scheduled.trans (inv.scheduled (idle ▸ notIdle) (complete ▸ notComplete))
  unborn := fun none => unborn (inv.unborn (begun ▸ none))

/-- The flags do not touch the lifecycle. -/
theorem lifecycle_of_flags (m m' : BitVec 4) (flag : m' = m ||| 4 ∨ m' = m ||| 8 ∨ m' = m &&& 7) :
    Marks.isIdle m' = Marks.isIdle m ∧ Marks.isComplete m' = Marks.isComplete m := by
  revert m m'
  decide

/-- A poll begins by taking one entry. -/
theorem Conserved.polled {a a' : Account} (inv : Conserved a)
    (entry : a.queue + a.pending = a'.queue + a'.pending + 1) (begun : a'.begun = a.begun + 1)
    (scheduled : a'.scheduled = a.scheduled) (marks : a'.marks = a.marks) : Conserved a' where
  entries := by
    have before := inv.entries
    omega
  once := scheduled ▸ inv.once
  idle := fun now => scheduled.trans (inv.idle (marks ▸ now))
  scheduled := fun notIdle notComplete =>
    scheduled.trans (inv.scheduled (marks ▸ notIdle) (marks ▸ notComplete))
  unborn := fun none => by omega

/-- **Every operation conserves the entries.** -/
theorem Conserved.step {op : Op} {a a' : Account} (inv : Conserved a) (step : Step op a a') :
    Conserved a' := by
  cases a'
  cases step with
  | run entry after =>
      cases after
      exact inv.polled (by simp only at entry ⊢; omega) rfl rfl rfl
  | runInline entry after =>
      cases after
      exact inv.polled (by simp only at entry ⊢; omega) rfl rfl rfl
  | clone waker after =>
      cases after
      refine inv.of_same rfl rfl rfl rfl rfl ?_
      intro none
      omega
  | proceed user idle live => exact inv
  | breakOff waker user done after =>
      cases after
      refine inv.of_same rfl rfl rfl rfl rfl ?_
      intro none
      omega
  | schedule user idle live after =>
      cases after
      have fresh := inv.idle idle
      have moved : ∀ m : BitVec 4, Marks.isIdle m = true → Marks.isIdle (m ||| 1) = false := by
        decide
      refine ⟨?_, ?_, ?_, ?_, inv.unborn⟩
      · have before := inv.entries
        simp only
        omega
      · simp only
        omega
      · intro now
        rw [moved _ idle] at now
        cases now
      · intro _ _
        simp only [fresh]
  | push waker entry user after =>
      cases after
      refine inv.of_same (by simp only at entry ⊢; omega) rfl rfl rfl rfl
        fun none => ⟨user none.1, ?_⟩
      simp only [Account.live] at waker none ⊢
      omega
  | inlineReturn waker call user after =>
      cases after
      refine inv.of_same rfl rfl rfl rfl rfl fun none => ⟨user none.1, ?_⟩
      simp only [Account.live] at waker none ⊢
      omega
  | ready after =>
      cases after
      exact inv.of_same rfl rfl rfl rfl rfl id
  | complete poll after =>
      cases after
      have completed : ∀ m : BitVec 4, Marks.isIdle (m ||| 3) = false ∧
          Marks.isComplete (m ||| 3) = true := by decide
      obtain ⟨notIdle, complete⟩ := completed a.marks
      refine ⟨inv.entries, inv.once, fun now => ?_, fun _ notComplete => ?_, inv.unborn⟩
      · rw [notIdle] at now
        cases now
      · rw [complete] at notComplete
        cases notComplete
  | takeJoin => exact inv
  | release after =>
      cases after
      exact inv.of_same rfl rfl rfl rfl rfl id
  | dropContext waker user after =>
      cases after
      refine inv.of_same rfl rfl rfl rfl rfl ?_
      intro none
      simp only [Account.live] at waker none ⊢
      omega
  | dropClone waker user after =>
      cases after
      refine inv.of_same rfl rfl rfl rfl rfl ?_
      intro none
      simp only [Account.live] at waker none ⊢
      omega
  | deallocatePoll call user after =>
      cases after
      exact inv.of_same rfl rfl rfl rfl rfl fun none => ⟨user none.1, none.2⟩
  | deallocateDrop call user after =>
      cases after
      exact inv.of_same rfl rfl rfl rfl rfl fun none => ⟨user none.1, none.2⟩
  | abort after =>
      cases after
      obtain ⟨idle, complete⟩ := lifecycle_of_flags a.marks _ (.inl rfl)
      exact inv.of_same rfl rfl rfl idle complete id
  | interest marks after =>
      cases after
      obtain ⟨idle, complete⟩ := lifecycle_of_flags a.marks _ (.inr marks)
      exact inv.of_same rfl rfl rfl idle complete id
  | dropHandle after =>
      cases after
      exact inv.of_same rfl rfl rfl rfl rfl id
  | quiet user after =>
      cases after
      exact inv.of_same rfl rfl rfl rfl rfl fun none => ⟨user none.1, none.2⟩

/-! ## Wakes that return -/

/-- If a wake has returned since the latest poll began and the task has not ended, an entry of
the task is queued. -/
def WokenQueued (a : Account) : Prop :=
  a.woken = true → Marks.isComplete a.marks = false → Marks.isAborted a.marks = false →
    0 < a.queue

instance (a : Account) : Decidable (WokenQueued a) :=
  inferInstanceAs (Decidable (_ = true → _ = false → _ = false → 0 < a.queue))

/-- A wake of a task that has not ended breaks off only before the second poll has begun, with no
other wake between its exchange and its push. -/
def breaksOffQueued : Op → Account → Bool
  | .breakOff _, a => Marks.isComplete a.marks || Marks.isAborted a.marks ||
      (decide (a.begun < 2) && a.pending == 0)
  | _, _ => true

/-- An operation that keeps the marks' verdict, and that neither makes a wake return nor takes
an entry, keeps a woken task queued. -/
theorem WokenQueued.of_same {a a' : Account} (queued : WokenQueued a)
    (woken : a'.woken = true → a.woken = true)
    (complete : Marks.isComplete a'.marks = false → Marks.isComplete a.marks = false)
    (aborted : Marks.isAborted a'.marks = false → Marks.isAborted a.marks = false)
    (queue : a.queue ≤ a'.queue) : WokenQueued a' := fun now notComplete notAborted =>
  Nat.lt_of_lt_of_le (queued (woken now) (complete notComplete) (aborted notAborted)) queue

/-- **A step decides by its condition whether a woken task stays queued.** -/
theorem wokenQueued_step_iff {op : Op} {a a' : Account} (inv : Conserved a)
    (shared : a.inline = 0) (queued : WokenQueued a) (step : Step op a a') :
    WokenQueued a' ↔ breaksOffQueued op a = true := by
  have always : WokenQueued a' → (WokenQueued a' ↔ true = true) := fun holds =>
    ⟨fun _ => rfl, fun _ => holds⟩
  cases a'
  cases step with
  | run entry after =>
      cases after
      exact always fun now => nomatch now
  | runInline entry after =>
      cases after
      exact always fun now => nomatch now
  | clone waker after =>
      cases after
      exact always (queued.of_same id id id (Nat.le_refl _))
  | proceed user idle live => exact always queued
  | breakOff waker user done after =>
      cases after
      have entries : Marks.isComplete a.marks = false → Marks.isAborted a.marks = false →
          a.queue + a.pending + a.begun = 2 ∧ 0 < a.begun := by
        intro notComplete notAborted
        have notIdle : Marks.isIdle a.marks = false :=
          Bool.eq_false_of_not_eq_true fun idle => done ⟨idle, notAborted⟩
        have once := inv.scheduled notIdle notComplete
        have conserved := inv.entries
        refine ⟨by omega, Nat.pos_of_ne_zero ?_⟩
        intro unborn
        have noUser := (inv.unborn unborn).1
        omega
      simp only [breaksOffQueued, WokenQueued, Bool.or_eq_true, Bool.and_eq_true,
        decide_eq_true_eq, beq_iff_eq]
      cases complete : Marks.isComplete a.marks with
      | true => simp
      | false =>
          cases aborted : Marks.isAborted a.marks with
          | true => simp
          | false =>
              obtain ⟨two, begun⟩ := entries complete aborted
              simp only [forall_const, Bool.false_eq_true, false_or]
              constructor
              · intro queue
                exact ⟨by omega, by omega⟩
              · rintro ⟨first, pushed⟩
                omega
  | schedule user idle live after =>
      cases after
      have moved : ∀ m : BitVec 4, Marks.isIdle m = true → Marks.isComplete m = false := by
        decide
      refine always (queued.of_same id (fun _ => moved _ idle) (fun _ => live) (Nat.le_refl _))
  | push waker entry user after =>
      cases after
      exact always fun _ _ _ => Nat.succ_pos _
  | inlineReturn waker call user after => omega
  | ready after =>
      cases after
      exact always queued
  | complete poll after =>
      cases after
      have completed : ∀ m : BitVec 4, Marks.isComplete (m ||| 3) = true := by decide
      apply always
      intro _ notComplete
      rw [completed] at notComplete
      cases notComplete
  | takeJoin => exact always queued
  | release after =>
      cases after
      exact always queued
  | dropContext waker user after =>
      cases after
      exact always queued
  | dropClone waker user after =>
      cases after
      exact always queued
  | deallocatePoll call user after =>
      cases after
      exact always queued
  | deallocateDrop call user after =>
      cases after
      exact always queued
  | abort after =>
      cases after
      have set : ∀ m : BitVec 4, Marks.isAborted (m ||| 4) = true := by decide
      apply always
      intro _ _ notAborted
      rw [set] at notAborted
      cases notAborted
  | interest marks after =>
      cases after
      have kept : ∀ m m' : BitVec 4, m' = m ||| 8 ∨ m' = m &&& 7 →
          Marks.isAborted m' = Marks.isAborted m := by decide
      obtain ⟨-, complete⟩ := lifecycle_of_flags a.marks _ (.inr marks)
      have aborted := kept a.marks _ marks
      exact always (queued.of_same id (complete ▸ id) (aborted ▸ id) (Nat.le_refl _))
  | dropHandle after =>
      cases after
      exact always queued
  | quiet user after =>
      cases after
      exact always queued

/-! ## Polls that overlap -/

/-- A wake moves the word from `IDLE` only while no poll is in progress. -/
def schedulesOutsidePolls : Op → Account → Bool
  | .schedule, a => a.inProgress == 0
  | _, _ => true

/-- Before a wake has succeeded the polls in progress are the one that the spawn gives rise to;
afterwards the entry of that wake is queued, about to be pushed, or polled. -/
structure Exclusive (a : Account) : Prop extends Conserved a where
  first : a.scheduled = 0 → a.inProgress ≤ a.begun
  second : a.scheduled = 1 → a.queue + a.pending + a.inProgress ≤ 1

/-- In either case one poll at most is in progress. -/
theorem Exclusive.inProgress_le_one {a : Account} (inv : Exclusive a) : a.inProgress ≤ 1 := by
  have conserved := inv.entries
  rcases Nat.le_one_iff_eq_zero_or_eq_one.mp inv.once with fresh | once
  · have first := inv.first fresh
    omega
  · have second := inv.second once
    omega

/-- An operation that neither begins a poll nor makes a wake succeed keeps the polls apart. -/
theorem Exclusive.of_fewer {a a' : Account} (inv : Exclusive a) (conserved : Conserved a')
    (entries : a'.queue + a'.pending = a.queue + a.pending) (begun : a'.begun = a.begun)
    (scheduled : a'.scheduled = a.scheduled) (polls : a'.inProgress ≤ a.inProgress) :
    Exclusive a' where
  toConserved := conserved
  first := fun fresh => by
    have before := inv.first (scheduled ▸ fresh)
    omega
  second := fun once => by
    have before := inv.second (scheduled ▸ once)
    omega

/-- A poll that begins takes the only entry there is, and no other poll is in progress. -/
theorem Exclusive.polled {a a' : Account} (inv : Exclusive a) (conserved : Conserved a')
    (entry : a.queue + a.pending = a'.queue + a'.pending + 1) (begun : a'.begun = a.begun + 1)
    (scheduled : a'.scheduled = a.scheduled) (polls : a'.inProgress = a.inProgress + 1) :
    Exclusive a' where
  toConserved := conserved
  first := fun fresh => by
    have before := inv.first (scheduled ▸ fresh)
    omega
  second := fun once => by
    have before := inv.second (scheduled ▸ once)
    omega

/-- **Polls stay apart when every wake succeeds outside of polls.** -/
theorem Exclusive.step {op : Op} {a a' : Account} (inv : Exclusive a)
    (outside : schedulesOutsidePolls op a = true) (step : Step op a a') : Exclusive a' := by
  have conserved := inv.toConserved.step step
  cases a'
  cases step with
  | run entry after =>
      cases after
      refine inv.polled conserved ?_ rfl rfl ?_
      · simp only at entry ⊢
        omega
      · simp only [inProgress]
        omega
  | runInline entry after =>
      cases after
      refine inv.polled conserved ?_ rfl rfl ?_
      · simp only at entry ⊢
        omega
      · simp only [inProgress]
        omega
  | schedule user idle live after =>
      cases after
      have fresh := inv.idle idle
      have entries := inv.entries
      have none : a.inProgress = 0 := of_decide_eq_true outside
      have begun : a.begun ≠ 0 := fun unborn => by
        have noUser := (inv.unborn unborn).1
        omega
      refine ⟨conserved, fun now => ?_, fun _ => ?_⟩
      · simp only at now
        omega
      · simp only [inProgress] at none ⊢
        omega
  | push waker entry user after =>
      cases after
      refine inv.of_fewer conserved ?_ rfl rfl (Nat.le_refl _)
      simp only at entry ⊢
      omega
  | dropContext waker user after =>
      cases after
      apply inv.of_fewer conserved rfl rfl rfl
      have bit := Bool.toNat_le a.lastReference
      simp only [inProgress] at waker ⊢
      omega
  | deallocatePoll call user after =>
      cases after
      apply inv.of_fewer conserved rfl rfl rfl
      simp only [inProgress] at call ⊢
      omega
  | proceed | takeJoin => exact inv
  | clone _ after | breakOff _ _ _ after | inlineReturn _ _ _ after | ready after
  | complete _ after | release after | dropClone _ _ after | deallocateDrop _ _ after
  | abort after | interest _ after | dropHandle after | quiet _ after =>
      cases after
      exact inv.of_fewer conserved rfl rfl rfl (Nat.le_refl _)

/-! ## Polls after the end -/

/-- When the future returns `Ready` or `abort_task` is called no entry is left, and no wake
succeeds afterwards. -/
def drainedAtEnd : Op → Account → Bool
  | .ready, a => a.queue == 0 && a.pending == 0
  | .abort, a => a.queue == 0 && a.pending == 0
  | .schedule, a => !a.ended
  | _, _ => true

/-- A task that has ended has no entry left, and was not polled since. -/
structure Drained (a : Account) : Prop where
  empty : a.ended = true → a.queue = 0 ∧ a.pending = 0
  inTime : a.polledLate = false

/-- A task that has an entry has not ended. -/
theorem Drained.not_ended {a : Account} (inv : Drained a) (entry : 0 < a.queue + a.pending) :
    a.ended = false :=
  Bool.eq_false_of_not_eq_true fun ended => by
    obtain ⟨queue, pending⟩ := inv.empty ended
    omega

/-- What happens before the end keeps the account drained. -/
theorem Drained.of_not_ended {a : Account} (ended : a.ended = false)
    (inTime : a.polledLate = false) : Drained a :=
  ⟨fun now => absurd now (by simp [ended]), inTime⟩

/-- **No poll begins after the end of a task that was drained.** -/
theorem Drained.step {op : Op} {a a' : Account} (inv : Drained a)
    (drained : drainedAtEnd op a = true) (step : Step op a a') : Drained a' := by
  cases a'
  cases step with
  | run entry after =>
      cases after
      have unended := inv.not_ended (by omega)
      exact .of_not_ended unended (by simp [unended, inv.inTime])
  | runInline entry after =>
      cases after
      have unended := inv.not_ended (by omega)
      exact .of_not_ended unended (by simp [unended, inv.inTime])
  | schedule user idle live after =>
      cases after
      exact .of_not_ended (by simpa [drainedAtEnd] using drained) inv.inTime
  | push waker entry user after =>
      cases after
      exact .of_not_ended (inv.not_ended (by omega)) inv.inTime
  | ready after =>
      cases after
      exact ⟨fun _ => by simpa [drainedAtEnd] using drained, inv.inTime⟩
  | abort after =>
      cases after
      exact ⟨fun _ => by simpa [drainedAtEnd] using drained, inv.inTime⟩
  | proceed | takeJoin => exact inv
  | clone _ after | breakOff _ _ _ after | inlineReturn _ _ _ after | complete _ after
  | release after | dropContext _ _ after | dropClone _ _ after | deallocatePoll _ _ after
  | deallocateDrop _ _ after | interest _ after | dropHandle after | quiet _ after =>
      cases after
      exact ⟨inv.empty, inv.inTime⟩

end Account

/-! ## The runs of the machine -/

open Account

/-- Entries are conserved in every reached state. -/
theorem conserved {creator : Creator} {ok : State T → Action T → Prop} {s : State T}
    (reached : (machine creator).ReachesWhen ok s) : Conserved (account s) :=
  account_invariant (fun _ _ => True) (fun _ _ _ _ _ => trivial) conserved_spawned
    (fun _ _ _ inv _ step => inv.step step) reached

/-- **A task is polled at most twice**, however often it is woken. -/
theorem begun_le_two {creator : Creator} {s : State T} (reached : (machine creator).Reaches s) :
    s.shared.log.countP Event.isPollBegan ≤ 2 := by
  have entries := (conserved reached).entries
  have once := (conserved reached).once
  have begun : (account s).begun = s.shared.log.countP Event.isPollBegan := rfl
  omega

/-- The next operation of a call neither takes an entry nor runs the task inside of a wake. -/
theorem Frame.op_ne (s : Cell T) (frame : Frame T) :
    frame.op s ≠ .run ∧ frame.op s ≠ .runInline := by
  constructor
  all_goals
    intro same
    unfold Frame.op at same
    split at same <;> first | cases same | (split at same <;> cases same)

/-- Only the label of an inline run is an inline run. -/
theorem eq_runInline_of_opOf {s : Cell T} {stack : List (Frame T)} {l : Label T}
    (inline : opOf s stack l = .runInline) : l = .runInline := by
  unfold opOf at inline
  split at inline
  · next call => cases call <;> cases inline
  · cases inline
  · rfl
  · next frame rest => exact absurd inline (frame.op_ne s).2
  · cases inline

/-- The schedule closure of `create_task_with_shared` does not run the task. -/
theorem nextOp_ne_runInline {s s' : State T} {a : Action T}
    (taken : (machine .createTaskWithShared).step s a = some s') : nextOp s a ≠ .runInline := by
  obtain ⟨i, l⟩ := a
  replace taken : Pool.step (fun _ => move .createTaskWithShared) s (i, l) = some s' := taken
  obtain ⟨stack, cell, after, found, moved, rfl⟩ := Pool.step_eq_some taken
  intro inline
  have kind : opOf s.shared stack l = .runInline := by simpa [nextOp, found] using inline
  obtain rfl := eq_runInline_of_opOf kind
  cases moves_of_move moved with
  | runInline impl via rest made => cases made

/-- A task of `create_task_with_shared` is never run inside a wake. -/
theorem inline_eq_zero {s : State T} (reached : (machine .createTaskWithShared).Reaches s) :
    (account s).inline = 0 := by
  refine account_invariant (I := fun a => a.inline = 0) (fun op _ => op ≠ .runInline)
    (fun s a s' _ taken => nextOp_ne_runInline taken) rfl ?_ reached
  intro op a a' shared none step
  cases a'
  cases step with
  | runInline _ _ => exact absurd rfl none
  | inlineReturn _ call _ _ => omega
  | proceed | takeJoin => exact shared
  | run _ after | clone _ after | breakOff _ _ _ after | schedule _ _ _ after | push _ _ _ after
  | ready after | complete _ after | release after | dropContext _ _ after
  | dropClone _ _ after | deallocatePoll _ _ after | deallocateDrop _ _ after | abort after
  | interest _ after | dropHandle after | quiet _ after =>
      cases after
      exact shared

/-- **A woken task is queued exactly along the runs in which no wake breaks off after the second
poll began, or between the exchange and the push of another wake.** -/
theorem wokenQueued_along_iff (n : Nat) (labels : List (Action T)) :
    (machine .createTaskWithShared).Always (fun s => WokenQueued (account s))
        (spawnedWith T n) labels ↔
      (machine .createTaskWithShared).Meets (When breaksOffQueued) (spawnedWith T n) labels := by
  refine Machine.always_iff_meets ?_ (.start ⟨n, rfl⟩) ?_
  · intro s a s' reached queued taken
    exact wokenQueued_step_iff (conserved reached) (inline_eq_zero reached) queued
      (machine_refines_account taken)
  · rw [account_spawnedWith]
    intro woken
    cases woken

/-- A clone of the waker wakes the task twice, once after each of its polls. -/
def wokenTwice : List (Action Unit) :=
  [(0, .begin .run), (0, .begin (.clone true)), (0, .pending), (0, .next), (0, .next),
   (0, .begin (.wake .raw .byRef)), (0, .next), (0, .next), (0, .next),
   (0, .begin .run), (0, .pending), (0, .next), (0, .next),
   (0, .begin (.wake .raw .byRef)), (0, .next)]

/-- The second wake is lost: no entry of the task is queued and no call is in progress. -/
theorem wokenQueued_fails : ∃ s : State Unit, (machine .createTaskWithShared).Reaches s ∧
    ¬WokenQueued (account s) ∧ ∀ stack ∈ s.threads, stack = [] := by
  obtain ⟨s, reached, lost⟩ := (machine .createTaskWithShared).exists_reaches_of_test
    (fun s => decide ¬WokenQueued (account s) && s.threads.all List.isEmpty) wokenTwice
    ⟨1, rfl⟩ (by decide)
  obtain ⟨unqueued, idle⟩ := Bool.and_eq_true_iff.mp lost
  refine ⟨s, reached, of_decide_eq_true unqueued, ?_⟩
  intro stack member
  exact List.isEmpty_iff.mp (List.all_eq_true.mp idle stack member)

/-- **Polls exclude one another when every wake succeeds outside of polls.** -/
theorem exclusive_of_scheduled_outside_polls {creator : Creator} {s : State T}
    (reached : (machine creator).ReachesWhen (When schedulesOutsidePolls) s) :
    (account s).inProgress ≤ 1 := by
  apply Exclusive.inProgress_le_one
  refine account_invariant (fun op a => schedulesOutsidePolls op a = true)
    (fun _ _ _ meets _ => meets) ⟨conserved_spawned, fun _ => Nat.zero_le _, fun now => ?_⟩
    (fun op a a' inv outside step => inv.step outside step) reached
  cases now

/-- The task is polled, woken between its polls, and polled again. -/
def wokenBetweenPolls : List (Action Unit) :=
  [(0, .begin .run), (0, .begin (.clone true)), (0, .pending), (0, .next), (0, .next),
   (1, .begin (.wake .waker .byRef)), (1, .next), (1, .next), (1, .next), (1, .begin .run)]

/-- Such a run reaches its second poll. -/
theorem exclusive_between_polls : ∃ s : State Unit,
    (machine .createTask).ReachesWhen (When schedulesOutsidePolls) s ∧
      (account s).begun = 2 ∧ (account s).inProgress ≤ 1 := by
  obtain ⟨s, reached, begun⟩ := (machine .createTask).exists_reachesWhen_of_test
    (When schedulesOutsidePolls) (fun s => (account s).begun == 2) wokenBetweenPolls
    ⟨2, rfl⟩ (by decide)
  exact ⟨s, reached, eq_of_beq begun, exclusive_of_scheduled_outside_polls reached⟩

/-- The task wakes itself in its first poll, and another thread takes the entry. -/
def wokenInPoll : List (Action Unit) :=
  [(0, .begin .run), (0, .begin (.wake .raw .context)), (0, .next), (0, .next), (0, .next),
   (1, .begin .run)]

/-- The task wakes itself in its first poll, where no current handle is found. -/
def wokenInline : List (Action Unit) :=
  [(0, .begin .run), (0, .begin (.wake .raw .context)), (0, .next), (0, .next), (0, .runInline)]

/-- Two polls overlap on two threads, and two polls nest on one. -/
theorem polls_overlap :
    (∃ s : State Unit, (machine .createTaskWithShared).Reaches s ∧ (account s).inProgress = 2) ∧
      ∃ s : State Unit, (machine .createTask).Reaches s ∧ (account s).inProgress = 2 := by
  constructor
  · obtain ⟨s, reached, two⟩ := (machine .createTaskWithShared).exists_reaches_of_test
      (fun s => (account s).inProgress == 2) wokenInPoll ⟨2, rfl⟩ (by decide)
    exact ⟨s, reached, eq_of_beq two⟩
  · obtain ⟨s, reached, two⟩ := (machine .createTask).exists_reaches_of_test
      (fun s => (account s).inProgress == 2) wokenInline ⟨1, rfl⟩ (by decide)
    exact ⟨s, reached, eq_of_beq two⟩

/-- **No poll begins after the end of a task whose entries are drained at its end.** -/
theorem not_polledAfterEnd_of_drained {creator : Creator} {s : State T}
    (reached : (machine creator).ReachesWhen (When drainedAtEnd) s) :
    polledAfterEnd s.shared.log = false := by
  apply Drained.inTime (a := account s)
  refine account_invariant (fun op a => drainedAtEnd op a = true)
    (fun _ _ _ meets _ => meets) ⟨fun now => ?_, rfl⟩
    (fun op a a' inv outside step => inv.step outside step) reached
  cases now

/-- The task is aborted between its polls, and its waker is used after that. -/
def abortedBetweenPolls : List (Action Unit) :=
  [(0, .begin .run), (0, .begin (.clone true)), (0, .pending), (0, .next), (0, .next),
   (1, .begin .abort), (1, .next), (1, .next), (0, .begin (.wake .raw .byValue)), (0, .next)]

/-- Such a run has ended, and the wake after the end returned. -/
theorem not_polledAfterEnd_aborted : ∃ s : State Unit,
    (machine .createTask).ReachesWhen (When drainedAtEnd) s ∧ (account s).ended = true ∧
      (account s).consumed = 1 ∧ polledAfterEnd s.shared.log = false := by
  obtain ⟨s, reached, tested⟩ := (machine .createTask).exists_reachesWhen_of_test
    (When drainedAtEnd) (fun s => (account s).ended && (account s).consumed == 1)
    abortedBetweenPolls ⟨2, rfl⟩ (by decide)
  obtain ⟨ended, consumed⟩ := Bool.and_eq_true_iff.mp tested
  exact ⟨s, reached, ended, eq_of_beq consumed, not_polledAfterEnd_of_drained reached⟩

/-- The task is aborted before its first run, and then run. -/
def abortedThenRun : List (Action Unit) :=
  [(0, .begin .abort), (0, .next), (0, .next), (0, .begin .run)]

/-- The task wakes itself, returns `Ready`, and is run for the entry of its wake. -/
def readyThenRun : List (Action Unit) :=
  [(0, .begin .run), (0, .begin (.wake .raw .context)), (0, .next), (0, .next), (0, .next),
   (0, .ready ()), (0, .next), (0, .next), (0, .next), (0, .next), (0, .begin .run)]

/-- A task is polled after `abort_task`, and a task is polled after its future was ready. -/
theorem polledAfterEnd_happens :
    (∃ s : State Unit, (machine .createTaskWithShared).Reaches s ∧
      s.shared.log = [.pollBegan, .abortCalled] ∧ polledAfterEnd s.shared.log = true) ∧
      ∃ s : State Unit, (machine .createTaskWithShared).Reaches s ∧
        s.shared.log = [.pollBegan, .released, .futureReady (), .wakeReturned .context,
          .scheduled, .pollBegan] ∧ polledAfterEnd s.shared.log = true := by
  constructor
  · obtain ⟨s, reached, log⟩ := (machine .createTaskWithShared).exists_reaches_of_test
      (fun s => s.shared.log == [.pollBegan, .abortCalled]) abortedThenRun ⟨1, rfl⟩ (by decide)
    have log := eq_of_beq log
    exact ⟨s, reached, log, by rw [log]; rfl⟩
  · obtain ⟨s, reached, log⟩ := (machine .createTaskWithShared).exists_reaches_of_test
      (fun s => s.shared.log == [.pollBegan, .released, .futureReady (), .wakeReturned .context,
        .scheduled, .pollBegan]) readyThenRun ⟨1, rfl⟩ (by decide)
    have log := eq_of_beq log
    exact ⟨s, reached, log, by rw [log]; rfl⟩

end LoonyRuntime.Task
