import LoonyRuntime.Task.Scheduling

/-!
# Bodies that yield

`yield_now` wakes its own task and returns `Pending` once. The body of an `async` block that awaits
it `n` times is pending `n` times, wakes its waker in each of these polls, and then returns
(`Body.shows_eq`).

`task::block_on` polls such a body `n + 1` times (`block_on_yields`). Spawned as a task the body is
polled twice at most, so it returns exactly if it yields once at most (`spawned_returns_iff`).
-/

set_option autoImplicit false

namespace LoonyRuntime.Task

open TaskState Concurrent

variable {T : Type}

/-! ## The body -/

/-- The future of `yield_now`. -/
structure YieldNow where
  yielded : Bool
deriving DecidableEq, Repr

/-- `YieldNow::poll`, and whether it wakes the waker of the context by reference. -/
def YieldNow.poll (y : YieldNow) : YieldNow × Bool × Poll Unit :=
  if !y.yielded then ({ yielded := true }, true, .pending) else (y, false, .ready ())

/-- The body of an `async` block that has so many `yield_now().await` to go, and may be in one. -/
structure Body (T : Type) where
  yields : Nat
  awaiting : Option YieldNow
  output : T

/-- The body goes on to its next await, or returns. `woke` tells whether the poll has woken. -/
def Body.resume (output : T) (woke : Bool) : Nat → Body T × Bool × Poll T
  | 0 => (⟨0, none, output⟩, woke, .ready output)
  | yields + 1 =>
      match ({ yielded := false } : YieldNow).poll with
      | (y, wakes, .pending) => (⟨yields, some y, output⟩, woke || wakes, .pending)
      | (_, wakes, .ready ()) => resume output (woke || wakes) yields

/-- A poll of the body. -/
def Body.poll (b : Body T) : Body T × Bool × Poll T :=
  match b.awaiting with
  | none => resume b.output false b.yields
  | some y =>
      match y.poll with
      | (y, wakes, .pending) => ({ b with awaiting := some y }, wakes, .pending)
      | (_, wakes, .ready ()) => resume b.output wakes b.yields

/-- A body that yields `n` times, before its first poll. -/
def Body.new (n : Nat) (output : T) : Body T := ⟨n, none, output⟩

/-- What is seen of a body: it wakes its waker, and its polls return. -/
inductive Shown (T : Type) where
  | woke
  | returned (result : Poll T)
deriving DecidableEq, Repr

/-- What is seen of so many polls. -/
def Body.shows : Nat → Body T → List (Shown T)
  | 0, _ => []
  | polls + 1, b =>
      let (b', woke, result) := b.poll
      (if woke then [.woke] else []) ++ .returned result :: shows polls b'

/-- What is seen of a body that yields `n` times. -/
def yieldsThenReturns (n : Nat) (output : T) : List (Shown T) :=
  (List.replicate n [.woke, .returned .pending]).flatten ++ [.returned (.ready output)]

/-- The body is before a `yield_now`, or in one that has yielded. -/
def Body.between (b : Body T) : Prop := b.awaiting = none ∨ b.awaiting = some ⟨true⟩

theorem Body.poll_zero {awaiting : Option YieldNow} {output : T}
    (between : Body.between ⟨0, awaiting, output⟩) :
    Body.poll ⟨0, awaiting, output⟩ = (⟨0, none, output⟩, false, .ready output) := by
  rcases between with rfl | rfl <;> rfl

theorem Body.poll_succ {yields : Nat} {awaiting : Option YieldNow} {output : T}
    (between : Body.between ⟨yields + 1, awaiting, output⟩) :
    Body.poll ⟨yields + 1, awaiting, output⟩ =
      (⟨yields, some ⟨true⟩, output⟩, true, .pending) := by
  rcases between with rfl | rfl <;> rfl

theorem Body.shows_of_between {b : Body T} (between : b.between) :
    b.shows (b.yields + 1) = yieldsThenReturns b.yields b.output := by
  obtain ⟨yields, awaiting, output⟩ := b
  induction yields generalizing awaiting with
  | zero =>
      rw [Body.shows, Body.poll_zero between]
      rfl
  | succ yields ih =>
      have later := ih (some ⟨true⟩) (.inr rfl)
      rw [Body.shows, Body.poll_succ between]
      simp only [yieldsThenReturns, List.replicate_succ, List.flatten_cons] at later ⊢
      rw [later]
      rfl

/-- **A body that yields `n` times** wakes its waker and is pending in each of the first `n` polls,
and returns in the next one. -/
theorem Body.shows_eq (n : Nat) (output : T) :
    (Body.new n output).shows (n + 1) = yieldsThenReturns n output :=
  Body.shows_of_between (b := Body.new n output) (.inl rfl)

/-! ## `task::block_on` -/

/-- `task::block_on`, with a bound on the polls. Its waker does nothing. -/
def blockOn {σ : Type} (poll : σ → σ × Bool × Poll T) : Nat → σ → Option T
  | 0, _ => none
  | bound + 1, future =>
      match poll future with
      | (_, _, .ready output) => some output
      | (future', _, .pending) => blockOn poll bound future'

theorem blockOn_of_between {b : Body T} (between : b.between) (bound : Nat) :
    blockOn Body.poll bound b = if b.yields < bound then some b.output else none := by
  obtain ⟨yields, awaiting, output⟩ := b
  induction bound generalizing yields awaiting with
  | zero => rfl
  | succ bound ih =>
      cases yields with
      | zero =>
          rw [blockOn, Body.poll_zero between]
          exact (if_pos (Nat.succ_pos bound)).symm
      | succ yields =>
          rw [blockOn, Body.poll_succ between]
          refine (ih yields (some ⟨true⟩) (.inr rfl)).trans ?_
          simp only [Nat.add_lt_add_iff_right]

/-! ## Spawned bodies -/

namespace Event

@[simp] def isResult : Event T → Bool
  | .futureReady _ => true
  | .futurePending => true
  | _ => false

/-- What an event shows of the body. -/
def shown? : Event T → Option (Shown T)
  | .wakeReturned .context => some .woke
  | .futurePending => some (.returned .pending)
  | .futureReady output => some (.returned (.ready output))
  | _ => none

end Event

/-- What is seen of the body of a task. -/
def shownOf (s : State T) : List (Shown T) := s.shared.log.reverse.filterMap Event.shown?

/-- A poll whose future has not returned. -/
def Frame.inFuture : Frame T → Nat
  | .poll .future => 1
  | _ => 0

/-- An operation beside the body: it records no poll and no result, and the calls it leaves are
not in the future. -/
structure Beside (s s' : Cell T) (frames : List (Frame T)) : Prop where
  results : s'.log.countP Event.isResult = s.log.countP Event.isResult
  begun : s'.log.countP Event.isPollBegan = s.log.countP Event.isPollBegan
  outside : total Frame.inFuture frames = 0

section Operations

variable {s s' : Cell T} {frames : List (Frame T)}

theorem advancePoll_beside {pc : PollPc T} (moved : advancePoll s pc = some (s', frames)) :
    Beside s s' frames := by
  cases pc with
  | future => cases moved
  | storeOutput | setComplete | wakeJoin | release | dropContext =>
      simp only [advancePoll] at moved
      cases moved
      repeat' split
      all_goals constructor <;> simp [Cell.record, Frame.inFuture]
  | takeJoinWaker =>
      simp only [advancePoll] at moved
      split at moved
      all_goals
        cases moved
        constructor <;> simp [Frame.inFuture]
  | deallocate =>
      simp only [advancePoll] at moved
      cases moved
      unfold deallocate
      split <;> constructor <;> simp [Cell.record]

theorem wakeReturns_beside (via : Via) : Beside s (s.wakeReturns via) [] := by
  cases via <;> constructor <;> simp [Cell.wakeReturns, Cell.record]

theorem advanceWake_beside {impl : WakerImpl} {via : Via} {pc : WakePc impl}
    (moved : advanceWake impl via s pc = some (s', frames)) : Beside s s' frames := by
  cases pc with
  | load =>
      simp only [advanceWake] at moved
      split at moved
      · cases moved
        constructor <;> simp [Frame.inFuture]
      · cases moved
        exact wakeReturns_beside via
  | compareExchange current =>
      simp only [advanceWake] at moved
      split at moved
      all_goals
        cases moved
        constructor <;> simp [Cell.record, Frame.inFuture]
  | schedule =>
      simp only [advanceWake] at moved
      cases moved
      obtain ⟨results, begun, outside⟩ :=
        wakeReturns_beside (s := { s with queue := s.queue + 1 }) via
      exact ⟨results, begun, outside⟩
  | ranInline =>
      simp only [advanceWake] at moved
      cases moved
      exact wakeReturns_beside via

theorem advanceDrop_beside {pc : DropPc} (moved : advanceDrop s pc = some (s', frames)) :
    Beside s s' frames := by
  cases pc with
  | fetchSub =>
      simp only [advanceDrop] at moved
      cases moved
      split <;> constructor <;> simp [Frame.inFuture]
  | deallocate =>
      simp only [advanceDrop] at moved
      cases moved
      unfold deallocate
      split <;> constructor <;> simp [Cell.record]

theorem advanceJoin_beside {pc : JoinPc} (moved : advanceJoin s pc = some (s', frames)) :
    Beside s s' frames := by
  cases pc with
  | load | tryReadOutput | setInterest | storeWaker =>
      simp only [advanceJoin, Cell.joinReturns] at moved
      repeat' split at moved
      all_goals
        cases moved
        try (constructor <;> simp [Cell.record, Frame.inFuture])

theorem advanceAbort_beside {pc : AbortPc} (moved : advanceAbort s pc = some (s', frames)) :
    Beside s s' frames := by
  cases pc with
  | fetchOr | load | takeJoinWaker | wakeJoin =>
      simp only [advanceAbort] at moved
      repeat' split at moved
      all_goals
        cases moved
        constructor <;> simp [Cell.record, Frame.inFuture]

theorem advanceHandleDrop_beside {pc : HandleDropPc}
    (moved : advanceHandleDrop s pc = some (s', frames)) : Beside s s' frames := by
  cases pc with
  | load | clearInterest | takeJoinWaker =>
      simp only [advanceHandleDrop] at moved
      repeat' split at moved
      all_goals
        cases moved
        constructor <;> simp [Cell.record, Frame.inFuture]

theorem advance_beside {frame : Frame T} (moved : frame.advance s = some (s', frames)) :
    Beside s s' frames ∧ frame.inFuture = 0 := by
  cases frame with
  | poll pc =>
      refine ⟨advancePoll_beside moved, ?_⟩
      cases pc with
      | future => cases moved
      | storeOutput | setComplete | takeJoinWaker | wakeJoin | release | dropContext
      | deallocate => rfl
  | wake impl via pc => exact ⟨advanceWake_beside moved, rfl⟩
  | dropWaker pc => exact ⟨advanceDrop_beside moved, rfl⟩
  | joinPoll pc => exact ⟨advanceJoin_beside moved, rfl⟩
  | abort pc => exact ⟨advanceAbort_beside moved, rfl⟩
  | dropHandle pc => exact ⟨advanceHandleDrop_beside moved, rfl⟩

end Operations

/-- As many polls have begun as have returned or are in the future. -/
def Matched (s : State T) : Prop :=
  s.shared.log.countP Event.isResult + total (total Frame.inFuture) s.threads =
    s.shared.log.countP Event.isPollBegan

/-- What a step does to the polls that have begun, and to those that are in their future. -/
theorem move_matched {creator : Creator} {s s' : Cell T} {stack after : List (Frame T)}
    {l : Label T} (moved : move creator s stack l = some (s', after)) :
    s'.log.countP Event.isResult + total Frame.inFuture after + s.log.countP Event.isPollBegan =
      s.log.countP Event.isResult + total Frame.inFuture stack +
        s'.log.countP Event.isPollBegan := by
  have call : ∀ {inFuture : Bool} {b : Begin} {cell : Cell T} {frames : List (Frame T)},
      Begin.Effect inFuture s b cell frames →
      cell.log.countP Event.isResult + total Frame.inFuture frames +
        s.log.countP Event.isPollBegan =
      s.log.countP Event.isResult + cell.log.countP Event.isPollBegan := by
    intro inFuture b cell frames effect
    cases effect with
    | run =>
        simp [Cell.record, Frame.inFuture, List.countP_cons]
        omega
    | clone | wakeContext | wakeByRef | wakeByValue | dropWaker | joinPoll | abort
    | dropHandle => simp [Cell.record, Frame.inFuture]
  cases moves_of_move moved with
  | call effect => simpa using call effect
  | callInFuture rest effect =>
      have same := call effect
      simp only [total_append, total_cons]
      omega
  | ready output rest =>
      simp [Cell.record, Frame.inFuture, List.countP_cons]
      omega
  | pending rest =>
      simp [Cell.record, Frame.inFuture, List.countP_cons]
      omega
  | spurious via current rest => simp [Frame.inFuture]
  | runInline impl via rest made =>
      simp [Cell.record, Frame.inFuture, List.countP_cons]
      omega
  | next rest advanced =>
      obtain ⟨beside, top⟩ := advance_beside advanced
      rw [beside.results, beside.begun, total_append, total_cons, beside.outside, top]

theorem matched {creator : Creator} {s : State T} (reached : (machine creator).Reaches s) :
    Matched s := by
  refine reached.invariant (I := Matched) ?_ ?_
  · rintro _ ⟨n, rfl⟩
    simp [Matched, spawnedWith, Cell.spawned, total_idle_eq_zero]
  · rintro s ⟨i, l⟩ s' _ before _ taken
    replace taken : Pool.step (fun _ => move creator) s (i, l) = some s' := taken
    obtain ⟨stack, cell, after, found, moved, rfl⟩ := Pool.step_eq_some taken
    have step := move_matched moved
    simp only [Matched, total_eq_others found, total_set_others after found] at before ⊢
    omega

/-! ## How often a body may yield -/

/-- The polls that are seen to return. -/
def Shown.isReturned : Shown T → Bool
  | .returned _ => true
  | .woke => false

theorem countP_shownOf (s : State T) :
    (shownOf s).countP Shown.isReturned = s.shared.log.countP Event.isResult := by
  have same : ∀ e : Event T, ((Event.shown? e).any Shown.isReturned) = Event.isResult e := by
    intro e
    rcases e with _ | _ | _ | _ | _ | via | _ | _ | _ | _ | _ | _ | _
    case wakeReturned => cases via <;> rfl
    all_goals rfl
  rw [shownOf, List.countP_filterMap, List.countP_reverse]
  exact List.countP_congr fun e _ => by rw [← same e]; cases Event.shown? e <;> rfl

theorem countP_yieldsThenReturns (n : Nat) (output : T) :
    (yieldsThenReturns n output).countP Shown.isReturned = n + 1 := by
  simp [yieldsThenReturns, List.countP_flatten, Shown.isReturned]

/-- **`task::block_on` returns the output of a body that yields `n` times** in `n + 1` polls. -/
theorem block_on_yields (n : Nat) (output : T) (bound : Nat) :
    blockOn Body.poll bound (Body.new n output) = if n < bound then some output else none :=
  blockOn_of_between (b := Body.new n output) (.inl rfl) bound

/-- The body wakes its task from an idle word. -/
theorem run_wake (creator : Creator) {s : Cell T} (rest : List (Frame T))
    (may : WakerImpl.raw.proceeds s.state = true) :
    (machine creator).run ⟨s, [.poll .future :: rest]⟩
        [(0, .begin (.wake .raw .context)), (0, .next), (0, .next), (0, .next)] =
      some ⟨({ s with state := WakerImpl.raw.desired s.state, queue := s.queue + 1,
                      log := .wakeReturned .context :: .scheduled :: s.log }),
        [.poll .future :: rest]⟩ := by
  simp [Machine.runWhen, machine, Pool.step, move, Begin.call, Frame.advance, advanceWake, may,
    Cell.wakeReturns, Cell.record]

/-- The body is pending, and its poll returns. -/
theorem run_pending (creator : Creator) {s : Cell T} (rest : List (Frame T))
    (more : lastReference (s.state - refOne) = false) :
    (machine creator).run ⟨s, [.poll .future :: rest]⟩ [(0, .pending), (0, .next), (0, .next)] =
      some ⟨({ s with state := s.state - refOne - refOne,
                      log := .released :: .futurePending :: s.log }), [rest]⟩ := by
  simp [Machine.runWhen, machine, Pool.step, move, Frame.advance, advancePoll, more, Cell.record]

/-- A run in which a body that yields once returns: its wake queues the task again. -/
theorem yieldsOnce (creator : Creator) (output : T) :
    ∃ s, (machine creator).Reaches s ∧ shownOf s = yieldsThenReturns 1 output := by
  have may : WakerImpl.raw.proceeds (idle.withRefcount 1).bits = true := by decide
  have more : lastReference
      (WakerImpl.raw.desired (idle.withRefcount 1).bits - refOne) = false := by decide
  have woken := run_wake creator (s := { (Cell.spawned (T := T)) with
    queue := 0, log := [.pollBegan] }) [] may
  have released := run_pending creator (s := { (Cell.spawned (T := T)) with
    state := WakerImpl.raw.desired (idle.withRefcount 1).bits, queue := 1,
    log := [.wakeReturned .context, .scheduled, .pollBegan] }) [] more
  have begun : (machine creator).Reaches (⟨{ (Cell.spawned (T := T)) with
      queue := 0, log := [.pollBegan] }, [[.poll .future]]⟩ : State T) :=
    .step (a := (0, .begin .run)) (.start ⟨1, rfl⟩) trivial rfl
  have between := Machine.reachesWhen_of_runWhen
    (Machine.reachesWhen_of_runWhen begun woken) released
  refine ⟨_, .step (a := (0, .ready output))
    (.step (a := (0, .begin .run)) between trivial rfl) trivial rfl, rfl⟩

/-- **A spawned body that yields `n` times returns in some run exactly if `n ≤ 1`.** The wake of
the first poll leaves the task `SCHEDULED`, which no poll takes back, so the wake of the second
poll queues no third one. -/
theorem spawned_returns_iff (creator : Creator) (n : Nat) (output : T) :
    (∃ s, (machine creator).Reaches s ∧ shownOf s = (Body.new n output).shows (n + 1)) ↔
      n ≤ 1 := by
  rw [Body.shows_eq]
  constructor
  · rintro ⟨s, reached, shown⟩
    have counted := matched reached
    have few := begun_le_two reached
    have returned := countP_shownOf s
    rw [shown, countP_yieldsThenReturns] at returned
    simp only [Matched, returned.symm] at counted
    omega
  · intro few
    obtain rfl | rfl := Nat.le_one_iff_eq_zero_or_eq_one.mp few
    · exact ⟨_, .step (a := (0, .ready output))
        (.step (a := (0, .begin .run)) (.start ⟨1, rfl⟩) trivial rfl) trivial rfl, rfl⟩
    · exact yieldsOnce creator output

end LoonyRuntime.Task
