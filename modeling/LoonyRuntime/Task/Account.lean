import LoonyRuntime.Task.Operational

/-!
# The account of a task

What the protocol of a task is about, without its calls: how many entries are queued, how many
wakes are about to push one, how many polls run, how many wakers are alive, how many references
the word counts, how often the future was polled, and which marks are set. `account` reads this
from a state of the machine, and `Account.Step` says what an operation of each kind does to it.
`Moves` and `Begin.Effect` are the steps of a thread as relations, for every proof about them.

The machine refines the account (`machine_refines_account`): every step of every thread is a step
of the account of its kind. The kind is the next operation of the thread (`nextOp`), so a
condition on steps can be put on the operation and on the account before it.
-/

set_option autoImplicit false

namespace LoonyRuntime.Task

open TaskState Concurrent

variable {T : Type}

/-! ## Kinds of operations -/

/-- The kinds of operations the account tells apart. -/
inductive Op where
  | run
  | runInline
  | clone
  /-- The load of a wake that goes on to its exchange. -/
  | proceed
  /-- The load of a wake that breaks there, giving up the clones it owned. -/
  | breakOff (owned : Nat)
  /-- The exchange of a wake that succeeds. -/
  | schedule
  /-- The push of a wake, which then returns. -/
  | push (owned : Nat)
  /-- The return of a wake whose schedule closure ran the task. -/
  | inlineReturn (owned : Nat)
  /-- The future returns `Ready`. -/
  | ready
  | complete
  | takeJoin
  | release
  /-- The `fetch_sub` of `drop_waker`. -/
  | drop
  | deallocate
  | abort
  | other
deriving DecidableEq, Repr

/-- The clones that a wake call owns. -/
@[simp] def Via.owned : Via → Nat
  | .byValue => 1
  | _ => 0

/-- The kind of the next operation of a call. -/
def Frame.op (s : Cell T) : Frame T → Op
  | .wake impl via .load =>
      if impl.proceeds s.state = true then .proceed else .breakOff via.owned
  | .wake _ _ (.compareExchange current) => if s.state = current.1 then .schedule else .other
  | .wake _ via .schedule => .push via.owned
  | .wake _ via .ranInline => .inlineReturn via.owned
  | .poll .setComplete => .complete
  | .poll .takeJoinWaker => .takeJoin
  | .poll .release => .release
  | .poll .dropContext => .drop
  | .dropWaker .fetchSub => .drop
  | .poll .deallocate => .deallocate
  | .dropWaker .deallocate => .deallocate
  | .abort .fetchOr => .abort
  | _ => .other

/-- The kind of the first effect of a call. -/
def Begin.op : Begin → Op
  | .run => .run
  | .clone _ => .clone
  | _ => .other

/-- The kind of a step of a thread inside the calls of the stack. -/
def opOf (s : Cell T) : List (Frame T) → Label T → Op
  | _, .begin call => call.op
  | _, .ready _ => .ready
  | _, .runInline => .runInline
  | frame :: _, .next => frame.op s
  | _, _ => .other

/-- The kind of a step. -/
def nextOp (s : State T) (a : Action T) : Op :=
  match s.threads[a.1]? with
  | some stack => opOf s.shared stack a.2
  | none => .other

/-! ## The account -/

/-- The counts and marks of a task. -/
structure Account where
  /-- Entries in run queues. -/
  queue : Nat
  /-- Wakes between their exchange and their push. -/
  pending : Nat
  /-- Wakes that wait for a run their schedule closure made. -/
  inline : Nat
  /-- Polls that still own the waker of their context. -/
  polls : Nat
  /-- Polls that call `deallocate`. -/
  closingPolls : Nat
  /-- Drops of a clone that call `deallocate`. -/
  closingDrops : Nat
  /-- Clones alive, those inside a wake by value or before the `fetch_sub` of their drop too. -/
  clones : Nat
  /-- Clones at hand and calls on the task or its wakers. -/
  users : Nat
  /-- Polls begun. -/
  begun : Nat
  /-- Exchanges of wakes that succeeded. -/
  scheduled : Nat
  /-- Polls past the `fetch_sub` of their own reference. -/
  released : Nat
  /-- Wakes by value that returned. -/
  consumed : Nat
  /-- Calls of `deallocate` made. -/
  deallocs : Nat
  /-- The references the word counts. -/
  refs : Nat
  marks : BitVec 4
  /-- The join handle is dropped. -/
  dropped : Bool
  /-- A wake has returned since the latest poll began. -/
  woken : Bool
  /-- The future has returned `Ready`, or `abort_task` was called. -/
  ended : Bool
  /-- A poll has begun after that. -/
  polledLate : Bool

namespace Account

/-- The wakers alive: the clones and the context's waker of each poll. -/
def live (a : Account) : Nat := a.clones + a.polls

/-- The calls of `VTableFor::poll` in progress. -/
def inProgress (a : Account) : Nat := a.polls + a.closingPolls

/-- The calls of `deallocate` being made. -/
def closing (a : Account) : Nat := a.closingPolls + a.closingDrops

/-- The word passes the test of `drop_waker`. -/
def lastReference (a : Account) : Bool := a.refs % 2 ^ 16 == 1 && Marks.isComplete a.marks

/-- What an operation does to the account. `users` may change freely in a run, and otherwise
does not come from nothing. -/
inductive Step : Op → Account → Account → Prop where
  | run {a a' : Account} (entry : a.queue = a'.queue + 1)
      (after : a' = { a with queue := a'.queue, polls := a.polls + 1, begun := a.begun + 1,
                             users := a'.users, woken := false,
                             polledLate := a.ended || a.polledLate }) : Step .run a a'
  | runInline {a a' : Account} (entry : a.pending = a'.pending + 1)
      (after : a' = { a with pending := a'.pending, inline := a.inline + 1,
                             polls := a.polls + 1, begun := a.begun + 1,
                             users := a'.users, woken := false,
                             polledLate := a.ended || a.polledLate }) : Step .runInline a a'
  | clone {a a' : Account} (waker : 0 < a.live)
      (after : a' = { a with clones := a.clones + 1, refs := (a.refs + 1) % 2 ^ 48,
                             users := a'.users }) : Step .clone a a'
  | proceed {a : Account} (user : 0 < a.users) (idle : Marks.isIdle a.marks = true)
      (live : Marks.isAborted a.marks = false) : Step .proceed a a
  | breakOff {a a' : Account} {owned : Nat} (waker : a.clones = a'.clones + owned)
      (user : 0 < a.users)
      (done : ¬(Marks.isIdle a.marks = true ∧ Marks.isAborted a.marks = false))
      (after : a' = { a with clones := a'.clones, consumed := a.consumed + owned,
                             users := a'.users, woken := true }) : Step (.breakOff owned) a a'
  | schedule {a a' : Account} (user : 0 < a.users) (idle : Marks.isIdle a.marks = true)
      (live : Marks.isAborted a.marks = false)
      (after : a' = { a with pending := a.pending + 1, scheduled := a.scheduled + 1,
                             marks := a.marks ||| 1 }) : Step .schedule a a'
  | push {a a' : Account} {owned : Nat} (waker : a.clones = a'.clones + owned)
      (entry : a.pending = a'.pending + 1) (user : a.users = 0 → a'.users = 0)
      (after : a' = { a with pending := a'.pending, queue := a.queue + 1,
                             clones := a'.clones, consumed := a.consumed + owned,
                             users := a'.users, woken := true }) : Step (.push owned) a a'
  | inlineReturn {a a' : Account} {owned : Nat} (waker : a.clones = a'.clones + owned)
      (call : a.inline = a'.inline + 1) (user : a.users = 0 → a'.users = 0)
      (after : a' = { a with inline := a'.inline, clones := a'.clones,
                             consumed := a.consumed + owned, users := a'.users,
                             woken := true }) : Step (.inlineReturn owned) a a'
  | ready {a a' : Account} (after : a' = { a with ended := true }) : Step .ready a a'
  | complete {a a' : Account} (poll : 0 < a.polls)
      (after : a' = { a with marks := a.marks ||| 3 }) : Step .complete a a'
  | takeJoin {a : Account} : Step .takeJoin a a
  | release {a a' : Account}
      (after : a' = { a with released := a.released + 1,
                             refs := (a.refs + (2 ^ 48 - 1)) % 2 ^ 48 }) : Step .release a a'
  | dropContext {a a' : Account} (waker : a.polls = a'.polls + 1)
      (user : a.users = 0 → a'.users = 0)
      (after : a' = { a with polls := a'.polls, refs := (a.refs + (2 ^ 48 - 1)) % 2 ^ 48,
                             closingPolls := a.closingPolls + a.lastReference.toNat,
                             users := a'.users }) : Step .drop a a'
  | dropClone {a a' : Account} (waker : a.clones = a'.clones + 1)
      (user : a.users = 0 → a'.users = 0)
      (after : a' = { a with clones := a'.clones, refs := (a.refs + (2 ^ 48 - 1)) % 2 ^ 48,
                             closingDrops := a.closingDrops + a.lastReference.toNat,
                             users := a'.users }) : Step .drop a a'
  | deallocatePoll {a a' : Account} (call : a.closingPolls = a'.closingPolls + 1)
      (user : a.users = 0 → a'.users = 0)
      (after : a' = { a with closingPolls := a'.closingPolls, deallocs := a.deallocs + 1,
                             users := a'.users }) : Step .deallocate a a'
  | deallocateDrop {a a' : Account} (call : a.closingDrops = a'.closingDrops + 1)
      (user : a.users = 0 → a'.users = 0)
      (after : a' = { a with closingDrops := a'.closingDrops, deallocs := a.deallocs + 1,
                             users := a'.users }) : Step .deallocate a a'
  | abort {a a' : Account} (after : a' = { a with marks := a.marks ||| 4, ended := true }) :
      Step .abort a a'
  | interest {a a' : Account} (marks : a'.marks = a.marks ||| 8 ∨ a'.marks = a.marks &&& 7)
      (after : a' = { a with marks := a'.marks }) : Step .other a a'
  | dropHandle {a a' : Account} (after : a' = { a with dropped := true }) : Step .other a a'
  | quiet {a a' : Account} (user : a.users = 0 → a'.users = 0)
      (after : a' = { a with users := a'.users }) : Step .other a a'

/-- A task that is not idle stays so. -/
theorem Step.marked {op : Op} {a a' : Account} (step : Step op a a')
    (marked : Marks.isIdle a.marks = false) : Marks.isIdle a'.marks = false := by
  have finite : ∀ m : BitVec 4, Marks.isIdle m = false →
      Marks.isIdle (m ||| 1) = false ∧ Marks.isIdle (m ||| 3) = false ∧
      Marks.isIdle (m ||| 4) = false ∧ Marks.isIdle (m ||| 8) = false ∧
      Marks.isIdle (m &&& 7) = false := by decide
  obtain ⟨scheduled, complete, aborted, interest, cleared⟩ := finite _ marked
  cases step with
  | interest marks after =>
      rcases marks with marks | marks <;> rw [marks]
      · exact interest
      · exact cleared
  | proceed | takeJoin => exact marked
  | schedule _ _ _ after =>
      rw [after]
      exact scheduled
  | complete _ after =>
      rw [after]
      exact complete
  | abort after =>
      rw [after]
      exact aborted
  | run _ after | runInline _ after | clone _ after | breakOff _ _ _ after | push _ _ _ after
  | inlineReturn _ _ _ after | ready after | release after | dropContext _ _ after
  | dropClone _ _ after | deallocatePoll _ _ after | deallocateDrop _ _ after
  | dropHandle after | quiet _ after =>
      rw [after]
      exact marked

end Account

/-! ## Reading the account of a state -/

namespace Frame

/-- A wake between its exchange and its push. -/
@[simp] def pending : Frame T → Nat
  | .wake _ _ .schedule => 1
  | _ => 0

/-- A wake that waits for a run its schedule closure made. -/
@[simp] def inline : Frame T → Nat
  | .wake _ _ .ranInline => 1
  | _ => 0

/-- A poll that owns the waker of its context. -/
@[simp] def polls : Frame T → Nat
  | .poll .deallocate => 0
  | .poll _ => 1
  | _ => 0

/-- A poll that calls `deallocate`. -/
@[simp] def closingPolls : Frame T → Nat
  | .poll .deallocate => 1
  | _ => 0

/-- The drop of a clone that calls `deallocate`. -/
@[simp] def closingDrops : Frame T → Nat
  | .dropWaker .deallocate => 1
  | _ => 0

/-- A call that owns a clone. -/
@[simp] def clones : Frame T → Nat
  | .wake _ via _ => via.owned
  | .dropWaker .fetchSub => 1
  | _ => 0

/-- A call on the task or on one of its wakers. -/
@[simp] def users : Frame T → Nat
  | .poll _ => 1
  | .wake _ _ _ => 1
  | .dropWaker _ => 1
  | _ => 0

end Frame

namespace Event

@[simp] def isPollBegan : Event T → Bool
  | .pollBegan => true
  | _ => false

@[simp] def isScheduled : Event T → Bool
  | .scheduled => true
  | _ => false

@[simp] def isReleased : Event T → Bool
  | .released => true
  | _ => false

@[simp] def isConsumed : Event T → Bool
  | .wakeReturned .byValue => true
  | _ => false

@[simp] def isDeallocated : Event T → Bool
  | .deallocated => true
  | _ => false

@[simp] def isHandleDropped : Event T → Bool
  | .handleDropped => true
  | _ => false

@[simp] def isEnd : Event T → Bool
  | .futureReady _ => true
  | .abortCalled => true
  | _ => false

end Event

/-- A wake has returned since the latest poll began. -/
@[simp] def wokenSincePoll : List (Event T) → Bool
  | [] => false
  | .pollBegan :: _ => false
  | .wakeReturned _ :: _ => true
  | _ :: earlier => wokenSincePoll earlier

/-- A poll began after the future returned `Ready` or `abort_task` was called. -/
@[simp] def polledAfterEnd : List (Event T) → Bool
  | [] => false
  | .pollBegan :: earlier => earlier.any Event.isEnd || polledAfterEnd earlier
  | _ :: earlier => polledAfterEnd earlier

/-- The account of a task, with a way to sum a quantity over the calls in progress. -/
def accountOf (s : Cell T) (sum : (Frame T → Nat) → Nat) : Account where
  queue := s.queue
  pending := sum Frame.pending
  inline := sum Frame.inline
  polls := sum Frame.polls
  closingPolls := sum Frame.closingPolls
  closingDrops := sum Frame.closingDrops
  clones := s.wakers + sum Frame.clones
  users := s.wakers + sum Frame.users
  begun := s.log.countP Event.isPollBegan
  scheduled := s.log.countP Event.isScheduled
  released := s.log.countP Event.isReleased
  consumed := s.log.countP Event.isConsumed
  deallocs := s.log.countP Event.isDeallocated
  refs := refs s.state
  marks := marks s.state
  dropped := s.log.any Event.isHandleDropped
  woken := wokenSincePoll s.log
  ended := s.log.any Event.isEnd
  polledLate := polledAfterEnd s.log

/-- The account of a state. -/
def account (s : State T) : Account :=
  accountOf s.shared fun f => total (total f) s.threads

/-! ## Steps as relations -/

/-- The first effect of a call, as a relation. -/
inductive Begin.Effect (inFuture : Bool) (s : Cell T) :
    Begin → Cell T → List (Frame T) → Prop where
  | run (entry : 0 < s.queue) :
      Effect inFuture s .run ({ s with queue := s.queue - 1 }.record .pollBegan) [.poll .future]
  | clone (context : Bool) (word : Usize) (counted : word = s.state + refOne)
      (atHand : inFuture = true ∨ 0 < s.wakers) :
      Effect inFuture s (.clone context) { s with state := word, wakers := s.wakers + 1 } []
  | wakeContext (impl : WakerImpl) (inside : inFuture = true) :
      Effect inFuture s (.wake impl .context) s [.wake impl .context .load]
  | wakeByRef (impl : WakerImpl) (alive : 0 < s.wakers) :
      Effect inFuture s (.wake impl .byRef) { s with borrows := s.borrows + 1 }
        [.wake impl .byRef .load]
  | wakeByValue (impl : WakerImpl) (movable : s.movable = true) :
      Effect inFuture s (.wake impl .byValue) { s with wakers := s.wakers - 1 }
        [.wake impl .byValue .load]
  | dropWaker (movable : s.movable = true) :
      Effect inFuture s .dropWaker { s with wakers := s.wakers - 1 } [.dropWaker .fetchSub]
  | joinPoll (cx : Nat) (idle : s.handle = .idle) :
      Effect inFuture s (.joinPoll cx) ({ s with handle := .busy }.record (.joinGiven cx))
        [.joinPoll (.load cx)]
  | abort (idle : s.handle = .idle) :
      Effect inFuture s .abort { s with handle := .busy } [.abort .fetchOr]
  | dropHandle (idle : s.handle = .idle) :
      Effect inFuture s .dropHandle { s with handle := .busy } [.dropHandle .load]

theorem Begin.effect_of_call {call : Begin} {inFuture : Bool} {s s' : Cell T}
    {frames : List (Frame T)} (moved : call.call inFuture s = some (s', frames)) :
    Begin.Effect inFuture s call s' frames := by
  cases call with
  | run =>
      obtain ⟨entry, same⟩ := Option.ite_none_right_eq_some.mp moved
      cases same
      exact .run entry
  | clone context =>
      obtain ⟨atHand, same⟩ := Option.ite_none_right_eq_some.mp moved
      obtain ⟨rfl, rfl⟩ := Prod.mk.inj (Option.some.inj same)
      refine .clone context (s.state + refOne) rfl ?_
      cases context with
      | true => exact .inl atHand
      | false => exact .inr (of_decide_eq_true atHand)
  | wake impl via =>
      cases via with
      | context =>
          obtain ⟨inside, same⟩ := Option.ite_none_right_eq_some.mp moved
          cases same
          exact .wakeContext impl inside
      | byRef =>
          obtain ⟨alive, same⟩ := Option.ite_none_right_eq_some.mp moved
          cases same
          exact .wakeByRef impl alive
      | byValue =>
          obtain ⟨movable, same⟩ := Option.ite_none_right_eq_some.mp moved
          cases same
          exact .wakeByValue impl movable
  | dropWaker =>
      obtain ⟨movable, same⟩ := Option.ite_none_right_eq_some.mp moved
      cases same
      exact .dropWaker movable
  | joinPoll cx =>
      obtain ⟨idle, same⟩ := Option.ite_none_right_eq_some.mp moved
      cases same
      exact .joinPoll cx idle
  | abort =>
      obtain ⟨idle, same⟩ := Option.ite_none_right_eq_some.mp moved
      cases same
      exact .abort idle
  | dropHandle =>
      obtain ⟨idle, same⟩ := Option.ite_none_right_eq_some.mp moved
      cases same
      exact .dropHandle idle

/-- One step of a thread, as a relation. -/
inductive Moves (creator : Creator) (s : Cell T) :
    List (Frame T) → Label T → Cell T → List (Frame T) → Prop where
  | call {b : Begin} {s' : Cell T} {frames : List (Frame T)}
      (effect : Begin.Effect false s b s' frames) : Moves creator s [] (.begin b) s' frames
  | callInFuture {b : Begin} {s' : Cell T} {frames : List (Frame T)} (rest : List (Frame T))
      (effect : Begin.Effect true s b s' frames) :
      Moves creator s (.poll .future :: rest) (.begin b) s' (frames ++ .poll .future :: rest)
  | ready (output : T) (rest : List (Frame T)) :
      Moves creator s (.poll .future :: rest) (.ready output) (s.record (.futureReady output))
        (.poll (.storeOutput output) :: rest)
  | pending (rest : List (Frame T)) :
      Moves creator s (.poll .future :: rest) .pending (s.record .futurePending)
        (.poll .release :: rest)
  | spurious (via : Via) (current : { word : Usize // WakerImpl.waker.proceeds word = true })
      (rest : List (Frame T)) :
      Moves creator s (.wake .waker via (.compareExchange current) :: rest) .spurious s
        (.wake .waker via .load :: rest)
  | runInline (impl : WakerImpl) (via : Via) (rest : List (Frame T))
      (made : creator = .createTask) :
      Moves creator s (.wake impl via .schedule :: rest) .runInline (s.record .pollBegan)
        (.poll .future :: .wake impl via .ranInline :: rest)
  | next {frame : Frame T} {s' : Cell T} {frames : List (Frame T)} (rest : List (Frame T))
      (advanced : frame.advance s = some (s', frames)) :
      Moves creator s (frame :: rest) .next s' (frames ++ rest)

theorem moves_of_move {creator : Creator} {s s' : Cell T} {stack after : List (Frame T)}
    {l : Label T} (moved : move creator s stack l = some (s', after)) :
    Moves creator s stack l s' after := by
  unfold move at moved
  split at moved
  · next b => exact .call (Begin.effect_of_call moved)
  · next rest b =>
      obtain ⟨⟨cell, frames⟩, called, same⟩ := Option.map_eq_some_iff.mp moved
      cases same
      exact .callInFuture rest (Begin.effect_of_call called)
  · next rest output =>
      cases moved
      exact .ready output rest
  · next rest =>
      cases moved
      exact .pending rest
  · next via current rest =>
      cases moved
      exact .spurious via current rest
  · next impl via rest =>
      obtain ⟨made, same⟩ := Option.ite_none_right_eq_some.mp moved
      cases same
      exact .runInline impl via rest made
  · next frame rest =>
      obtain ⟨⟨cell, frames⟩, advanced, same⟩ := Option.map_eq_some_iff.mp moved
      cases same
      exact .next rest advanced
  · cases moved

/-! ## The machine refines the account -/

/-- The test of `drop_waker` is read off the account. -/
theorem lastReference_accountOf (s : Cell T) (sum : (Frame T → Nat) → Nat) :
    (accountOf s sum).lastReference = lastReference s.state := by
  have count : ((fromBits s.state).refcount == 1) = (refs s.state % 2 ^ 16 == 1) := by
    rw [← refcount_toNat, Bool.eq_iff_iff, beq_iff_eq, beq_iff_eq, ← BitVec.toNat_inj]
    rfl
  simp only [Account.lastReference, lastReference, accountOf, count, isComplete_marks]

section Refinement

variable {s s' : Cell T} {frames : List (Frame T)} (R : (Frame T → Nat) → Nat)

theorem advancePoll_account {pc : PollPc T} (moved : advancePoll s pc = some (s', frames)) :
    Account.Step (Frame.op s (.poll pc)) (accountOf s fun f => f (.poll pc) + R f)
      (accountOf s' fun f => total f frames + R f) := by
  cases pc with
  | future => simp [advancePoll] at moved
  | storeOutput output =>
      simp only [advancePoll] at moved
      cases moved
      refine .quiet ?_ ?_ <;> simp [accountOf]
  | setComplete =>
      simp only [advancePoll] at moved
      cases moved
      refine .complete ?_ ?_
      · simp [accountOf]
      · split <;> simp [accountOf]
  | takeJoinWaker =>
      simp only [advancePoll] at moved
      split at moved
      all_goals
        cases moved
        exact .takeJoin
  | wakeJoin waker =>
      simp only [advancePoll] at moved
      cases moved
      refine .quiet ?_ ?_ <;> simp [accountOf, Cell.record]
  | release =>
      simp only [advancePoll] at moved
      cases moved
      refine .release ?_
      simp [accountOf, Cell.record, List.countP_cons]
  | dropContext =>
      simp only [advancePoll] at moved
      cases moved
      refine .dropContext ?_ ?_ ?_
      · split
        all_goals
          simp [accountOf]
          omega
      · intro none
        simp [accountOf] at none
      · rw [lastReference_accountOf]
        split
        · next last =>
            simp [accountOf, last]
            omega
        · next last => simp [accountOf, last]
  | deallocate =>
      simp only [advancePoll] at moved
      cases moved
      refine .deallocatePoll ?_ ?_ ?_
      · simp [accountOf, deallocate, Cell.record]
        omega
      · intro none
        simp [accountOf] at none
      · unfold deallocate
        split <;> simp [accountOf, Cell.record, List.countP_cons]

/-- The end of a wake call gives up the clone it owned. -/
theorem accountOf_wakeReturns (via : Via) (sum : (Frame T → Nat) → Nat) :
    accountOf (s.wakeReturns via) sum =
      { accountOf s sum with
        consumed := (accountOf s sum).consumed + via.owned, woken := true } := by
  cases via <;> simp [accountOf, Cell.wakeReturns, Cell.record, List.countP_cons]

theorem advanceWake_account {impl : WakerImpl} {via : Via} {pc : WakePc impl}
    (moved : advanceWake impl via s pc = some (s', frames)) :
    Account.Step (Frame.op s (.wake impl via pc))
      (accountOf s fun f => f (.wake impl via pc) + R f)
      (accountOf s' fun f => total f frames + R f) := by
  cases pc with
  | load =>
      simp only [advanceWake] at moved
      split at moved
      · next may =>
          cases moved
          obtain ⟨idle, live⟩ := (proceeds_iff impl s.state).mp may
          have same : (accountOf s fun f => f (.wake impl via .load) + R f) =
              accountOf s fun f =>
                total f [.wake impl via (.compareExchange ⟨s.state, may⟩)] + R f := by
            simp [accountOf]
          rw [Frame.op, if_pos may, ← same]
          exact .proceed (by simp [accountOf]) idle live
      · next may =>
          cases moved
          rw [Frame.op, if_neg may, accountOf_wakeReturns]
          refine .breakOff ?_ ?_ ?_ ?_
          · simp [accountOf]
            omega
          · simp [accountOf]
          · exact fun both => may ((proceeds_iff impl s.state).mpr both)
          · simp [accountOf]
  | compareExchange current =>
      simp only [advanceWake] at moved
      split at moved
      · next same =>
          cases moved
          obtain ⟨idle, live⟩ := (proceeds_iff impl current.1).mp current.2
          simp only [Frame.op, same, if_true]
          refine .schedule ?_ ?_ ?_ ?_
          · simp [accountOf]
          · simpa [accountOf, same] using idle
          · simpa [accountOf, same] using live
          · simp [accountOf, Cell.record, List.countP_cons, marks_desired impl idle, same]
            omega
      · next differs =>
          cases moved
          simp only [Frame.op, differs, if_false]
          refine .quiet ?_ ?_ <;> simp [accountOf]
  | schedule =>
      simp only [advanceWake] at moved
      cases moved
      rw [accountOf_wakeReturns]
      refine .push ?_ ?_ ?_ ?_
      · simp [accountOf]
        omega
      · simp [accountOf]
        omega
      · simp [accountOf]
      · simp [accountOf]
  | ranInline =>
      simp only [advanceWake] at moved
      cases moved
      rw [accountOf_wakeReturns]
      refine .inlineReturn ?_ ?_ ?_ ?_
      · simp [accountOf]
        omega
      · simp [accountOf]
        omega
      · simp [accountOf]
      · simp [accountOf]

theorem advanceDrop_account {pc : DropPc} (moved : advanceDrop s pc = some (s', frames)) :
    Account.Step (Frame.op s (.dropWaker pc)) (accountOf s fun f => f (.dropWaker pc) + R f)
      (accountOf s' fun f => total f frames + R f) := by
  cases pc with
  | fetchSub =>
      simp only [advanceDrop] at moved
      cases moved
      refine .dropClone ?_ ?_ ?_
      · split
        all_goals
          simp [accountOf]
          omega
      · intro none
        simp [accountOf] at none
      · rw [lastReference_accountOf]
        split
        · next last =>
            simp [accountOf, last]
            omega
        · next last => simp [accountOf, last]
  | deallocate =>
      simp only [advanceDrop] at moved
      cases moved
      refine .deallocateDrop ?_ ?_ ?_
      · simp [accountOf, deallocate, Cell.record]
        omega
      · intro none
        simp [accountOf] at none
      · unfold deallocate
        split <;> simp [accountOf, Cell.record, List.countP_cons]

theorem advanceJoin_account {pc : JoinPc} (moved : advanceJoin s pc = some (s', frames)) :
    Account.Step (Frame.op s (.joinPoll pc)) (accountOf s fun f => f (.joinPoll pc) + R f)
      (accountOf s' fun f => total f frames + R f) := by
  have returns : ∀ {cell : Cell T} {result : Poll (Except JoinError T)},
      cell.joinReturns result = some (s', frames) →
      (∀ sum, accountOf cell sum = accountOf s sum) →
      Account.Step (Frame.op s (.joinPoll pc)) (accountOf s fun f => f (.joinPoll pc) + R f)
        (accountOf s' fun f => total f frames + R f) := by
    intro cell result returned same
    simp only [Cell.joinReturns] at returned
    cases returned
    rw [← same]
    refine .quiet ?_ ?_ <;> simp [accountOf, Cell.record]
  cases pc with
  | load cx =>
      simp only [advanceJoin] at moved
      split at moved
      · cases moved
        refine .quiet ?_ ?_ <;> simp [accountOf]
      · split at moved
        · exact returns moved fun _ => rfl
        · cases moved
          refine .quiet ?_ ?_ <;> simp [accountOf]
  | tryReadOutput seen =>
      simp only [advanceJoin] at moved
      split at moved
      · split at moved
        · exact returns moved fun _ => rfl
        · cases moved
      · split at moved <;> exact returns moved fun _ => rfl
  | setInterest cx =>
      simp only [advanceJoin] at moved
      cases moved
      refine .interest ?_ ?_ <;> simp [accountOf]
  | storeWaker cx prev =>
      simp only [advanceJoin] at moved
      split at moved
      · cases moved
        refine .quiet ?_ ?_ <;> simp [accountOf]
      · exact returns moved fun _ => rfl

theorem advanceAbort_account {pc : AbortPc} (moved : advanceAbort s pc = some (s', frames)) :
    Account.Step (Frame.op s (.abort pc)) (accountOf s fun f => f (.abort pc) + R f)
      (accountOf s' fun f => total f frames + R f) := by
  cases pc with
  | fetchOr =>
      simp only [advanceAbort] at moved
      cases moved
      refine .abort ?_
      simp [accountOf, Cell.record]
  | load =>
      simp only [advanceAbort] at moved
      split at moved
      all_goals
        cases moved
        refine .quiet ?_ ?_ <;> simp [accountOf]
  | takeJoinWaker =>
      simp only [advanceAbort] at moved
      split at moved
      all_goals
        cases moved
        refine .quiet ?_ ?_ <;> simp [accountOf]
  | wakeJoin waker =>
      simp only [advanceAbort] at moved
      cases moved
      refine .quiet ?_ ?_ <;> simp [accountOf, Cell.record]

theorem advanceHandleDrop_account {pc : HandleDropPc}
    (moved : advanceHandleDrop s pc = some (s', frames)) :
    Account.Step (Frame.op s (.dropHandle pc)) (accountOf s fun f => f (.dropHandle pc) + R f)
      (accountOf s' fun f => total f frames + R f) := by
  cases pc with
  | load =>
      simp only [advanceHandleDrop] at moved
      split at moved
      · cases moved
        refine .quiet ?_ ?_ <;> simp [accountOf]
      · cases moved
        refine .dropHandle ?_
        simp [accountOf, Cell.record]
  | clearInterest =>
      simp only [advanceHandleDrop] at moved
      cases moved
      refine .interest ?_ ?_ <;> simp [accountOf]
  | takeJoinWaker =>
      simp only [advanceHandleDrop] at moved
      cases moved
      refine .dropHandle ?_
      simp [accountOf, Cell.record]

/-- The next operation of a call is a step of the account of its kind. -/
theorem advance_account {frame : Frame T} (moved : frame.advance s = some (s', frames)) :
    Account.Step (frame.op s) (accountOf s fun f => f frame + R f)
      (accountOf s' fun f => total f frames + R f) := by
  cases frame with
  | poll pc => exact advancePoll_account R moved
  | wake impl via pc => exact advanceWake_account R moved
  | dropWaker pc => exact advanceDrop_account R moved
  | joinPoll pc => exact advanceJoin_account R moved
  | abort pc => exact advanceAbort_account R moved
  | dropHandle pc => exact advanceHandleDrop_account R moved

/-- A clone that can be moved is alive. -/
theorem wakers_pos_of_movable (movable : s.movable = true) : 0 < s.wakers := by
  have above := of_decide_eq_true movable
  omega

/-- The first effect of a call is a step of the account of its kind. Code in the body of the
future is itself a user of the task. -/
theorem call_account {call : Begin} {inFuture : Bool}
    (user : inFuture = true → 0 < R Frame.polls ∧ 0 < R Frame.users)
    (effect : Begin.Effect inFuture s call s' frames) :
    Account.Step call.op (accountOf s R) (accountOf s' fun f => total f frames + R f) := by
  cases effect with
  | run entry =>
      refine .run ?_ ?_
      · simp only [accountOf, Cell.record]
        omega
      · simp [accountOf, Cell.record, List.countP_cons]
        omega
  | clone context word counted atHand =>
      subst counted
      refine .clone ?_ ?_
      · simp only [Account.live, accountOf]
        rcases atHand with inside | alive
        · have := user inside
          omega
        · omega
      · simp [accountOf]
        omega
  | wakeContext impl inside =>
      have := user inside
      refine .quiet ?_ ?_
      · simp only [accountOf]
        omega
      · simp [accountOf]
  | wakeByRef impl alive =>
      refine .quiet ?_ ?_
      · simp only [accountOf]
        omega
      · simp [accountOf]
  | wakeByValue impl movable | dropWaker movable =>
      have := wakers_pos_of_movable movable
      refine .quiet ?_ ?_
      · simp only [accountOf]
        omega
      · simp [accountOf]
        omega
  | joinPoll cx idle | abort idle | dropHandle idle =>
      refine .quiet ?_ ?_ <;> simp [accountOf, Cell.record]

/-- A step of a thread is a step of the account of its kind. -/
theorem move_account {creator : Creator} {stack after : List (Frame T)} {l : Label T}
    (moved : move creator s stack l = some (s', after)) :
    Account.Step (opOf s stack l) (accountOf s fun f => total f stack + R f)
      (accountOf s' fun f => total f after + R f) := by
  cases moves_of_move moved with
  | call effect => simpa [opOf] using call_account R (by simp) effect
  | callInFuture rest effect =>
      have step := call_account (fun f => total f (.poll .future :: rest) + R f)
        (fun _ => by simp) effect
      simpa [opOf, Nat.add_assoc] using step
  | ready output rest =>
      refine .ready ?_
      simp [accountOf, Cell.record]
  | pending rest =>
      refine .quiet ?_ ?_ <;> simp [accountOf, Cell.record]
  | spurious via current rest =>
      refine .quiet ?_ ?_ <;> simp [accountOf]
  | runInline impl via rest made =>
      refine .runInline ?_ ?_
      · simp [accountOf]
        omega
      · simp [accountOf, Cell.record, List.countP_cons]
        omega
  | next rest advanced =>
      have step := advance_account (fun f => total f rest + R f) advanced
      simpa [opOf, Nat.add_assoc] using step

end Refinement

/-- **The machine refines the account.** Every step of every thread is a step of the account, of
the kind of the thread's next operation. -/
theorem machine_refines_account {creator : Creator} {s s' : State T} {a : Action T}
    (taken : (machine creator).step s a = some s') :
    Account.Step (nextOp s a) (account s) (account s') := by
  obtain ⟨i, l⟩ := a
  replace taken : Pool.step (fun _ => move creator) s (i, l) = some s' := taken
  obtain ⟨stack, cell, after, found, moved, rfl⟩ := Pool.step_eq_some taken
  have step := move_account (fun f => others (total f) i s.threads) moved
  simpa only [nextOp, found, account, total_eq_others found, total_set_others after found]
    using step

/-! ## The account of a spawned task -/

/-- One entry, one reference, nothing else. -/
def Account.spawned : Account where
  queue := 1
  pending := 0
  inline := 0
  polls := 0
  closingPolls := 0
  closingDrops := 0
  clones := 0
  users := 0
  begun := 0
  scheduled := 0
  released := 0
  consumed := 0
  deallocs := 0
  refs := 1
  marks := 0
  dropped := false
  woken := false
  ended := false
  polledLate := false

theorem account_spawnedWith (n : Nat) : account (spawnedWith T n) = .spawned := by
  simp only [account, accountOf, spawnedWith, Cell.spawned, total_idle_eq_zero]
  rfl

/-- A condition on the kind of a step and on the account before it, as a condition on steps. -/
abbrev When (cond : Op → Account → Bool) (s : State T) (a : Action T) : Prop :=
  cond (nextOp s a) (account s) = true

/-- **Invariants of the account are invariants of the machine**, also in the runs whose steps
meet a condition on the kind of the step and the account before it. -/
theorem account_invariant {creator : Creator} {ok : State T → Action T → Prop}
    (cond : Op → Account → Prop)
    (implies : ∀ s a s', ok s a → (machine creator).step s a = some s' →
      cond (nextOp s a) (account s))
    {I : Account → Prop} (initial : I .spawned)
    (preserved : ∀ op a a', I a → cond op a → Account.Step op a a' → I a')
    {s : State T} (reached : (machine creator).ReachesWhen ok s) : I (account s) := by
  induction reached with
  | start initialState =>
      obtain ⟨n, rfl⟩ := initialState
      rw [account_spawnedWith]
      exact initial
  | step _ meets taken ih =>
      exact preserved _ _ _ ih (implies _ _ _ meets taken) (machine_refines_account taken)

end LoonyRuntime.Task
