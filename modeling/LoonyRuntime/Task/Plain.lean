import LoonyRuntime.Task.Join

/-!
# The tasks of `task/mod.rs`

`task/mod.rs` makes tasks whose word starts at `0` and whose scheduler is null, and polls them by
`poll_task` with the waker of `raw.rs`. The two files read bit 0 differently. `poll_task` sets it
to mark the task complete, and `JoinHandle::poll` tests it for that, while a wake sets it as
`SCHEDULED`. `COMPLETE` is both bits of the lifecycle, and nothing ever sets bit 1
(`lifecycle_of_reaches`).

A thread carries the stack of calls it is inside of. `Task::schedule` finds no scheduler and runs
the task on the thread of the wake. Any thread polls, wakes, aborts, and clones and drops wakers at
any time, the body of the future while it is polled too. A future may return `Ready` in any of its
polls. The join handle is polled by its owner, by one call at a time.

`header.output` is the `Option` that `create_task` makes there, and a poll that unwraps a `None`
unwinds and returns nothing.
-/

set_option autoImplicit false

namespace LoonyRuntime.Task.Plain

open TaskState Concurrent

variable {T : Type}

/-! ## Calls in progress -/

/-- Where `poll_task` is. Its context's waker goes by `drop_waker`. -/
inductive PollPc (T : Type) where
  | future
  | storeOutput (output : T)
  | setComplete
  | takeWaker
  | wakeJoin (waker : Nat)

/-- Where `JoinHandle::poll` is. -/
inductive JoinPc where
  | load (cx : Nat)
  | takeOutput
  | storeWaker (cx : Nat)
  | returnPending (cx : Nat)
deriving DecidableEq, Repr

/-- A call in progress on a thread. -/
inductive Frame (T : Type) where
  | poll (pc : PollPc T)
  | wake (pc : WakePc .raw)
  | dropWaker (pc : DropPc)
  | joinPoll (pc : JoinPc)

/-- A call of `raw.rs` on the task. -/
def Frame.ofRaw : Task.Frame T → Option (Frame T)
  | .wake .raw _ pc => some (.wake pc)
  | .dropWaker pc => some (.dropWaker pc)
  | _ => none

/-- A task of `task/mod.rs`. -/
structure MarkedCell (T : Type) extends Cell T where
  /-- `poll_task` has set bit 0. -/
  marked : Bool

def MarkedCell.record (s : MarkedCell T) (e : Event T) : MarkedCell T :=
  { s with log := e :: s.log }

section Record

variable (s : MarkedCell T) (e : Event T)

@[simp] theorem MarkedCell.record_state : (s.record e).state = s.state := rfl

@[simp] theorem MarkedCell.record_output : (s.record e).output = s.output := rfl

@[simp] theorem MarkedCell.record_joinWaker : (s.record e).joinWaker = s.joinWaker := rfl

@[simp] theorem MarkedCell.record_handle : (s.record e).handle = s.handle := rfl

@[simp] theorem MarkedCell.record_marked : (s.record e).marked = s.marked := rfl

@[simp] theorem MarkedCell.record_log : (s.record e).log = e :: s.log := rfl

end Record

/-- `create_task`. -/
def MarkedCell.new : MarkedCell T where
  state := 0
  output := none
  joinWaker := none
  queue := 0
  wakers := 0
  borrows := 0
  handle := .idle
  log := []
  marked := false

/-- A result of one operation: the task after it, and the frames that replace the top one. -/
abbrev Outcome (T : Type) := Option (MarkedCell T × List (Frame T))

/-! ## The operations of each call -/

/-- Bit 0, which `task/mod.rs` reads as the end of the task. -/
def completeBit : Usize := 0x1

/-- The bit of `JoinHandle::abort`. -/
def abortBit : Usize := 0x4

/-- An operation of `raw.rs` on the task. -/
def lift (s : MarkedCell T) (r : Cell T × List (Task.Frame T)) : MarkedCell T × List (Frame T) :=
  ({ s with toCell := r.1 }, r.2.filterMap Frame.ofRaw)

/-- `poll_task`. The future's own result is a label, so `future` has no operation here. -/
def advancePoll (s : MarkedCell T) : PollPc T → Outcome T
  | .future => none
  | .storeOutput output => some ({ s with output := some output }, [.poll .setComplete])
  | .setComplete =>
      some ({ s with state := s.state ||| completeBit, marked := true }, [.poll .takeWaker])
  | .takeWaker =>
      match s.joinWaker with
      | some waker => some ({ s with joinWaker := none }, [.poll (.wakeJoin waker)])
      | none => some (s, [.dropWaker .fetchSub])
  | .wakeJoin waker => some (s.record (.joinWoken waker), [.dropWaker .fetchSub])

/-- The wakes of `raw.rs`. `Task::schedule` finds no scheduler and runs the task here. -/
def advanceWake (s : MarkedCell T) : WakePc .raw → Outcome T
  | .schedule => some (s.record .pollBegan, [.poll .future, .wake .ranInline])
  | pc => (Task.advanceWake .raw .context s.toCell pc).map (lift s)

/-- `JoinHandle::poll`. -/
def advanceJoin (s : MarkedCell T) : JoinPc → Outcome T
  | .load cx =>
      if s.state &&& completeBit != 0 then some (s, [.joinPoll .takeOutput])
      else if s.state &&& abortBit != 0 then
        some ({ s with handle := .idle }.record (.joinReturned (.ready (.error .aborted))), [])
      else some (s, [.joinPoll (.storeWaker cx)])
  | .takeOutput =>
      match s.output with
      | some output =>
          some ({ s with output := none, handle := .idle }.record
            (.joinReturned (.ready (.ok output))), [])
      | none => some ({ s with handle := .idle }, [])
  | .storeWaker cx => some ({ s with joinWaker := some cx }, [.joinPoll (.returnPending cx)])
  | .returnPending _ => some ({ s with handle := .idle }.record (.joinReturned .pending), [])

/-- The next operation of a call. -/
def Frame.advance (s : MarkedCell T) : Frame T → Outcome T
  | .poll pc => advancePoll s pc
  | .wake pc => advanceWake s pc
  | .dropWaker pc => (Task.advanceDrop s.toCell pc).map (lift s)
  | .joinPoll pc => advanceJoin s pc

/-! ## The machine -/

/-- A call that code of the user makes. -/
inductive Call where
  /-- `Task::run`. -/
  | poll
  | clone
  | wake
  | dropWaker
  | joinPoll (cx : Nat)
  | abort
deriving DecidableEq, Repr

/-- The first effect of a call, and its frame. -/
def Call.begin (s : MarkedCell T) : Call → Outcome T
  | .poll => some (s.record .pollBegan, [.poll .future])
  | .clone => some ({ s with state := s.state + refOne }, [])
  | .wake => some (s, [.wake .load])
  | .dropWaker => some (s, [.dropWaker .fetchSub])
  | .joinPoll cx =>
      if s.handle = .idle then
        some ({ s with handle := .busy }.record (.joinGiven cx), [.joinPoll (.load cx)])
      else none
  | .abort => some ({ s with state := s.state ||| abortBit }.record .abortCalled, [])

inductive Label (T : Type) where
  | begin (call : Call)
  /-- The future returns `Ready`. -/
  | ready (output : T)
  /-- The future returns `Pending`. -/
  | pending
  /-- The next operation of the call on top. -/
  | next

/-- One step of a thread inside the calls of the stack. -/
def move (s : MarkedCell T) : List (Frame T) → Label T → Outcome T
  | [], .begin call => call.begin s
  | .poll .future :: rest, .begin call =>
      (call.begin s).map fun r => (r.1, r.2 ++ .poll .future :: rest)
  | .poll .future :: rest, .ready output =>
      some (s.record (.futureReady output), .poll (.storeOutput output) :: rest)
  | .poll .future :: rest, .pending =>
      some (s.record .futurePending, .dropWaker .fetchSub :: rest)
  | frame :: rest, .next => (frame.advance s).map fun r => (r.1, r.2 ++ rest)
  | _, _ => none

abbrev State (T : Type) := Pool (MarkedCell T) (List (Frame T))

abbrev Action (T : Type) := Nat × Label T

/-- The new task, with `n` threads inside no call. -/
def newWith (T : Type) (n : Nat) : State T := ⟨.new, List.replicate n []⟩

/-- The machine of one task of `task/mod.rs`. -/
def machine (T : Type) : Machine (State T) (Action T) where
  initial s := ∃ n, s = newWith T n
  step := Pool.step fun _ => move

/-! ## The lifecycle -/

/-- The word is idle or scheduled, and it is scheduled from the first wake or mark on. -/
structure Lifecycle (s : MarkedCell T) : Prop where
  low : Marks.isIdle (marks s.state) = true ∨ Marks.isScheduled (marks s.state) = true
  scheduled : Marks.isScheduled (marks s.state) = true ↔ s.marked = true ∨ .scheduled ∈ s.log

namespace Lifecycle

variable {s s' : MarkedCell T}

/-- Such a word is never complete. -/
theorem not_isComplete (inv : Lifecycle s) : (fromBits s.state).isComplete = false := by
  have finite : ∀ m : BitVec 4, Marks.isIdle m = true ∨ Marks.isScheduled m = true →
      Marks.isComplete m = false := by decide
  rw [isComplete_marks, finite _ inv.low]

/-- `JoinHandle::poll` reads such a word as complete when it is scheduled. -/
theorem completeBit_iff (inv : Lifecycle s) :
    (s.state &&& completeBit != 0) = true ↔ s.marked = true ∨ .scheduled ∈ s.log := by
  have finite : ∀ m : BitVec 4, Marks.isIdle m = true ∨ Marks.isScheduled m = true →
      (!(m &&& 1 == 0)) = Marks.isScheduled m := by decide
  have test : (s.state &&& completeBit != 0) = !(marks s.state &&& 1 == 0) :=
    congrArg (!·) (and_beq_marks s.state 1 0)
  rw [test, finite _ inv.low, inv.scheduled]

/-- The lifecycle stays when its bits do and nothing is marked or scheduled. -/
theorem of_same (inv : Lifecycle s)
    (idle : Marks.isIdle (marks s'.state) = Marks.isIdle (marks s.state))
    (busy : Marks.isScheduled (marks s'.state) = Marks.isScheduled (marks s.state))
    (marked : s'.marked = s.marked)
    (log : Event.scheduled ∈ s'.log ↔ Event.scheduled ∈ s.log) : Lifecycle s' where
  low := by
    rw [idle, busy]
    exact inv.low
  scheduled := by
    rw [busy, marked, log]
    exact inv.scheduled

/-- Bit 0 is set by a wake or a mark. -/
theorem starts (inv : Lifecycle s) (word : marks s'.state = marks s.state ||| 1#4)
    (started : s'.marked = true ∨ .scheduled ∈ s'.log) : Lifecycle s' := by
  have finite : ∀ m : BitVec 4, Marks.isIdle m = true ∨ Marks.isScheduled m = true →
      Marks.isScheduled (m ||| 1#4) = true := by decide
  have busy : Marks.isScheduled (marks s'.state) = true := by
    rw [word]
    exact finite _ inv.low
  exact ⟨.inr busy, iff_of_true busy started⟩

end Lifecycle

/-! ## What a step can do -/

/-- A frame that neither completes the task nor serves its joiner. -/
def Frame.quiet : Frame T → Bool
  | .poll .future | .wake _ | .dropWaker _ => true
  | _ => false

/-- A step that leaves the mark and the joiner as they are. -/
structure Beside (s s' : MarkedCell T) : Prop where
  output : s'.output = s.output
  joinWaker : s'.joinWaker = s.joinWaker
  handle : s'.handle = s.handle
  marked : s'.marked = s.marked
  latest : latestJoinPoll s'.log = latestJoinPoll s.log
  lifecycle : Lifecycle s → Lifecycle s'

theorem Beside.refl (s : MarkedCell T) : Beside s s := ⟨rfl, rfl, rfl, rfl, rfl, id⟩

/-- An event beside the join handle is recorded. -/
theorem Beside.record (s : MarkedCell T) {e : Event T}
    (latest : latestJoinPoll (e :: s.log) = latestJoinPoll s.log) (other : e ≠ .scheduled) :
    Beside s (s.record e) where
  output := rfl
  joinWaker := rfl
  handle := rfl
  marked := rfl
  latest := latest
  lifecycle inv := inv.of_same rfl rfl rfl (by simp [Ne.symm other])

/-- The reference count or the flags change. -/
theorem Beside.word {s : MarkedCell T} (word : Usize)
    (idle : Marks.isIdle (marks word) = Marks.isIdle (marks s.state))
    (busy : Marks.isScheduled (marks word) = Marks.isScheduled (marks s.state)) :
    Beside s { s with state := word } where
  output := rfl
  joinWaker := rfl
  handle := rfl
  marked := rfl
  latest := rfl
  lifecycle inv := inv.of_same idle busy rfl Iff.rfl

theorem Beside.trans {s s' s'' : MarkedCell T} (first : Beside s s') (second : Beside s' s'') :
    Beside s s'' where
  output := second.output.trans first.output
  joinWaker := second.joinWaker.trans first.joinWaker
  handle := second.handle.trans first.handle
  marked := second.marked.trans first.marked
  latest := second.latest.trans first.latest
  lifecycle := second.lifecycle ∘ first.lifecycle

/-- The outcomes of one step of a thread. -/
inductive Moves (s : MarkedCell T) :
    List (Frame T) → Label T → MarkedCell T → List (Frame T) → Prop where
  | beside (top frames rest : List (Frame T)) {l : Label T} {s' : MarkedCell T}
      (leaves : Beside s s') (before : top.all Frame.quiet = true)
      (after : frames.all Frame.quiet = true) (begun : top = [] → l ≠ .next) :
      Moves s (top ++ rest) l s' (frames ++ rest)
  | readies (output : T) (rest : List (Frame T)) :
      Moves s (.poll .future :: rest) (.ready output) (s.record (.futureReady output))
        (.poll (.storeOutput output) :: rest)
  | storesOutput (output : T) (rest : List (Frame T)) :
      Moves s (.poll (.storeOutput output) :: rest) .next { s with output := some output }
        (.poll .setComplete :: rest)
  | setsComplete (rest : List (Frame T)) :
      Moves s (.poll .setComplete :: rest) .next
        { s with state := s.state ||| completeBit, marked := true } (.poll .takeWaker :: rest)
  | takesWaker (rest : List (Frame T)) {waker : Nat} (full : s.joinWaker = some waker) :
      Moves s (.poll .takeWaker :: rest) .next { s with joinWaker := none }
        (.poll (.wakeJoin waker) :: rest)
  | noWaker (rest : List (Frame T)) (empty : s.joinWaker = none) :
      Moves s (.poll .takeWaker :: rest) .next s (.dropWaker .fetchSub :: rest)
  | wakesJoin (waker : Nat) (rest : List (Frame T)) :
      Moves s (.poll (.wakeJoin waker) :: rest) .next (s.record (.joinWoken waker))
        (.dropWaker .fetchSub :: rest)
  | joins {cx : Nat} (rest : List (Frame T)) (idle : s.handle = .idle) :
      Moves s rest (.begin (.joinPoll cx)) ({ s with handle := .busy }.record (.joinGiven cx))
        (.joinPoll (.load cx) :: rest)
  | findsComplete (cx : Nat) (rest : List (Frame T))
      (set : (s.state &&& completeBit != 0) = true) :
      Moves s (.joinPoll (.load cx) :: rest) .next s (.joinPoll .takeOutput :: rest)
  | findsAborted (cx : Nat) (rest : List (Frame T))
      (unset : (s.state &&& completeBit != 0) = false) :
      Moves s (.joinPoll (.load cx) :: rest) .next
        ({ s with handle := .idle }.record (.joinReturned (.ready (.error .aborted)))) rest
  | registers (cx : Nat) (rest : List (Frame T))
      (unset : (s.state &&& completeBit != 0) = false) :
      Moves s (.joinPoll (.load cx) :: rest) .next s (.joinPoll (.storeWaker cx) :: rest)
  | takesOutput {output : T} (rest : List (Frame T)) (full : s.output = some output) :
      Moves s (.joinPoll .takeOutput :: rest) .next
        ({ s with output := none, handle := .idle }.record
          (.joinReturned (.ready (.ok output)))) rest
  | unwrapsNone (rest : List (Frame T)) (empty : s.output = none) :
      Moves s (.joinPoll .takeOutput :: rest) .next { s with handle := .idle } rest
  | storesWaker (cx : Nat) (rest : List (Frame T)) :
      Moves s (.joinPoll (.storeWaker cx) :: rest) .next { s with joinWaker := some cx }
        (.joinPoll (.returnPending cx) :: rest)
  | returnsPending (cx : Nat) (rest : List (Frame T)) :
      Moves s (.joinPoll (.returnPending cx) :: rest) .next
        ({ s with handle := .idle }.record (.joinReturned .pending)) rest

section Moves

variable {s s' : MarkedCell T} {frames : List (Frame T)}

@[simp] theorem isIdle_or_aborted (m : BitVec 4) : Marks.isIdle (m ||| 4#4) = Marks.isIdle m := by
  revert m
  decide

@[simp] theorem isScheduled_or_aborted (m : BitVec 4) :
    Marks.isScheduled (m ||| 4#4) = Marks.isScheduled m := by
  revert m
  decide

/-- The operations of a wake leave the mark and the joiner. -/
theorem beside_of_advanceWake {pc : WakePc .raw} (moved : advanceWake s pc = some (s', frames)) :
    Beside s s' ∧ frames.all Frame.quiet = true := by
  cases pc with
  | schedule =>
      cases moved
      exact ⟨.record s rfl (by simp), rfl⟩
  | load =>
      simp only [advanceWake, Task.advanceWake] at moved
      split at moved
      · cases moved
        exact ⟨.refl s, rfl⟩
      · cases moved
        exact ⟨.record s rfl (by simp), rfl⟩
  | compareExchange current =>
      simp only [advanceWake, Task.advanceWake] at moved
      split at moved
      · next same =>
          cases moved
          refine ⟨⟨rfl, rfl, rfl, rfl, rfl, fun inv => inv.starts ?_ (.inr ?_)⟩, rfl⟩
          · rw [same]
            exact marks_wakeBits current.1
          · exact List.mem_cons_self
      · cases moved
        exact ⟨.refl s, rfl⟩
  | ranInline =>
      cases moved
      exact ⟨.record s rfl (by simp), rfl⟩

/-- The operations of a dropped waker leave the mark and the joiner. -/
theorem beside_of_advanceDrop {pc : DropPc}
    (moved : (Task.advanceDrop s.toCell pc).map (lift s) = some (s', frames)) :
    Beside s s' ∧ frames.all Frame.quiet = true := by
  cases pc with
  | fetchSub =>
      simp only [Task.advanceDrop, Option.map_some, lift] at moved
      obtain ⟨rfl, rfl⟩ := Prod.mk.inj (Option.some.inj moved)
      refine ⟨.word _ (by rw [marks_sub_refOne]) (by rw [marks_sub_refOne]), ?_⟩
      cases lastReference s.state <;> rfl
  | deallocate =>
      simp only [Task.advanceDrop, Option.map_some, lift, deallocate] at moved
      obtain ⟨rfl, rfl⟩ := Prod.mk.inj (Option.some.inj moved)
      refine ⟨?_, rfl⟩
      split
      · exact (Beside.record s (e := .outputDestroyed) rfl (by simp)).trans
          (.record _ (e := .deallocated) rfl (by simp))
      · exact .record s (e := .deallocated) rfl (by simp)

/-- A call of the user's code begins beside the joiner, or it is a poll of the join handle. -/
theorem moves_of_begin {call : Call} (rest : List (Frame T))
    (begun : call.begin s = some (s', frames)) :
    Moves s rest (.begin call) s' (frames ++ rest) := by
  cases call with
  | poll =>
      cases begun
      exact .beside [] [.poll .future] rest (.record s rfl (by simp)) rfl rfl (by simp)
  | clone =>
      obtain ⟨rfl, rfl⟩ := Prod.mk.inj (Option.some.inj begun)
      exact .beside [] [] rest
        (.word (s.state + refOne) (by rw [marks_add_refOne]) (by rw [marks_add_refOne]))
        rfl rfl (by simp)
  | wake =>
      cases begun
      exact .beside [] [.wake .load] rest (.refl s) rfl rfl (by simp)
  | dropWaker =>
      cases begun
      exact .beside [] [.dropWaker .fetchSub] rest (.refl s) rfl rfl (by simp)
  | joinPoll cx =>
      simp only [Call.begin] at begun
      split at begun
      · next idle =>
          cases begun
          exact .joins rest idle
      · cases begun
  | abort =>
      cases begun
      have marked : marks (s.state ||| abortBit) = marks s.state ||| 4#4 :=
        marks_or_aborted s.state
      refine .beside [] [] rest (.trans (.word (s.state ||| abortBit) ?_ ?_)
        (.record _ rfl (by simp))) rfl rfl (by simp)
      · rw [marked, isIdle_or_aborted]
      · rw [marked, isScheduled_or_aborted]

/-- The next operation of a call. -/
theorem moves_of_advance {frame : Frame T} (rest : List (Frame T))
    (advanced : frame.advance s = some (s', frames)) :
    Moves s (frame :: rest) .next s' (frames ++ rest) := by
  cases frame with
  | wake pc =>
      obtain ⟨beside, quiet⟩ := beside_of_advanceWake advanced
      exact .beside [.wake pc] frames rest beside rfl quiet (by simp)
  | dropWaker pc =>
      obtain ⟨beside, quiet⟩ := beside_of_advanceDrop advanced
      exact .beside [.dropWaker pc] frames rest beside rfl quiet (by simp)
  | poll pc =>
      cases pc with
      | future => cases advanced
      | storeOutput output =>
          cases advanced
          exact .storesOutput output rest
      | setComplete =>
          cases advanced
          exact .setsComplete rest
      | takeWaker =>
          simp only [Frame.advance, advancePoll] at advanced
          cases slot : s.joinWaker with
          | some waker =>
              rw [slot] at advanced
              cases advanced
              exact .takesWaker rest slot
          | none =>
              rw [slot] at advanced
              cases advanced
              exact .noWaker rest slot
      | wakeJoin waker =>
          cases advanced
          exact .wakesJoin waker rest
  | joinPoll pc =>
      cases pc with
      | load cx =>
          simp only [Frame.advance, advanceJoin] at advanced
          split at advanced
          · next set =>
              cases advanced
              exact .findsComplete cx rest set
          · next unset =>
              split at advanced
              · cases advanced
                exact .findsAborted cx rest (Bool.eq_false_of_not_eq_true unset)
              · cases advanced
                exact .registers cx rest (Bool.eq_false_of_not_eq_true unset)
      | takeOutput =>
          simp only [Frame.advance, advanceJoin] at advanced
          cases slot : s.output with
          | some output =>
              rw [slot] at advanced
              cases advanced
              exact .takesOutput rest slot
          | none =>
              rw [slot] at advanced
              cases advanced
              exact .unwrapsNone rest slot
      | storeWaker cx =>
          cases advanced
          exact .storesWaker cx rest
      | returnPending cx =>
          cases advanced
          exact .returnsPending cx rest

/-- **A step has one of these outcomes.** -/
theorem moves_of_move {stack stack' : List (Frame T)} {l : Label T}
    (moved : move s stack l = some (s', stack')) : Moves s stack l s' stack' := by
  cases stack with
  | nil =>
      cases l with
      | begin call => simpa using moves_of_begin [] moved
      | _ => cases moved
  | cons frame rest =>
      cases l with
      | next =>
          have lifted : (frame.advance s).map (fun r => (r.1, r.2 ++ rest)) =
              some (s', stack') := by
            rw [← moved]
            cases frame with
            | poll pc => cases pc <;> rfl
            | _ => rfl
          obtain ⟨⟨cell, frames⟩, advanced, same⟩ := Option.map_eq_some_iff.mp lifted
          cases same
          exact moves_of_advance rest advanced
      | begin call =>
          cases frame with
          | poll pc =>
              cases pc with
              | future =>
                  obtain ⟨⟨cell, frames⟩, begun, same⟩ := Option.map_eq_some_iff.mp moved
                  cases same
                  exact moves_of_begin _ begun
              | _ => cases moved
          | _ => cases moved
      | ready output =>
          cases frame with
          | poll pc =>
              cases pc with
              | future =>
                  cases moved
                  exact .readies output rest
              | _ => cases moved
          | _ => cases moved
      | pending =>
          cases frame with
          | poll pc =>
              cases pc with
              | future =>
                  cases moved
                  exact .beside [.poll .future] [.dropWaker .fetchSub] rest
                    (.record s rfl (by simp)) rfl rfl (by simp)
              | _ => cases moved
          | _ => cases moved

end Moves

end LoonyRuntime.Task.Plain
