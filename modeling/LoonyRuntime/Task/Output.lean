import LoonyRuntime.Concurrent.History
import LoonyRuntime.Task.Join

/-!
# The output of a task

The output goes from the future to the slot of the header, and from there to a join result or to
`deallocate`. `OutputStep` says what a step does to the slot, to the two marks that guard it and
to the join results, and `Sound` is what every run keeps of them: the slot is written before
`COMPLETE` is set, it holds what the future returned, and `ABORTED` is set exactly after an abort.
So a join result is sound (`join_result_sound`). No operation records that the output was taken, and
no poll of the join handle says so (`never_alreadyTaken`).
-/

set_option autoImplicit false

namespace LoonyRuntime.Task

open TaskState Concurrent

variable {T : Type}

/-! ## What a step does to the output -/

namespace Event

/-- A poll of the join handle returned the output. -/
@[simp] def isTaken : Event T → Bool
  | .joinReturned (.ready (.ok _)) => true
  | _ => false

/-- An event that is about neither the output nor a join result. -/
@[simp] def isBeside : Event T → Bool
  | .futureReady _ => false
  | .joinReturned _ => false
  | .abortCalled => false
  | .outputDestroyed => false
  | _ => true

end Event

/-- The owner of the join handle is inside a call. -/
def Cell.busy (s : Cell T) : Nat :=
  match s.handle with
  | .busy => 1
  | _ => 0

theorem Cell.busy_le_one (s : Cell T) : s.busy ≤ 1 := by
  unfold Cell.busy
  split <;> omega

namespace Frame

/-- What a call in progress relies on. -/
def Relies (s : Cell T) : Frame T → Prop
  | .poll (.storeOutput output) => .futureReady output ∈ s.log
  | .poll .setComplete => s.output.isSome = true
  | .poll .deallocate => Marks.isComplete (marks s.state) = true
  | .dropWaker .deallocate => Marks.isComplete (marks s.state) = true
  | .joinPoll (.tryReadOutput seen) =>
      Marks.isComplete (marks s.state) = true ∧
        Marks.isAborted (marks seen) = Marks.isAborted (marks s.state)
  | .joinPoll (.setInterest _) => s.log.any Event.isTaken = false
  | .joinPoll (.storeWaker _ _) => s.log.any Event.isTaken = false
  | _ => True

end Frame

/-- What one step does to the output, to its marks and to the join results: the call on top, if
any, and the frames that replace it. -/
inductive OutputStep (s : Cell T) : Option (Frame T) → Cell T → List (Frame T) → Prop where
  | ready (output : T) :
      OutputStep s (some (.poll .future)) (s.record (.futureReady output))
        [.poll (.storeOutput output)]
  | store (output : T) :
      OutputStep s (some (.poll (.storeOutput output))) { s with output := some output }
        [.poll .setComplete]
  | complete (next : PollPc T) (after : next = .takeJoinWaker ∨ next = .release) :
      OutputStep s (some (.poll .setComplete)) { s with state := s.state ||| complete.bits }
        [.poll next]
  | abort :
      OutputStep s (some (.abort .fetchOr))
        ({ s with state := s.state ||| aborted.bits }.record .abortCalled) [.abort .load]
  | joins (cx : Nat) (complete : Marks.isComplete (marks s.state) = true) :
      OutputStep s (some (.joinPoll (.load cx))) s [.joinPoll (.tryReadOutput s.state)]
  | findsAborted (cx : Nat) (running : Marks.isComplete (marks s.state) = false)
      (aborted : Marks.isAborted (marks s.state) = true) :
      OutputStep s (some (.joinPoll (.load cx)))
        ({ s with handle := .idle }.record (.joinReturned (.ready (.error .aborted)))) []
  | listens (cx : Nat) (running : Marks.isComplete (marks s.state) = false) :
      OutputStep s (some (.joinPoll (.load cx))) s [.joinPoll (.setInterest cx)]
  | interest (cx : Nat) :
      OutputStep s (some (.joinPoll (.setInterest cx)))
        { s with state := s.state ||| joinInterest.bits } [.joinPoll (.storeWaker cx s.state)]
  | pends (cx : Nat) (prev : Usize) :
      OutputStep s (some (.joinPoll (.storeWaker cx prev)))
        ({ s with joinWaker := some cx, handle := .idle }.record (.joinReturned .pending)) []
  | reads (seen : Usize) (output : T) (live : Marks.isAborted (marks s.state) = false)
      (written : s.output = some output) :
      OutputStep s (some (.joinPoll (.tryReadOutput seen)))
        ({ s with handle := .idle }.record (.joinReturned (.ready (.ok output)))) []
  | readsAborted (seen : Usize) (aborted : Marks.isAborted (marks seen) = true) :
      OutputStep s (some (.joinPoll (.tryReadOutput seen)))
        ({ s with handle := .idle }.record (.joinReturned (.ready (.error .aborted)))) []
  | readsTaken (seen : Usize) (live : Marks.isAborted (marks seen) = false)
      (missing : Marks.isIdle (marks s.state) = true ∨ Marks.isAborted (marks s.state) = true) :
      OutputStep s (some (.joinPoll (.tryReadOutput seen)))
        ({ s with handle := .idle }.record (.joinReturned (.ready (.error .alreadyTaken)))) []
  | deallocate (frame : Frame T)
      (closing : frame = .poll .deallocate ∨ frame = .dropWaker .deallocate) :
      OutputStep s (some frame) (deallocate s) []
  /-- A step beside the output. -/
  | quiet {top : Option (Frame T)} {s' : Cell T} {after : List (Frame T)}
      (complete : Marks.isComplete (marks s'.state) = Marks.isComplete (marks s.state))
      (aborted : Marks.isAborted (marks s'.state) = Marks.isAborted (marks s.state))
      (output : s'.output = s.output)
      (log : s'.log = s.log ∨ ∃ e : Event T, e.isBeside = true ∧ s'.log = e :: s.log)
      (relies : ∀ f ∈ after, f.Relies s')
      (calls : ∀ R, total Frame.handleCalls top.toList + R = s.busy →
        total Frame.handleCalls after + R = s'.busy) :
      OutputStep s top s' after

section Inversion

variable {s s' : Cell T} {frames : List (Frame T)}

theorem outputStep_of_advancePoll {pc : PollPc T} (moved : advancePoll s pc = some (s', frames)) :
    OutputStep s (some (.poll pc)) s' frames := by
  cases pc with
  | future => cases moved
  | storeOutput output =>
      cases moved
      exact .store output
  | setComplete =>
      cases moved
      refine .complete _ ?_
      split
      · exact .inl rfl
      · exact .inr rfl
  | takeJoinWaker =>
      simp only [advancePoll] at moved
      split at moved
      all_goals
        cases moved
        refine .quiet rfl rfl rfl (.inl rfl) ?_ ?_
          <;> simp [Frame.Relies, Cell.busy]
  | wakeJoin waker =>
      cases moved
      refine .quiet rfl rfl rfl (.inr ⟨_, rfl, rfl⟩) ?_ ?_
        <;> simp [Frame.Relies, Cell.busy, Cell.record]
  | release =>
      cases moved
      refine .quiet ?_ ?_ rfl (.inr ⟨_, rfl, rfl⟩) ?_ ?_
        <;> simp [Frame.Relies, Cell.busy, Cell.record]
  | dropContext =>
      cases moved
      cases last : lastReference s.state with
      | false =>
          refine .quiet ?_ ?_ rfl (.inl rfl) ?_ ?_ <;> simp [Cell.busy]
      | true =>
          have complete : Marks.isComplete (marks s.state) = true := by
            simp only [lastReference, Bool.and_eq_true, isComplete_marks] at last
            exact last.2
          refine .quiet ?_ ?_ rfl (.inl rfl) ?_ ?_
            <;> simp [Frame.Relies, Cell.busy, complete]
  | deallocate =>
      cases moved
      exact .deallocate _ (.inl rfl)

theorem outputStep_of_advanceWake {impl : WakerImpl} {via : Via} {pc : WakePc impl}
    (moved : advanceWake impl via s pc = some (s', frames)) :
    OutputStep s (some (.wake impl via pc)) s' frames := by
  have returns : ∀ cell : Cell T, Marks.isComplete (marks cell.state) =
      Marks.isComplete (marks s.state) → Marks.isAborted (marks cell.state) =
      Marks.isAborted (marks s.state) → cell.output = s.output → cell.log = s.log →
      cell.busy = s.busy → OutputStep s (some (.wake impl via pc)) (cell.wakeReturns via) [] := by
    intro cell complete aborted output log busy
    have same : (cell.wakeReturns via).state = cell.state ∧
        (cell.wakeReturns via).output = cell.output ∧
        (cell.wakeReturns via).log = .wakeReturned via :: cell.log ∧
        (cell.wakeReturns via).busy = cell.busy := by
      cases via <;> simp [Cell.wakeReturns, Cell.record, Cell.busy]
    obtain ⟨state', output', log', busy'⟩ := same
    refine .quiet (by rw [state', complete]) (by rw [state', aborted]) (by rw [output', output])
      (.inr ⟨_, rfl, by rw [log', log]⟩) ?_ ?_
    · simp
    · rw [busy', busy]
      simp
  cases pc with
  | load =>
      simp only [advanceWake] at moved
      split at moved
      · cases moved
        refine .quiet rfl rfl rfl (.inl rfl) ?_ ?_
          <;> simp [Frame.Relies]
      · cases moved
        exact returns s rfl rfl rfl rfl rfl
  | compareExchange current =>
      simp only [advanceWake] at moved
      split at moved
      · next same =>
          cases moved
          have kept : ∀ m : BitVec 4, Marks.isIdle m = true →
              Marks.isComplete (m ||| 1) = Marks.isComplete m ∧
              Marks.isAborted (m ||| 1) = Marks.isAborted m := by decide
          have idle := ((proceeds_iff impl current.1).mp current.2).1
          obtain ⟨complete, aborted⟩ := kept _ idle
          have after := marks_desired impl idle
          refine .quiet ?_ ?_ rfl (.inr ⟨_, rfl, rfl⟩) ?_ ?_
          · rw [same]
            exact (congrArg Marks.isComplete after).trans complete
          · rw [same]
            exact (congrArg Marks.isAborted after).trans aborted
          all_goals simp [Frame.Relies, Cell.busy, Cell.record]
      · cases moved
        refine .quiet rfl rfl rfl (.inl rfl) ?_ ?_
          <;> simp [Frame.Relies]
  | schedule =>
      cases moved
      exact returns { s with queue := s.queue + 1 } rfl rfl rfl rfl rfl
  | ranInline =>
      cases moved
      exact returns s rfl rfl rfl rfl rfl

theorem outputStep_of_advanceDrop {pc : DropPc} (moved : advanceDrop s pc = some (s', frames)) :
    OutputStep s (some (.dropWaker pc)) s' frames := by
  cases pc with
  | fetchSub =>
      cases moved
      cases last : lastReference s.state with
      | false =>
          refine .quiet ?_ ?_ rfl (.inl rfl) ?_ ?_ <;> simp [Cell.busy]
      | true =>
          have complete : Marks.isComplete (marks s.state) = true := by
            simp only [lastReference, Bool.and_eq_true, isComplete_marks] at last
            exact last.2
          refine .quiet ?_ ?_ rfl (.inl rfl) ?_ ?_
            <;> simp [Frame.Relies, Cell.busy, complete]
  | deallocate =>
      cases moved
      exact .deallocate _ (.inr rfl)

theorem outputStep_of_advanceJoin {pc : JoinPc} (moved : advanceJoin s pc = some (s', frames)) :
    OutputStep s (some (.joinPoll pc)) s' frames := by
  cases pc with
  | load cx =>
      simp only [advanceJoin, isComplete_marks, isAborted_marks] at moved
      split at moved
      · next complete =>
          cases moved
          exact .joins cx complete
      · next running =>
          split at moved
          · next aborted =>
              cases moved
              exact .findsAborted cx (Bool.eq_false_of_not_eq_true running) aborted
          · cases moved
            exact .listens cx (Bool.eq_false_of_not_eq_true running)
  | tryReadOutput seen =>
      have live : (s.state &&& aborted.bits == 0) = !Marks.isAborted (marks s.state) := by
        rw [← isAborted_marks]
        simp [isAborted, fromBits, bne]
      simp only [advanceJoin, completeMask_marks, isAborted_marks, live, Bool.and_eq_true,
        Bool.not_eq_true'] at moved
      split at moved
      · next readable =>
          split at moved
          · next output written =>
              cases moved
              exact .reads seen output readable.2 written
          · cases moved
      · next missing =>
          split at moved
          · next aborted =>
              cases moved
              exact .readsAborted seen aborted
          · next live =>
              cases moved
              refine .readsTaken seen (Bool.eq_false_of_not_eq_true live) ?_
              by_contra readable
              simp only [not_or, Bool.not_eq_true] at readable
              exact missing readable
  | setInterest cx =>
      cases moved
      exact .interest cx
  | storeWaker cx prev =>
      simp only [advanceJoin] at moved
      split at moved
      · cases moved
        refine .quiet rfl rfl rfl (.inl rfl) ?_ ?_
          <;> simp [Frame.Relies, Cell.busy]
      · cases moved
        exact .pends cx prev

/-- When a call of the owner ends, the owner is inside of no call. -/
theorem calls_of_end {frame : Frame T} (call : frame.handleCalls = 1) (left : s'.busy = 0)
    (R : Nat) (single : total Frame.handleCalls (some frame).toList + R = s.busy) :
    total Frame.handleCalls ([] : List (Frame T)) + R = s'.busy := by
  have most := s.busy_le_one
  rw [Option.toList_some, total_singleton, call] at single
  rw [total_nil, left]
  omega

theorem outputStep_of_advanceAbort {pc : AbortPc} (moved : advanceAbort s pc = some (s', frames)) :
    OutputStep s (some (.abort pc)) s' frames := by
  cases pc with
  | fetchOr =>
      cases moved
      exact .abort
  | load =>
      simp only [advanceAbort] at moved
      split at moved
      · cases moved
        refine .quiet rfl rfl rfl (.inl rfl) ?_ ?_
          <;> simp [Frame.Relies]
      · cases moved
        refine .quiet rfl rfl rfl (.inl rfl) ?_ ?_
        · simp
        · exact calls_of_end rfl rfl
  | takeJoinWaker =>
      simp only [advanceAbort] at moved
      split at moved
      · cases moved
        refine .quiet rfl rfl rfl (.inl rfl) ?_ ?_
          <;> simp [Frame.Relies, Cell.busy]
      · cases moved
        refine .quiet rfl rfl rfl (.inl rfl) ?_ ?_
        · simp
        · exact calls_of_end rfl rfl
  | wakeJoin waker =>
      cases moved
      refine .quiet rfl rfl rfl (.inr ⟨_, rfl, rfl⟩) ?_ ?_
      · simp
      · exact calls_of_end rfl rfl

theorem outputStep_of_advanceHandleDrop {pc : HandleDropPc}
    (moved : advanceHandleDrop s pc = some (s', frames)) :
    OutputStep s (some (.dropHandle pc)) s' frames := by
  cases pc with
  | load =>
      simp only [advanceHandleDrop] at moved
      split at moved
      · cases moved
        refine .quiet rfl rfl rfl (.inl rfl) ?_ ?_
          <;> simp [Frame.Relies]
      · cases moved
        refine .quiet rfl rfl rfl (.inr ⟨_, rfl, rfl⟩) ?_ ?_
        · simp
        · exact calls_of_end rfl rfl
  | clearInterest =>
      have kept : ∀ m : BitVec 4, Marks.isComplete (m &&& 7) = Marks.isComplete m ∧
          Marks.isAborted (m &&& 7) = Marks.isAborted m := by decide
      cases moved
      refine .quiet ?_ ?_ rfl (.inl rfl) ?_ ?_
      · rw [marks_and_not_joinInterest, (kept _).1]
      · rw [marks_and_not_joinInterest, (kept _).2]
      all_goals simp [Frame.Relies, Cell.busy]
  | takeJoinWaker =>
      cases moved
      refine .quiet rfl rfl rfl (.inr ⟨_, rfl, rfl⟩) ?_ ?_
      · simp
      · exact calls_of_end rfl rfl

theorem outputStep_of_advance {frame : Frame T} (moved : frame.advance s = some (s', frames)) :
    OutputStep s (some frame) s' frames := by
  cases frame with
  | poll pc => exact outputStep_of_advancePoll moved
  | wake impl via pc => exact outputStep_of_advanceWake moved
  | dropWaker pc => exact outputStep_of_advanceDrop moved
  | joinPoll pc => exact outputStep_of_advanceJoin moved
  | abort pc => exact outputStep_of_advanceAbort moved
  | dropHandle pc => exact outputStep_of_advanceHandleDrop moved

/-- The first effect of a call, made by the code of a thread or by the body of the future. -/
theorem outputStep_of_call {call : Begin} {inFuture : Bool} {top : Option (Frame T)}
    (user : ∀ f ∈ top, f = .poll .future) (effect : Begin.Effect inFuture s call s' frames) :
    OutputStep s top s' (frames ++ top.toList) := by
  have relies : ∀ (cell : Cell T), ∀ f ∈ top, f.Relies cell := by
    intro cell f member
    rw [user f member]
    trivial
  have outside : total Frame.handleCalls top.toList = 0 := by
    apply total_eq_zero
    intro f member
    rw [user f (Option.mem_toList.mp member)]
    rfl
  -- a call that is about nothing of the output
  have other : ∀ cell : Cell T, Marks.isComplete (marks cell.state) =
      Marks.isComplete (marks s.state) → Marks.isAborted (marks cell.state) =
      Marks.isAborted (marks s.state) → cell.output = s.output →
      (cell.log = s.log ∨ ∃ e : Event T, e.isBeside = true ∧ cell.log = e :: s.log) →
      ∀ new : List (Frame T), (∀ f ∈ new, f.Relies cell) →
      s.busy + total Frame.handleCalls new = cell.busy →
      OutputStep s top cell (new ++ top.toList) := by
    intro cell complete aborted output log new holds calls
    refine .quiet complete aborted output log ?_ ?_
    · intro f member
      rcases List.mem_append.mp member with here | below
      · exact holds f here
      · exact relies cell f (Option.mem_toList.mp below)
    · intro R single
      rw [total_append, outside]
      omega
  cases effect with
  | run entry => refine other _ ?_ ?_ ?_ ?_ _ ?_ ?_ <;> simp [Frame.Relies, Cell.record, Cell.busy]
  | clone context word counted atHand =>
      refine other _ ?_ ?_ ?_ ?_ _ ?_ ?_ <;> simp [Cell.busy, counted]
  | wakeContext impl _ | wakeByRef impl _ | wakeByValue impl _ | dropWaker movable =>
      refine other _ ?_ ?_ ?_ ?_ _ ?_ ?_ <;> simp [Frame.Relies, Cell.busy]
  | joinPoll cx idle =>
      refine other _ ?_ ?_ ?_ ?_ _ ?_ ?_ <;> simp [Frame.Relies, Cell.busy, Cell.record, idle]
  | abort idle | dropHandle idle =>
      refine other _ ?_ ?_ ?_ ?_ _ ?_ ?_ <;> simp [Frame.Relies, Cell.busy, idle]

/-- **A step of a thread replaces the call on top**, and leaves those below. -/
theorem outputStep_of_move {creator : Creator} {stack after : List (Frame T)} {l : Label T}
    (moved : move creator s stack l = some (s', after)) :
    ∃ top new rest, stack = top.toList ++ rest ∧ (top = none → stack = []) ∧
      after = new ++ rest ∧ OutputStep s top s' new := by
  cases moves_of_move moved with
  | call effect =>
      have outside : ∀ f ∈ (none : Option (Frame T)), f = .poll .future := by simp
      refine ⟨none, after, [], rfl, fun _ => rfl, by simp, ?_⟩
      simpa using outputStep_of_call outside effect
  | @callInFuture b s' frames rest effect =>
      refine ⟨some (.poll .future), frames ++ [.poll .future], rest, rfl, by simp, by simp, ?_⟩
      exact outputStep_of_call (by simp) effect
  | ready output rest =>
      exact ⟨some (.poll .future), _, rest, rfl, by simp, rfl, .ready output⟩
  | pending rest =>
      refine ⟨some (.poll .future), [.poll .release], rest, rfl, by simp, rfl, ?_⟩
      refine .quiet rfl rfl rfl (.inr ⟨_, rfl, rfl⟩) ?_ ?_
        <;> simp [Frame.Relies, Cell.busy, Cell.record]
  | spurious via current rest =>
      refine ⟨some (.wake .waker via (.compareExchange current)), [.wake .waker via .load], rest,
        rfl, by simp, rfl, ?_⟩
      refine .quiet rfl rfl rfl (.inl rfl) ?_ ?_ <;> simp [Frame.Relies]
  | runInline impl via rest made =>
      refine ⟨some (.wake impl via .schedule), [.poll .future, .wake impl via .ranInline], rest,
        rfl, by simp, rfl, ?_⟩
      refine .quiet rfl rfl rfl (.inr ⟨_, rfl, rfl⟩) ?_ ?_
        <;> simp [Frame.Relies, Cell.busy, Cell.record]
  | @next frame s' frames rest advanced =>
      exact ⟨some frame, frames, rest, rfl, by simp, rfl, outputStep_of_advance advanced⟩

end Inversion

/-! ## What every run keeps of the output -/

/-- A join result agrees with what came before it. -/
def JoinSound : Event T → List (Event T) → Prop
  | .joinReturned (.ready (.ok output)), earlier =>
      .futureReady output ∈ earlier ∧ .abortCalled ∉ earlier
  | .joinReturned (.ready (.error .aborted)), earlier => .abortCalled ∈ earlier
  | .joinReturned (.ready (.error _)), _ => False
  | _, _ => True

/-- An event beside the output is about no abort and no join result. -/
theorem Event.of_isBeside {e : Event T} (beside : e.isBeside = true) (earlier : List (Event T)) :
    e ≠ .abortCalled ∧ e.isTaken = false ∧ JoinSound e earlier := by
  cases e with
  | futureReady | joinReturned | abortCalled | outputDestroyed => cases beside
  | _ => exact ⟨nofun, rfl, trivial⟩

/-- The slot, the marks that guard it and the log agree. -/
structure Sound (s : Cell T) : Prop where
  /-- The slot is written before `COMPLETE` is set. -/
  written : Marks.isComplete (marks s.state) = true → s.output.isSome = true
  /-- The slot holds what the future returned. -/
  output : ∀ output, s.output = some output → .futureReady output ∈ s.log
  aborted : Marks.isAborted (marks s.state) = true ↔ .abortCalled ∈ s.log
  /-- The output was taken after `COMPLETE` was set. -/
  taken : s.log.any Event.isTaken = true → Marks.isComplete (marks s.state) = true
  joins : Justified JoinSound s.log

/-- What is never undone. -/
structure Grows (s s' : Cell T) : Prop where
  ready : ∀ output, .futureReady output ∈ s.log → .futureReady output ∈ s'.log
  output : s.output.isSome = true → s'.output.isSome = true
  complete : Marks.isComplete (marks s.state) = true → Marks.isComplete (marks s'.state) = true

section Steps

variable {s s' : Cell T} {top : Option (Frame T)} {new : List (Frame T)}

theorem deallocate_same (s : Cell T) : (deallocate s).state = s.state ∧
    (deallocate s).output = s.output ∧ (deallocate s).busy = s.busy ∧
      ((deallocate s).log = .deallocated :: .outputDestroyed :: s.log ∨
        (deallocate s).log = .deallocated :: s.log) := by
  unfold deallocate
  split
  · exact ⟨rfl, rfl, rfl, .inl rfl⟩
  · exact ⟨rfl, rfl, rfl, .inr rfl⟩

theorem OutputStep.grows (step : OutputStep s top s' new) : Grows s s' := by
  cases step with
  | deallocate frame closing =>
      obtain ⟨state, output, -, log⟩ := deallocate_same s
      refine ⟨?_, by rw [output]; exact id, by rw [state]; exact id⟩
      intro v member
      rcases log with log | log <;> simp [log, member]
  | quiet complete aborted output log relies calls =>
      refine ⟨?_, by rw [output]; exact id, by rw [complete]; exact id⟩
      intro v member
      rcases log with same | ⟨e, -, more⟩
      · rwa [same]
      · rw [more]
        exact List.mem_cons_of_mem e member
  | _ => constructor <;> simp +contextual [Cell.record]

/-- A call of the owner alone aborts the task or takes its output. -/
theorem OutputStep.of_others (step : OutputStep s top s' new)
    (other : total Frame.handleCalls top.toList = 0) :
    Marks.isAborted (marks s'.state) = Marks.isAborted (marks s.state) ∧
      s'.log.any Event.isTaken = s.log.any Event.isTaken := by
  cases step with
  | ready output => exact ⟨rfl, rfl⟩
  | store output => exact ⟨rfl, rfl⟩
  | complete next after => exact ⟨by simp, rfl⟩
  | deallocate frame closing =>
      obtain ⟨state, -, -, log⟩ := deallocate_same s
      refine ⟨by rw [state], ?_⟩
      rcases log with log | log <;> rw [log] <;> rfl
  | quiet complete aborted output log relies calls =>
      refine ⟨aborted, ?_⟩
      rcases log with same | ⟨e, quiet, more⟩
      · rw [same]
      · rw [more, List.any_cons, (Event.of_isBeside quiet s.log).2.1, Bool.false_or]
  | _ => simp at other

/-- **A step leaves what the other calls rely on**, where the owner makes one call at a time. -/
theorem OutputStep.undisturbed (step : OutputStep s top s' new) {f : Frame T}
    (relies : f.Relies s) (single : total Frame.handleCalls top.toList + f.handleCalls ≤ 1) :
    f.Relies s' := by
  have grows := step.grows
  have owner : f.handleCalls = 1 →
      Marks.isAborted (marks s'.state) = Marks.isAborted (marks s.state) ∧
        s'.log.any Event.isTaken = s.log.any Event.isTaken := fun call =>
    step.of_others (by omega)
  cases f with
  | poll pc =>
      cases pc with
      | storeOutput output => exact grows.ready output relies
      | setComplete => exact grows.output relies
      | deallocate => exact grows.complete relies
      | _ => trivial
  | dropWaker pc =>
      cases pc with
      | fetchSub => trivial
      | deallocate => exact grows.complete relies
  | joinPoll pc =>
      obtain ⟨aborted, taken⟩ := owner rfl
      cases pc with
      | load cx => trivial
      | tryReadOutput seen => exact ⟨grows.complete relies.1, relies.2.trans aborted.symm⟩
      | setInterest cx => exact taken.trans relies
      | storeWaker cx prev => exact taken.trans relies
  | _ => trivial

/-- **The frames that replace the call on top rely on what holds after the step.** -/
theorem OutputStep.relies (step : OutputStep s top s' new) (inv : Sound s)
    (relies : ∀ f ∈ top, f.Relies s) : ∀ f ∈ new, f.Relies s' := by
  cases step with
  | ready output => simp [Frame.Relies, Cell.record]
  | store output => simp [Frame.Relies]
  | complete next after => rcases after with rfl | rfl <;> simp [Frame.Relies]
  | abort => simp [Frame.Relies]
  | joins cx complete => simpa [Frame.Relies] using complete
  | listens cx running =>
      have never : s.log.any Event.isTaken = false := by
        by_contra taken
        rw [inv.taken (Bool.eq_true_of_not_eq_false taken)] at running
        cases running
      intro f member
      rw [List.mem_singleton.mp member]
      exact never
  | interest cx =>
      have never : s.log.any Event.isTaken = false := relies _ rfl
      intro f member
      rw [List.mem_singleton.mp member]
      exact never
  | quiet complete aborted output log relies calls => exact relies
  | _ => exact List.forall_mem_nil _

/-- An event that is recorded beside the marks and the slot. -/
theorem Sound.recorded (inv : Sound s) {e : Event T}
    (complete : Marks.isComplete (marks s'.state) = Marks.isComplete (marks s.state))
    (aborted : Marks.isAborted (marks s'.state) = Marks.isAborted (marks s.state))
    (output : s'.output = s.output) (log : s'.log = e :: s.log) (other : e ≠ .abortCalled)
    (taken : e.isTaken = true → Marks.isComplete (marks s.state) = true)
    (joins : JoinSound e s.log) : Sound s' where
  written := by
    rw [complete, output]
    exact inv.written
  output := fun v slot => by
    rw [log]
    exact List.mem_cons_of_mem e (inv.output v (output ▸ slot))
  aborted := by
    rw [aborted, log, List.mem_cons]
    exact inv.aborted.trans (or_iff_right other.symm).symm
  taken := by
    rw [complete, log, List.any_cons, Bool.or_eq_true]
    rintro (now | before)
    · exact taken now
    · exact inv.taken before
  joins := by
    rw [log, justified_cons]
    exact ⟨joins, inv.joins⟩

/-- **A step keeps the output sound.** -/
theorem OutputStep.sound (step : OutputStep s top s' new) (inv : Sound s)
    (relies : ∀ f ∈ top, f.Relies s) : Sound s' := by
  cases step with
  | ready v => exact inv.recorded rfl rfl rfl rfl (by simp) (by simp) trivial
  | store v =>
      have returned : .futureReady v ∈ s.log := relies _ rfl
      refine ⟨fun _ => rfl, ?_, inv.aborted, inv.taken, inv.joins⟩
      intro v' slot
      obtain rfl : v = v' := Option.some.inj slot
      exact returned
  | complete next after =>
      have filled : s.output.isSome = true := relies _ rfl
      refine ⟨fun _ => filled, inv.output, ?_, fun _ => ?_, inv.joins⟩
      · simpa using inv.aborted
      · simp
  | abort =>
      refine ⟨fun complete => inv.written ?_, fun v slot => ?_, ?_, fun any => ?_, ?_⟩
      · simpa [Cell.record] using complete
      · exact List.mem_cons_of_mem _ (inv.output v slot)
      · simp [Cell.record]
      · simpa [Cell.record] using inv.taken any
      · exact justified_cons.mpr ⟨trivial, inv.joins⟩
  | joins cx complete => exact inv
  | listens cx running => exact inv
  | interest cx =>
      refine ⟨fun complete => inv.written ?_, inv.output, ?_, fun any => ?_, inv.joins⟩
      · simpa using complete
      · simpa using inv.aborted
      · simpa using inv.taken any
  | findsAborted cx running found =>
      exact inv.recorded rfl rfl rfl rfl (by simp) (by simp) (inv.aborted.mp found)
  | pends cx prev => exact inv.recorded rfl rfl rfl rfl (by simp) (by simp) trivial
  | reads seen v live slot =>
      have complete : Marks.isComplete (marks s.state) = true := (relies _ rfl).1
      have never : .abortCalled ∉ s.log := by
        rw [← inv.aborted, live]
        exact Bool.false_ne_true
      exact inv.recorded rfl rfl rfl rfl (by simp) (fun _ => complete) ⟨inv.output v slot, never⟩
  | readsAborted seen found =>
      have same : Marks.isAborted (marks seen) = Marks.isAborted (marks s.state) := (relies _ rfl).2
      exact inv.recorded rfl rfl rfl rfl (by simp) (by simp) (inv.aborted.mp (same ▸ found))
  | readsTaken seen live missing =>
      -- the word is complete, and nobody aborts between the two loads of one poll
      obtain ⟨complete, same⟩ : Marks.isComplete (marks s.state) = true ∧
          Marks.isAborted (marks seen) = Marks.isAborted (marks s.state) := relies _ rfl
      rcases missing with idle | found
      · rw [Marks.isIdle_of_isComplete complete] at idle
        cases idle
      · rw [live, found] at same
        cases same
  | deallocate frame closing =>
      unfold Task.deallocate
      split
      · have destroyed : Sound (s.record .outputDestroyed) :=
          inv.recorded rfl rfl rfl rfl (by simp) (by simp) trivial
        exact destroyed.recorded rfl rfl rfl rfl (by simp) (by simp) trivial
      · exact inv.recorded rfl rfl rfl rfl (by simp) (by simp) trivial
  | quiet complete aborted output log relies calls =>
      rcases log with log | ⟨e, quiet, log⟩
      · refine ⟨?_, ?_, ?_, ?_, ?_⟩
        · rw [complete, output]
          exact inv.written
        · rw [output, log]
          exact inv.output
        · rw [aborted, log]
          exact inv.aborted
        · rw [complete, log]
          exact inv.taken
        · rw [log]
          exact inv.joins
      · obtain ⟨other, taken, joins⟩ := Event.of_isBeside quiet s.log
        refine inv.recorded complete aborted output log other ?_ joins
        intro now
        rw [taken] at now
        cases now

/-- The owner makes one call at a time. -/
theorem OutputStep.single (step : OutputStep s top s' new) (R : Nat)
    (single : total Frame.handleCalls top.toList + R = s.busy) :
    total Frame.handleCalls new + R = s'.busy := by
  have most := s.busy_le_one
  cases step with
  | complete next after => exact single
  | deallocate frame closing =>
      rw [(deallocate_same s).2.2.1, ← single]
      rcases closing with rfl | rfl <;> rfl
  | quiet complete aborted output log relies calls => exact calls R single
  | findsAborted | pends | reads | readsAborted | readsTaken =>
      simp only [Option.toList_some, total_singleton, Frame.handleCalls] at single
      simp only [total_nil, Cell.record, Cell.busy]
      omega
  | _ => exact single

end Steps

/-- The output is sound, the owner makes one call at a time, and every call in progress has what
it relies on. -/
structure SoundAt (s : State T) : Prop where
  sound : Sound s.shared
  single : total (total Frame.handleCalls) s.threads = s.shared.busy
  relies : Pool.Each (fun _ stack => ∀ f ∈ stack, f.Relies s.shared) s.threads

theorem soundAt_spawned (n : Nat) : SoundAt (spawnedWith T n) where
  sound := by
    have start : marks (spawnedWith T n).shared.state = 0 := by
      change marks (idle.withRefcount 1).bits = 0
      decide
    refine ⟨fun complete => ?_, nofun, ?_, nofun, justified_nil⟩
    · rw [start] at complete
      cases complete
    · rw [start]
      exact iff_of_false nofun (List.not_mem_nil)
  single := total_replicate_eq_zero _ rfl
  relies := by
    intro i stack found f member
    rw [List.eq_of_mem_replicate (List.mem_of_getElem? found)] at member
    cases member

/-- A step of the machine replaces the call on top of one thread. -/
theorem outputStep_of_taken {creator : Creator} {s s' : State T} {i : Nat} {l : Label T}
    (taken : (machine creator).step s (i, l) = some s') :
    ∃ top new rest cell, s.threads[i]? = some (top.toList ++ rest) ∧
      (top = none → rest = []) ∧ OutputStep s.shared top cell new ∧
      s' = ⟨cell, s.threads.set i (new ++ rest)⟩ := by
  replace taken : Pool.step (fun _ => move creator) s (i, l) = some s' := taken
  obtain ⟨stack, cell, after, found, moved, rfl⟩ := Pool.step_eq_some taken
  obtain ⟨top, new, rest, rfl, empty, rfl, step⟩ := outputStep_of_move moved
  refine ⟨top, new, rest, cell, found, ?_, step, rfl⟩
  intro none
  have := empty none
  simpa [none] using this

/-- **Every step keeps the output sound and the calls supplied.** -/
theorem SoundAt.step {creator : Creator} {s s' : State T} {a : Action T} (inv : SoundAt s)
    (taken : (machine creator).step s a = some s') : SoundAt s' := by
  obtain ⟨i, l⟩ := a
  obtain ⟨top, new, rest, cell, found, -, step, rfl⟩ := outputStep_of_taken taken
  have mine : ∀ f ∈ top, f.Relies s.shared := fun f member =>
    inv.relies i _ found f (List.mem_append_left rest (Option.mem_toList.mpr member))
  have most := s.shared.busy_le_one
  have single := inv.single
  rw [total_eq_others found, total_append] at single
  refine ⟨step.sound inv.sound mine, ?_, ?_⟩
  · have after := step.single (total Frame.handleCalls rest +
      others (total Frame.handleCalls) i s.threads) (by omega)
    rw [total_set_others _ found, total_append]
    change _ = cell.busy
    omega
  · refine Pool.interference_free inv.relies (fun f member => ?_)
      fun j stack other foundJ relies f member => ?_
    · rcases List.mem_append.mp member with now | below
      · exact step.relies inv.sound mine f now
      · have counted : f.handleCalls ≤ total Frame.handleCalls rest := le_total below
        exact step.undisturbed (inv.relies i _ found f (List.mem_append_right _ below)) (by omega)
    · have counted : f.handleCalls ≤ total Frame.handleCalls stack := le_total member
      have within : total Frame.handleCalls stack ≤
          others (total Frame.handleCalls) i s.threads := le_others other foundJ
      exact step.undisturbed (relies f member) (by omega)

theorem soundAt {creator : Creator} {ok : State T → Action T → Prop} {s : State T}
    (reached : (machine creator).ReachesWhen ok s) : SoundAt s := by
  refine reached.invariant ?_ fun s a s' _ inv _ taken => inv.step taken
  rintro _ ⟨n, rfl⟩
  exact soundAt_spawned n

/-- **`COMPLETE` is never left.** -/
theorem complete_forever {creator : Creator} {s s' : State T} {labels : List (Action T)}
    (reached : (machine creator).Reaches s) (complete : (fromBits s.shared.state).isComplete = true)
    (ran : (machine creator).run s labels = some s') :
    (fromBits s'.shared.state).isComplete = true := by
  refine (Machine.runWhen_invariant (I := fun s => (fromBits s.shared.state).isComplete = true)
    ?_ reached complete ran).2
  rintro s ⟨i, l⟩ s' - complete - taken
  obtain ⟨top, new, rest, cell, found, -, step, rfl⟩ := outputStep_of_taken taken
  rw [isComplete_marks] at complete ⊢
  exact step.grows.complete complete

/-- **A join result is sound.** Once set, `COMPLETE` is never left. A poll of the join handle
returns an output only if the future returned it and nobody had called `abort`, and returns
`Aborted` only if somebody had. -/
theorem join_result_sound {creator : Creator} {s : State T} (reached : (machine creator).Reaches s) :
    ((fromBits s.shared.state).isComplete = true →
      ∀ (labels : List (Action T)) s', (machine creator).run s labels = some s' →
        (fromBits s'.shared.state).isComplete = true) ∧
    (∀ later earlier output,
      s.shared.log = later ++ .joinReturned (.ready (.ok output)) :: earlier →
        .futureReady output ∈ earlier ∧ .abortCalled ∉ earlier) ∧
    ∀ later earlier, s.shared.log = later ++ .joinReturned (.ready (.error .aborted)) :: earlier →
      .abortCalled ∈ earlier := by
  have justified := (soundAt reached).sound.joins
  refine ⟨fun complete labels s' => complete_forever reached complete, ?_, ?_⟩
  · exact fun later earlier output split => justified later _ earlier split
  · exact fun later earlier split => justified later _ earlier split

/-- The task is polled to its end, and then its join handle is polled. -/
def polledThenJoined : List (Action Nat) :=
  [(0, .begin .run), (0, .ready 7), (0, .next), (0, .next),
    (1, .begin (.joinPoll 0)), (1, .next), (1, .next)]

/-- The handle's poll returns the output of the future. -/
theorem join_result_sound_polledThenJoined : ∃ s : State Nat,
    (machine .createTaskWithShared).Reaches s ∧
      ∃ earlier, s.shared.log = .joinReturned (.ready (.ok 7)) :: earlier ∧
        .futureReady 7 ∈ earlier ∧ .abortCalled ∉ earlier := by
  obtain ⟨s, reached, tested⟩ := (machine .createTaskWithShared).exists_reaches_of_test
    (fun s : State Nat => s.shared.log ==
      [.joinReturned (.ready (.ok 7)), .joinGiven 0, .futureReady 7, .pollBegan])
    polledThenJoined ⟨2, rfl⟩ (by decide)
  have log := beq_iff_eq.mp tested
  exact ⟨s, reached, _, log, (join_result_sound reached).2.1 [] _ 7 log⟩

/-- **`JoinError::AlreadyTaken` is never returned.** -/
theorem never_alreadyTaken {creator : Creator} {s : State T}
    (reached : (machine creator).Reaches s) :
    .joinReturned (.ready (.error .alreadyTaken)) ∉ s.shared.log := by
  intro member
  obtain ⟨later, earlier, split⟩ := List.append_of_mem member
  exact (soundAt reached).sound.joins later _ earlier split

/-- Not by a second poll of a handle whose output was taken either. -/
theorem never_alreadyTaken_joinedTwice : ∃ s : State Nat,
    (machine .createTaskWithShared).Reaches s ∧
      .joinReturned (.ready (.error .alreadyTaken)) ∉ s.shared.log ∧
      s.shared.log.countP Event.isTaken = 2 := by
  obtain ⟨s, reached, tested⟩ := (machine .createTaskWithShared).exists_reaches_of_test
    (fun s : State Nat => s.shared.log.countP Event.isTaken == 2)
    (polledThenJoined ++ [(1, .begin (.joinPoll 1)), (1, .next), (1, .next)]) ⟨2, rfl⟩ (by decide)
  exact ⟨s, reached, never_alreadyTaken reached, beq_iff_eq.mp tested⟩

end LoonyRuntime.Task
