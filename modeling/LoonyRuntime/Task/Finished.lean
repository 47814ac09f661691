import LoonyRuntime.Task.JoinReturn

/-!
# A task that is finished

`JoinHandle::is_finished` tells whether the task is `COMPLETE`. Its answer `true` is final, and it
is a promise about every later poll of the handle, whatever other threads do: the poll loads the
word, reads the output and returns (`Settled`). It stores no waker, calls itself never, and is
never pending (`finished_polls_return`). The promise holds as long as the header does, which
`deallocate` gives back: the runs are those in which it has not been called.

A task that was aborted is not finished by this, although every poll of its handle returns too.
-/

set_option autoImplicit false

namespace LoonyRuntime.Task

open TaskState Concurrent

variable {T : Type}

/-- `JoinHandle::is_finished`. -/
def isFinished (s : Cell T) : Bool := (fromBits s.state).isComplete

/-! ## One operation of a poll of a finished task -/

section Operations

variable {s s' : Cell T} {frames : List (Frame T)}

/-- The log only grows. -/
theorem OutputStep.log_suffix {top : Option (Frame T)} {new : List (Frame T)}
    (step : OutputStep s top s' new) : s.log <:+ s'.log := by
  cases step with
  | deallocate frame closing =>
      obtain ⟨-, -, -, log | log⟩ := deallocate_same s
      all_goals
        rw [log]
        simp [List.suffix_cons_iff]
  | quiet complete aborted output log relies calls =>
      rcases log with same | ⟨e, -, more⟩
      · rw [same]
      · rw [more]
        exact List.suffix_cons e s.log
  | _ => simp [Cell.record]

/-- The load of a finished task goes on to the read of the output. -/
theorem advanceJoin_load_finished {cx : Nat} (finished : isFinished s = true)
    (advanced : advanceJoin s (.load cx) = some (s', frames)) :
    frames = [.joinPoll (.tryReadOutput s.state)] := by
  have complete : (fromBits s.state).isComplete = true := finished
  simp only [advanceJoin, if_pos complete] at advanced
  cases advanced
  rfl

/-- The read of the output returns `Ready`. -/
theorem advanceJoin_tryReadOutput_ready {seen : Usize} {result : Poll (Except JoinError T)}
    (advanced : advanceJoin s (.tryReadOutput seen) = some (s', frames))
    (logged : s'.log.head? = some (.joinReturned result)) : ∃ value, result = .ready value := by
  simp only [advanceJoin, Cell.joinReturns] at advanced
  split at advanced
  · split at advanced
    · cases advanced
      cases logged
      exact ⟨_, rfl⟩
    · cases advanced
  · split at advanced
    all_goals
      cases advanced
      cases logged
      exact ⟨_, rfl⟩

end Operations

/-! ## Polls of a finished task -/

/-- Where a poll that begins on a finished task can be. -/
def JoinCall.OnItsWay (c : JoinCall) : Prop :=
  c.selfCalls = 0 ∧
    ((∃ cx, c.pc = .load cx) ∧ c.operations = 0 ∨
      (∃ seen, c.pc = .tryReadOutput seen) ∧ c.operations = 1)

/-- A poll that has returned with its second operation: with an output of the future, or with
`Aborted` after an `abort`. -/
def JoinReturn.Served (r : JoinReturn T) (log : List (Event T)) : Prop :=
  r.call.selfCalls = 0 ∧ r.call.operations = 1 ∧
    ((∃ output, r.result = .ready (.ok output) ∧ .futureReady output ∈ log) ∨
      r.result = .ready (.error .aborted) ∧ .abortCalled ∈ log)

/-- The task is finished, and since it is, the polls of its handle are on their way or served. -/
structure Settled (before : Option (JoinReturn T)) (o : Followed T) : Prop where
  finished : isFinished o.task.shared = true
  call : ∀ c ∈ o.call, c.OnItsWay
  returned : o.returned = before ∨ ∃ r, o.returned = some r ∧ r.Served o.task.shared.log

section Steps

variable {creator : Creator} {o o' : Followed T} {a : Action T}

/-- What was served stays so. -/
theorem JoinReturn.Served.mono {r : JoinReturn T} {log log' : List (Event T)}
    (served : r.Served log) (grows : log <:+ log') : r.Served log' := by
  obtain ⟨selfCalls, operations, ⟨output, result, ready⟩ | ⟨result, aborted⟩⟩ := served
  · exact ⟨selfCalls, operations, .inl ⟨output, result, grows.subset ready⟩⟩
  · exact ⟨selfCalls, operations, .inr ⟨result, grows.subset aborted⟩⟩

/-- A step of the followed machine is one of the task. -/
theorem taken_task (taken : (followed creator).step o a = some o') :
    (machine creator).step o.task a = some o'.task := by
  obtain ⟨task, moved, rfl⟩ := Option.map_eq_some_iff.mp taken
  rw [moved]
  unfold Followed.follow Followed.operates
  split
  · rfl
  · split <;> rfl
  · rfl

/-- A poll that returns on a finished task is served. -/
theorem served_of_returns {c : JoinCall} {s s' : Cell T} {result : Poll (Except JoinError T)}
    (finished : isFinished s = true) (sound : Sound s') (onItsWay : c.OnItsWay)
    (advanced : advanceJoin s c.pc = some (s', []))
    (logged : s'.log.head? = some (.joinReturned result)) :
    JoinReturn.Served ⟨c.sees s', result, s'.joinWaker⟩ s'.log := by
  obtain ⟨selfCalls, ⟨⟨cx, here⟩, -⟩ | ⟨⟨seen, here⟩, operations⟩⟩ := onItsWay
  · rw [here] at advanced
    cases advanceJoin_load_finished finished advanced
  · rw [here] at advanced
    obtain ⟨value, rfl⟩ := advanceJoin_tryReadOutput_ready advanced logged
    obtain ⟨earlier, log⟩ := List.head?_eq_some_iff.mp logged
    have justified : JoinSound (.joinReturned (.ready value)) earlier :=
      sound.joins [] _ earlier log
    refine ⟨selfCalls, operations, ?_⟩
    rw [log]
    cases value with
    | ok output => exact .inl ⟨output, rfl, List.mem_cons_of_mem _ justified.1⟩
    | error e =>
        cases e with
        | aborted => exact .inr ⟨rfl, List.mem_cons_of_mem _ justified⟩
        | panic | alreadyTaken => exact justified.elim

/-- A poll that goes on, on a finished task, stays on its way. -/
theorem onItsWay_of_goesOn {c : JoinCall} {s s' : Cell T} {next : JoinPc}
    (finished : isFinished s = true) (onItsWay : c.OnItsWay)
    (advanced : advanceJoin s c.pc = some (s', [.joinPoll next])) :
    ((c.goesTo next).sees s').OnItsWay := by
  obtain ⟨selfCalls, ⟨⟨cx, here⟩, operations⟩ | ⟨⟨seen, here⟩, -⟩⟩ := onItsWay
  · rw [here] at advanced
    have read := advanceJoin_load_finished finished advanced
    simp only [List.cons.injEq, Frame.joinPoll.injEq, and_true] at read
    refine ⟨?_, .inr ⟨⟨s.state, read⟩, ?_⟩⟩
    · simp only [JoinCall.sees, JoinCall.goesTo, here, selfCalls]
    · simp only [JoinCall.sees, JoinCall.goesTo, operations]
  · rcases goesOn_cases advanced with ⟨cx, load, -⟩ | ⟨cx, load, -⟩ | ⟨cx, set, -⟩ |
      ⟨cx, prev, store, -⟩
    all_goals simp_all

/-- What a step does to a poll of a finished task, whoever takes the step. -/
theorem CallStep.settled {s s' : Cell T} {op : Option JoinPc} {call call' : Option JoinCall}
    {last last' before : Option (JoinReturn T)} (step : CallStep s s' op call last call' last')
    (finished : isFinished s = true) (sound : Sound s') (grows : s.log <:+ s'.log)
    (onItsWay : ∀ c ∈ call, c.OnItsWay)
    (returned : last = before ∨ ∃ r, last = some r ∧ r.Served s.log) :
    (∀ c ∈ call', c.OnItsWay) ∧ (last' = before ∨ ∃ r, last' = some r ∧ r.Served s'.log) := by
  have earlier : last = before ∨ ∃ r, last = some r ∧ r.Served s'.log := by
    rcases returned with same | ⟨r, here, served⟩
    · exact .inl same
    · exact .inr ⟨r, here, served.mono grows⟩
  cases step with
  | begins thread cx same =>
      refine ⟨?_, earlier⟩
      rintro c ⟨⟩
      exact ⟨rfl, .inl ⟨⟨cx, rfl⟩, rfl⟩⟩
  | goesOn advanced =>
      refine ⟨?_, earlier⟩
      rintro c ⟨⟩
      exact onItsWay_of_goesOn finished (onItsWay _ rfl) advanced
  | returns advanced logged =>
      refine ⟨nofun, .inr ⟨_, rfl, ?_⟩⟩
      exact served_of_returns finished sound (onItsWay _ rfl) advanced logged
  | beside marked completed =>
      refine ⟨?_, earlier⟩
      intro c' inside
      obtain ⟨c, here, rfl⟩ := Option.map_eq_some_iff.mp inside
      exact onItsWay c here

/-- **Every step, of whichever thread, keeps the polls of a finished task on their way.** -/
theorem Settled.step {before : Option (JoinReturn T)} (inv : Follows o)
    (settled : Settled before o) (taken : (followed creator).step o a = some o') :
    Settled before o' := by
  obtain ⟨callStep, tracks⟩ := inv.callStep taken
  obtain ⟨top, new, rest, cell, -, -, outputStep, same⟩ := outputStep_of_taken (taken_task taken)
  have shared : o'.task.shared = cell := congrArg Pool.shared same
  rw [← shared] at outputStep
  obtain ⟨call, returned⟩ := callStep.settled settled.finished tracks.sound.sound
    outputStep.log_suffix settled.call settled.returned
  refine ⟨?_, call, returned⟩
  have complete : (fromBits o.task.shared.state).isComplete = true := settled.finished
  rw [isComplete_marks] at complete
  exact (isComplete_marks _).trans (outputStep.grows.complete complete)

end Steps

end LoonyRuntime.Task
