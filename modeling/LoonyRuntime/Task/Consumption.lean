import LoonyRuntime.Task.JoinReturn

/-!
# How often the output is consumed

The output is moved out by a poll of the join handle that returns `Ready(Ok(_))`, or destroyed by
`deallocate`, which the test of `drop_waker` leads to. No operation records that it was taken, so it
is consumed as often as these calls are made.

It is consumed once at most, and nobody is told a wrong result, in every run in which the handle is
not polled again after `Ready(Ok(_))` (`joinsOnce`), and in which the test passes once, in no run in
which the output is moved out as well (`closesOnce`, `readsOpen`): `consumed_once`. A read of an
aborted task moves nothing out. The quantity behind it is the number of outputs that were moved out
and of tests that have passed (`Once`).
-/

set_option autoImplicit false

namespace LoonyRuntime.Task

open TaskState Concurrent

variable {T : Type}

/-! ## Consumptions -/

namespace Event

/-- The output is destroyed. -/
@[simp] def isDestroyed : Event T → Bool
  | .outputDestroyed => true
  | _ => false

/-- The output is moved out or destroyed. -/
@[simp] def consumes : Event T → Bool
  | .joinReturned (.ready (.ok _)) => true
  | .outputDestroyed => true
  | _ => false

end Event

/-- A join result after the output was taken says so. -/
def SaysTaken (e : Event T) (earlier : List (Event T)) : Prop :=
  ∀ result, e = .joinReturned result → earlier.any Event.isTaken = true →
    result = .ready (.error .alreadyTaken)

/-- The output is moved out or destroyed once at most, and who polls the join handle after it
was moved out is told that it is taken. -/
def ConsumedOnce (log : List (Event T)) : Prop :=
  log.countP Event.consumes ≤ 1 ∧ Justified SaysTaken log

/-- How often the output was moved out. -/
def Cell.taken (s : Cell T) : Nat := s.log.countP Event.isTaken

/-- How often the test of `drop_waker` has passed. Each pass leads to one call of `deallocate`. -/
def Account.passes (a : Account) : Nat := a.closing + a.deallocs

/-! ## The calls that are made -/

/-- The handle is not polled again after a poll of it has returned `Ready(Ok(_))`. -/
def joinsOnce (s : State T) (a : Action T) : Bool :=
  (joinBegun a.2).isNone || s.shared.taken == 0

/-- The test of `drop_waker` passes once, and in no run in which the output was moved out. -/
def closesOnce (s : State T) (a : Action T) : Bool :=
  !(nextOp s a == .drop && (account s).lastReference) ||
    (s.shared.taken == 0 && (account s).passes == 0)

/-- A poll of the handle reads the output before the test of `drop_waker` passes, or the task is
aborted. -/
def readsOpen (s : State T) (a : Action T) : Bool :=
  match joinPc s a with
  | some (.tryReadOutput _) => (fromBits s.shared.state).isAborted || (account s).passes == 0
  | _ => true

/-- The three conditions on the calls. -/
def callsOnce (s : State T) (a : Action T) : Bool :=
  joinsOnce s a && (closesOnce s a && readsOpen s a)

/-! ## What a step adds -/

/-- The test of `drop_waker` passes in a `fetch_sub`, and in no other operation. -/
theorem Account.Step.passes {op : Op} {a a' : Account} (step : Account.Step op a a') :
    a'.passes = a.passes + (op == .drop && a.lastReference).toNat := by
  unfold Account.passes Account.closing
  cases step with
  | proceed | takeJoin => rfl
  | run _ after | runInline _ after | clone _ after | breakOff _ _ _ after | schedule _ _ _ after
  | push _ _ _ after | inlineReturn _ _ _ after | ready after | complete _ after | release after
  | abort after | interest _ after | dropHandle after | quiet _ after =>
      rw [after]
      rfl
  | dropContext _ _ after | dropClone _ _ after =>
      rw [after]
      simp only [beq_self_eq_true, Bool.true_and]
      omega
  | deallocatePoll call _ after | deallocateDrop call _ after =>
      have other : (Op.deallocate == Op.drop && a.lastReference).toNat = 0 := rfl
      rw [other, after, call]
      dsimp only
      omega

section Steps

variable {s s' : Cell T} {top : Option (Frame T)} {new : List (Frame T)}

/-- **The output is moved out by the read of a live task**, with which the poll of the handle
returns, and by no other operation. -/
theorem OutputStep.taken (step : OutputStep s top s' new) :
    s'.taken = s.taken ∨
      (∃ seen, top = some (.joinPoll (.tryReadOutput seen))) ∧ new = [] ∧
        Marks.isAborted (marks s.state) = false ∧ s'.taken = s.taken + 1 := by
  unfold Cell.taken
  cases step with
  | reads seen output live written =>
      exact .inr ⟨⟨seen, rfl⟩, rfl, live, List.countP_cons_of_pos rfl⟩
  | deallocate frame closing =>
      obtain ⟨-, -, -, log | log⟩ := deallocate_same s <;> exact .inl (by rw [log]; rfl)
  | quiet complete aborted output log relies calls =>
      rcases log with same | ⟨e, beside, more⟩
      · exact .inl (by rw [same])
      · have silent := (Event.of_isBeside beside s.log).2.1
        exact .inl (by rw [more, List.countP_cons_of_neg (ne_true_of_eq_false silent)])
  | _ => exact .inl rfl

/-- Each output that is destroyed is destroyed by a call of `deallocate`. -/
theorem OutputStep.destroyed (step : OutputStep s top s' new)
    (fewer : s.log.countP Event.isDestroyed ≤ s.log.countP Event.isDeallocated) :
    s'.log.countP Event.isDestroyed ≤ s'.log.countP Event.isDeallocated := by
  cases step with
  | deallocate frame closing =>
      obtain ⟨-, -, -, log | log⟩ := deallocate_same s
      · rw [log]
        simpa [List.countP_cons] using fewer
      · rw [log]
        simpa [List.countP_cons] using Nat.le_succ_of_le fewer
  | quiet complete aborted output log relies calls =>
      rcases log with same | ⟨e, beside, more⟩
      · rwa [same]
      · have silent : e.isDestroyed = false := by
          cases e with
          | outputDestroyed => cases beside
          | _ => rfl
        rw [more, List.countP_cons_of_neg (ne_true_of_eq_false silent)]
        exact fewer.trans (List.sublist_cons_self e s.log).countP_le
  | _ => simpa [Cell.record] using fewer

/-- **Nobody is told a wrong result**, as long as no poll of the handle is in progress after the
output was moved out. -/
theorem OutputStep.told (step : OutputStep s top s' new) (told : Justified SaysTaken s.log)
    (untaken : ∀ pc, top = some (.joinPoll pc) → s.taken = 0) : Justified SaysTaken s'.log := by
  have early (pc : JoinPc) (result : Poll (Except JoinError T)) (mine : top = some (.joinPoll pc)) :
      Justified SaysTaken (.joinReturned result :: s.log) := by
    refine justified_cons.mpr ⟨?_, told⟩
    intro _ _ taken
    exact absurd (untaken pc mine) (List.countP_pos_iff.mpr (List.any_eq_true.mp taken)).ne'
  have silent {e : Event T} (other : ∀ result, e ≠ .joinReturned result) :
      Justified SaysTaken (e :: s.log) :=
    justified_cons.mpr ⟨fun result same => absurd same (other result), told⟩
  cases step with
  | ready output => exact silent nofun
  | abort => exact silent nofun
  | findsAborted cx running aborted => exact early (.load cx) _ rfl
  | pends cx prev => exact early (.storeWaker cx prev) _ rfl
  | reads seen output live written => exact early (.tryReadOutput seen) _ rfl
  | readsAborted seen aborted => exact early (.tryReadOutput seen) _ rfl
  | readsTaken seen live missing => exact early (.tryReadOutput seen) _ rfl
  | deallocate frame closing =>
      obtain ⟨-, -, -, log | log⟩ := deallocate_same s
      · rw [log]
        exact justified_cons.mpr ⟨nofun, silent nofun⟩
      · rw [log]
        exact silent nofun
  | quiet complete aborted output log relies calls =>
      rcases log with same | ⟨e, beside, more⟩
      · rwa [same]
      · rw [more]
        refine silent ?_
        rintro result rfl
        cases beside
  | store | complete | joins | listens | interest => exact told

end Steps

/-! ## Every run -/

/-- The outputs moved out and the tests passed are one at most, and no poll of the handle is in
progress once the output was moved out. -/
structure Once (s : State T) : Prop where
  few : s.shared.taken + (account s).passes ≤ 1
  destroyed : s.shared.log.countP Event.isDestroyed ≤ s.shared.log.countP Event.isDeallocated
  told : Justified SaysTaken s.shared.log
  apart : 0 < s.shared.taken → total (total Frame.joinPolls) s.threads = 0

theorem once_spawned (n : Nat) : Once (spawnedWith T n) where
  few := by
    rw [account_spawnedWith]
    exact Nat.zero_le 1
  destroyed := Nat.le_refl 0
  told := justified_nil
  apart := fun taken => absurd taken (Nat.lt_irrefl 0)

/-- The consumptions are the outputs moved out and those destroyed. -/
theorem countP_consumes (log : List (Event T)) :
    log.countP Event.consumes = log.countP Event.isTaken + log.countP Event.isDestroyed := by
  induction log with
  | nil => rfl
  | cons e earlier ih =>
      have split : (if e.consumes = true then 1 else 0) =
          (if e.isTaken = true then 1 else 0) + if e.isDestroyed = true then 1 else 0 := by
        cases e with
        | joinReturned result => rcases result with (_ | _) | _ <;> rfl
        | _ => rfl
      simp only [List.countP_cons]
      omega

theorem Once.consumedOnce {s : State T} (once : Once s) : ConsumedOnce s.shared.log := by
  refine ⟨?_, once.told⟩
  have few := once.few
  have destroyed := once.destroyed
  have deallocs : (account s).deallocs = s.shared.log.countP Event.isDeallocated := rfl
  rw [countP_consumes]
  simp only [Cell.taken, Account.passes] at few
  omega

section Runs

variable {creator : Creator} {s s' : State T} {i : Nat} {l : Label T}

/-- No poll of the handle begins or goes on after the output was moved out. -/
theorem Once.apart_step (once : Once s) (joins : joinsOnce s (i, l) = true)
    (taken : (machine creator).step s (i, l) = some s') (before : 0 < s.shared.taken) :
    total (total Frame.joinPolls) s'.threads = 0 := by
  have none := once.apart before
  replace taken : Pool.step (fun _ => move creator) s (i, l) = some s' := taken
  obtain ⟨stack, cell, after, found, moved, rfl⟩ := Pool.step_eq_some taken
  rw [total_eq_others found] at none
  rw [total_set_others after found]
  cases joinMove_of_move moved with
  | begins cx stack free same =>
      have first : s.shared.taken = 0 := by simpa [joinsOnce, joinBegun] using joins
      omega
  | operates pc rest advanced =>
      rw [total_cons, Frame.joinPolls] at none
      omega
  | beside begun top calls =>
      rw [calls]
      exact none

/-- A poll of the handle that is on top makes its next operation. -/
theorem next_of_joinPoll {pc : JoinPc} {rest : List (Frame T)}
    (found : s.threads[i]? = some (.joinPoll pc :: rest))
    (taken : (machine creator).step s (i, l) = some s') : l = .next := by
  replace taken : Pool.step (fun _ => move creator) s (i, l) = some s' := taken
  obtain ⟨stack, cell, after, here, moved, -⟩ := Pool.step_eq_some taken
  obtain rfl : stack = .joinPoll pc :: rest := Option.some.inj (here.symm.trans found)
  cases l with
  | next => rfl
  | _ => simp [move] at moved

/-- A poll of the handle that is on top has come before the output was moved out. -/
theorem Once.untaken (once : Once s) {pc : JoinPc} {rest : List (Frame T)}
    (found : s.threads[i]? = some (.joinPoll pc :: rest)) : s.shared.taken = 0 := by
  by_contra taken
  have none := once.apart (Nat.pos_of_ne_zero taken)
  rw [total_eq_others found, total_cons, Frame.joinPolls] at none
  omega

/-- **A step that meets the conditions adds to what is one at most only where it is none.** -/
theorem Once.step (inv : SoundAt s) (once : Once s) (calls : callsOnce s (i, l) = true)
    (taken : (machine creator).step s (i, l) = some s') : Once s' := by
  obtain ⟨joins, closes, reads⟩ : joinsOnce s (i, l) = true ∧ closesOnce s (i, l) = true ∧
      readsOpen s (i, l) = true := by simpa [callsOnce] using calls
  have passes := (machine_refines_account taken).passes
  have apart := once.apart_step joins taken
  have few := once.few
  obtain ⟨top, new, rest, cell, found, -, step, same⟩ := outputStep_of_taken taken
  have shared : s'.shared = cell := congrArg Pool.shared same
  rw [← shared] at step
  refine ⟨?_, step.destroyed once.destroyed, step.told once.told ?_, ?_⟩
  · rcases step.taken with kept | ⟨⟨seen, rfl⟩, -, live, more⟩
    · -- the test passes, or nothing is added
      cases passed : nextOp s (i, l) == .drop && (account s).lastReference with
      | false =>
          rw [passed] at passes
          exact kept ▸ passes ▸ few
      | true =>
          simp only [closesOnce, passed, Bool.not_true, Bool.false_or, Bool.and_eq_true,
            beq_iff_eq] at closes
          rw [passed, Bool.toNat_true] at passes
          omega
    · -- the output is moved out: the operation is a read, and no test has passed
      obtain rfl : l = .next := next_of_joinPoll found taken
      have unread : s.shared.taken = 0 := once.untaken found
      have op : joinPc s (i, .next) = some (.tryReadOutput seen) := by simp [joinPc, found]
      have other : nextOp s (i, .next) = .other := by simp [nextOp, found, opOf, Frame.op]
      have unpassed : (account s).passes = 0 := by
        simpa [readsOpen, op, live] using reads
      simp only [other, unpassed] at passes
      rw [more, unread, passes]
      rfl
  · rintro pc rfl
    exact once.untaken found
  · intro after
    rcases step.taken with kept | ⟨⟨seen, rfl⟩, rfl, -, -⟩
    · exact apart (kept ▸ after)
    · obtain ⟨-, below, elsewhere⟩ := inv.alone found
      rw [same, total_set_others _ found]
      simpa using ⟨below, elsewhere⟩

/-- **The output is consumed once at most** in every run in which the handle is not polled again
after `Ready(Ok(_))`, the test of `drop_waker` passes once and in no run in which the output is moved
out as well, and a poll of the handle reads the output of a task that is not aborted before that. -/
theorem consumed_once
    (reached : (machine creator).ReachesWhen (fun s a => callsOnce s a = true) s) :
    ConsumedOnce s.shared.log := by
  refine Once.consumedOnce (reached.invariant (I := Once) ?_ ?_)
  · rintro _ ⟨n, rfl⟩
    exact once_spawned n
  · rintro s ⟨i, l⟩ s' before once calls taken
    exact once.step (soundAt before) calls taken

end Runs

/-- The task is polled to its end, and the handle is polled once. -/
theorem consumed_once_polledThenJoined : ∃ s : State Nat,
    (machine .createTaskWithShared).ReachesWhen (fun s a => callsOnce s a = true) s ∧
      s.shared.taken = 1 ∧ ConsumedOnce s.shared.log := by
  obtain ⟨s, reached, tested⟩ := (machine .createTaskWithShared).exists_reachesWhen_of_test
    (fun s a => callsOnce s a = true) (fun s : State Nat => s.shared.taken == 1) polledThenJoined
    ⟨2, rfl⟩ (by decide)
  exact ⟨s, reached, beq_iff_eq.mp tested, consumed_once reached⟩

/-- The join handle is polled again. -/
def joinedTwice : List (Action Nat) :=
  polledThenJoined ++ [(1, .begin (.joinPoll 1)), (1, .next), (1, .next)]

/-- The second poll returns the output once more. -/
theorem output_taken_twice : ∃ s : State Nat, (machine .createTaskWithShared).Reaches s ∧
    ¬ConsumedOnce s.shared.log := by
  obtain ⟨s, reached, tested⟩ := (machine .createTaskWithShared).exists_reaches_of_test
    (fun s : State Nat => decide (1 < s.shared.log.countP Event.consumes))
    joinedTwice ⟨2, rfl⟩ (by decide)
  exact ⟨s, reached, fun once => Nat.not_lt.mpr once.1 (of_decide_eq_true tested)⟩

end LoonyRuntime.Task
