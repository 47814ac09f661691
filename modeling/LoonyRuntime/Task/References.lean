import LoonyRuntime.Task.Scheduling

/-!
# References to a task and its deallocation

The word counts one reference at the start and one for each clone. Every poll gives two back, its
own and the one of its context's waker, that nothing took; a wake by value consumes a clone and
gives none back; a queue entry and the join handle are not counted. `Account.Counted` is the exact
relation between the count and the wakers alive that results, modulo the width of the word.

The count agrees with the wakers alive when the two kinds of errors cancel
(`Account.balanced`). Under that condition on the drops that matter,

* `unreferenced_of_closing`: `deallocate` is called only when nothing refers to the task;
* `deallocated_once_of_finished`: a finished task has been deallocated exactly once.
-/

set_option autoImplicit false

namespace LoonyRuntime.Task

open TaskState Concurrent

variable {T : Type}

namespace Account

/-! ## The count and the wakers alive -/

/-- What the word counts against the wakers alive: the first reference and every clone that a
wake consumed are counted and not alive, and each poll has been given back twice. -/
def Counted (a : Account) : Prop :=
  (a.refs + a.released + a.begun) % 2 ^ 48 = (a.live + 1 + a.consumed) % 2 ^ 48

/-- The references given back without having been taken make up for those never given back. -/
def balanced (a : Account) : Bool := 1 + a.consumed == a.begun + a.released

/-- **Every operation keeps the count.** -/
theorem Counted.step {op : Op} {a a' : Account} (inv : Counted a) (step : Step op a a') :
    Counted a' := by
  unfold Counted at inv ⊢
  cases a'
  cases step with
  | run entry after =>
      cases after
      simp only [live] at inv ⊢
      omega
  | runInline entry after =>
      cases after
      simp only [live] at inv ⊢
      omega
  | clone waker after =>
      cases after
      simp only [live] at inv ⊢
      omega
  | breakOff waker user done after =>
      cases after
      simp only [live] at inv waker ⊢
      omega
  | push waker entry user after =>
      cases after
      simp only [live] at inv waker ⊢
      omega
  | inlineReturn waker call user after =>
      cases after
      simp only [live] at inv waker ⊢
      omega
  | release after =>
      cases after
      simp only [live] at inv ⊢
      omega
  | dropContext waker user after =>
      cases after
      simp only [live] at inv waker ⊢
      omega
  | dropClone waker user after =>
      cases after
      simp only [live] at inv waker ⊢
      omega
  | proceed | takeJoin => exact inv
  | schedule _ _ _ after | ready after | complete _ after | deallocatePoll _ _ after
  | deallocateDrop _ _ after | abort after | interest _ after | dropHandle after
  | quiet _ after =>
      cases after
      exact inv

/-- On balanced books the count is the number of wakers alive. -/
theorem Counted.refs_of_balanced {a : Account} (inv : Counted a) (books : balanced a = true) :
    a.refs % 2 ^ 16 = a.live % 2 ^ 16 := by
  have books : 1 + a.consumed = a.begun + a.released := eq_of_beq books
  unfold Counted at inv
  omega

/-- On balanced books, and with no more wakers than the count can tell apart, the test of
`drop_waker` on a complete task passes exactly for the last waker. -/
theorem Counted.lastReference_iff {a : Account} (inv : Counted a) (books : balanced a = true)
    (fits : a.live ≤ 2 ^ 16) (complete : Marks.isComplete a.marks = true) :
    a.lastReference = true ↔ a.live = 1 := by
  have same := inv.refs_of_balanced books
  simp only [lastReference, complete, Bool.and_true, beq_iff_eq]
  omega

/-! ## Entries of a complete task -/

/-- A complete task has no entry and none to come. -/
def Emptied (a : Account) : Prop :=
  Marks.isComplete a.marks = true → a.queue = 0 ∧ a.pending = 0

/-- The only entries left when a task completes are none. -/
def emptyAtComplete : Op → Account → Bool
  | .complete, a => a.queue == 0 && a.pending == 0
  | _, _ => true

/-- A task that has an entry is not complete. -/
theorem Emptied.not_complete {a : Account} (inv : Emptied a) (entry : 0 < a.queue + a.pending) :
    Marks.isComplete a.marks = false :=
  Bool.eq_false_of_not_eq_true fun complete => by
    obtain ⟨queue, pending⟩ := inv complete
    omega

/-- Before `COMPLETE` is set nothing is asked. -/
theorem Emptied.of_not_complete {a : Account} (notComplete : Marks.isComplete a.marks = false) :
    Emptied a := fun complete => by
  rw [notComplete] at complete
  cases complete

/-- An idle word is not complete, before and after a wake. -/
theorem not_complete_of_idle (m : BitVec 4) (idle : Marks.isIdle m = true) :
    Marks.isComplete m = false ∧ Marks.isComplete (m ||| 1) = false := by
  revert m
  decide

/-- **A task that was empty when it completed stays empty.** -/
theorem Emptied.step {op : Op} {a a' : Account} (inv : Emptied a)
    (empty : emptyAtComplete op a = true) (step : Step op a a') : Emptied a' := by
  cases a'
  cases step with
  | run entry after =>
      cases after
      exact .of_not_complete (inv.not_complete (by omega))
  | runInline entry after =>
      cases after
      exact .of_not_complete (inv.not_complete (by omega))
  | schedule user idle live after =>
      cases after
      exact .of_not_complete (not_complete_of_idle _ idle).2
  | push waker entry user after =>
      cases after
      exact .of_not_complete (inv.not_complete (by omega))
  | complete poll after =>
      cases after
      exact fun _ => by simpa [emptyAtComplete] using empty
  | abort after =>
      cases after
      obtain ⟨-, complete⟩ := lifecycle_of_flags a.marks _ (.inl rfl)
      exact fun now => inv (complete ▸ now)
  | interest marks after =>
      cases after
      obtain ⟨-, complete⟩ := lifecycle_of_flags a.marks _ (.inr marks)
      exact fun now => inv (complete ▸ now)
  | proceed | takeJoin => exact inv
  | clone _ after | breakOff _ _ _ after | inlineReturn _ _ _ after | ready after
  | release after | dropContext _ _ after | dropClone _ _ after | deallocatePoll _ _ after
  | deallocateDrop _ _ after | dropHandle after | quiet _ after =>
      cases after
      exact inv

/-! ## Nothing refers to a task that is deallocated -/

/-- The books are balanced whenever the test of `drop_waker` passes, the join handle is dropped
by then, and no entry is left when the task completes. -/
def tiedToReferences : Op → Account → Bool
  | .drop, a => !a.lastReference || (balanced a && decide (a.live ≤ 2 ^ 16) && a.dropped)
  | op, a => emptyAtComplete op a

/-- Nothing refers to the task, and its deallocation is made for the first time. -/
structure Unreferenced (a : Account) : Prop where
  wakers : a.live = 0
  polls : a.inProgress = a.closingPolls
  queue : a.queue = 0
  handle : a.dropped = true
  once : a.closing = 1
  first : a.deallocs = 0

/-- A task is closed once, when it is complete and no waker is alive. -/
structure Tied (a : Account) : Prop where
  counted : Counted a
  emptied : Emptied a
  closed : 0 < a.closing + a.deallocs →
    Marks.isComplete a.marks = true ∧ a.live = 0 ∧ a.dropped = true ∧ a.closing + a.deallocs = 1

/-- While a waker is alive, or before the task is complete, no call of `deallocate` is made or being
made. -/
theorem Tied.not_closed {a : Account} (inv : Tied a)
    (alive : 0 < a.live ∨ Marks.isComplete a.marks = false) : a.closing + a.deallocs = 0 := by
  by_contra nonzero
  obtain ⟨complete, none, -⟩ := inv.closed (Nat.pos_of_ne_zero nonzero)
  rcases alive with alive | notComplete
  · omega
  · rw [complete] at notComplete
    cases notComplete

/-- A drop that passes the test is the drop of the last waker. -/
theorem Tied.last {a : Account} (inv : Tied a) (tied : tiedToReferences .drop a = true)
    (last : a.lastReference = true) :
    Marks.isComplete a.marks = true ∧ a.live = 1 ∧ a.dropped = true := by
  have complete : Marks.isComplete a.marks = true := (Bool.and_eq_true_iff.mp last).2
  simp only [tiedToReferences, last, Bool.not_true, Bool.false_or, Bool.and_eq_true,
    decide_eq_true_eq] at tied
  obtain ⟨⟨books, fits⟩, dropped⟩ := tied
  exact ⟨complete, (inv.counted.lastReference_iff books fits complete).mp last, dropped⟩

/-- The condition includes the one on the entries left at `COMPLETE`. -/
theorem emptyAtComplete_of_tied {op : Op} {a : Account} (tied : tiedToReferences op a = true) :
    emptyAtComplete op a = true := by
  cases op
  case drop => rfl
  all_goals exact tied

/-- A drop closes the task when it is the drop of the last waker. -/
theorem Tied.closed_of_drop {a a' : Account} (inv : Tied a)
    (tied : tiedToReferences .drop a = true) (waker : a.live = a'.live + 1)
    (marks : a'.marks = a.marks) (dropped : a'.dropped = a.dropped)
    (calls : a'.closing + a'.deallocs = a.closing + a.deallocs + a.lastReference.toNat)
    (closed : 0 < a'.closing + a'.deallocs) :
    Marks.isComplete a'.marks = true ∧ a'.live = 0 ∧ a'.dropped = true ∧
      a'.closing + a'.deallocs = 1 := by
  have opened := inv.not_closed (.inl (by omega))
  cases last : a.lastReference with
  | false =>
      rw [last, Bool.toNat_false] at calls
      omega
  | true =>
      obtain ⟨complete, one, handle⟩ := inv.last tied last
      rw [last, Bool.toNat_true] at calls
      exact ⟨marks ▸ complete, by omega, dropped ▸ handle, by omega⟩

/-- A closed task stays closed when its wakers become no more. -/
theorem Tied.closed_of_fewer {a a' : Account} (inv : Tied a)
    (marks : Marks.isComplete a'.marks = Marks.isComplete a.marks) (fewer : a'.live ≤ a.live)
    (dropped : a.dropped = true → a'.dropped = true)
    (calls : a'.closing + a'.deallocs = a.closing + a.deallocs)
    (closed : 0 < a'.closing + a'.deallocs) :
    Marks.isComplete a'.marks = true ∧ a'.live = 0 ∧ a'.dropped = true ∧
      a'.closing + a'.deallocs = 1 := by
  rw [calls] at closed ⊢
  obtain ⟨complete, none, handle, once⟩ := inv.closed closed
  exact ⟨marks.trans complete, by omega, dropped handle, once⟩

/-- **A task whose drops are tied to its references is closed once at most.** -/
theorem Tied.step {op : Op} {a a' : Account} (inv : Tied a)
    (tied : tiedToReferences op a = true) (step : Step op a a') : Tied a' := by
  have counted := inv.counted.step step
  have emptied := inv.emptied.step (emptyAtComplete_of_tied tied) step
  refine ⟨counted, emptied, ?_⟩
  cases a'
  cases step with
  | run entry after =>
      cases after
      have opened := inv.not_closed (.inr (inv.emptied.not_complete (by omega)))
      intro closed
      exact absurd opened (Nat.ne_of_gt closed)
  | runInline entry after =>
      cases after
      have opened := inv.not_closed (.inr (inv.emptied.not_complete (by omega)))
      intro closed
      exact absurd opened (Nat.ne_of_gt closed)
  | clone waker after =>
      cases after
      have opened := inv.not_closed (.inl waker)
      intro closed
      exact absurd opened (Nat.ne_of_gt closed)
  | schedule user idle live after =>
      cases after
      have opened := inv.not_closed (.inr (not_complete_of_idle _ idle).1)
      intro closed
      exact absurd opened (Nat.ne_of_gt closed)
  | complete poll after =>
      cases after
      have opened := inv.not_closed (.inl (by simp only [live]; omega))
      intro closed
      exact absurd opened (Nat.ne_of_gt closed)
  | breakOff waker user done after =>
      cases after
      exact inv.closed_of_fewer rfl (by simp only [live] at waker ⊢; omega) id rfl
  | push waker entry user after =>
      cases after
      exact inv.closed_of_fewer rfl (by simp only [live] at waker ⊢; omega) id rfl
  | inlineReturn waker call user after =>
      cases after
      exact inv.closed_of_fewer rfl (by simp only [live] at waker ⊢; omega) id rfl
  | dropContext waker user after =>
      cases after
      exact inv.closed_of_drop tied (by simp only [live] at waker ⊢; omega) rfl rfl
        (by simp only [closing]; omega)
  | dropClone waker user after =>
      cases after
      exact inv.closed_of_drop tied (by simp only [live] at waker ⊢; omega) rfl rfl
        (by simp only [closing]; omega)
  | deallocatePoll call user after =>
      cases after
      exact inv.closed_of_fewer rfl (Nat.le_refl _) id (by simp only [closing] at call ⊢; omega)
  | deallocateDrop call user after =>
      cases after
      exact inv.closed_of_fewer rfl (Nat.le_refl _) id (by simp only [closing] at call ⊢; omega)
  | abort after =>
      cases after
      obtain ⟨-, same⟩ := lifecycle_of_flags a.marks _ (.inl rfl)
      exact inv.closed_of_fewer same (Nat.le_refl _) id rfl
  | interest marks after =>
      cases after
      obtain ⟨-, same⟩ := lifecycle_of_flags a.marks _ (.inr marks)
      exact inv.closed_of_fewer same (Nat.le_refl _) id rfl
  | dropHandle after =>
      cases after
      exact inv.closed_of_fewer rfl (Nat.le_refl _) (fun _ => rfl) rfl
  | proceed | takeJoin => exact inv.closed
  | ready after | release after | quiet _ after =>
      cases after
      exact inv.closed

/-- In such a run nothing refers to the task when `deallocate` is called. -/
theorem Tied.unreferenced {a : Account} (inv : Tied a) (closing : 0 < a.closing) :
    Unreferenced a := by
  obtain ⟨complete, none, dropped, once⟩ := inv.closed (by omega)
  refine ⟨none, ?_, (inv.emptied complete).1, dropped, by omega, by omega⟩
  simp only [inProgress, live] at none ⊢
  omega

/-! ## A finished task has been deallocated -/

/-- The books are balanced whenever a waker of a complete task is dropped that is the last one or
that passes the test, no wake by value consumes the last waker of a complete task, and no entry
is left when the task completes. -/
def givenBack : Op → Account → Bool
  | .drop, a => !Marks.isComplete a.marks || !(a.lastReference || a.live == 1) ||
      (balanced a && decide (a.live ≤ 2 ^ 16))
  | .breakOff owned, a => !Marks.isComplete a.marks || owned == 0 || decide (owned < a.live)
  | .inlineReturn owned, a => !Marks.isComplete a.marks || owned == 0 || decide (owned < a.live)
  | op, a => emptyAtComplete op a

/-- The task is complete and nothing refers to it. -/
structure Finished (a : Account) : Prop where
  complete : Marks.isComplete a.marks = true
  polls : a.inProgress = 0
  queue : a.queue = 0
  handle : a.dropped = true
  wakers : a.live = 0
  drops : a.closingDrops = 0

/-- A task is closed, once, from the moment on when it is complete and no waker is alive. -/
structure Reclaimed (a : Account) : Prop where
  counted : Counted a
  emptied : Emptied a
  opened : Marks.isComplete a.marks = false ∨ 0 < a.live → a.closing + a.deallocs = 0
  closed : Marks.isComplete a.marks = true → a.live = 0 → a.closing + a.deallocs = 1

/-- The condition includes the one on the entries left at `COMPLETE`. -/
theorem emptyAtComplete_of_givenBack {op : Op} {a : Account} (back : givenBack op a = true) :
    emptyAtComplete op a = true := by
  cases op
  case drop | breakOff | inlineReturn => rfl
  all_goals exact back

/-- An operation that keeps the lifecycle, the wakers alive and the calls of `deallocate`. -/
theorem Reclaimed.of_same {a a' : Account} (inv : Reclaimed a) (counted : Counted a')
    (emptied : Emptied a') (complete : Marks.isComplete a'.marks = Marks.isComplete a.marks)
    (wakers : a'.live = a.live) (calls : a'.closing + a'.deallocs = a.closing + a.deallocs) :
    Reclaimed a' where
  counted := counted
  emptied := emptied
  opened := by
    rw [complete, wakers, calls]
    exact inv.opened
  closed := by
    rw [complete, wakers, calls]
    exact inv.closed

/-- An operation that needs an open task and leaves it open. -/
theorem Reclaimed.of_open {a a' : Account} (inv : Reclaimed a) (counted : Counted a')
    (emptied : Emptied a') (before : Marks.isComplete a.marks = false ∨ 0 < a.live)
    (after : Marks.isComplete a'.marks = false ∨ 0 < a'.live)
    (calls : a'.closing + a'.deallocs = a.closing + a.deallocs) : Reclaimed a' where
  counted := counted
  emptied := emptied
  opened := fun _ => calls.trans (inv.opened before)
  closed := fun complete none => by
    rcases after with notComplete | alive
    · rw [complete] at notComplete
      cases notComplete
    · omega

/-- A wake by value that does not consume the last waker of a complete task leaves it open. -/
theorem Reclaimed.of_consumed {a a' : Account} {owned : Nat} (inv : Reclaimed a)
    (counted : Counted a') (emptied : Emptied a')
    (back : (!Marks.isComplete a.marks || owned == 0 || decide (owned < a.live)) = true)
    (waker : a.live = a'.live + owned) (marks : a'.marks = a.marks)
    (calls : a'.closing + a'.deallocs = a.closing + a.deallocs) : Reclaimed a' := by
  simp only [Bool.or_eq_true, Bool.not_eq_true', beq_iff_eq, decide_eq_true_eq] at back
  rcases back with (notComplete | none) | notLast
  · exact inv.of_open counted emptied (.inl notComplete) (.inl (marks ▸ notComplete)) calls
  · exact inv.of_same counted emptied (by rw [marks]) (by omega) calls
  · exact inv.of_open counted emptied (.inr (by omega)) (.inr (by omega)) calls

/-- A drop closes a complete task exactly when it is the drop of the last waker. -/
theorem Reclaimed.of_drop {a a' : Account} (inv : Reclaimed a) (counted : Counted a')
    (emptied : Emptied a') (back : givenBack .drop a = true) (waker : a.live = a'.live + 1)
    (marks : a'.marks = a.marks)
    (calls : a'.closing + a'.deallocs = a.closing + a.deallocs + a.lastReference.toNat) :
    Reclaimed a' := by
  have opened := inv.opened (.inr (by omega))
  cases complete : Marks.isComplete a.marks with
  | false =>
      have notLast : a.lastReference = false := by simp [lastReference, complete]
      rw [notLast, Bool.toNat_false] at calls
      refine inv.of_open counted emptied (.inl complete) (.inl (marks ▸ complete)) calls
  | true =>
      have decided : a.lastReference = true ↔ a.live = 1 := by
        simp only [givenBack, complete, Bool.not_true, Bool.false_or, Bool.or_eq_true,
          Bool.not_eq_true', Bool.or_eq_false_iff, Bool.and_eq_true, decide_eq_true_eq] at back
        rcases back with ⟨notLast, notOne⟩ | ⟨books, fits⟩
        · simp only [notLast, Bool.false_eq_true, false_iff]
          exact ne_of_beq_false notOne
        · exact inv.counted.lastReference_iff books fits complete
      refine ⟨counted, emptied, fun still => ?_, fun _ none => ?_⟩
      · rcases still with notComplete | alive
        · rw [marks, complete] at notComplete
          cases notComplete
        · have notLast : a.lastReference = false :=
            Bool.eq_false_of_not_eq_true fun last => by
              have one := decided.mp last
              omega
          rw [notLast, Bool.toNat_false] at calls
          omega
      · have last : a.lastReference = true := decided.mpr (by omega)
        rw [last, Bool.toNat_true] at calls
        omega

/-- **A task whose references are given back is closed when its last waker goes.** -/
theorem Reclaimed.step {op : Op} {a a' : Account} (inv : Reclaimed a)
    (back : givenBack op a = true) (step : Step op a a') : Reclaimed a' := by
  have counted := inv.counted.step step
  have emptied := inv.emptied.step (emptyAtComplete_of_givenBack back) step
  cases a'
  cases step with
  | run entry after =>
      cases after
      have notComplete := inv.emptied.not_complete (by omega)
      exact inv.of_open counted emptied (.inl notComplete) (.inl notComplete) rfl
  | runInline entry after =>
      cases after
      have notComplete := inv.emptied.not_complete (by omega)
      exact inv.of_open counted emptied (.inl notComplete) (.inl notComplete) rfl
  | clone waker after =>
      cases after
      exact inv.of_open counted emptied (.inr waker) (.inr (by simp only [live]; omega)) rfl
  | schedule user idle live after =>
      cases after
      obtain ⟨before, now⟩ := not_complete_of_idle _ idle
      exact inv.of_open counted emptied (.inl before) (.inl now) rfl
  | push waker entry user after =>
      cases after
      have notComplete := inv.emptied.not_complete (by omega)
      exact inv.of_open counted emptied (.inl notComplete) (.inl notComplete) rfl
  | complete poll after =>
      cases after
      have alive : 0 < a.live := by
        simp only [live]
        omega
      exact inv.of_open counted emptied (.inr alive) (.inr alive) rfl
  | breakOff waker user done after =>
      cases after
      exact inv.of_consumed counted emptied back
        (by simp only [live] at waker ⊢; omega) rfl rfl
  | inlineReturn waker call user after =>
      cases after
      exact inv.of_consumed counted emptied back
        (by simp only [live] at waker ⊢; omega) rfl rfl
  | dropContext waker user after =>
      cases after
      exact inv.of_drop counted emptied back (by simp only [live] at waker ⊢; omega) rfl
        (by simp only [closing]; omega)
  | dropClone waker user after =>
      cases after
      exact inv.of_drop counted emptied back (by simp only [live] at waker ⊢; omega) rfl
        (by simp only [closing]; omega)
  | deallocatePoll call user after =>
      cases after
      exact inv.of_same counted emptied rfl rfl (by simp only [closing] at call ⊢; omega)
  | deallocateDrop call user after =>
      cases after
      exact inv.of_same counted emptied rfl rfl (by simp only [closing] at call ⊢; omega)
  | abort after =>
      cases after
      obtain ⟨-, complete⟩ := lifecycle_of_flags a.marks _ (.inl rfl)
      exact inv.of_same counted emptied complete rfl rfl
  | interest marks after =>
      cases after
      obtain ⟨-, complete⟩ := lifecycle_of_flags a.marks _ (.inr marks)
      exact inv.of_same counted emptied complete rfl rfl
  | proceed | takeJoin => exact inv
  | ready after | release after | dropHandle after | quiet _ after =>
      cases after
      exact inv.of_same counted emptied rfl rfl rfl

/-- In such a run a finished task has been deallocated exactly once. -/
theorem Reclaimed.deallocs_eq_one {a : Account} (inv : Reclaimed a) (finished : Finished a) :
    a.deallocs = 1 := by
  have closed := inv.closed finished.complete finished.wakers
  have polls := finished.polls
  have drops := finished.drops
  simp only [closing, inProgress] at closed polls
  omega

end Account

/-! ## The runs of the machine -/

open Account

/-- The count of the word against the wakers alive, in every reached state. -/
theorem counted {creator : Creator} {ok : State T → Action T → Prop} {s : State T}
    (reached : (machine creator).ReachesWhen ok s) : Counted (account s) :=
  account_invariant (I := Counted) (fun _ _ => True) (fun _ _ _ _ _ => trivial) rfl
    (fun _ _ _ inv _ step => inv.step step) reached

/-- **Nothing refers to a task whose deallocation is called**, when every drop that passes the
test finds balanced books and the join handle dropped, and no entry is left at `COMPLETE`. -/
theorem unreferenced_of_closing {creator : Creator} {s : State T}
    (reached : (machine creator).ReachesWhen (When tiedToReferences) s)
    (closing : 0 < (account s).closing) : Unreferenced (account s) := by
  refine Tied.unreferenced ?_ closing
  refine account_invariant (fun op a => tiedToReferences op a = true)
    (fun _ _ _ meets _ => meets) ⟨rfl, fun complete => ?_, fun closed => ?_⟩
    (fun _ _ _ inv tied step => inv.step tied step) reached
  · cases complete
  · cases closed

/-- **A finished task has been deallocated exactly once**, when the books are balanced at the
drops that decide it, no wake by value consumes the last waker of a complete task, and no entry
is left at `COMPLETE`. -/
theorem deallocated_once_of_finished {creator : Creator} {s : State T}
    (reached : (machine creator).ReachesWhen (When givenBack) s)
    (finished : Finished (account s)) : (account s).deallocs = 1 := by
  refine Reclaimed.deallocs_eq_one ?_ finished
  refine account_invariant (fun op a => givenBack op a = true)
    (fun _ _ _ meets _ => meets)
    ⟨rfl, fun complete => ?_, fun _ => rfl, fun complete _ => ?_⟩
    (fun _ _ _ inv back step => inv.step back step) reached
  · cases complete
  · cases complete

/-- The future clones its waker and is ready, the join handle is dropped, and a wake by value
consumes the clone before the poll drops its context. -/
def cloneConsumed : List (Action Unit) :=
  [(0, .begin .run), (0, .begin (.clone true)), (1, .begin .dropHandle), (1, .next),
   (0, .ready ()), (0, .next), (0, .next), (0, .next),
   (1, .begin (.wake .raw .byValue)), (1, .next), (0, .next)]

/-- In such a run the drop of the context calls `deallocate`. -/
theorem unreferenced_cloneConsumed : ∃ s : State Unit,
    (machine .createTask).ReachesWhen (When tiedToReferences) s ∧ 0 < (account s).closing ∧
      Unreferenced (account s) := by
  obtain ⟨s, reached, closing⟩ := (machine .createTask).exists_reachesWhen_of_test
    (When tiedToReferences) (fun s => decide (0 < (account s).closing)) cloneConsumed
    ⟨2, rfl⟩ (by decide)
  have closing := of_decide_eq_true closing
  exact ⟨s, reached, closing, unreferenced_of_closing reached closing⟩

instance (a : Account) : Decidable (Finished a) :=
  decidable_of_iff (Marks.isComplete a.marks = true ∧ a.inProgress = 0 ∧ a.queue = 0 ∧
      a.dropped = true ∧ a.live = 0 ∧ a.closingDrops = 0)
    ⟨fun ⟨complete, polls, queue, handle, wakers, drops⟩ =>
        ⟨complete, polls, queue, handle, wakers, drops⟩,
      fun finished => ⟨finished.complete, finished.polls, finished.queue, finished.handle,
        finished.wakers, finished.drops⟩⟩

/-- In such a run the task is finished after that call. -/
theorem deallocated_once_cloneConsumed : ∃ s : State Unit,
    (machine .createTask).ReachesWhen (When givenBack) s ∧ Finished (account s) ∧
      (account s).deallocs = 1 := by
  obtain ⟨s, reached, finished⟩ := (machine .createTask).exists_reachesWhen_of_test
    (When givenBack) (fun s => decide (Finished (account s))) (cloneConsumed ++ [(0, .next)])
    ⟨2, rfl⟩ (by decide)
  have finished := of_decide_eq_true finished
  exact ⟨s, reached, finished, deallocated_once_of_finished reached finished⟩

/-- The future clones its waker twice and is ready, and one of the clones is dropped. -/
def clonesDropped : List (Action Unit) :=
  [(0, .begin .run), (0, .begin (.clone true)), (0, .begin (.clone true)),
   (1, .begin .dropHandle), (1, .next), (0, .ready ()), (0, .next), (0, .next), (0, .next),
   (0, .next), (0, .begin .dropWaker), (0, .next)]

/-- `deallocate` is called while the other clone is alive. -/
theorem closing_while_referenced : ∃ s : State Unit,
    (machine .createTask).Reaches s ∧ 0 < (account s).closing ∧ (account s).live = 1 ∧
      ¬Unreferenced (account s) := by
  obtain ⟨s, reached, tested⟩ := (machine .createTask).exists_reaches_of_test
    (fun s => decide (0 < (account s).closing) && (account s).live == 1) clonesDropped
    ⟨2, rfl⟩ (by decide)
  obtain ⟨closing, live⟩ := Bool.and_eq_true_iff.mp tested
  have live := eq_of_beq live
  refine ⟨s, reached, of_decide_eq_true closing, live, ?_⟩
  intro unreferenced
  have none := unreferenced.wakers
  omega

/-- The future is ready at its first poll, and the join handle is dropped. -/
def readyAtOnce : List (Action Unit) :=
  [(0, .begin .dropHandle), (0, .next), (0, .begin .run), (0, .ready ()), (0, .next), (0, .next),
   (0, .next), (0, .next)]

/-- The task is finished and is never deallocated. -/
theorem finished_not_deallocated : ∃ s : State Unit,
    (machine .createTask).Reaches s ∧ Finished (account s) ∧ (account s).deallocs = 0 := by
  obtain ⟨s, reached, tested⟩ := (machine .createTask).exists_reaches_of_test
    (fun s => decide (Finished (account s)) && (account s).deallocs == 0) readyAtOnce
    ⟨1, rfl⟩ (by decide)
  obtain ⟨finished, never⟩ := Bool.and_eq_true_iff.mp tested
  exact ⟨s, reached, of_decide_eq_true finished, eq_of_beq never⟩

end LoonyRuntime.Task
