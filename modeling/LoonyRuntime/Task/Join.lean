import LoonyRuntime.Task.Account
import LoonyRuntime.Task.Placement

/-!
# The joiner of a task

`JoinHandle::poll` sets `JOIN_INTEREST` and stores its waker in two operations, and the completing
poll sets `COMPLETE` and takes the waker in two. `Served` says where the wake of a joiner that
returned `Pending` stands: the waker is in the slot, and a completing poll is about to take it, or
someone has taken it and is about to wake it.

The slot may be taken after the interest is set and before the waker is stored, and an output that
is wider than its cell is written over the waker. A joiner that returns `Pending` is woken in every
run where neither happens (`joiner_woken_of_storesInTime`).
-/

set_option autoImplicit false

namespace LoonyRuntime.Task

open TaskState Concurrent

variable {T : Type}

/-! ## The latest poll of the join handle -/

/-- A poll of the join handle: the waker it was given, its result once it has returned, and
whether that waker was woken since. -/
structure JoinPoll (T : Type) where
  cx : Nat
  result : Option (Poll (Except JoinError T))
  woken : Bool
deriving DecidableEq

/-- The latest poll of the join handle in a log. -/
@[simp] def latestJoinPoll : List (Event T) → Option (JoinPoll T)
  | [] => none
  | .joinGiven cx :: _ => some ⟨cx, none, false⟩
  | .joinReturned result :: earlier =>
      (latestJoinPoll earlier).map fun p => { p with result := some result }
  | .joinWoken waker :: earlier =>
      (latestJoinPoll earlier).map fun p => { p with woken := p.woken || p.cx == waker }
  | _ :: earlier => latestJoinPoll earlier

namespace Frame

/-- A call of the join handle's owner. -/
@[simp] def handleCalls : Frame T → Nat
  | .joinPoll _ => 1
  | .abort _ => 1
  | .dropHandle _ => 1
  | _ => 0

/-- A drop of the join handle. -/
@[simp] def dropping : Frame T → Nat
  | .dropHandle _ => 1
  | _ => 0

/-- A poll of the join handle with the waker `cx`. -/
@[simp] def polling (cx : Nat) : Frame T → Nat
  | .joinPoll (.load given) => if given = cx then 1 else 0
  | .joinPoll (.setInterest given) => if given = cx then 1 else 0
  | .joinPoll (.storeWaker given _) => if given = cx then 1 else 0
  | _ => 0

/-- A poll of the join handle that is to store the waker `cx` and return `Pending`. -/
@[simp] def storing (cx : Nat) : Frame T → Nat
  | .joinPoll (.storeWaker given prev) =>
      if given = cx ∧ prev &&& complete.bits = 0 then 1 else 0
  | _ => 0

/-- A completing poll that is to take the join waker. -/
@[simp] def taking : Frame T → Nat
  | .poll .takeJoinWaker => 1
  | _ => 0

/-- A call that has taken the waker and is to wake it. -/
@[simp] def waking (waker : Nat) : Frame T → Nat
  | .poll (.wakeJoin taken) => if taken = waker then 1 else 0
  | .abort (.wakeJoin taken) => if taken = waker then 1 else 0
  | _ => 0

/-- A call of the owner is a poll with one waker at most. -/
theorem storing_le_handleCalls (cx : Nat) (f : Frame T) : f.storing cx ≤ f.handleCalls := by
  cases f with
  | joinPoll pc =>
      cases pc <;> simp only [storing, handleCalls] <;> first | omega | (split <;> omega)
  | _ => exact Nat.zero_le _

theorem polling_le_handleCalls (cx : Nat) (f : Frame T) : f.polling cx ≤ f.handleCalls := by
  cases f with
  | joinPoll pc =>
      cases pc <;> simp only [polling, handleCalls] <;> first | omega | (split <;> omega)
  | _ => exact Nat.zero_le _

end Frame

/-- The mask test of the joiner fails on an idle word only. -/
theorem isIdle_of_lifecycle_zero (word : Usize) (zero : word &&& complete.bits = 0) :
    Marks.isIdle (marks word) = true := by
  have test := completeMask_marks word
  rw [zero, bne_self_eq_false] at test
  simpa using test.symm

/-! ## Where the wake of a joiner stands -/

/-- The join handle, its waker slot and the calls on them, with a way to sum over the calls. -/
structure Served (s : Cell T) (sum : (Frame T → Nat) → Nat) : Prop where
  /-- The owner is inside one call at most. -/
  single : sum Frame.handleCalls = if s.handle = .busy then 1 else 0
  /-- A poll of the handle in progress is the latest one. -/
  given : ∀ cx, 0 < sum (Frame.polling cx) →
    ∃ woken, latestJoinPoll s.log = some ⟨cx, none, woken⟩
  /-- The interest is set before the waker is stored. -/
  interest : ∀ cx, 0 < sum (Frame.storing cx) → Marks.hasJoinInterest (marks s.state) = true
  /-- A completion that did not see the waker is followed by a take that will. -/
  completed : ∀ cx woken, latestJoinPoll s.log = some ⟨cx, none, woken⟩ →
    0 < sum (Frame.storing cx) → Marks.isComplete (marks s.state) = true →
    woken = true ∨ 0 < sum Frame.taking ∨ 0 < sum (Frame.waking cx)
  /-- A joiner asleep is about to be woken, or its waker is in the slot and a completion will
  take it. -/
  asleep : ∀ cx, latestJoinPoll s.log = some ⟨cx, some .pending, false⟩ →
    s.handle ≠ .dropped → sum Frame.dropping = 0 →
    0 < sum (Frame.waking cx) ∨
      s.joinWaker = some cx ∧ Marks.hasJoinInterest (marks s.state) = true ∧
        (Marks.isComplete (marks s.state) = true → 0 < sum Frame.taking)

/-- The take of the join waker does not come between the interest and the waker of a joiner. -/
def storesInTime (s : State T) (a : Action T) : Bool :=
  match latestJoinPoll s.shared.log with
  | none => true
  | some p => nextOp s a != .takeJoin || total (total (Frame.storing p.cx)) s.threads == 0 ||
      s.shared.joinWaker == some p.cx || p.woken

/-- An operation beside the join handle leaves its wake where it stands. -/
theorem Served.of_same {s s' : Cell T} {sum sum' : (Frame T → Nat) → Nat} (inv : Served s sum)
    (handle : s'.handle = s.handle) (slot : s'.joinWaker = s.joinWaker)
    (latest : latestJoinPoll s'.log = latestJoinPoll s.log)
    (interest : Marks.hasJoinInterest (marks s'.state) = Marks.hasJoinInterest (marks s.state))
    (complete : Marks.isComplete (marks s'.state) = Marks.isComplete (marks s.state))
    (calls : sum' Frame.handleCalls = sum Frame.handleCalls)
    (drops : sum' Frame.dropping = sum Frame.dropping)
    (takes : sum' Frame.taking = sum Frame.taking)
    (polls : ∀ cx, sum' (Frame.polling cx) ≤ sum (Frame.polling cx))
    (stores : ∀ cx, sum' (Frame.storing cx) ≤ sum (Frame.storing cx))
    (wakes : ∀ cx, sum' (Frame.waking cx) = sum (Frame.waking cx)) : Served s' sum' where
  single := by
    rw [calls, handle]
    exact inv.single
  given := by
    intro cx polling
    rw [latest]
    exact inv.given cx (Nat.lt_of_lt_of_le polling (polls cx))
  interest := by
    intro cx storing
    rw [interest]
    exact inv.interest cx (Nat.lt_of_lt_of_le storing (stores cx))
  completed := by
    intro cx woken
    rw [latest, complete, takes, wakes]
    exact fun given storing => inv.completed cx woken given
      (Nat.lt_of_lt_of_le storing (stores cx))
  asleep := by
    intro cx
    rw [latest, handle, drops, wakes, slot, interest, complete, takes]
    exact inv.asleep cx

/-- While the owner is inside a call no other call of it is in progress. -/
theorem Served.alone {s : Cell T} {frame : Frame T} {R : (Frame T → Nat) → Nat}
    (inv : Served s fun f => f frame + R f) (call : frame.handleCalls = 1) :
    s.handle = .busy ∧ R Frame.handleCalls = 0 := by
  have single := inv.single
  split at single
  · next busy => exact ⟨busy, by omega⟩
  · omega

section Calls

variable {s s' : Cell T} {frames : List (Frame T)} {R : (Frame T → Nat) → Nat}

/-- The take of the join waker, by a completing poll or by `abort_task`. The waker that was in
the slot is about to be woken. -/
theorem Served.taken {frame after : Frame T} {waker : Nat}
    (inv : Served s fun f => f frame + R f) (slot : s.joinWaker = some waker)
    (calls : after.handleCalls = frame.handleCalls) (drops : after.dropping = frame.dropping)
    (polls : ∀ cx, frame.polling cx = 0 ∧ after.polling cx = 0)
    (stores : ∀ cx, frame.storing cx = 0 ∧ after.storing cx = 0)
    (wakes : ∀ cx, frame.waking cx = 0) (wakes' : 0 < after.waking waker)
    (inTime : ∀ cx woken, latestJoinPoll s.log = some ⟨cx, none, woken⟩ →
      0 < R (Frame.storing cx) → s.joinWaker = some cx ∨ woken = true) :
    Served { s with joinWaker := none } fun f => total f [after] + R f where
  single := by
    simp only [total_singleton, calls]
    exact inv.single
  given := by
    intro cx polling
    simp only [total_singleton, polls, Nat.zero_add] at polling
    exact inv.given cx (by omega)
  interest := by
    intro cx storing
    simp only [total_singleton, stores, Nat.zero_add] at storing
    exact inv.interest cx (by omega)
  completed := by
    intro cx woken latest storing complete
    simp only [total_singleton, stores, Nat.zero_add] at storing
    rcases inTime cx woken latest storing with same | already
    · obtain rfl : waker = cx := by
        rw [slot] at same
        exact Option.some.inj same
      refine .inr (.inr ?_)
      simp only [total_singleton]
      omega
    · exact .inl already
  asleep := by
    intro cx latest handle dropping
    simp only [total_singleton, drops] at dropping
    refine .inl ?_
    simp only [total_singleton]
    rcases inv.asleep cx latest handle dropping with waking | ⟨stored, -, -⟩
    · simp only [wakes, Nat.zero_add] at waking
      omega
    · obtain rfl : waker = cx := by
        rw [slot] at stored
        exact Option.some.inj stored
      omega

/-- The wake of the join waker that was taken. -/
theorem Served.wakes {frame : Frame T} {waker : Nat} {cell : Cell T}
    (inv : Served cell fun f => f frame + R f) (log : s.log = .joinWoken waker :: cell.log)
    (state : s.state = cell.state) (slot : s.joinWaker = cell.joinWaker)
    (single : total Frame.handleCalls frames + R Frame.handleCalls =
      if s.handle = .busy then 1 else 0)
    (handle : s.handle ≠ .dropped → cell.handle ≠ .dropped)
    (drops : frame.dropping = 0) (polls : ∀ cx, total (Frame.polling cx) frames = 0)
    (stores : ∀ cx, total (Frame.storing cx) frames = 0) (takes : frame.taking = 0)
    (wakes : ∀ cx, frame.waking cx = if waker = cx then 1 else 0) :
    Served s fun f => total f frames + R f where
  single := single
  given := by
    intro cx polling
    rw [polls, Nat.zero_add] at polling
    obtain ⟨woken, latest⟩ := inv.given cx (by omega)
    exact ⟨woken || cx == waker, by simp [log, latest]⟩
  interest := by
    intro cx storing
    rw [stores, Nat.zero_add] at storing
    rw [state]
    exact inv.interest cx (by omega)
  completed := by
    intro cx woken latest storing complete
    rw [stores, Nat.zero_add] at storing
    rw [state] at complete
    obtain ⟨⟨cx', result', woken'⟩, before, same⟩ : ∃ p, latestJoinPoll cell.log = some p ∧
        ({ p with woken := p.woken || p.cx == waker } : JoinPoll T) = ⟨cx, none, woken⟩ := by
      simpa [log] using latest
    simp only [JoinPoll.mk.injEq] at same
    obtain ⟨rfl, rfl, rfl⟩ := same
    by_cases mine : cx' = waker
    · exact .inl (by simp [mine])
    · rcases inv.completed cx' woken' before (by omega) complete with already | taking | waking
      · exact .inl (by simp [already])
      · exact .inr (.inl (by simp only [takes] at taking; omega))
      · refine .inr (.inr ?_)
        simp only [wakes, if_neg (Ne.symm mine)] at waking
        omega
  asleep := by
    intro cx latest undropped dropping
    obtain ⟨⟨cx', result', woken'⟩, before, same⟩ : ∃ p, latestJoinPoll cell.log = some p ∧
        ({ p with woken := p.woken || p.cx == waker } : JoinPoll T) =
          ⟨cx, some .pending, false⟩ := by
      simpa [log] using latest
    simp only [JoinPoll.mk.injEq, Bool.or_eq_false_iff] at same
    obtain ⟨rfl, rfl, rfl, other⟩ := same
    have other := ne_of_beq_false other
    rw [slot, state]
    rcases inv.asleep cx' before (handle undropped) (by omega) with waking | ⟨stored, flag, take⟩
    · refine .inl ?_
      simp only [wakes, if_neg (Ne.symm other)] at waking
      omega
    · refine .inr ⟨stored, flag, ?_⟩
      intro complete
      have taking := take complete
      simp only [takes] at taking
      omega

/-- `COMPLETE` is set by a poll that goes on to take the join waker if there is interest in it. -/
theorem Served.completes (inv : Served s fun f => f (.poll .setComplete) + R f)
    (moved : advancePoll s .setComplete = some (s', frames)) :
    Served s' fun f => total f frames + R f := by
  have flags : ∀ m : BitVec 4, Marks.hasJoinInterest (m ||| 3) = Marks.hasJoinInterest m := by
    decide
  have test : (s.state &&& joinInterest.bits != 0) = Marks.hasJoinInterest (marks s.state) :=
    hasJoinInterest_marks s.state
  simp only [advancePoll, test] at moved
  cases moved
  refine ⟨?_, fun cx polling => ?_, fun cx storing => ?_, fun cx woken latest storing _ => ?_,
    fun cx latest undropped dropping => ?_⟩
  · have single := inv.single
    split <;> simpa using single
  · apply inv.given cx
    revert polling
    split <;> simp
  · rw [marks_or_complete, flags]
    apply inv.interest cx
    revert storing
    split <;> simp
  · have interest := inv.interest cx (by revert storing; split <;> simp)
    refine .inr (.inl ?_)
    simp [interest]
  · have before := inv.asleep cx latest undropped (by revert dropping; split <;> simp)
    rw [marks_or_complete, flags]
    rcases before with waking | ⟨stored, interest, -⟩
    · refine .inl ?_
      revert waking
      split <;> simp
    · exact .inr ⟨stored, interest, fun _ => by simp [interest]⟩

/-- A completing poll that finds the slot empty wakes no one: no waker was due. -/
theorem Served.misses (inv : Served s fun f => f (.poll .takeJoinWaker) + R f)
    (empty : s.joinWaker = none)
    (inTime : ∀ cx woken, latestJoinPoll s.log = some ⟨cx, none, woken⟩ →
      0 < R (Frame.storing cx) → s.joinWaker = some cx ∨ woken = true) :
    Served s fun f => total f [.poll .release] + R f where
  single := by simpa using inv.single
  given := fun cx polling => inv.given cx (by simpa using polling)
  interest := fun cx storing => inv.interest cx (by simpa using storing)
  completed := fun cx woken latest storing _ => by
    rcases inTime cx woken latest (by simpa using storing) with stored | already
    · rw [empty] at stored
      cases stored
    · exact .inl already
  asleep := fun cx latest undropped dropping => by
    rcases inv.asleep cx latest undropped (by simpa using dropping) with waking | ⟨stored, -, -⟩
    · exact .inl (by simpa using waking)
    · rw [empty] at stored
      cases stored

theorem advancePoll_served {pc : PollPc T} (inv : Served s fun f => f (.poll pc) + R f)
    (inTime : Frame.op s (.poll pc) = .takeJoin →
      ∀ cx woken, latestJoinPoll s.log = some ⟨cx, none, woken⟩ →
        0 < R (Frame.storing cx) → s.joinWaker = some cx ∨ woken = true)
    (moved : advancePoll s pc = some (s', frames)) :
    Served s' fun f => total f frames + R f := by
  cases pc with
  | future => cases moved
  | storeOutput output =>
      cases moved
      refine inv.of_same rfl rfl rfl rfl rfl ?_ ?_ ?_ ?_ ?_ ?_ <;> simp
  | setComplete => exact inv.completes moved
  | takeJoinWaker =>
      simp only [advancePoll] at moved
      split at moved
      · next waker slot =>
          cases moved
          refine inv.taken slot ?_ ?_ ?_ ?_ ?_ ?_ (inTime rfl) <;> simp
      · next empty =>
          cases moved
          exact inv.misses empty (inTime rfl)
  | wakeJoin waker =>
      cases moved
      refine inv.wakes rfl rfl rfl ?_ id ?_ ?_ ?_ ?_ ?_
      · change _ = if s.handle = .busy then 1 else 0
        simpa using inv.single
      all_goals simp
  | release =>
      cases moved
      refine inv.of_same rfl rfl ?_ ?_ ?_ ?_ ?_ ?_ ?_ ?_ ?_ <;> simp [Cell.record]
  | dropContext =>
      cases moved
      refine inv.of_same rfl rfl rfl ?_ ?_ ?_ ?_ ?_ ?_ ?_ ?_
      · simp
      · simp
      all_goals split <;> simp
  | deallocate =>
      cases moved
      unfold deallocate
      split
      all_goals
        refine inv.of_same rfl rfl ?_ rfl rfl ?_ ?_ ?_ ?_ ?_ ?_ <;> simp [Cell.record]

theorem advanceWake_served {impl : WakerImpl} {via : Via} {pc : WakePc impl}
    (inv : Served s fun f => f (.wake impl via pc) + R f)
    (moved : advanceWake impl via s pc = some (s', frames)) :
    Served s' fun f => total f frames + R f := by
  have returned : ∀ cell : Cell T, (cell.wakeReturns via).handle = cell.handle ∧
      (cell.wakeReturns via).joinWaker = cell.joinWaker ∧
      latestJoinPoll (cell.wakeReturns via).log = latestJoinPoll cell.log ∧
      (cell.wakeReturns via).state = cell.state := by
    intro cell
    cases via <;> simp [Cell.wakeReturns, Cell.record]
  cases pc with
  | load =>
      simp only [advanceWake] at moved
      split at moved
      · cases moved
        refine inv.of_same rfl rfl rfl rfl rfl ?_ ?_ ?_ ?_ ?_ ?_ <;> simp
      · cases moved
        obtain ⟨handle, slot, latest, state⟩ := returned s
        refine inv.of_same handle slot latest (by rw [state]) (by rw [state]) ?_ ?_ ?_ ?_ ?_ ?_
          <;> simp
  | compareExchange current =>
      simp only [advanceWake] at moved
      split at moved
      · next same =>
          cases moved
          have idle := ((proceeds_iff impl current.1).mp current.2).1
          have kept : ∀ m : BitVec 4, Marks.isIdle m = true →
              Marks.hasJoinInterest (m ||| 1) = Marks.hasJoinInterest m ∧
              Marks.isComplete (m ||| 1) = Marks.isComplete m := by decide
          obtain ⟨interest, complete⟩ := kept _ idle
          refine inv.of_same rfl rfl rfl ?_ ?_ ?_ ?_ ?_ ?_ ?_ ?_
          · rw [same]
            exact (congrArg Marks.hasJoinInterest (marks_desired impl idle)).trans interest
          · rw [same]
            exact (congrArg Marks.isComplete (marks_desired impl idle)).trans complete
          all_goals simp
      · cases moved
        refine inv.of_same rfl rfl rfl rfl rfl ?_ ?_ ?_ ?_ ?_ ?_ <;> simp
  | schedule =>
      cases moved
      obtain ⟨handle, slot, latest, state⟩ := returned { s with queue := s.queue + 1 }
      refine inv.of_same handle slot latest (by rw [state]) (by rw [state]) ?_ ?_ ?_ ?_ ?_ ?_
        <;> simp
  | ranInline =>
      cases moved
      obtain ⟨handle, slot, latest, state⟩ := returned s
      refine inv.of_same handle slot latest (by rw [state]) (by rw [state]) ?_ ?_ ?_ ?_ ?_ ?_
        <;> simp

theorem advanceDrop_served {pc : DropPc} (inv : Served s fun f => f (.dropWaker pc) + R f)
    (moved : advanceDrop s pc = some (s', frames)) : Served s' fun f => total f frames + R f := by
  cases pc with
  | fetchSub =>
      cases moved
      refine inv.of_same rfl rfl rfl ?_ ?_ ?_ ?_ ?_ ?_ ?_ ?_
      · simp
      · simp
      all_goals split <;> simp
  | deallocate =>
      cases moved
      unfold deallocate
      split
      all_goals
        refine inv.of_same rfl rfl ?_ rfl rfl ?_ ?_ ?_ ?_ ?_ ?_ <;> simp [Cell.record]

variable (mono : ∀ f g : Frame T → Nat, (∀ x, f x ≤ g x) → R f ≤ R g)

include mono in
/-- Beside a call of the owner no poll of the handle is in progress. -/
theorem Served.no_other_poll {frame : Frame T} (inv : Served s fun f => f frame + R f)
    (call : frame.handleCalls = 1) (cx : Nat) :
    R (Frame.polling cx) = 0 ∧ R (Frame.storing cx) = 0 := by
  have alone := (inv.alone call).2
  have polling := mono _ _ (Frame.polling_le_handleCalls (T := T) cx)
  have storing := mono _ _ (Frame.storing_le_handleCalls (T := T) cx)
  omega

include mono in
/-- A poll of the handle sets the interest: from here on a completion takes the waker. -/
theorem Served.interested {cx : Nat}
    (inv : Served s fun f => f (.joinPoll (.setInterest cx)) + R f) :
    Served { s with state := s.state ||| joinInterest.bits } fun f =>
      total f [.joinPoll (.storeWaker cx s.state)] + R f := by
  have flags : ∀ m : BitVec 4, Marks.hasJoinInterest (m ||| 8) = true ∧
      Marks.isComplete (m ||| 8) = Marks.isComplete m := by decide
  obtain ⟨busy, alone⟩ := inv.alone rfl
  refine ⟨?_, fun cx' polling => ?_, fun cx' _ => ?_, fun cx' woken latest storing now => ?_,
    fun cx' latest _ _ => ?_⟩
  · simp [busy, alone]
  · exact inv.given cx' (by simpa using polling)
  · rw [marks_or_joinInterest]
    exact (flags _).1
  · have none := (inv.no_other_poll mono rfl cx').2
    simp only [total_singleton, none, Nat.add_zero] at storing
    simp only [Frame.storing] at storing
    have fresh : s.state &&& complete.bits = 0 := by
      split at storing
      · next same => exact same.2
      · cases storing
    have notComplete : ∀ m : BitVec 4, Marks.isIdle m = true → Marks.isComplete m = false := by
      decide
    rw [marks_or_joinInterest, (flags _).2,
      notComplete _ (isIdle_of_lifecycle_zero _ fresh)] at now
    cases now
  · obtain ⟨woken, given⟩ := inv.given cx (by simp)
    rw [given] at latest
    cases latest

include mono in
/-- A poll of the handle that returns `Ready` leaves no joiner asleep. -/
theorem Served.readies {pc : JoinPc} {value : Except JoinError T}
    (inv : Served s fun f => f (.joinPoll pc) + R f)
    (moved : s.joinReturns (.ready value) = some (s', frames)) :
    Served s' fun f => total f frames + R f := by
  cases moved
  have alone := (inv.alone rfl).2
  have none := inv.no_other_poll mono rfl
  refine ⟨?_, fun cx polling => ?_, fun cx storing => ?_, fun cx woken _ storing _ => ?_,
    fun cx latest _ _ => ?_⟩
  · simp [alone, Cell.record]
  · simp [(none cx).1] at polling
  · simp [(none cx).2] at storing
  · simp [(none cx).2] at storing
  · simp [Cell.record] at latest

include mono in
/-- A poll of the handle that returns `Pending` has stored its waker. If the task is complete by
then, the completing poll has not taken the waker yet. -/
theorem Served.sleeps {cx : Nat} {prev : Usize}
    (inv : Served s fun f => f (.joinPoll (.storeWaker cx prev)) + R f)
    (fresh : prev &&& complete.bits = 0)
    (moved : ({ s with joinWaker := some cx } : Cell T).joinReturns .pending =
      some (s', frames)) : Served s' fun f => total f frames + R f := by
  cases moved
  have alone := (inv.alone rfl).2
  have none := inv.no_other_poll mono rfl
  obtain ⟨woken, given⟩ := inv.given cx (by simp)
  have storing : 0 < Frame.storing cx (.joinPoll (.storeWaker cx prev) : Frame T) +
      R (Frame.storing cx) := by simp [fresh]
  refine ⟨?_, fun cx' polling => ?_, fun cx' storing' => ?_, fun cx' _ _ storing' _ => ?_,
    fun cx' latest _ _ => ?_⟩
  · simp [alone, Cell.record]
  · simp [(none cx').1] at polling
  · simp [(none cx').2] at storing'
  · simp [(none cx').2] at storing'
  · obtain ⟨rfl, asleep⟩ : cx = cx' ∧ woken = false := by
      simpa [Cell.record, given] using latest
    by_cases waking : 0 < R (Frame.waking cx)
    · exact .inl (by simpa using waking)
    · refine .inr ⟨rfl, inv.interest cx storing, ?_⟩
      intro complete
      have served := inv.completed cx woken given storing complete
      simp only [Frame.taking, Frame.waking, Nat.zero_add] at served
      rcases served with already | taking | late
      · rw [asleep] at already
        cases already
      · simpa using taking
      · exact absurd late waking

include mono in
/-- A poll of the handle that found a lifecycle other than `IDLE` starts over. -/
theorem Served.restarts {cx : Nat} {prev : Usize}
    (inv : Served s fun f => f (.joinPoll (.storeWaker cx prev)) + R f) :
    Served { s with joinWaker := some cx } fun f => total f [.joinPoll (.load cx)] + R f := by
  obtain ⟨busy, alone⟩ := inv.alone rfl
  have none := inv.no_other_poll mono rfl
  refine ⟨?_, fun cx' polling => ?_, fun cx' storing => ?_, fun cx' woken _ storing _ => ?_,
    fun cx' latest _ _ => ?_⟩
  · simp [busy, alone]
  · exact inv.given cx' (by simpa using polling)
  · simp [(none cx').2] at storing
  · simp [(none cx').2] at storing
  · obtain ⟨woken, given⟩ := inv.given cx (by simp)
    rw [given] at latest
    cases latest

include mono in
theorem advanceJoin_served {pc : JoinPc} (inv : Served s fun f => f (.joinPoll pc) + R f)
    (moved : advanceJoin s pc = some (s', frames)) : Served s' fun f => total f frames + R f := by
  cases pc with
  | load cx =>
      simp only [advanceJoin] at moved
      split at moved
      · cases moved
        refine inv.of_same rfl rfl rfl rfl rfl ?_ ?_ ?_ ?_ ?_ ?_ <;> simp
      · split at moved
        · exact inv.readies mono moved
        · cases moved
          refine inv.of_same rfl rfl rfl rfl rfl ?_ ?_ ?_ ?_ ?_ ?_ <;> simp
  | tryReadOutput seen =>
      simp only [advanceJoin] at moved
      split at moved
      · split at moved
        · exact inv.readies mono moved
        · cases moved
      · split at moved <;> exact inv.readies mono moved
  | setInterest cx =>
      cases moved
      exact inv.interested mono
  | storeWaker cx prev =>
      simp only [advanceJoin] at moved
      split at moved
      · cases moved
        exact inv.restarts mono
      · next fresh => exact inv.sleeps mono (by simpa using fresh) moved

/-- An abort that returns hands the handle back to its owner. -/
theorem Served.aborts {pc : AbortPc} (inv : Served s fun f => f (.abort pc) + R f)
    (none : pc = .takeJoinWaker → s.joinWaker = none) (plain : ∀ waker, pc ≠ .wakeJoin waker) :
    Served { s with handle := .idle } fun f => total f [] + R f := by
  obtain ⟨busy, alone⟩ := inv.alone rfl
  have waking : ∀ cx, Frame.waking cx (.abort pc : Frame T) = 0 := by
    intro cx
    cases pc with
    | wakeJoin waker => exact absurd rfl (plain waker)
    | _ => rfl
  refine ⟨?_, fun cx polling => ?_, fun cx storing => ?_, fun cx woken latest storing now => ?_,
    fun cx latest _ dropping => ?_⟩
  · simp [alone]
  · exact inv.given cx (by simpa using polling)
  · exact inv.interest cx (by simpa using storing)
  · have served := inv.completed cx woken latest (by simpa using storing) now
    simp only [waking cx, Nat.zero_add] at served
    simpa using served
  · have asleep := inv.asleep cx latest (by simp [busy]) (by simpa using dropping)
    simp only [waking cx, Nat.zero_add] at asleep
    simpa using asleep

include mono in
theorem advanceAbort_served {pc : AbortPc} (inv : Served s fun f => f (.abort pc) + R f)
    (moved : advanceAbort s pc = some (s', frames)) : Served s' fun f => total f frames + R f := by
  obtain ⟨busy, alone⟩ := inv.alone rfl
  have no_storing := fun cx => (inv.no_other_poll mono rfl cx).2
  cases pc with
  | fetchOr =>
      cases moved
      have flags : ∀ m : BitVec 4, Marks.hasJoinInterest (m ||| 4) = Marks.hasJoinInterest m ∧
          Marks.isComplete (m ||| 4) = Marks.isComplete m := by decide
      refine inv.of_same rfl rfl rfl ?_ ?_ ?_ ?_ ?_ ?_ ?_ ?_
      · exact (congrArg Marks.hasJoinInterest (marks_or_aborted s.state)).trans (flags _).1
      · exact (congrArg Marks.isComplete (marks_or_aborted s.state)).trans (flags _).2
      all_goals simp
  | load =>
      simp only [advanceAbort] at moved
      split at moved
      · cases moved
        refine inv.of_same rfl rfl rfl rfl rfl ?_ ?_ ?_ ?_ ?_ ?_ <;> simp
      · cases moved
        refine inv.aborts (fun same => ?_) (fun waker same => ?_)
        · cases same
        · cases same
  | takeJoinWaker =>
      simp only [advanceAbort] at moved
      split at moved
      · next waker slot =>
          cases moved
          have inTime : ∀ cx woken, latestJoinPoll s.log = some ⟨cx, none, woken⟩ →
              0 < R (Frame.storing cx) → s.joinWaker = some cx ∨ woken = true := by
            intro cx woken _ storing
            rw [no_storing] at storing
            cases storing
          refine inv.taken slot ?_ ?_ ?_ ?_ ?_ ?_ inTime <;> simp
      · next empty =>
          cases moved
          refine inv.aborts (fun _ => empty) ?_
          intro waker same
          cases same
  | wakeJoin waker =>
      cases moved
      refine inv.wakes rfl rfl rfl ?_ ?_ ?_ ?_ ?_ ?_ ?_
      · simp [alone, Cell.record]
      · simp [busy]
      all_goals simp

include mono in
theorem advanceHandleDrop_served {pc : HandleDropPc}
    (inv : Served s fun f => f (.dropHandle pc) + R f)
    (moved : advanceHandleDrop s pc = some (s', frames)) :
    Served s' fun f => total f frames + R f := by
  obtain ⟨busy, alone⟩ := inv.alone rfl
  have none := inv.no_other_poll mono rfl
  have dropped : ∀ (cell : Cell T) (stack : List (Frame T)),
      (cell.handle = .dropped ∧ total Frame.handleCalls stack = 0 ∨
        cell.handle = .busy ∧ total Frame.handleCalls stack = 1 ∧
          0 < total Frame.dropping stack) →
      (∀ cx, total (Frame.polling cx) stack = 0 ∧ total (Frame.storing cx) stack = 0) →
      Served cell fun f => total f stack + R f := by
    intro cell stack handle calls
    refine ⟨?_, fun cx polling => ?_, fun cx storing => ?_, fun cx woken _ storing _ => ?_,
      fun cx _ undropped dropping => ?_⟩
    · rcases handle with ⟨handle, zero⟩ | ⟨handle, one, -⟩
      · simp [handle, zero, alone]
      · simp [handle, one, alone]
    · rw [(calls cx).1, (none cx).1] at polling
      cases polling
    · rw [(calls cx).2, (none cx).2] at storing
      cases storing
    · rw [(calls cx).2, (none cx).2] at storing
      cases storing
    · rcases handle with ⟨handle, -⟩ | ⟨-, -, positive⟩
      · exact absurd handle undropped
      · omega
  cases pc with
  | load =>
      simp only [advanceHandleDrop] at moved
      split at moved
      · cases moved
        exact dropped _ _ (.inr ⟨busy, by simp, by simp⟩) (by simp)
      · cases moved
        exact dropped _ _ (.inl ⟨rfl, by simp⟩) (by simp)
  | clearInterest =>
      cases moved
      exact dropped _ _ (.inr ⟨busy, by simp, by simp⟩) (by simp)
  | takeJoinWaker =>
      cases moved
      exact dropped _ _ (.inl ⟨rfl, by simp⟩) (by simp)

include mono in
/-- The next operation of a call. -/
theorem advance_served {frame : Frame T} (inv : Served s fun f => f frame + R f)
    (inTime : Frame.op s frame = .takeJoin →
      ∀ cx woken, latestJoinPoll s.log = some ⟨cx, none, woken⟩ →
        0 < R (Frame.storing cx) → s.joinWaker = some cx ∨ woken = true)
    (moved : frame.advance s = some (s', frames)) : Served s' fun f => total f frames + R f := by
  cases frame with
  | poll pc => exact advancePoll_served inv inTime moved
  | wake impl via pc => exact advanceWake_served inv moved
  | dropWaker pc => exact advanceDrop_served inv moved
  | joinPoll pc => exact advanceJoin_served mono inv moved
  | abort pc => exact advanceAbort_served mono inv moved
  | dropHandle pc => exact advanceHandleDrop_served mono inv moved

/-- An abort or a drop of the handle begins. -/
theorem Served.called {frame : Frame T} (inv : Served s R) (idle : s.handle = .idle)
    (call : frame.handleCalls = 1) (polls : ∀ cx, frame.polling cx = 0)
    (stores : ∀ cx, frame.storing cx = 0) (takes : frame.taking = 0)
    (wakes : ∀ cx, frame.waking cx = 0) :
    Served { s with handle := .busy } fun f => total f [frame] + R f := by
  have single := inv.single
  simp only [idle, reduceCtorEq, if_false] at single
  refine ⟨?_, fun cx polling => ?_, fun cx storing => ?_, fun cx woken latest storing now => ?_,
    fun cx latest _ dropping => ?_⟩
  · simp only [total_singleton, call, single, if_true]
  · simp only [total_singleton, polls, Nat.zero_add] at polling
    exact inv.given cx polling
  · simp only [total_singleton, stores, Nat.zero_add] at storing
    exact inv.interest cx storing
  · simp only [total_singleton, stores, takes, wakes, Nat.zero_add] at storing ⊢
    exact inv.completed cx woken latest storing now
  · simp only [total_singleton, takes, wakes, Nat.zero_add] at dropping ⊢
    exact inv.asleep cx latest (by simp [idle]) (by omega)

include mono in
/-- The first effect of a call. -/
theorem call_served {call : Begin} {inFuture : Bool} (inv : Served s R)
    (effect : Begin.Effect inFuture s call s' frames) :
    Served s' fun f => total f frames + R f := by
  cases effect with
  | run entry => refine inv.of_same rfl rfl rfl rfl rfl ?_ ?_ ?_ ?_ ?_ ?_ <;> simp
  | clone context word counted atHand =>
      refine inv.of_same rfl rfl rfl ?_ ?_ ?_ ?_ ?_ ?_ ?_ ?_ <;> simp [counted]
  | wakeContext impl _ | wakeByRef impl _ | wakeByValue impl _ | dropWaker movable =>
      refine inv.of_same rfl rfl rfl rfl rfl ?_ ?_ ?_ ?_ ?_ ?_ <;> simp
  | joinPoll cx idle =>
      have single := inv.single
      simp only [idle, reduceCtorEq, if_false] at single
      have polling := fun cx => mono _ _ (Frame.polling_le_handleCalls (T := T) cx)
      have storing := fun cx => mono _ _ (Frame.storing_le_handleCalls (T := T) cx)
      refine ⟨?_, fun cx' now => ?_, fun cx' now => ?_, fun cx' _ _ now _ => ?_,
        fun cx' latest _ _ => ?_⟩
      · simp [Cell.record, single]
      · have none := polling cx'
        obtain rfl : cx = cx' := by
          by_contra other
          simp only [total_singleton, Frame.polling, if_neg other] at now
          omega
        exact ⟨false, rfl⟩
      · have none := storing cx'
        simp only [total_singleton, Frame.storing] at now
        omega
      · have none := storing cx'
        simp only [total_singleton, Frame.storing] at now
        omega
      · simp [Cell.record] at latest
  | abort idle | dropHandle idle =>
      exact inv.called idle rfl (fun _ => rfl) (fun _ => rfl) rfl fun _ => rfl

include mono in
/-- A step of a thread. -/
theorem move_served {creator : Creator} {stack after : List (Frame T)} {l : Label T}
    (inv : Served s fun f => total f stack + R f)
    (inTime : opOf s stack l = .takeJoin →
      ∀ cx woken, latestJoinPoll s.log = some ⟨cx, none, woken⟩ →
        0 < total (Frame.storing cx) stack + R (Frame.storing cx) →
          s.joinWaker = some cx ∨ woken = true)
    (moved : move creator s stack l = some (s', after)) :
    Served s' fun f => total f after + R f := by
  have mono_rest : ∀ rest : List (Frame T), ∀ f g : Frame T → Nat, (∀ x, f x ≤ g x) →
      total f rest + R f ≤ total g rest + R g := fun rest f g bound =>
    Nat.add_le_add (total_le_total bound) (mono f g bound)
  cases moves_of_move moved with
  | call effect =>
      simp only [total_nil, Nat.zero_add] at inv
      exact call_served mono inv effect
  | callInFuture rest effect =>
      simpa [Nat.add_assoc] using call_served (mono_rest _) inv effect
  | ready output rest | pending rest | spurious via current rest | runInline impl via rest made =>
      refine inv.of_same rfl rfl rfl rfl rfl ?_ ?_ ?_ ?_ ?_ ?_ <;> simp
  | @next frame s' frames rest advanced =>
      have split : Served s fun f => f frame + (total f rest + R f) := by
        simpa [Nat.add_assoc] using inv
      have step := advance_served (mono_rest rest) split (fun take cx woken latest storing =>
        inTime take cx woken latest (by rw [total_cons]; omega)) advanced
      simpa [Nat.add_assoc] using step

end Calls

/-! ## The joiner is woken -/

/-- Where the wake of the joiner stands in a state. -/
abbrev ServedAt (s : State T) : Prop := Served s.shared fun f => total (total f) s.threads

theorem servedAt_spawned (n : Nat) : ServedAt (spawnedWith T n) := by
  refine ⟨total_idle_eq_zero _ n, ?_, ?_, ?_, ?_⟩
  · intro cx polling
    simp only [spawnedWith, total_idle_eq_zero] at polling
    cases polling
  · intro cx storing
    simp only [spawnedWith, total_idle_eq_zero] at storing
    cases storing
  · intro cx woken latest
    cases latest
  · intro cx latest
    cases latest

/-- **A step in time keeps the joiner served.** -/
theorem ServedAt.step {creator : Creator} {s s' : State T} {a : Action T} (inv : ServedAt s)
    (inTime : storesInTime s a = true) (taken : (machine creator).step s a = some s') :
    ServedAt s' := by
  obtain ⟨i, l⟩ := a
  replace taken : Pool.step (fun _ => move creator) s (i, l) = some s' := taken
  obtain ⟨stack, cell, after, found, moved, rfl⟩ := Pool.step_eq_some taken
  have mono : ∀ f g : Frame T → Nat, (∀ x, f x ≤ g x) →
      others (total f) i s.threads ≤ others (total g) i s.threads := by
    intro f g bound
    exact others_stacks_le i s.threads bound
  simp only [ServedAt, total_set_others after found]
  refine move_served mono (by simpa only [ServedAt, total_eq_others found] using inv) ?_ moved
  intro take cx woken latest storing
  simp only [storesInTime, latest, nextOp, found, take, total_eq_others found, Bool.or_eq_true,
    bne_self_eq_false, beq_iff_eq, Bool.false_eq_true, false_or] at inTime
  rcases inTime with (none | stored) | already
  · omega
  · exact .inl stored
  · exact .inr already

/-- The completing poll is past the wake of the joiner. -/
def completionDone (s : State T) : Prop :=
  ∀ stack ∈ s.threads, ∀ frame ∈ stack,
    frame.taking = 0 ∧ ∀ waker, Frame.waking waker frame = 0

/-- A joiner asleep for ever: the task is complete, the completing poll is past the wake of the
joiner, and the waker it was given last was not woken. -/
structure JoinerAsleep (s : State T) (cx : Nat) : Prop where
  complete : (fromBits s.shared.state).isComplete = true
  done : completionDone s
  idle : s.shared.handle = .idle
  latest : latestJoinPoll s.shared.log = some ⟨cx, some .pending, false⟩

/-- **A joiner does not sleep for ever** in a run that stores the waker in time, if the write of the
output spares the waker. -/
theorem joiner_woken_of_storesInTime {W : Type} {p : Placement W T} (spares : p.Spares)
    {creator : Creator} {s : State T}
    (reached : (placedMachine p creator).ReachesWhen (fun s a => storesInTime s a = true) s)
    (cx : Nat) : ¬JoinerAsleep s cx := by
  rw [placedMachine_of_spares spares] at reached
  have inv : ServedAt s := by
    refine reached.invariant ?_ fun s a s' _ inv meets taken => inv.step meets taken
    rintro s ⟨n, rfl⟩
    exact servedAt_spawned n
  rintro ⟨complete, done, idle, latest⟩
  have single := inv.single
  simp only [idle, reduceCtorEq, if_false] at single
  have dropping : total (total Frame.dropping) s.threads = 0 := by
    have bound : ∀ frame : Frame T, frame.dropping ≤ frame.handleCalls := by
      intro frame
      cases frame <;> simp
    have inStack : ∀ stack : List (Frame T),
        total Frame.dropping stack ≤ total Frame.handleCalls stack := fun _ =>
      total_le_total bound
    have below : total (total Frame.dropping) s.threads ≤
        total (total Frame.handleCalls) s.threads := total_le_total inStack
    omega
  have taking : total (total Frame.taking) s.threads = 0 := by
    apply total_stacks_eq_zero
    intro stack member frame inside
    exact (done stack member frame inside).1
  have waking : total (total (Frame.waking cx)) s.threads = 0 := by
    apply total_stacks_eq_zero
    intro stack member frame inside
    exact (done stack member frame inside).2 cx
  rw [isComplete_marks] at complete
  rcases inv.asleep cx latest (by simp [idle]) dropping with due | ⟨-, -, take⟩
  · omega
  · have due := take complete
    omega

/-- Where no call is in progress, no completion is. -/
theorem completionDone_of_idle {s : State T} (idle : s.threads.all List.isEmpty = true) :
    completionDone s :=
  forall_calls_of_idle idle

/-- A test for it, of states in which no call is in progress. -/
def asleepTest [DecidableEq T] (cx : Nat) (s : State T) : Bool :=
  (fromBits s.shared.state).isComplete && s.threads.all List.isEmpty && s.shared.handle == .idle &&
    latestJoinPoll s.shared.log == some ⟨cx, some .pending, false⟩

theorem joinerAsleep_of_test [DecidableEq T] {s : State T} {cx : Nat}
    (tested : asleepTest cx s = true) : JoinerAsleep s cx := by
  simp only [asleepTest, Bool.and_eq_true, beq_iff_eq] at tested
  obtain ⟨⟨⟨complete, empty⟩, idle⟩, latest⟩ := tested
  exact ⟨complete, completionDone_of_idle empty, idle, latest⟩

/-- An output that takes no byte, in the header of seven words. -/
def unitPlacement : Placement WakerWords Unit where
  header := packedHeader
  size := 0
  spill header := (header.state, header.joinWaker)

/-- Three words in the same header: the last two are read as the join waker. -/
def threeWordPlacement : Placement WakerWords (Usize × Usize × Usize) where
  header := packedHeader
  size := 24
  spill header :=
    (header.state, header.output.bind fun (_, data, vtable) =>
      if vtable = 0 then none else some data.toNat)

/-- The joiner returns `Pending` during the first poll, and the task completes. -/
def joinedBefore (output : T) : List (Action T) :=
  [(0, .begin .run), (1, .begin (.joinPoll 7)), (1, .next), (1, .next), (1, .next),
   (0, .ready output), (0, .next), (0, .next), (0, .next), (0, .next), (0, .next)]

/-- In such a run the joiner is woken. -/
theorem joiner_woken_joinedBefore : ∃ s : State Unit,
    (placedMachine unitPlacement .createTask).ReachesWhen (fun s a => storesInTime s a = true) s ∧
      (fromBits s.shared.state).isComplete = true ∧
      latestJoinPoll s.shared.log = some ⟨7, some .pending, true⟩ ∧ ¬JoinerAsleep s 7 := by
  have spares : unitPlacement.Spares := Placement.spares_of_fits (by decide)
  obtain ⟨s, reached, tested⟩ :=
    (placedMachine unitPlacement .createTask).exists_reachesWhen_of_test
      (fun s a => storesInTime s a = true) (fun s => (fromBits s.shared.state).isComplete &&
        latestJoinPoll s.shared.log == some ⟨7, some .pending, true⟩)
      (joinedBefore () ++ [(0, .next)]) ⟨2, rfl⟩ (by decide)
  simp only [Bool.and_eq_true, beq_iff_eq] at tested
  obtain ⟨complete, latest⟩ := tested
  exact ⟨s, reached, complete, latest, joiner_woken_of_storesInTime spares reached 7⟩

/-- The task completes between the interest of the joiner and the store of its waker. -/
def joinedAmid : List (Action Unit) :=
  [(0, .begin .run), (1, .begin (.joinPoll 7)), (1, .next), (1, .next),
   (0, .ready ()), (0, .next), (0, .next), (0, .next), (0, .next), (0, .next), (1, .next)]

/-- The joiner sleeps for ever where its waker is stored too late, and also where it is stored in
time and three words that end in a null are written over it. -/
theorem joiner_asleep :
    (∃ s : State Unit, (placedMachine unitPlacement .createTask).Reaches s ∧ JoinerAsleep s 7) ∧
      ∃ s : State (Usize × Usize × Usize),
        (placedMachine threeWordPlacement .createTask).ReachesWhen
          (fun s a => storesInTime s a = true) s ∧ JoinerAsleep s 7 := by
  constructor
  · obtain ⟨s, reached, tested⟩ := (placedMachine unitPlacement .createTask).exists_reaches_of_test
      (asleepTest 7) joinedAmid ⟨2, rfl⟩ (by decide)
    exact ⟨s, reached, joinerAsleep_of_test tested⟩
  · obtain ⟨s, reached, tested⟩ :=
      (placedMachine threeWordPlacement .createTask).exists_reachesWhen_of_test
        (fun s a => storesInTime s a = true) (asleepTest 7) (joinedBefore (0, 0, 0)) ⟨2, rfl⟩
        (by decide)
    exact ⟨s, reached, joinerAsleep_of_test tested⟩

end LoonyRuntime.Task
