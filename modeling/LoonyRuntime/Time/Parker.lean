import LoonyRuntime.Runtime.Park
import LoonyRuntime.Time.Driver

/-!
# A parker with a time driver

`Parker::park_timeout` of `park.rs` reads the next deadline under the mutex of the time driver,
reads the clock, and parks on a `ThreadPark` for the time that is left. It reads the deadline once.
`TimeDriver::schedule` notifies the condvar of the driver, on which nobody waits, and does not
unpark the parker.

One thread parks, any number of threads schedule timers and unpark, and time passes between any two
operations. `InTime` is the invariant that the wait, begun now, would end by the next deadline.
Three steps may break it (`keepsTime`): the read of a deadline that has passed, time that passes on
the way to the wait, and the push of a timer that comes before the end of the wait. The invariant
holds exactly along the runs without them (`inTime_along_iff`), and there the thread does not
oversleep (`onTime_of_keepsTime`).
-/

set_option autoImplicit false

namespace LoonyRuntime.Time

open Concurrent
open LoonyRuntime.Runtime (ParkPc)

/-- The timeout of `ThreadPark::park`, in nanoseconds. -/
def year : Nat := 365 * 24 * 60 * 60 * 1000000000

/-- The timeout for which `Parker::park_timeout` parks on the inner parker. `none` is a call of
`park`. -/
def innerTimeout (deadline : Option Nat) (now : Nat) (timeout : Option Nat) :
    Option Nat :=
  match deadline with
  | some deadline =>
      if now < deadline then
        let duration := deadline - now
        match timeout with
        | some timeout => if duration < timeout then some duration else some timeout
        | none => some duration
      else timeout
  | none => timeout

/-! ## Points -/

/-- Where `Parker::park_timeout` is. -/
inductive ParkerPc where
  | lockTimers (timeout : Option Nat)
  | peek (timeout : Option Nat)
  | unlockTimers (timeout : Option Nat) (deadline : Option Nat)
  /-- `Instant::now()`. -/
  | readClock (timeout : Option Nat) (deadline : Nat)
  /-- The inner `park_timeout` is called: its first load. -/
  | enter (duration : Nat)
  /-- Inside of the inner `park_timeout`, with the time at which its wait ends. -/
  | inner (duration : Nat) (waitEnd : Option Nat) (pc : ParkPc)

/-- Where `TimeDriver::schedule` is. -/
inductive SchedulePc (W : Type) where
  | lock (entry : TimerEntry W)
  | push (entry : TimerEntry W)
  | notify
  | unlock

/-- Where a thread is. -/
inductive Point (W : Type) where
  | idle
  | park (pc : ParkerPc)
  | schedule (pc : SchedulePc W)
  | unpark (pc : { pc : ParkPc // pc.unparks = true })

variable {W : Type}

/-- The call of `unpark` goes on, or returns. -/
def Point.ofUnpark (pc : ParkPc) : Point W :=
  if unparks : pc.unparks = true then .unpark ⟨pc, unparks⟩ else .idle

/-- The inner `park_timeout` goes on, or returns. Its wait ends `duration` after it begins. -/
def Point.ofPark (clock : Nat) (duration : Nat) (waitEnd : Option Nat) :
    ParkPc → Point W
  | .idle => .idle
  | .waiting timed => .park (.inner duration (some (clock + duration)) (.waiting timed))
  | pc => .park (.inner duration waitEnd pc)

/-! ## Steps -/

/-- The clock, the time driver and the inner parker. -/
structure Shared (H : TimerHeap W) where
  clock : Nat
  driver : TimeDriver H
  /-- The mutex of the timers, with the condvar of the driver. -/
  mutex : Monitor
  inner : Runtime.Parker

inductive Label (W : Type) where
  /-- Time passes. -/
  | tick
  /-- `Parker::park` or `Parker::park_timeout` is called. -/
  | park (timeout : Option Nat)
  | schedule (deadline : Nat) (waker : W)
  /-- `Parker::unpark` is called. -/
  | unpark
  /-- The next operation. -/
  | next
  /-- The wait of the inner parker ends, by a notification, spuriously, or by its timeout. -/
  | wake (timedOut : Bool)
  /-- `notify_one` wakes this thread, if any waits. -/
  | notify (choice : Nat)

variable {H : TimerHeap W}

/-- A result of one operation of a thread. -/
abbrev Outcome (H : TimerHeap W) := Option (Shared H × Point W)

def anyThread (_ : Nat) : Bool := true

/-- `Parker::park_timeout`. -/
def advanceParker (i : Nat) (s : Shared H) : ParkerPc → Outcome H
  | .lockTimers timeout =>
      (s.mutex.acquire i).map fun m => ({ s with mutex := m }, .park (.peek timeout))
  | .peek timeout => some (s, .park (.unlockTimers timeout s.driver.nextDeadline))
  | .unlockTimers timeout deadline =>
      some ({ s with mutex := s.mutex.release },
        match deadline with
        | some deadline => .park (.readClock timeout deadline)
        | none => .park (.enter ((innerTimeout none s.clock timeout).getD year)))
  | .readClock timeout deadline =>
      some (s, .park (.enter ((innerTimeout (some deadline) s.clock timeout).getD year)))
  | .enter duration =>
      (ParkPc.move .threadPark anyThread i s.inner .idle (.park true)).map fun r =>
        ({ s with inner := r.1 }, .ofPark s.clock duration none r.2)
  | .inner duration waitEnd pc =>
      (pc.advance .threadPark i s.inner).map fun r =>
        ({ s with inner := r.1 }, .ofPark s.clock duration waitEnd r.2)

/-- `TimeDriver::schedule`. Its `notify_one` is a label of its own. -/
def advanceSchedule (i : Nat) (s : Shared H) : SchedulePc W → Outcome H
  | .lock entry =>
      (s.mutex.acquire i).map fun m => ({ s with mutex := m }, .schedule (.push entry))
  | .push entry =>
      some ({ s with driver := s.driver.schedule entry.deadline entry.waker }, .schedule .notify)
  | .notify => none
  | .unlock => some ({ s with mutex := s.mutex.release }, .idle)

/-- The next operation of a thread. -/
def advance (i : Nat) (s : Shared H) : Point W → Outcome H
  | .idle => none
  | .park pc => advanceParker i s pc
  | .schedule pc => advanceSchedule i s pc
  | .unpark pc =>
      (pc.1.advance .threadPark i s.inner).map fun r => ({ s with inner := r.1 }, .ofUnpark r.2)

/-- One step of thread `i`. Thread `0` is the one that parks. -/
def move (i : Nat) (s : Shared H) (t : Point W) : Label W → Outcome H
  | .tick => some ({ s with clock := s.clock + 1 }, t)
  | .park timeout =>
      match t with
      | .idle => if i = 0 then some (s, .park (.lockTimers timeout)) else none
      | _ => none
  | .schedule deadline waker =>
      match t with
      | .idle => some (s, .schedule (.lock ⟨deadline, waker⟩))
      | _ => none
  | .unpark =>
      match t with
      | .idle =>
          (ParkPc.move .threadPark anyThread i s.inner .idle .unpark).map fun r =>
            ({ s with inner := r.1 }, .ofUnpark r.2)
      | _ => none
  | .next => advance i s t
  | .wake timedOut =>
      match t with
      | .park (.inner duration (some waitEnd) pc) =>
          if timedOut = true → waitEnd ≤ s.clock then
            (ParkPc.move .threadPark anyThread i s.inner pc (.wake timedOut)).map fun r =>
              ({ s with inner := r.1 }, .ofPark s.clock duration (some waitEnd) r.2)
          else none
      | _ => none
  | .notify choice =>
      match t with
      | .schedule .notify =>
          (s.mutex.notifyOne choice).map fun m => ({ s with mutex := m }, .schedule .unlock)
      | .unpark pc =>
          (ParkPc.move .threadPark anyThread i s.inner pc.1 (.notify choice)).map fun r =>
            ({ s with inner := r.1 }, .ofUnpark r.2)
      | _ => none

abbrev State (H : TimerHeap W) := Pool (Shared H) (Point W)

/-- A new parker and a new driver, with `n` threads. -/
def startWith (H : TimerHeap W) (clock : Nat) (n : Nat) : State H :=
  ⟨⟨clock, .new H, .new, .new⟩, List.replicate n .idle⟩

/-- The machine of a parker with a time driver. -/
def parkerWithTimers (H : TimerHeap W) : Machine (State H) (Nat × Label W) where
  initial s := ∃ clock n, s = startWith H clock n
  step := Pool.step move

/-! ## Oversleeping -/

namespace Point

/-- Inside of `Parker::park_timeout`. -/
def parks : Point W → Bool
  | .park _ => true
  | _ => false

/-- Inside of `TimeDriver::schedule`. -/
def schedules : Point W → Bool
  | .schedule _ => true
  | _ => false

/-- In the wait of the inner parker. -/
def blocked : Point W → Bool
  | .park (.inner _ _ (.waiting _)) => true
  | _ => false

/-- The time at which the wait of a thread ends, or would end if it began now: from the read of the
deadline to the end of the wait. -/
def planned (clock : Nat) : Point W → Option Nat
  | .park (.unlockTimers timeout deadline) =>
      some (clock + (innerTimeout deadline clock timeout).getD year)
  | .park (.readClock timeout deadline) =>
      some (clock + (innerTimeout (some deadline) clock timeout).getD year)
  | .park (.enter duration) => some (clock + duration)
  | .park (.inner duration waitEnd pc) =>
      match pc with
      | .consume _ _ | .prepare _ _ | .lock _ | .wait _ => some (clock + duration)
      | .waiting _ => waitEnd
      | _ => none
  | _ => none

theorem planned_of_not_parks {clock : Nat} {t : Point W} (outside : t.parks = false) :
    t.planned clock = none := by
  cases t with
  | park pc => cases outside
  | _ => rfl

/-- The end of a wait that has begun does not depend on the clock. -/
theorem planned_of_blocked {t : Point W} (blocked : t.blocked = true) (clock clock' : Nat) :
    t.planned clock = t.planned clock' := by
  unfold Point.blocked at blocked
  split at blocked
  · rfl
  · cases blocked

end Point

/-- A wait that ends then ends by the next deadline, or by now, or an unpark is pending. -/
def Shared.EndsInTime (s : Shared H) (waitEnd : Nat) : Prop :=
  s.inner.state = .notified ∨ waitEnd ≤ s.clock ∨
    ∀ deadline ∈ s.driver.nextDeadline, waitEnd ≤ deadline

instance (s : Shared H) : DecidablePred s.EndsInTime := fun _ =>
  inferInstanceAs (Decidable (_ ∨ _ ∨ _))

def Shared.tick (s : Shared H) : Shared H := { s with clock := s.clock + 1 }

/-- A thread that is blocked in the inner parker while no timer is being scheduled wakes by the
earliest deadline, or by now if that deadline has passed, or it has a pending unpark. -/
def OnTime (s : State H) : Prop :=
  ∀ i duration waitEnd timed,
    s.threads[i]? = some (.park (.inner duration (some waitEnd) (.waiting timed))) →
    i ∈ s.shared.inner.monitor.waiting → (∀ t ∈ s.threads, t.schedules = false) →
    ∀ deadline, s.shared.driver.nextDeadline = some deadline →
      waitEnd ≤ max deadline s.shared.clock ∨ s.shared.inner.state = .notified

/-- Every wait, begun or planned, ends in time. -/
def InTime (s : State H) : Prop :=
  Pool.Each (fun _ t => ∀ waitEnd ∈ t.planned s.shared.clock, s.shared.EndsInTime waitEnd)
    s.threads

/-- A thread on its way to its wait still waits in time if time passes now. -/
def Shared.bearsTick (s : Shared H) (t : Point W) : Bool :=
  t.blocked || decide (∀ waitEnd ∈ t.planned s.tick.clock, s.tick.EndsInTime waitEnd)

/-- The deadline that is read lies ahead. -/
def Shared.bearsPeek (s : Shared H) (timeout : Option Nat) : Bool :=
  decide (∀ deadline ∈ s.driver.nextDeadline,
    s.inner.state = .notified ∨ s.clock < deadline ∨ timeout = some 0)

/-- The timer that is pushed does not come before the end of the wait. -/
def Shared.bearsPush (s : Shared H) (entry : TimerEntry W) (t : Point W) : Bool :=
  decide (∀ waitEnd ∈ t.planned s.clock,
    s.inner.state = .notified ∨ waitEnd ≤ s.clock ∨ waitEnd ≤ entry.deadline)

/-- The deadline that is read lies ahead, time passes on the way to a wait only so far that the
wait still ends in time, and no timer is pushed that comes before the end of a wait. -/
def keepsTime (s : State H) (a : Nat × Label W) : Bool :=
  match a.2, s.threads[a.1]? with
  | .tick, some _ => s.threads.all s.shared.bearsTick
  | .next, some (.park (.peek timeout)) => s.shared.bearsPeek timeout
  | .next, some (.schedule (.push entry)) => s.threads.all (s.shared.bearsPush entry)
  | _, _ => true

/-- Thread `0` alone parks. -/
def Alone (s : State H) : Prop := Pool.Each (fun i t => t.parks = true → i = 0) s.threads

/-- What one step does to the clock, to the timers and to the wait of the thread. -/
inductive Effect (i : Nat) (s : Shared H) : Point W → Label W → Shared H → Point W → Prop where
  | tick (t : Point W) : Effect i s t .tick s.tick t
  | peek (timeout : Option Nat) :
      Effect i s (.park (.peek timeout)) .next s
        (.park (.unlockTimers timeout s.driver.nextDeadline))
  | push (entry : TimerEntry W) :
      Effect i s (.schedule (.push entry)) .next
        { s with driver := s.driver.schedule entry.deadline entry.waker } (.schedule .notify)
  /-- Another step of the thread that parks. -/
  | parks {pc : ParkerPc} {l : Label W} {s' : Shared H} {t' : Point W}
      (other : ∀ timeout, pc ≠ .peek timeout) (later : l ≠ .tick) (clock : s'.clock = s.clock)
      (driver : s'.driver = s.driver)
      (planned : ∀ waitEnd ∈ t'.planned s.clock,
        waitEnd ∈ (Point.park pc : Point W).planned s.clock ∧
          (s.inner.state = .notified → s'.inner.state = .notified)) :
      Effect i s (.park pc) l s' t'
  /-- Another step of a thread that does not park. -/
  | others {t : Point W} {l : Label W} {s' : Shared H} {t' : Point W}
      (outside : t.parks = false) (other : ∀ entry, t ≠ .schedule (.push entry))
      (later : l ≠ .tick) (clock : s'.clock = s.clock) (driver : s'.driver = s.driver)
      (state : s.inner.state = .notified → s'.inner.state = .notified)
      (planned : t'.planned s.clock = none) (enters : t'.parks = true → i = 0) :
      Effect i s t l s' t'

section Inversion

variable {i : Nat} {s s' : Shared H} {t t' : Point W} {l : Label W}

theorem ofUnpark_planned (clock : Nat) (pc : ParkPc) :
    (Point.ofUnpark pc : Point W).planned clock = none ∧
      (Point.ofUnpark pc : Point W).parks = false := by
  unfold Point.ofUnpark
  split <;> exact ⟨rfl, rfl⟩

/-- An operation of `unpark` does not undo an unpark. -/
theorem notified_of_unparks {inner inner' : Runtime.Parker} {pc pc' : ParkPc}
    (step : ParkPc.Step anyThread i inner pc inner' pc') (unparks : pc.unparks = true)
    (notified : inner.state = .notified) : inner'.state = .notified := by
  cases step with
  | lockNotify | notify | unlockNotify => exact notified
  | _ => cases unparks

/-- At the head of the loop the wait is yet to begin. -/
theorem ofPark_loop_planned (clock : Nat) (duration : Nat) (waitEnd : Option Nat)
    (timed : Bool) (failed : Nat) (state : Runtime.ParkState) :
    (Point.ofPark clock duration waitEnd (.loop timed failed state) : Point W).planned clock =
      some (clock + duration) := by
  rcases ParkPc.loop_cases timed failed state with head | head <;> rw [head] <;> rfl

/-- An operation of the inner `park_timeout` leaves the end of the wait, or the wait is over. -/
theorem planned_of_step {inner inner' : Runtime.Parker} {pc pc' : ParkPc} {clock : Nat}
    {duration : Nat} {waitEnd : Option Nat} (inside : pc ≠ .idle)
    (step : ParkPc.Step anyThread i inner pc inner' pc') :
    ∀ e ∈ (Point.ofPark clock duration waitEnd pc' : Point W).planned clock,
      e ∈ (Point.park (.inner duration waitEnd pc) : Point W).planned clock ∧
        (inner.state = .notified → inner'.state = .notified) := by
  cases step with
  | park | unparkParked | unparkDone => exact absurd rfl inside
  | consumeFailed | prepareFailed =>
      rw [ofPark_loop_planned]
      exact fun e member => ⟨member, id⟩
  | prepared empty =>
      intro e member
      refine ⟨member, ?_⟩
      intro notified
      rw [empty] at notified
      cases notified
  | lock | wait => exact fun e member => ⟨member, id⟩
  | _ => exact nofun

theorem effect_of_advanceParker {pc : ParkerPc} (moved : advanceParker i s pc = some (s', t')) :
    Effect i s (.park pc) .next s' t' := by
  cases pc with
  | lockTimers timeout =>
      obtain ⟨m, -, same⟩ := Option.map_eq_some_iff.mp moved
      cases same
      exact .parks (by simp) (by simp) rfl rfl (by simp [Point.planned])
  | peek timeout =>
      cases moved
      exact .peek timeout
  | unlockTimers timeout deadline =>
      cases moved
      refine .parks (by simp) (by simp) rfl rfl fun e member => ⟨?_, id⟩
      cases deadline with
      | none => exact member
      | some deadline => exact member
  | readClock timeout deadline =>
      cases moved
      exact .parks (by simp) (by simp) rfl rfl fun e member => ⟨member, id⟩
  | enter duration =>
      simp only [advanceParker, ParkPc.move, anyThread, and_self, if_true, Option.map_some] at moved
      cases moved
      refine .parks (by simp) (by simp) rfl rfl ?_
      rw [ofPark_loop_planned]
      exact fun e member => ⟨member, id⟩
  | inner duration waitEnd pc =>
      obtain ⟨⟨inner, pc'⟩, advanced, same⟩ := Option.map_eq_some_iff.mp moved
      cases same
      refine .parks (by simp) (by simp) rfl rfl ?_
      refine planned_of_step ?_ (ParkPc.step_of_advance advanced)
      rintro rfl
      cases advanced

theorem effect_of_advanceSchedule {pc : SchedulePc W}
    (moved : advanceSchedule i s pc = some (s', t')) : Effect i s (.schedule pc) .next s' t' := by
  cases pc with
  | lock entry =>
      obtain ⟨m, -, same⟩ := Option.map_eq_some_iff.mp moved
      cases same
      exact .others rfl nofun nofun rfl rfl id rfl nofun
  | push entry =>
      cases moved
      exact .push entry
  | notify => cases moved
  | unlock =>
      cases moved
      exact .others rfl nofun nofun rfl rfl id rfl nofun

/-- **A step has one of these effects.** -/
theorem effect_of_move (moved : move i s t l = some (s', t')) : Effect i s t l s' t' := by
  cases l with
  | tick =>
      cases moved
      exact .tick t
  | park timeout =>
      cases t with
      | idle =>
          simp only [move] at moved
          split at moved
          · next first =>
              cases moved
              exact .others rfl (by simp) (by simp) rfl rfl id rfl fun _ => first
          · cases moved
      | _ => cases moved
  | schedule deadline waker =>
      cases t with
      | idle =>
          cases moved
          exact .others rfl (by simp) (by simp) rfl rfl id rfl (by simp [Point.parks])
      | _ => cases moved
  | unpark =>
      cases t with
      | idle =>
          simp only [move, ParkPc.move, if_true, Option.map_some] at moved
          cases moved
          obtain ⟨planned, outside⟩ := ofUnpark_planned (W := W) s.clock
            (if s.inner.state = .parked then .lockNotify else .idle)
          exact .others rfl (by simp) (by simp) rfl rfl (fun _ => rfl) planned (by simp [outside])
      | _ => cases moved
  | next =>
      cases t with
      | idle => cases moved
      | park pc => exact effect_of_advanceParker moved
      | schedule pc => exact effect_of_advanceSchedule moved
      | unpark pc =>
          obtain ⟨⟨inner, pc'⟩, advanced, same⟩ := Option.map_eq_some_iff.mp moved
          cases same
          obtain ⟨planned, outside⟩ := ofUnpark_planned (W := W) s.clock pc'
          refine .others rfl (by simp) (by simp) rfl rfl ?_ planned (by simp [outside])
          exact notified_of_unparks (ParkPc.step_of_advance advanced) pc.2
  | wake timedOut =>
      simp only [move] at moved
      split at moved
      · next duration waitEnd pc =>
          split at moved
          · obtain ⟨⟨inner, pc'⟩, woken, same⟩ := Option.map_eq_some_iff.mp moved
            cases same
            refine .parks (by simp) (by simp) rfl rfl ?_
            refine planned_of_step ?_ (ParkPc.step_of_move woken)
            rintro rfl
            cases woken
          · cases moved
      · cases moved
  | notify choice =>
      simp only [move] at moved
      split at moved
      · obtain ⟨m, -, same⟩ := Option.map_eq_some_iff.mp moved
        cases same
        exact .others rfl (by simp) (by simp) rfl rfl id rfl (by simp [Point.parks])
      · next pc =>
          obtain ⟨⟨inner, pc'⟩, notified, same⟩ := Option.map_eq_some_iff.mp moved
          cases same
          obtain ⟨planned, outside⟩ := ofUnpark_planned (W := W) s.clock pc'
          refine .others rfl (by simp) (by simp) rfl rfl ?_ planned (by simp [outside])
          exact notified_of_unparks (ParkPc.step_of_move notified) pc.2
      · cases moved

end Inversion

/-! ## Waits that end in time -/

section Effects

variable {i : Nat} {s s' : Shared H} {t t' : Point W} {l : Label W}

/-- With the deadline ahead, the wait ends by it. -/
theorem innerTimeout_of_lt {deadline now : Nat} (ahead : now < deadline)
    (timeout : Option Nat) :
    now + (innerTimeout (some deadline) now timeout).getD year ≤ deadline := by
  simp only [innerTimeout, if_pos ahead]
  cases timeout with
  | none =>
      simp only [Option.getD_some]
      omega
  | some timeout =>
      simp only
      split
      all_goals
        simp only [Option.getD_some]
        omega

/-- With the deadline passed, the wait is for the whole timeout. -/
theorem innerTimeout_of_le {deadline now : Nat} (passed : deadline ≤ now)
    (timeout : Option Nat) : innerTimeout (some deadline) now timeout = timeout := by
  simp only [innerTimeout, if_neg (Nat.not_lt.mpr passed)]

/-- The wait that is planned as the deadline is read ends in time exactly when the deadline lies
ahead. -/
theorem endsInTime_peek (timeout : Option Nat) :
    s.EndsInTime (s.clock + (innerTimeout s.driver.nextDeadline s.clock timeout).getD year) ↔
      s.bearsPeek timeout = true := by
  simp only [Shared.bearsPeek, decide_eq_true_eq]
  cases next : s.driver.nextDeadline with
  | none => simp [Shared.EndsInTime, next]
  | some deadline =>
      simp only [Shared.EndsInTime, next, Option.mem_def, Option.some.injEq, forall_eq']
      apply or_congr_right
      by_cases ahead : s.clock < deadline
      · exact iff_of_true (.inr (innerTimeout_of_lt ahead timeout)) (.inl ahead)
      · have passed := Nat.le_of_not_lt ahead
        rw [innerTimeout_of_le passed]
        cases timeout with
        | none =>
            refine iff_of_false ?_ ?_
            · simp only [Option.getD_none, year]
              omega
            · simp [ahead]
        | some timeout =>
            simp only [Option.getD_some, Option.some.injEq]
            omega

/-- A wait still ends in time after a push exactly when the timer does not come before its end. -/
theorem endsInTime_push {entry : TimerEntry W} {waitEnd : Nat}
    (before : s.EndsInTime waitEnd) :
    Shared.EndsInTime { s with driver := s.driver.schedule entry.deadline entry.waker } waitEnd ↔
      s.inner.state = .notified ∨ waitEnd ≤ s.clock ∨ waitEnd ≤ entry.deadline := by
  simp only [Shared.EndsInTime, TimeDriver.le_nextDeadline_iff] at before ⊢
  simp only [TimeDriver.schedule, H.items_push, Multiset.mem_cons, forall_eq_or_imp]
  constructor
  · rintro (notified | passed | ⟨first, -⟩)
    · exact .inl notified
    · exact .inr (.inl passed)
    · exact .inr (.inr first)
  · rintro (notified | passed | first)
    · exact .inl notified
    · exact .inr (.inl passed)
    · exact before.imp_right (Or.imp_right fun rest => ⟨first, rest⟩)

end Effects

theorem effect_of_taken {s s' : State H} {i : Nat} {l : Label W}
    (taken : (parkerWithTimers H).step s (i, l) = some s') :
    ∃ t shared t', s.threads[i]? = some t ∧ Effect i s.shared t l shared t' ∧
      s' = ⟨shared, s.threads.set i t'⟩ := by
  replace taken : Pool.step move s (i, l) = some s' := taken
  obtain ⟨t, shared, t', found, moved, same⟩ := Pool.step_eq_some taken
  exact ⟨t, shared, t', found, effect_of_move moved, same⟩

theorem Alone.step {s s' : State H} {a : Nat × Label W} (inv : Alone s)
    (taken : (parkerWithTimers H).step s a = some s') : Alone s' := by
  obtain ⟨i, l⟩ := a
  obtain ⟨t, shared, t', found, effect, rfl⟩ := effect_of_taken taken
  refine Pool.interference_free inv ?_ fun _ _ _ _ => id
  cases effect with
  | tick => exact inv i t found
  | peek timeout => exact fun _ => inv i _ found rfl
  | push entry => exact nofun
  | parks other later clock driver planned => exact fun _ => inv i _ found rfl
  | others outside other later clock driver state planned enters => exact enters

theorem alone {ok : State H → Nat × Label W → Prop} {s : State H}
    (reached : (parkerWithTimers H).ReachesWhen ok s) : Alone s := by
  refine reached.invariant ?_ fun s a s' _ inv _ taken => inv.step taken
  rintro _ ⟨clock, n, rfl⟩ i t found parks
  rw [List.eq_of_mem_replicate (List.mem_of_getElem? found)] at parks
  cases parks

/-- Beside the thread that parks nobody waits. -/
theorem Alone.planned {s : State H} (inv : Alone s) {i j : Nat} {t u : Point W}
    (found : s.threads[i]? = some t) (parks : t.parks = true) (other : j ≠ i)
    (foundU : s.threads[j]? = some u) (clock : Nat) : u.planned clock = none := by
  apply Point.planned_of_not_parks
  by_contra also
  have first := inv i t found parks
  have second := inv j u foundU (Bool.eq_true_of_not_eq_false also)
  exact other (second.trans first.symm)

/-- **A step keeps the waits in time exactly when it meets the condition.** -/
theorem inTime_step_iff {s s' : State H} {a : Nat × Label W} (alone : Alone s) (inv : InTime s)
    (taken : (parkerWithTimers H).step s a = some s') : InTime s' ↔ keepsTime s a = true := by
  obtain ⟨i, l⟩ := a
  obtain ⟨t, shared, t', found, effect, rfl⟩ := effect_of_taken taken
  cases effect with
  | tick =>
      have same : s.threads.set i t = s.threads := by
        obtain ⟨within, rfl⟩ := List.getElem?_eq_some_iff.mp found
        exact List.set_getElem_self within
      simp only [keepsTime, found, InTime, same, List.all_eq_true, Shared.bearsTick,
        Bool.or_eq_true, decide_eq_true_eq]
      constructor
      · intro after u member
        obtain ⟨j, foundU⟩ := List.mem_iff_getElem?.mp member
        exact .inr (after j u foundU)
      · intro bears j u foundU
        rcases bears u (List.mem_of_getElem? foundU) with blocked | bears
        · -- the end of a wait that has begun does not move
          intro e member
          rw [Point.planned_of_blocked blocked _ s.shared.clock] at member
          exact (inv j u foundU e member).imp_right (Or.imp_left Nat.le_succ_of_le)
        · exact bears
  | peek timeout =>
      simp only [keepsTime, found]
      rw [← endsInTime_peek]
      constructor
      · intro after
        exact after i _ (Pool.getElem?_set_self _ found) _ rfl
      · intro ends
        refine Pool.interference_free inv ?_ fun _ _ _ _ => id
        intro e member
        cases member
        exact ends
  | push entry =>
      simp only [keepsTime, found, List.all_eq_true, Shared.bearsPush, decide_eq_true_eq]
      constructor
      · intro after u member e planned
        obtain ⟨j, foundU⟩ := List.mem_iff_getElem?.mp member
        have other : i ≠ j := by
          rintro rfl
          obtain rfl := Option.some.inj (found.symm.trans foundU)
          cases planned
        have ends := after j u (by rwa [List.getElem?_set_ne other]) e planned
        exact (endsInTime_push (inv j u foundU e planned)).mp ends
      · intro bears
        refine Pool.interference_free inv nofun fun j u _ foundU ends e planned => ?_
        exact (endsInTime_push (ends e planned)).mpr
          (bears u (List.mem_of_getElem? foundU) e planned)
  | @parks pc l s' t' other later clock driver planned =>
      refine iff_of_true ?_ ?_
      · refine Pool.interference_free inv (fun e member => ?_) fun j u away foundU _ e member => ?_
        · rw [clock] at member
          obtain ⟨before, notified⟩ := planned e member
          rcases inv i _ found e before with now | passed | ahead
          · exact .inl (notified now)
          · exact .inr (.inl (by rwa [clock]))
          · exact .inr (.inr (by rwa [driver]))
        · rw [alone.planned found rfl away foundU] at member
          cases member
      · unfold keepsTime
        split
        · next now _ => exact absurd now later
        · next same =>
            rw [found] at same
            cases same
            exact absurd rfl (other _)
        · next same =>
            rw [found] at same
            cases same
        · rfl
  | others outside other later clock driver state planned enters =>
      refine iff_of_true ?_ ?_
      · refine Pool.interference_free inv (fun e member => ?_) fun j u _ _ ends e member => ?_
        · rw [clock, planned] at member
          cases member
        · rw [clock] at member
          rcases ends e member with now | passed | ahead
          · exact .inl (state now)
          · exact .inr (.inl (by rwa [clock]))
          · exact .inr (.inr (by rwa [driver]))
      · unfold keepsTime
        split
        · next now _ => exact absurd now later
        · next same =>
            rw [found] at same
            cases same
            cases outside
        · next same =>
            rw [found] at same
            cases same
            exact absurd rfl (other _)
        · rfl

/-- **Every wait ends in time exactly along the runs whose steps meet the condition.** -/
theorem inTime_along_iff (H : TimerHeap W) (clock n : Nat) (labels : List (Nat × Label W)) :
    (parkerWithTimers H).Always InTime (startWith H clock n) labels ↔
      (parkerWithTimers H).Meets (fun s a => keepsTime s a = true) (startWith H clock n)
        labels := by
  refine Machine.always_iff_meets (fun s a s' reached inv taken =>
    inTime_step_iff (alone reached) inv taken) (.start ⟨clock, n, rfl⟩) ?_
  intro i t found e member
  rw [List.eq_of_mem_replicate (List.mem_of_getElem? found)] at member
  cases member

/-- **The thread does not oversleep** in a run in which the deadline that is read lies ahead, no
time beyond the slack passes on the way to the wait, and no timer is pushed that comes before the
end of the wait. -/
theorem onTime_of_keepsTime {s : State H}
    (reached : (parkerWithTimers H).ReachesWhen (fun s a => keepsTime s a = true) s) :
    OnTime s := by
  have inv : InTime s := by
    refine reached.invariant ?_ ?_
    · rintro _ ⟨clock, n, rfl⟩ i t found e member
      rw [List.eq_of_mem_replicate (List.mem_of_getElem? found)] at member
      cases member
    · exact fun s a s' before inv meets taken =>
        (inTime_step_iff (alone before) inv taken).mpr meets
  intro i duration waitEnd timed found _ _ deadline next
  rcases inv i _ found waitEnd rfl with pending | passed | ahead
  · exact .inr pending
  · exact .inl (Nat.le_trans passed (Nat.le_max_right deadline _))
  · exact .inl (Nat.le_trans (ahead deadline next) (Nat.le_max_left deadline _))

/-- The timers of a driver that scans a list. -/
def listTimers : TimerHeap Nat := .ofList (TimerEntry Nat) TimerEntry.cmp

/-- Thread `0` parks, up to its wait, with `steps` operations. -/
def parksFor (steps : Nat) : List (Nat × Label Nat) :=
  (0, .park none) :: List.replicate steps (0, .next)

/-- Thread `1` schedules a timer. -/
def schedulesAt (deadline : Nat) : List (Nat × Label Nat) :=
  [(1, .schedule deadline 0), (1, .next), (1, .next), (1, .notify 0), (1, .next)]

/-- Thread `0` is blocked until `waitEnd`, and no timer is being scheduled. -/
def blockedUntil (waitEnd : Nat) (s : State listTimers) : Bool :=
  match s.threads with
  | [.park (.inner _ (some e) (.waiting _)), .idle] =>
      e == waitEnd && s.shared.inner.monitor.waiting == [0] && s.shared.inner.state == .parked
  | _ => false

/-- A timer is scheduled before the thread parks: it sleeps up to the deadline. -/
theorem onTime_scheduledFirst : ∃ s : State listTimers,
    (parkerWithTimers listTimers).ReachesWhen (fun s a => keepsTime s a = true) s ∧
      blockedUntil 5 s = true ∧ s.shared.driver.nextDeadline = some 5 ∧ OnTime s := by
  obtain ⟨s, reached, tested⟩ := (parkerWithTimers listTimers).exists_reachesWhen_of_test
    (fun s a => keepsTime s a = true)
    (fun s => blockedUntil 5 s && s.shared.driver.nextDeadline == some 5)
    (schedulesAt 5 ++ parksFor 8) ⟨0, 2, rfl⟩ (by decide)
  simp only [Bool.and_eq_true, beq_iff_eq] at tested
  exact ⟨s, reached, tested.1, tested.2, onTime_of_keepsTime reached⟩

/-- A timer is scheduled after the thread has parked: it sleeps on for a year. -/
theorem oversleeps : ∃ s : State listTimers,
    (parkerWithTimers listTimers).Reaches s ∧ ¬OnTime s := by
  obtain ⟨s, reached, tested⟩ := (parkerWithTimers listTimers).exists_reaches_of_test
    (fun s => blockedUntil year s && s.shared.driver.nextDeadline == some 5 &&
      s.shared.clock == 0) (parksFor 7 ++ schedulesAt 5) ⟨0, 2, rfl⟩ (by decide)
  simp only [Bool.and_eq_true, beq_iff_eq] at tested
  obtain ⟨⟨blocked, next⟩, clock⟩ := tested
  refine ⟨s, reached, ?_⟩
  intro onTime
  unfold blockedUntil at blocked
  split at blocked
  · next duration waitEnd timed threads =>
      simp only [Bool.and_eq_true, beq_iff_eq] at blocked
      obtain ⟨⟨rfl, waiting⟩, parked⟩ := blocked
      have quiet : ∀ t ∈ s.threads, t.schedules = false := by
        rw [threads]
        simp [Point.schedules]
      have ends := onTime 0 duration year timed (by rw [threads]; rfl) (by simp [waiting]) quiet 5
        next
      rw [clock, parked] at ends
      rcases ends with early | notified
      · simp [year] at early
      · cases notified
  · cases blocked

end LoonyRuntime.Time
