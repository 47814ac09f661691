import LoonyRuntime.Concurrent.Monitor

/-!
# The condvar parkers

`ThreadPark` of `park.rs` and `ThreadParker` of `current_thread.rs` park a thread on a state word,
a mutex and a condition variable. They differ after the wait: `ThreadPark` holds the guard through
its closing swap, `ThreadParker` drops it at once and looks at the result of the timeout, and only
`ThreadParker` has a wait without a timeout.

The parking thread moves the word from `EMPTY` to `PARKED` before it takes the mutex, and does not
read the word again before it waits. An unpark that falls between the two finds nobody to notify.
`unlost_along_iff` says that no unpark is lost exactly along the runs in which the parking thread
never waits on a word that is `NOTIFIED` without an unpark that has yet to notify.
-/

set_option autoImplicit false

namespace LoonyRuntime.Runtime

open Concurrent

/-! ## Program points -/

/-- `ThreadPark` or `ThreadParker`. -/
inductive ParkerImpl where
  | threadPark
  | threadParker
deriving DecidableEq, Repr

/-- The values of the state word: `EMPTY`, `PARKED` and `NOTIFIED`. -/
inductive ParkState where
  | empty
  | parked
  | notified
deriving DecidableEq, Repr

/-- Where a thread is. `timed` says that the wait has a timeout, and `failed` counts the exchanges
of the loop that failed so far. -/
inductive ParkPc where
  /-- Inside no call. -/
  | idle
  /-- `compare_exchange(NOTIFIED, EMPTY)`. -/
  | consume (timed : Bool) (failed : Nat)
  /-- `compare_exchange(EMPTY, PARKED)`. -/
  | prepare (timed : Bool) (failed : Nat)
  | lock (timed : Bool)
  | wait (timed : Bool)
  | waiting (timed : Bool)
  /-- The wait is over and takes the mutex again. -/
  | reacquire (timedOut : Bool)
  /-- `ThreadParker` drops the guard at the end of the wait's statement. -/
  | dropGuard (timedOut : Bool)
  /-- `ThreadParker` loads the word after a timeout. -/
  | loadTimedOut
  /-- `ThreadParker` stores `EMPTY` after a timeout. -/
  | storeEmpty
  /-- The closing `swap(EMPTY)`, of `ThreadPark` under the guard. -/
  | swap (guarded : Bool)
  /-- `ThreadPark` drops the guard on its return. -/
  | unlock
  /-- The `unreachable!()` arm: the closing swap has found `EMPTY`. -/
  | unreachable (guarded : Bool)
  /-- `unpark` has found `PARKED`. -/
  | lockNotify
  | notify
  | unlockNotify
deriving DecidableEq, Repr

/-- The head of the exchange loop, with the value of its local `state`. -/
def ParkPc.loop (timed : Bool) (failed : Nat) (state : ParkState) : ParkPc :=
  if state = .notified then .consume timed failed else .prepare timed failed

/-- The state word and the monitor of a parker. -/
structure Parker where
  state : ParkState
  monitor : Monitor
deriving DecidableEq, Repr

def Parker.new : Parker := ⟨.empty, .new⟩

/-! ## Steps -/

inductive ParkLabel where
  /-- `park` or `park_timeout` is called: the first load. -/
  | park (timed : Bool)
  /-- `unpark` is called: its swap. -/
  | unpark
  /-- The next operation. -/
  | next
  /-- The wait ends, by a notification, spuriously, or by its timeout. -/
  | wake (timedOut : Bool)
  /-- `notify_one` wakes this thread, if any waits. -/
  | notify (choice : Nat)
deriving DecidableEq, Repr

/-- `park` of `ThreadPark` is a `park_timeout` of a year. -/
def ParkerImpl.waitsTimed : ParkerImpl → Bool → Bool
  | .threadPark, _ => true
  | .threadParker, timed => timed

/-- The next operation of `park_timeout` or of `unpark`. -/
def ParkPc.advance (impl : ParkerImpl) (i : Nat) (s : Parker) : ParkPc → Option (Parker × ParkPc)
  | .consume timed failed =>
      if s.state = .notified then some ({ s with state := .empty }, .idle)
      else some (s, .loop timed (failed + 1) s.state)
  | .prepare timed failed =>
      if s.state = .empty then some ({ s with state := .parked }, .lock timed)
      else some (s, .loop timed (failed + 1) s.state)
  | .lock timed => (s.monitor.acquire i).map fun m => ({ s with monitor := m }, .wait timed)
  | .wait timed => some ({ s with monitor := s.monitor.wait i }, .waiting timed)
  | .reacquire timedOut =>
      (s.monitor.acquire i).map fun m =>
        ({ s with monitor := m },
          match impl with
          | .threadPark => .swap true
          | .threadParker => .dropGuard timedOut)
  | .dropGuard timedOut =>
      some ({ s with monitor := s.monitor.release },
        if timedOut = true then .loadTimedOut else .swap false)
  | .loadTimedOut => some (s, if s.state = .parked then .storeEmpty else .swap false)
  | .storeEmpty => some ({ s with state := .empty }, .idle)
  | .swap guarded =>
      some ({ s with state := .empty },
        if s.state = .empty then .unreachable guarded
        else if guarded = true then .unlock else .idle)
  | .unlock => some ({ s with monitor := s.monitor.release }, .idle)
  | .lockNotify => (s.monitor.acquire i).map fun m => ({ s with monitor := m }, .notify)
  | .unlockNotify => some ({ s with monitor := s.monitor.release }, .idle)
  | _ => none

/-- One step of thread `i`, which may park if `mayPark i`. -/
def ParkPc.move (impl : ParkerImpl) (mayPark : Nat → Bool) (i : Nat) (s : Parker) (pc : ParkPc) :
    ParkLabel → Option (Parker × ParkPc)
  | .park timed =>
      if pc = .idle ∧ mayPark i = true then some (s, .loop (impl.waitsTimed timed) 0 s.state)
      else none
  | .unpark =>
      if pc = .idle then
        some ({ s with state := .notified }, if s.state = .parked then .lockNotify else .idle)
      else none
  | .next => pc.advance impl i s
  | .wake timedOut =>
      match pc with
      | .waiting timed =>
          if timedOut = true → timed = true then
            some ({ s with monitor := s.monitor.leave i }, .reacquire timedOut)
          else none
      | _ => none
  | .notify choice =>
      if pc = .notify then
        (s.monitor.notifyOne choice).map fun m => ({ s with monitor := m }, .unlockNotify)
      else none

/-- A parker and the threads that use it. -/
abbrev ParkingState := Pool Parker ParkPc

/-- A new parker with `n` threads. -/
def parkingWith (n : Nat) : ParkingState := ⟨.new, List.replicate n .idle⟩

/-- The machine of a parker. -/
def parking (impl : ParkerImpl) (mayPark : Nat → Bool) : Machine ParkingState (Nat × ParkLabel)
    where
  initial s := ∃ n, s = parkingWith n
  step := Pool.step (ParkPc.move impl mayPark)

/-- Thread `0` is the one that parks. -/
def onlyFirst (i : Nat) : Bool := i == 0

/-! ## What a step can do -/

namespace ParkPc

/-- The head of the loop is a point inside `park_timeout` before the exchange. -/
theorem loop_cases (timed : Bool) (failed : Nat) (state : ParkState) :
    loop timed failed state = .consume timed failed ∨
      loop timed failed state = .prepare timed failed := by
  unfold loop
  split
  · exact .inl rfl
  · exact .inr rfl

/-- The outcomes of one step of thread `i`, with what the step found. -/
inductive Step (mayPark : Nat → Bool) (i : Nat) (s : Parker) :
    ParkPc → Parker → ParkPc → Prop where
  | park (timed : Bool) (may : mayPark i = true) : Step mayPark i s .idle s (loop timed 0 s.state)
  | unparkParked (parked : s.state = .parked) :
      Step mayPark i s .idle { s with state := .notified } .lockNotify
  | unparkDone (unparked : s.state ≠ .parked) :
      Step mayPark i s .idle { s with state := .notified } .idle
  | consumed {timed : Bool} {failed : Nat} (notified : s.state = .notified) :
      Step mayPark i s (.consume timed failed) { s with state := .empty } .idle
  | consumeFailed {timed : Bool} {failed : Nat} (other : s.state ≠ .notified) :
      Step mayPark i s (.consume timed failed) s (loop timed (failed + 1) s.state)
  | prepared {timed : Bool} {failed : Nat} (empty : s.state = .empty) :
      Step mayPark i s (.prepare timed failed) { s with state := .parked } (.lock timed)
  | prepareFailed {timed : Bool} {failed : Nat} (other : s.state ≠ .empty) :
      Step mayPark i s (.prepare timed failed) s (loop timed (failed + 1) s.state)
  | lock {timed : Bool} {m : Monitor} (taken : s.monitor.acquire i = some m) :
      Step mayPark i s (.lock timed) { s with monitor := m } (.wait timed)
  | wait {timed : Bool} :
      Step mayPark i s (.wait timed) { s with monitor := s.monitor.wait i } (.waiting timed)
  | wake {timed : Bool} (timedOut : Bool) :
      Step mayPark i s (.waiting timed) { s with monitor := s.monitor.leave i }
        (.reacquire timedOut)
  | reacquiredGuarded {timedOut : Bool} {m : Monitor} (taken : s.monitor.acquire i = some m) :
      Step mayPark i s (.reacquire timedOut) { s with monitor := m } (.swap true)
  | reacquired {timedOut : Bool} {m : Monitor} (taken : s.monitor.acquire i = some m) :
      Step mayPark i s (.reacquire timedOut) { s with monitor := m } (.dropGuard timedOut)
  | dropGuardTimedOut :
      Step mayPark i s (.dropGuard true) { s with monitor := s.monitor.release } .loadTimedOut
  | dropGuard :
      Step mayPark i s (.dropGuard false) { s with monitor := s.monitor.release } (.swap false)
  | timedOutParked (parked : s.state = .parked) : Step mayPark i s .loadTimedOut s .storeEmpty
  | timedOutOther (other : s.state ≠ .parked) : Step mayPark i s .loadTimedOut s (.swap false)
  | storeEmpty : Step mayPark i s .storeEmpty { s with state := .empty } .idle
  | swapEmpty {guarded : Bool} (empty : s.state = .empty) :
      Step mayPark i s (.swap guarded) { s with state := .empty } (.unreachable guarded)
  | swapGuarded (other : s.state ≠ .empty) :
      Step mayPark i s (.swap true) { s with state := .empty } .unlock
  | swap (other : s.state ≠ .empty) :
      Step mayPark i s (.swap false) { s with state := .empty } .idle
  | unlock : Step mayPark i s .unlock { s with monitor := s.monitor.release } .idle
  | lockNotify {m : Monitor} (taken : s.monitor.acquire i = some m) :
      Step mayPark i s .lockNotify { s with monitor := m } .notify
  | notify {m : Monitor} {choice : Nat} (notified : s.monitor.notifyOne choice = some m) :
      Step mayPark i s .notify { s with monitor := m } .unlockNotify
  | unlockNotify : Step mayPark i s .unlockNotify { s with monitor := s.monitor.release } .idle

variable {impl : ParkerImpl} {mayPark : Nat → Bool} {i : Nat} {s s' : Parker} {pc pc' : ParkPc}
  {l : ParkLabel}

/-- The next operation of a call has one of these outcomes. -/
theorem step_of_advance (moved : pc.advance impl i s = some (s', pc')) :
    Step mayPark i s pc s' pc' := by
  cases pc with
  | consume timed failed =>
      simp only [advance] at moved
      split at moved
      · next notified =>
          cases moved
          exact .consumed notified
      · next other =>
          cases moved
          exact .consumeFailed other
  | prepare timed failed =>
      simp only [advance] at moved
      split at moved
      · next empty =>
          cases moved
          exact .prepared empty
      · next other =>
          cases moved
          exact .prepareFailed other
  | lock timed =>
      obtain ⟨m, taken, same⟩ := Option.map_eq_some_iff.mp moved
      cases same
      exact .lock taken
  | wait timed =>
      cases moved
      exact .wait
  | reacquire timedOut =>
      obtain ⟨m, taken, same⟩ := Option.map_eq_some_iff.mp moved
      cases impl with
      | threadPark =>
          cases same
          exact .reacquiredGuarded taken
      | threadParker =>
          cases same
          exact .reacquired taken
  | dropGuard timedOut =>
      cases timedOut with
      | true =>
          cases moved
          exact .dropGuardTimedOut
      | false =>
          cases moved
          exact .dropGuard
  | loadTimedOut =>
      simp only [advance] at moved
      split at moved
      · next parked =>
          cases moved
          exact .timedOutParked parked
      · next other =>
          cases moved
          exact .timedOutOther other
  | storeEmpty =>
      cases moved
      exact .storeEmpty
  | swap guarded =>
      simp only [advance] at moved
      split at moved
      · next empty =>
          cases moved
          exact .swapEmpty empty
      · next other =>
          cases guarded with
          | true =>
              cases moved
              exact .swapGuarded other
          | false =>
              cases moved
              exact .swap other
  | unlock =>
      cases moved
      exact .unlock
  | lockNotify =>
      obtain ⟨m, taken, same⟩ := Option.map_eq_some_iff.mp moved
      cases same
      exact .lockNotify taken
  | unlockNotify =>
      cases moved
      exact .unlockNotify
  | idle | waiting _ | unreachable _ | notify => cases moved

/-- **A step has one of these outcomes.** -/
theorem step_of_move (moved : pc.move impl mayPark i s l = some (s', pc')) :
    Step mayPark i s pc s' pc' := by
  cases l with
  | park timed =>
      simp only [move] at moved
      split at moved
      · next can =>
          obtain ⟨rfl, may⟩ := can
          cases moved
          exact .park _ may
      · cases moved
  | unpark =>
      simp only [move] at moved
      split at moved
      · next idle =>
          subst idle
          split at moved
          · next parked =>
              cases moved
              exact .unparkParked parked
          · next unparked =>
              cases moved
              exact .unparkDone unparked
      · cases moved
  | next => exact step_of_advance moved
  | wake timedOut =>
      simp only [move] at moved
      split at moved
      · split at moved
        · cases moved
          exact .wake timedOut
        · cases moved
      · cases moved
  | notify choice =>
      simp only [move] at moved
      split at moved
      · next here =>
          subst here
          obtain ⟨m, notified, same⟩ := Option.map_eq_some_iff.mp moved
          cases same
          exact .notify notified
      · cases moved

/-! ## Points -/

/-- The points at which a thread holds the mutex. -/
def holds : ParkPc → Bool
  | .wait _ | .dropGuard _ | .unlock | .notify | .unlockNotify => true
  | .swap guarded | .unreachable guarded => guarded
  | _ => false

/-- The point of waiting. -/
def blocked : ParkPc → Bool
  | .waiting _ => true
  | _ => false

/-- The points inside `park_timeout`. -/
def parks : ParkPc → Bool
  | .idle | .lockNotify | .notify | .unlockNotify => false
  | _ => true

/-- The points between the exchange to `PARKED` and the closing write of `EMPTY`. -/
def committed : ParkPc → Bool
  | .lock _ | .wait _ | .waiting _ | .reacquire _ | .dropGuard _ | .loadTimedOut | .storeEmpty
  | .swap _ => true
  | _ => false

/-- The points of an `unpark` that has yet to notify. -/
def yetToNotify : ParkPc → Bool
  | .lockNotify | .notify => true
  | _ => false

/-- The points inside `unpark`. -/
def unparks : ParkPc → Bool
  | .lockNotify | .notify | .unlockNotify => true
  | _ => false

theorem parks_of_committed (committed : pc.committed = true) : pc.parks = true := by
  cases pc <;> first | rfl | cases committed

theorem parks_of_blocked (blocked : pc.blocked = true) : pc.parks = true := by
  cases pc <;> first | rfl | cases blocked

theorem committed_of_blocked (blocked : pc.blocked = true) : pc.committed = true := by
  cases pc <;> first | rfl | cases blocked

theorem unparks_of_yetToNotify (yet : pc.yetToNotify = true) : pc.unparks = true := by
  cases pc <;> first | rfl | cases yet

theorem yetToNotify_or_holds (unparks : pc.unparks = true) :
    pc.yetToNotify = true ∨ pc.holds = true := by
  cases pc <;> first | exact .inl rfl | exact .inr rfl | cases unparks

/-- The head of the loop neither holds the mutex nor is past the exchange. -/
theorem loop_quiet (timed : Bool) (failed : Nat) (state : ParkState) :
    (loop timed failed state).holds = false ∧ (loop timed failed state).committed = false := by
  rcases loop_cases timed failed state with head | head <;> rw [head] <;> exact ⟨rfl, rfl⟩

/-- **What a step does with the monitor.** -/
theorem Step.uses (step : Step mayPark i s pc s' pc') :
    Monitor.Uses holds blocked i pc pc' s.monitor s'.monitor := by
  cases step with
  | park | consumeFailed | prepareFailed => exact .quiet rfl (loop_quiet _ _ _).1
  | unparkParked | unparkDone | consumed | prepared | timedOutParked | timedOutOther | storeEmpty
  | swap => exact .quiet rfl rfl
  | swapEmpty | swapGuarded => exact .quiet rfl rfl
  | lock taken => exact .acquire rfl rfl taken
  | reacquiredGuarded taken => exact .acquire rfl rfl taken
  | reacquired taken => exact .acquire rfl rfl taken
  | lockNotify taken => exact .acquire rfl rfl taken
  | wait => exact .wait rfl rfl rfl
  | wake => exact .leave rfl
  | dropGuardTimedOut | dropGuard | unlock | unlockNotify => exact .release rfl rfl rfl
  | notify notified => exact .notifyOne rfl rfl notified

/-- Past the exchange the word is not `EMPTY`. -/
theorem Step.state_ne_empty (step : Step mayPark i s pc s' pc')
    (before : pc.committed = true → s.state ≠ .empty) (now : pc'.committed = true) :
    s'.state ≠ .empty := by
  cases step with
  | park | consumeFailed | prepareFailed =>
      rw [(loop_quiet _ _ _).2] at now
      cases now
  | prepared => nofun
  | lock | wait | wake | reacquiredGuarded | reacquired | dropGuardTimedOut | dropGuard
  | timedOutParked | timedOutOther => exact before rfl
  | _ => cases now

/-- Only a thread inside `park_timeout` makes the word `EMPTY`. -/
theorem Step.parks_of_empties (step : Step mayPark i s pc s' pc') (before : s.state ≠ .empty)
    (empty : s'.state = .empty) : pc.parks = true := by
  cases step with
  | unparkParked | unparkDone => cases empty
  | park | lockNotify | notify | unlockNotify => exact absurd empty before
  | _ => rfl

/-- A thread is inside `park_timeout` if it was, or if it may park. -/
theorem Step.parks_cases (step : Step mayPark i s pc s' pc') (now : pc'.parks = true) :
    pc.parks = true ∨ mayPark i = true := by
  cases step with
  | park _ may => exact .inr may
  | unparkParked | unparkDone | lockNotify | notify | unlockNotify => cases now
  | _ => exact .inl rfl

/-- A thread comes to wait from the point before the wait only. -/
theorem Step.waits (step : Step mayPark i s pc s' pc') (blocked : pc'.blocked = true) :
    ∃ timed, pc = .wait timed := by
  cases step with
  | wait => exact ⟨_, rfl⟩
  | park | consumeFailed | prepareFailed =>
      have committed := committed_of_blocked blocked
      rw [(loop_quiet _ _ _).2] at committed
      cases committed
  | _ => cases blocked

/-- An `unpark` that comes to release its guard has notified. -/
theorem Step.notified (step : Step mayPark i s pc s' pc') (past : pc' = .unlockNotify) :
    ∃ choice, s.monitor.notifyOne choice = some s'.monitor := by
  cases step with
  | notify notified => exact ⟨_, notified⟩
  | park | consumeFailed | prepareFailed =>
      have held : ParkPc.unlockNotify.holds = false := past ▸ (loop_quiet _ _ _).1
      cases held
  | _ => cases past

/-- An `unpark` finishes by the release of its guard, or at once when it did not find `PARKED`. -/
theorem Step.finishes (step : Step mayPark i s pc s' pc') (outside : pc.parks = false)
    (still : pc'.parks = false) (finished : pc'.unparks = false) :
    pc = .unlockNotify ∨ pc = .idle ∧ s.state ≠ .parked ∧ s'.monitor = s.monitor := by
  cases step with
  | unlockNotify => exact .inl rfl
  | unparkDone unparked => exact .inr ⟨rfl, unparked, rfl⟩
  | park timed =>
      rcases loop_cases timed 0 s.state with head | head <;> rw [head] at still <;> cases still
  | unparkParked | lockNotify | notify => cases finished
  | _ => cases outside

end ParkPc

/-! ## One thread that parks -/

/-- What holds when only the first thread parks. -/
structure Alone (s : ParkingState) : Prop where
  keeps : Monitor.Keeps ParkPc.holds ParkPc.blocked s.shared.monitor s.threads
  first : Pool.Each (fun i pc => pc.parks = true → i = 0) s.threads
  committed : Pool.Each (fun _ pc => pc.committed = true → s.shared.state ≠ .empty) s.threads
  notified : Pool.Each (fun _ pc => pc = .unlockNotify → 0 ∉ s.shared.monitor.waiting) s.threads

theorem alone_parkingWith (n : Nat) : Alone (parkingWith n) := by
  have idle : ∀ pc ∈ List.replicate n ParkPc.idle, pc = .idle := fun pc member =>
    List.eq_of_mem_replicate member
  have idleAt : ∀ (i : Nat) (pc : ParkPc), (List.replicate n ParkPc.idle)[i]? = some pc →
      pc = .idle := fun i pc found => idle pc (List.mem_of_getElem? found)
  refine ⟨.new fun pc member => ?_, fun i pc found => ?_, fun i pc found => ?_,
    fun i pc found => ?_⟩
  · rw [idle pc member]
    rfl
  all_goals
    rw [idleAt i pc found]
    nofun

/-- Only the first thread waits. -/
theorem Alone.eq_zero_of_waiting {s : ParkingState} (inv : Alone s) {i : Nat}
    (member : i ∈ s.shared.monitor.waiting) : i = 0 := by
  obtain ⟨pc, found, blocked⟩ := inv.keeps.waiting i member
  exact inv.first i pc found (ParkPc.parks_of_blocked blocked)

/-- **Every step keeps it.** -/
theorem Alone.step {impl : ParkerImpl} {s s' : ParkingState} {a : Nat × ParkLabel}
    (inv : Alone s) (taken : (parking impl onlyFirst).step s a = some s') : Alone s' := by
  obtain ⟨i, l⟩ := a
  replace taken : Pool.step (ParkPc.move impl onlyFirst) s (i, l) = some s' := taken
  obtain ⟨pc, shared, pc', found, moved, rfl⟩ := Pool.step_eq_some taken
  have step := ParkPc.step_of_move moved
  refine ⟨inv.keeps.uses found step.uses, ?_, ?_, ?_⟩
  · refine Pool.interference_free inv.first ?_ fun _ _ _ _ => id
    intro now
    rcases step.parks_cases now with before | may
    · exact inv.first i pc found before
    · exact eq_of_beq may
  · refine Pool.interference_free inv.committed ?_ fun j u other foundU before now => ?_
    · exact step.state_ne_empty (inv.committed i pc found)
    · intro empty
      have mover := inv.first i pc found (step.parks_of_empties (before now) empty)
      have same := inv.first j u foundU (ParkPc.parks_of_committed now)
      omega
  · refine Pool.interference_free inv.notified (fun past member => ?_)
      fun j u other foundU before past member => ?_
    · obtain ⟨choice, notified⟩ := step.notified past
      rcases Monitor.notifyOne_eq_some notified with ⟨empty, same⟩ | ⟨chosen, same⟩
      · rw [same, empty] at member
        cases member
      · have first := inv.eq_zero_of_waiting chosen
        rw [same, Monitor.mem_leave_waiting] at member
        exact member.2 first.symm
    · rcases step.uses.mem_waiting member with stayed | ⟨-, hold, -⟩
      · exact before past stayed
      · exact other (inv.keeps.exclusive foundU found (by rw [past]; rfl) hold)

/-! ## Lost unparks -/

/-- The parking thread is blocked without having been notified, the word is `NOTIFIED`, and every
`unpark` has finished. -/
structure Lost (s : ParkingState) : Prop where
  blocked : ∃ timed, s.threads[0]? = some (.waiting timed)
  unnotified : 0 ∈ s.shared.monitor.waiting
  state : s.shared.state = .notified
  finished : Pool.Each (fun _ pc => pc.unparks = false) s.threads

/-- A thread that is about to wait on a `NOTIFIED` word has an `unpark` yet to notify. -/
def waitsCovered (s : ParkingState) (a : Nat × ParkLabel) : Bool :=
  match s.threads[a.1]? with
  | some (.wait _) => s.shared.state != .notified || s.threads.any ParkPc.yetToNotify
  | _ => true

/-- The wait loses the unpark exactly when it is not covered. -/
theorem lost_of_wait_iff {s : ParkingState} (inv : Alone s) {timed : Bool}
    (found : s.threads[0]? = some (.wait timed)) :
    Lost ⟨{ s.shared with monitor := s.shared.monitor.wait 0 }, s.threads.set 0 (.waiting timed)⟩ ↔
      s.shared.state = .notified ∧ s.threads.any ParkPc.yetToNotify = false := by
  constructor
  · intro lost
    refine ⟨lost.state, List.any_eq_false.mpr ?_⟩
    intro pc member yet
    obtain ⟨j, foundJ⟩ := List.mem_iff_getElem?.mp member
    by_cases first : j = 0
    · subst first
      obtain rfl : ParkPc.wait timed = pc := Option.some.inj (found.symm.trans foundJ)
      cases yet
    · have unparks : pc.unparks = false :=
        lost.finished j pc (by rwa [List.getElem?_set_ne (Ne.symm first)])
      rw [ParkPc.unparks_of_yetToNotify yet] at unparks
      cases unparks
  · rintro ⟨notified, none⟩
    refine ⟨⟨timed, Pool.getElem?_set_self _ found⟩, List.mem_cons_self, notified, ?_⟩
    have others : Pool.Each (fun j pc => j ≠ 0 → pc.unparks = false) s.threads := by
      intro j pc foundJ other
      by_contra unparks
      rcases ParkPc.yetToNotify_or_holds (Bool.eq_true_of_not_eq_false unparks) with yet | hold
      · exact List.any_eq_false.mp none pc (List.mem_of_getElem? foundJ) yet
      · exact other (inv.keeps.exclusive foundJ found hold rfl)
    exact Pool.interference_free others rfl fun j u other _ finished => finished other

/-- A step that is no wait loses no unpark that was not lost. -/
theorem not_lost_of_step {s : ParkingState} {i : Nat} {pc pc' : ParkPc} {shared : Parker}
    (inv : Alone s) (found : s.threads[i]? = some pc)
    (step : ParkPc.Step onlyFirst i s.shared pc shared pc') (awake : ∀ timed, pc ≠ .wait timed)
    (kept : ¬Lost s) : ¬Lost ⟨shared, s.threads.set i pc'⟩ := by
  intro lost
  obtain ⟨timed, blocked⟩ := lost.blocked
  by_cases first : i = 0
  · subst first
    rw [Pool.getElem?_set_self pc' found] at blocked
    obtain ⟨timed', before⟩ := step.waits (by rw [Option.some.inj blocked]; rfl)
    exact awake timed' before
  · rw [List.getElem?_set_ne first] at blocked
    have outside : pc.parks = false := Bool.eq_false_of_not_eq_true fun parks =>
      first (inv.first i pc found parks)
    have still : pc'.parks = false := Bool.eq_false_of_not_eq_true fun parks => by
      rcases step.parks_cases parks with before | may
      · rw [outside] at before
        cases before
      · exact first (eq_of_beq may)
    have unnotified : 0 ∈ s.shared.monitor.waiting := by
      rcases step.uses.mem_waiting lost.unnotified with stayed | ⟨same, -⟩
      · exact stayed
      · exact absurd same.symm first
    have finished := lost.finished i pc' (Pool.getElem?_set_self pc' found)
    rcases step.finishes outside still finished with past | ⟨idle, unparked, same⟩
    · exact inv.notified i pc found past unnotified
    · refine kept ⟨⟨timed, blocked⟩, unnotified, ?_, fun j u foundU => ?_⟩
      · have nonempty := inv.committed 0 _ blocked rfl
        cases state : s.shared.state with
        | empty => exact absurd state nonempty
        | parked => exact absurd state unparked
        | notified => rfl
      · by_cases mover : j = i
        · subst mover
          obtain rfl : pc = u := Option.some.inj (found.symm.trans foundU)
          rw [idle]
          rfl
        · exact lost.finished j u (by rwa [List.getElem?_set_ne (Ne.symm mover)])

/-- **No unpark is lost exactly along the runs in which the parking thread never waits on a word
that is `NOTIFIED` without an unpark that has yet to notify.** -/
theorem unlost_along_iff (impl : ParkerImpl) (n : Nat) (labels : List (Nat × ParkLabel)) :
    (parking impl onlyFirst).Always (fun s => ¬Lost s) (parkingWith n) labels ↔
      (parking impl onlyFirst).Meets (fun s a => waitsCovered s a = true) (parkingWith n)
        labels := by
  refine Machine.always_iff_meets ?_ (.start ⟨n, rfl⟩) fun lost => nomatch lost.unnotified
  intro s a s' reached kept taken
  have inv : Alone s := reached.invariant (by rintro _ ⟨n, rfl⟩; exact alone_parkingWith n)
    fun _ _ _ _ inv _ taken => inv.step taken
  obtain ⟨i, l⟩ := a
  replace taken : Pool.step (ParkPc.move impl onlyFirst) s (i, l) = some s' := taken
  obtain ⟨pc, shared, pc', found, moved, rfl⟩ := Pool.step_eq_some taken
  have step := ParkPc.step_of_move moved
  by_cases waits : ∃ timed, pc = .wait timed
  · obtain ⟨timed, rfl⟩ := waits
    obtain rfl := inv.first i _ found rfl
    cases step
    rw [lost_of_wait_iff inv found, waitsCovered, found]
    simp only [Bool.or_eq_true, bne_iff_ne, ne_eq, not_and, Bool.not_eq_false]
    exact imp_iff_not_or
  · have covered : waitsCovered s (i, l) = true := by
      simp only [waitsCovered, found]
      cases pc with
      | wait timed => exact absurd ⟨timed, rfl⟩ waits
      | _ => rfl
    refine iff_of_true ?_ covered
    exact not_lost_of_step inv found step (fun timed same => waits ⟨timed, same⟩) kept

/-- The unpark falls between the exchange to `PARKED` and the wait. -/
def unparkedBeforeWait : List (Nat × ParkLabel) :=
  [(0, .park true), (0, .next), (1, .unpark), (1, .next), (1, .notify 0), (1, .next),
   (0, .next), (0, .next)]

/-- The test of `Lost`. -/
def lostTest (s : ParkingState) : Bool :=
  s.threads[0]? == some (.waiting true) && decide (0 ∈ s.shared.monitor.waiting) &&
    s.shared.state == .notified && s.threads.all fun pc => !pc.unparks

theorem lost_of_lostTest {s : ParkingState} (passes : lostTest s = true) : Lost s := by
  simp only [lostTest, Bool.and_eq_true, beq_iff_eq, decide_eq_true_eq, List.all_eq_true,
    Bool.not_eq_true'] at passes
  obtain ⟨⟨⟨blocked, unnotified⟩, state⟩, finished⟩ := passes
  exact ⟨⟨true, blocked⟩, unnotified, state, fun j pc found =>
    finished pc (List.mem_of_getElem? found)⟩

/-- Both parkers lose that unpark. -/
theorem unpark_lost : (∃ s, (parking .threadPark onlyFirst).Reaches s ∧ Lost s) ∧
    ∃ s, (parking .threadParker onlyFirst).Reaches s ∧ Lost s := by
  constructor
  · obtain ⟨s, reached, lost⟩ := (parking .threadPark onlyFirst).exists_reaches_of_test
      lostTest unparkedBeforeWait ⟨2, rfl⟩ (by decide)
    exact ⟨s, reached, lost_of_lostTest lost⟩
  · obtain ⟨s, reached, lost⟩ := (parking .threadParker onlyFirst).exists_reaches_of_test
      lostTest unparkedBeforeWait ⟨2, rfl⟩ (by decide)
    exact ⟨s, reached, lost_of_lostTest lost⟩

end LoonyRuntime.Runtime
