import LoonyRuntime.Runtime.ParkWord

/-!
# The loop of `CurrentThread::block_on`

Thread `0` calls `block_on` of one runtime, any number of times. The loop polls a future, runs the
tasks of the queue while the future is pending, and parks on the `ThreadParker` of the runtime when
it is idle. Any thread may wake the waker of the context at any time, which unparks the parker; a
spawn onto the thread unparks it too. The wakers own the parker, so threads may wake after a return.
What `is_idle` answers is a label here, and the queue is in `CurrentThread.Loops`.

A wake that comes after a poll has begun leaves the word `NOTIFIED` until the next poll (`Awake`).
That is not enough: the parker waits on a word that was made `NOTIFIED` between its exchange and its
wait. A loop that sleeps with a wake polls again in seven steps, or it has lost the unpark and no
call in progress brings it to a poll (`answered_iff`). So every wake of a sleeping loop is answered
exactly along the runs in which no wait begins on such a word (`answered_along_iff`).
-/

set_option autoImplicit false

namespace LoonyRuntime.Runtime.CurrentThread.BlockOn

open Concurrent

/-! ## Steps -/

/-- Where `block_on` is. -/
inductive Pc (V : Type) where
  /-- Outside of the call, with what the last one returned. -/
  | outside (last : Option V)
  /-- The future is polled next. -/
  | poll
  /-- Code of the user inside the poll. -/
  | polling
  /-- Code of the user inside `run_until_idle`. -/
  | runUntilIdle
  | isIdle
  | park
deriving DecidableEq, Repr

structure State (V : Type) where
  parking : ParkingState
  pc : Pc V
  /-- The waker was woken, or the parker unparked, since the last poll began. -/
  woken : Bool

variable {V : Type}

/-- A new runtime on thread `0`, with `n` other threads. -/
def State.startWith (V : Type) (n : Nat) : State V :=
  ⟨parkingWith (n + 1), .outside none, false⟩

inductive Label (V : Type) where
  /-- An operation of a thread on the parker. -/
  | thread (i : Nat) (l : ParkLabel)
  /-- `block_on` is called. -/
  | call
  | poll
  | ready (output : V)
  | pending
  /-- `run_until_idle` returns. -/
  | ran
  | isIdle (idle : Bool)

/-- What thread `0` may do with the parker: code of the user unparks, and `park` goes on. -/
def Pc.admits : Pc V → ParkLabel → Bool
  | .outside _, .park _ | .polling, .park _ | .runUntilIdle, .park _ => false
  | .outside _, _ | .polling, _ | .runUntilIdle, _ => true
  | .park, .next | .park, .wake _ => true
  | _, _ => false

/-- `park` has returned when thread `0` is inside no call. -/
def Pc.parked (pc : Pc V) (parking : ParkingState) : Pc V :=
  match pc with
  | .park => if parking.threads[0]? = some .idle then .poll else .park
  | pc => pc

/-- Thread `0` is inside no call of the parker. -/
def State.idle (s : State V) : Bool := s.parking.threads[0]? == some .idle

/-- One step of `block_on`, or of a thread on its parker. -/
def State.step (s : State V) : Label V → Option (State V)
  | .thread i l =>
      if i ≠ 0 ∨ s.pc.admits l = true then
        ((Runtime.parking .threadParker onlyFirst).step s.parking (i, l)).map fun parking =>
          { parking, pc := s.pc.parked parking, woken := s.woken || l == .unpark }
      else none
  | .call =>
      match s.pc, s.idle with
      | .outside _, true => some { s with pc := .poll }
      | _, _ => none
  | .poll =>
      match s.pc with
      | .poll => some { s with pc := .polling, woken := false }
      | _ => none
  | .ready output =>
      match s.pc, s.idle with
      | .polling, true => some { s with pc := .outside (some output) }
      | _, _ => none
  | .pending =>
      match s.pc, s.idle with
      | .polling, true => some { s with pc := .runUntilIdle }
      | _, _ => none
  | .ran =>
      match s.pc, s.idle with
      | .runUntilIdle, true => some { s with pc := .isIdle }
      | _, _ => none
  | .isIdle idle =>
      match s.pc with
      | .isIdle =>
          if idle then
            ((Runtime.parking .threadParker onlyFirst).step s.parking (0, .park false)).map
              fun parking => { s with parking, pc := .park }
          else some { s with pc := .poll }
      | _ => none

/-- The machine of one runtime. -/
def machine (V : Type) : Machine (State V) (Label V) where
  initial s := ∃ n, s = .startWith V n
  step := State.step

/-! ## What a step can do -/

/-- The outcomes of one step. -/
inductive Step (s : State V) : Label V → State V → Prop where
  | thread {i : Nat} {l : ParkLabel} {parking : ParkingState}
      (allowed : i ≠ 0 ∨ s.pc.admits l = true)
      (taken : (Runtime.parking .threadParker onlyFirst).step s.parking (i, l) = some parking) :
      Step s (.thread i l) { parking, pc := s.pc.parked parking, woken := s.woken || l == .unpark }
  | call {last : Option V} (here : s.pc = .outside last) (idle : s.idle = true) :
      Step s .call { s with pc := .poll }
  | poll (here : s.pc = .poll) : Step s .poll { s with pc := .polling, woken := false }
  | ready {output : V} (here : s.pc = .polling) (idle : s.idle = true) :
      Step s (.ready output) { s with pc := .outside (some output) }
  | pending (here : s.pc = .polling) (idle : s.idle = true) :
      Step s .pending { s with pc := .runUntilIdle }
  | ran (here : s.pc = .runUntilIdle) (idle : s.idle = true) : Step s .ran { s with pc := .isIdle }
  | parks {parking : ParkingState} (here : s.pc = .isIdle)
      (taken : (Runtime.parking .threadParker onlyFirst).step s.parking (0, .park false) =
        some parking) : Step s (.isIdle true) { s with parking, pc := .park }
  | busy (here : s.pc = .isIdle) : Step s (.isIdle false) { s with pc := .poll }

/-- **A step has one of the outcomes.** -/
theorem step_of_taken {s s' : State V} {a : Label V} (taken : (machine V).step s a = some s') :
    Step s a s' := by
  replace taken : s.step a = some s' := taken
  cases a with
  | thread i l =>
      simp only [State.step] at taken
      split at taken
      · next allowed =>
          obtain ⟨parking, moved, rfl⟩ := Option.map_eq_some_iff.mp taken
          exact .thread allowed moved
      · cases taken
  | call =>
      simp only [State.step] at taken
      split at taken
      · next here idle =>
          cases taken
          exact .call here idle
      · cases taken
  | poll =>
      simp only [State.step] at taken
      split at taken
      · next here =>
          cases taken
          exact .poll here
      · cases taken
  | ready output =>
      simp only [State.step] at taken
      split at taken
      · next here idle =>
          cases taken
          exact .ready here idle
      · cases taken
  | pending =>
      simp only [State.step] at taken
      split at taken
      · next here idle =>
          cases taken
          exact .pending here idle
      · cases taken
  | ran =>
      simp only [State.step] at taken
      split at taken
      · next here idle =>
          cases taken
          exact .ran here idle
      · cases taken
  | isIdle idle =>
      simp only [State.step] at taken
      split at taken
      · next here =>
          cases idle with
          | true =>
              obtain ⟨parking, moved, rfl⟩ := Option.map_eq_some_iff.mp taken
              exact .parks here moved
          | false =>
              cases taken
              exact .busy here
      · cases taken

/-! ## A `park` without a timeout -/

/-- The points inside a `park` of a `ThreadParker`. -/
def untimed : ParkPc → Bool
  | .consume timed _ | .prepare timed _ | .lock timed | .wait timed | .waiting timed
  | .reacquire timed | .dropGuard timed | .swap timed => !timed
  | _ => false

theorem untimed_loop (failed : Nat) (state : ParkState) :
    untimed (.loop false failed state) = true := by
  rcases ParkPc.loop_cases false failed state with head | head <;> rw [head] <;> rfl

section Parker

variable {i : Nat} {s s' : Parker} {pc pc' : ParkPc} {l : ParkLabel}

/-- Such a `park` goes on, or returns. -/
theorem untimed_of_move (inside : untimed pc = true)
    (nonempty : pc.committed = true → s.state ≠ .empty)
    (moved : pc.move .threadParker onlyFirst i s l = some (s', pc')) :
    untimed pc' = true ∨ pc' = .idle := by
  cases l with
  | park _ | unpark =>
      simp only [ParkPc.move] at moved
      split at moved
      · cases pc <;> first | cases inside | simp_all
      · cases moved
  | next =>
      cases pc with
      | consume timed failed =>
          obtain rfl : timed = false := by simpa [untimed] using inside
          simp only [ParkPc.move, ParkPc.advance] at moved
          split at moved <;> cases moved
          · exact .inr rfl
          · exact .inl (untimed_loop _ _)
      | prepare timed failed =>
          obtain rfl : timed = false := by simpa [untimed] using inside
          simp only [ParkPc.move, ParkPc.advance] at moved
          split at moved <;> cases moved
          · exact .inl rfl
          · exact .inl (untimed_loop _ _)
      | lock timed | reacquire timed =>
          obtain ⟨m, -, same⟩ := Option.map_eq_some_iff.mp moved
          cases same
          exact .inl inside
      | wait timed =>
          cases moved
          exact .inl inside
      | dropGuard timed =>
          obtain rfl : timed = false := by simpa [untimed] using inside
          cases moved
          exact .inl rfl
      | swap guarded =>
          obtain rfl : guarded = false := by simpa [untimed] using inside
          simp only [ParkPc.move, ParkPc.advance, if_neg (nonempty rfl)] at moved
          cases moved
          exact .inr rfl
      | waiting _ => cases moved
      | _ => cases inside
  | wake timedOut =>
      cases pc with
      | waiting timed =>
          obtain rfl : timed = false := by simpa [untimed] using inside
          cases timedOut with
          | true => simp [ParkPc.move] at moved
          | false =>
              simp only [ParkPc.move] at moved
              cases moved
              exact .inl rfl
      | _ => cases moved
  | notify choice =>
      simp only [ParkPc.move] at moved
      split at moved
      · next here =>
          subst here
          cases inside
      · cases moved

/-- A word becomes `NOTIFIED` by an `unpark`. -/
theorem notifies (moved : pc.move .threadParker onlyFirst i s l = some (s', pc'))
    (now : s'.state = .notified) : s.state = .notified ∨ l = .unpark := by
  cases l with
  | unpark => exact .inr rfl
  | park timed =>
      simp only [ParkPc.move] at moved
      split at moved
      · cases moved
        exact .inl now
      · cases moved
  | next =>
      have step := ParkPc.step_of_move moved
      cases step with
      | unparkParked | unparkDone => cases moved
      | consumed | prepared | storeEmpty | swapEmpty | swapGuarded | swap => cases now
      | _ => exact .inl now
  | wake timedOut =>
      have step := ParkPc.step_of_move moved
      cases step with
      | wake => exact .inl now
      | _ => cases moved
  | notify choice =>
      simp only [ParkPc.move] at moved
      split at moved
      · obtain ⟨m, -, same⟩ := Option.map_eq_some_iff.mp moved
        cases same
        exact .inl now
      · cases moved

/-- The `park` that takes the notification returns. -/
theorem returns_of_takes (step : ParkPc.Step onlyFirst i s pc s' pc') (before : s.state = .notified)
    (now : s'.state ≠ .notified) (inside : pc.parks = true → untimed pc = true) :
    pc.parks = true ∧ pc' = .idle := by
  cases step with
  | consumed | storeEmpty | swap => exact ⟨rfl, rfl⟩
  | unparkParked | unparkDone => exact absurd rfl now
  | prepared empty | swapEmpty empty => cases before.symm.trans empty
  | swapGuarded => cases inside rfl
  | _ => exact absurd before now

end Parker

/-! ## Wakes and polls -/

/-- Where the parking thread may be while `block_on` is here. -/
def Pc.fits : Pc V → ParkPc → Bool
  | .park, t => untimed t
  | .outside _, t | .polling, t | .runUntilIdle, t => !t.parks
  | _, t => t == .idle

/-- A wake since the last poll began has left the word `NOTIFIED`, or the next poll comes. -/
structure Awake (s : State V) : Prop where
  alone : Alone s.parking
  owned : ∀ j, s.parking.shared.monitor.owner = some j → j < s.parking.threads.length
  thread : ∃ t, s.parking.threads[0]? = some t ∧ s.pc.fits t = true
  woken : s.woken = true → s.parking.shared.state = .notified ∨ s.pc = .poll
  late : ∀ t, s.parking.threads[0]? = some t → t.committed = true →
    s.parking.shared.state = .notified → s.woken = true

theorem Pc.fits_idle {pc : Pc V} (elsewhere : pc ≠ .park) : pc.fits .idle = true := by
  cases pc with
  | park => exact absurd rfl elsewhere
  | _ => rfl

/-- A thread inside `park` is there for `block_on`. -/
theorem Pc.park_of_fits {pc : Pc V} {t : ParkPc} (fits : pc.fits t = true)
    (inside : t.parks = true) : pc = .park ∧ untimed t = true := by
  cases pc with
  | park => exact ⟨rfl, fits⟩
  | outside _ | polling | runUntilIdle => simp [Pc.fits, inside] at fits
  | poll | isIdle =>
      obtain rfl : t = .idle := eq_of_beq fits
      cases inside

section Parker

variable {s : State V} {i : Nat} {l : ParkLabel} {t t' : ParkPc} {shared : Parker}

/-- Where `block_on` is after a step of a thread from a point to another. -/
theorem Pc.parked_self {pc : Pc V} (found : s.parking.threads[0]? = some t) (inside : pc = .park) :
    pc.parked ⟨shared, s.parking.threads.set 0 t'⟩ = if t' = .idle then .poll else .park := by
  subst inside
  simp [Pc.parked, Pool.getElem?_set_self t' found]

/-- The parker steps of thread `0` fit. -/
theorem Awake.fits_parked (inv : Awake s) (found : s.parking.threads[0]? = some t)
    (moved : t.move .threadParker onlyFirst 0 s.parking.shared l = some (shared, t'))
    (admits : s.pc.admits l = true) :
    (s.pc.parked ⟨shared, s.parking.threads.set 0 t'⟩).fits t' = true := by
  obtain ⟨u, first, fits⟩ := inv.thread
  cases found.symm.trans first
  have outside (pc : Pc V) (refuses : ∀ timed, pc.admits (.park timed) = false)
      (admits : pc.admits l = true) (fits : t.parks = false) : t'.parks = false := by
    refine Bool.eq_false_of_not_eq_true fun inside => ?_
    obtain ⟨timed, rfl⟩ := ParkPc.calls_of_parks moved fits inside
    rw [refuses timed] at admits
    cases admits
  cases here : s.pc with
  | park =>
      rw [here] at fits
      rw [Pc.parked_self found rfl]
      rcases untimed_of_move fits (inv.alone.committed 0 t found) moved with inside | rfl
      · have parks : t' ≠ .idle := by
          rintro rfl
          cases inside
        rw [if_neg parks]
        exact inside
      · rfl
  | outside _ | polling | runUntilIdle =>
      rw [here] at fits admits
      simp [Pc.fits, Pc.parked, outside _ (fun _ => rfl) admits (by simpa [Pc.fits] using fits)]
  | poll | isIdle =>
      rw [here] at admits
      cases admits

/-- A step of another thread leaves `block_on` where it is. -/
theorem Awake.parked_of_other (inv : Awake s) (other : i ≠ 0) :
    s.pc.parked ⟨shared, s.parking.threads.set i t'⟩ = s.pc := by
  obtain ⟨u, first, fits⟩ := inv.thread
  have still : (s.parking.threads.set i t')[0]? = some u := by rwa [List.getElem?_set_ne other]
  cases here : s.pc with
  | park =>
      rw [here] at fits
      have parks : u ≠ .idle := by
        rintro rfl
        cases fits
      simp [Pc.parked, still, parks]
  | _ => rfl

/-- A wake leaves the word `NOTIFIED`. Only the loop takes the notification, and it polls next. -/
theorem Awake.answered (inv : Awake s) (found : s.parking.threads[i]? = some t)
    (moved : t.move .threadParker onlyFirst i s.parking.shared l = some (shared, t'))
    (now : (s.woken || l == .unpark) = true) :
    shared.state = .notified ∨ s.pc.parked ⟨shared, s.parking.threads.set i t'⟩ = .poll := by
  by_cases kept : shared.state = .notified
  · exact .inl kept
  refine .inr ?_
  have other : l ≠ .unpark := by
    rintro rfl
    simp only [ParkPc.move] at moved
    split at moved <;> cases moved
    exact kept rfl
  rcases inv.woken (by simpa [other] using now) with notified | polls
  · obtain ⟨u, first, fits⟩ := inv.thread
    have mine (inside : t.parks = true) : i = 0 ∧ s.pc = .park ∧ untimed t = true := by
      obtain rfl := inv.alone.first i t found inside
      cases found.symm.trans first
      exact ⟨rfl, Pc.park_of_fits fits inside⟩
    obtain ⟨inside, rfl⟩ := returns_of_takes (ParkPc.step_of_move moved) notified kept
      fun inside => (mine inside).2.2
    obtain ⟨rfl, here, -⟩ := mine inside
    exact (Pc.parked_self found here).trans (if_pos rfl)
  · simp [Pc.parked, polls]

/-- A word that is `NOTIFIED` past the exchange has been so by a wake. -/
theorem Awake.notifiedLate (inv : Awake s) (found : s.parking.threads[i]? = some t)
    (moved : t.move .threadParker onlyFirst i s.parking.shared l = some (shared, t'))
    {u : ParkPc} (first : (s.parking.threads.set i t')[0]? = some u) (past : u.committed = true)
    (now : shared.state = .notified) : (s.woken || l == .unpark) = true := by
  rcases notifies moved now with before | rfl
  · have woken : s.woken = true := by
      by_cases mine : i = 0
      · subst mine
        rw [Pool.getElem?_set_self t' found] at first
        cases first
        rcases (ParkPc.step_of_move moved).commits past with earlier | empty
        · exact inv.late t found earlier before
        · cases before.symm.trans empty
      · rw [List.getElem?_set_ne mine] at first
        exact inv.late u first past before
    simp [woken]
  · simp

end Parker

/-- A step of a thread on the parker. -/
theorem Awake.parker {s : State V} (inv : Awake s) {i : Nat} {l : ParkLabel}
    {parking : ParkingState} (allowed : i ≠ 0 ∨ s.pc.admits l = true)
    (taken : (Runtime.parking .threadParker onlyFirst).step s.parking (i, l) = some parking) :
    Awake { parking, pc := s.pc.parked parking, woken := s.woken || l == .unpark } := by
  have alone := inv.alone.step taken
  obtain ⟨t, shared, t', found, moved, rfl⟩ := Pool.step_eq_some taken
  refine ⟨alone, ?_, ?_, inv.answered found moved, fun u => inv.notifiedLate found moved⟩
  · intro j owner
    rw [List.length_set]
    rcases (ParkPc.step_of_move moved).uses.owner_cases owner with before | rfl
    · exact inv.owned j before
    · exact (List.getElem?_eq_some_iff.mp found).1
  · by_cases mine : i = 0
    · subst mine
      exact ⟨t', Pool.getElem?_set_self t' found,
        inv.fits_parked found moved (allowed.resolve_left (absurd rfl))⟩
    · obtain ⟨u, first, fits⟩ := inv.thread
      refine ⟨u, ?_, ?_⟩
      · rwa [List.getElem?_set_ne mine]
      · rw [inv.parked_of_other mine]
        exact fits

/-- A step that leaves the parker alone, and does not begin a poll. -/
theorem Awake.local {s : State V} (inv : Awake s) (idle : s.idle = true) {pc : Pc V}
    (elsewhere : pc ≠ .park) (later : s.pc ≠ .poll) : Awake { s with pc } where
  alone := inv.alone
  owned := inv.owned
  thread := ⟨.idle, by simpa [State.idle] using idle, Pc.fits_idle elsewhere⟩
  woken woken := .inl ((inv.woken woken).resolve_right later)
  late := inv.late

/-- Before a poll and before `is_idle` thread `0` is inside no call. -/
theorem Awake.idle {s : State V} (inv : Awake s) (here : s.pc = .poll ∨ s.pc = .isIdle) :
    s.parking.threads[0]? = some .idle := by
  obtain ⟨t, first, fits⟩ := inv.thread
  rcases here with here | here <;> rw [here] at fits <;> rwa [eq_of_beq fits] at first

/-- The loop begins to park. -/
theorem Awake.parks {s : State V} (inv : Awake s) (here : s.pc = .isIdle) {parking : ParkingState}
    (taken : (Runtime.parking .threadParker onlyFirst).step s.parking (0, .park false) =
      some parking) : Awake ({ s with parking, pc := .park } : State V) := by
  have alone := inv.alone.step taken
  obtain ⟨t, shared, t', found, moved, rfl⟩ := Pool.step_eq_some taken
  obtain ⟨rfl, rfl⟩ : shared = s.parking.shared ∧ t' = .loop false 0 s.parking.shared.state := by
    simp only [ParkPc.move] at moved
    split at moved <;> cases moved
    exact ⟨rfl, rfl⟩
  have first := Pool.getElem?_set_self (.loop false 0 s.parking.shared.state) found
  refine ⟨alone, ?_, ⟨_, first, untimed_loop 0 _⟩, ?_, ?_⟩
  · intro j owner
    rw [List.length_set]
    exact inv.owned j owner
  · exact fun woken => .inl ((inv.woken woken).resolve_right (by simp [here]))
  · intro u foundU past
    cases first.symm.trans foundU
    rw [(ParkPc.loop_quiet _ _ _).2] at past
    cases past

theorem Awake.step {s s' : State V} {a : Label V} (inv : Awake s) (step : Step s a s') :
    Awake s' := by
  cases step with
  | thread allowed taken => exact inv.parker allowed taken
  | call here idle => exact inv.local idle nofun (by simp [here])
  | poll here =>
      have first := inv.idle (.inl here)
      refine ⟨inv.alone, inv.owned, ⟨.idle, first, rfl⟩, nofun, fun t found past => ?_⟩
      cases first.symm.trans found
      cases past
  | ready here idle => exact inv.local idle nofun (by simp [here])
  | pending here idle => exact inv.local idle nofun (by simp [here])
  | ran here idle => exact inv.local idle nofun (by simp [here])
  | parks here taken => exact inv.parks here taken
  | busy here =>
      exact inv.local (by simp [State.idle, inv.idle (.inr here)]) nofun (by simp [here])

theorem awake {s : State V} (reached : (machine V).Reaches s) : Awake s := by
  refine reached.invariant ?_ fun s a s' _ inv _ taken => inv.step (step_of_taken taken)
  rintro _ ⟨n, rfl⟩
  refine ⟨alone_parkingWith _, nofun, ⟨.idle, rfl, rfl⟩, nofun, fun t found past => ?_⟩
  cases found
  cases past

/-! ## From a wake to the next poll -/

/-- A thread goes on in a call that it is inside of. A wait goes on when it was notified. -/
def goesOn (s : State V) : Label V → Prop
  | .thread _ .next | .thread _ (.notify _) => True
  | .thread i (.wake _) => i ∉ s.parking.shared.monitor.waiting
  | _ => False

/-- The loop comes to its next poll in so many steps of threads that go on in a call. -/
abbrev PollsWithin (k : Nat) (s : State V) : Prop :=
  (machine V).LeadsWithin goesOn (·.pc = .poll) k s

/-- Thread `0` is in `park` at this point, and the word is `NOTIFIED`. -/
structure ParkedAt (t : ParkPc) (s : State V) : Prop where
  here : s.pc = .park
  state : s.parking.shared.state = .notified
  first : s.parking.threads[0]? = some t

section Stages

variable {s : State V} {t t' : ParkPc} {shared : Parker} {l : ParkLabel}

/-- The first thread goes on in `park`. -/
theorem ParkedAt.goes (parked : ParkedAt t s)
    (moved : t.move .threadParker onlyFirst 0 s.parking.shared l = some (shared, t'))
    (admits : (Pc.park : Pc V).admits l = true) (still : shared.state = .notified)
    (inside : t' ≠ .idle) :
    ∃ s', (machine V).step s (.thread 0 l) = some s' ∧ ParkedAt t' s' ∧
      s'.parking.shared = shared := by
  obtain ⟨here, -, first⟩ := parked
  have after := Pool.getElem?_set_self t' first
  refine ⟨{ s with
    parking := ⟨shared, s.parking.threads.set 0 t'⟩
    pc := s.pc.parked ⟨shared, s.parking.threads.set 0 t'⟩
    woken := s.woken || l == .unpark }, ?_, ⟨?_, still, after⟩, rfl⟩
  · simp [machine, State.step, parking, Pool.step, here, admits, first, moved]
  · exact (Pc.parked_self first here).trans (if_neg inside)

/-- Another thread goes on in `unpark`. -/
theorem ParkedAt.other (parked : ParkedAt t s) (inside : untimed t = true) {i : Nat} {u u' : ParkPc}
    (found : s.parking.threads[i]? = some u) (other : i ≠ 0)
    (moved : u.move .threadParker onlyFirst i s.parking.shared l = some (shared, u'))
    (still : shared.state = .notified) :
    ∃ s', (machine V).step s (.thread i l) = some s' ∧ ParkedAt t s' ∧
      s'.parking.shared = shared ∧ s'.parking.threads[i]? = some u' := by
  obtain ⟨here, -, first⟩ := parked
  have after : (s.parking.threads.set i u')[0]? = some t := by rwa [List.getElem?_set_ne other]
  refine ⟨{ s with
    parking := ⟨shared, s.parking.threads.set i u'⟩
    pc := s.pc.parked ⟨shared, s.parking.threads.set i u'⟩
    woken := s.woken || l == .unpark }, ?_, ⟨?_, still, after⟩, rfl, ?_⟩
  · simp [machine, State.step, parking, Pool.step, other, found, moved]
  · have parks : t ≠ .idle := by
      rintro rfl
      cases inside
    simp [Pc.parked, here, after, parks]
  · exact Pool.getElem?_set_self u' found

/-- The closing swap returns, and the loop polls next. -/
theorem ParkedAt.pollsWithin_one (parked : ParkedAt (.swap false) s) : PollsWithin 1 s := by
  obtain ⟨here, state, first⟩ := parked
  have moved : (ParkPc.swap false).move .threadParker onlyFirst 0 s.parking.shared .next =
      some ({ s.parking.shared with state := .empty }, .idle) := by
    simp [ParkPc.move, ParkPc.advance, state]
  have taken : (machine V).step s (.thread 0 .next) = some { s with
      parking := ⟨{ s.parking.shared with state := .empty }, s.parking.threads.set 0 .idle⟩
      pc := s.pc.parked
        ⟨{ s.parking.shared with state := .empty }, s.parking.threads.set 0 .idle⟩ } := by
    simp [machine, State.step, parking, Pool.step, here, Pc.admits, first, moved]
  exact .step taken trivial (.here ((Pc.parked_self first here).trans (if_pos rfl)))

theorem ParkedAt.pollsWithin_two (parked : ParkedAt (.dropGuard false) s) : PollsWithin 2 s := by
  obtain ⟨s', taken, swap, -⟩ := parked.goes (l := .next) rfl rfl parked.state nofun
  exact .step taken trivial swap.pollsWithin_one

theorem ParkedAt.pollsWithin_three (parked : ParkedAt (.reacquire false) s)
    (free : s.parking.shared.monitor.owner = none) : PollsWithin 3 s := by
  have moved : (ParkPc.reacquire false).move .threadParker onlyFirst 0 s.parking.shared .next =
      some (_, .dropGuard false) :=
    congrArg (Option.map _) (Monitor.acquire_of_free free 0)
  obtain ⟨s', taken, guarded, -⟩ := parked.goes moved rfl parked.state nofun
  exact .step taken trivial guarded.pollsWithin_two

/-- The wait was notified and the mutex is free. -/
theorem ParkedAt.pollsWithin_four (parked : ParkedAt (.waiting false) s)
    (notified : 0 ∉ s.parking.shared.monitor.waiting)
    (free : s.parking.shared.monitor.owner = none) : PollsWithin 4 s := by
  obtain ⟨s', taken, woke, same⟩ := parked.goes (l := .wake false) rfl rfl parked.state nofun
  exact .step taken notified (woke.pollsWithin_three (by rw [same]; exact free))

/-- The notifier has yet to release the mutex. -/
theorem ParkedAt.pollsWithin_five (parked : ParkedAt (.waiting false) s)
    (notified : 0 ∉ s.parking.shared.monitor.waiting) {i : Nat}
    (found : s.parking.threads[i]? = some .unlockNotify) : PollsWithin 5 s := by
  have other : i ≠ 0 := by
    rintro rfl
    cases found.symm.trans parked.first
  obtain ⟨s', taken, still, same, -⟩ := parked.other rfl found other (l := .next) rfl parked.state
  refine .step taken trivial (still.pollsWithin_four ?_ ?_)
  · rw [same]
    exact notified
  · rw [same]
    rfl

/-- Only the first thread waits, so it is the one that is notified. -/
theorem notified_of_notifyOne (alone : Alone s.parking) {m : Monitor} {choice : Nat}
    (notified : s.parking.shared.monitor.notifyOne choice = some m) : 0 ∉ m.waiting := by
  rcases Monitor.notifyOne_eq_some notified with ⟨nobody, rfl⟩ | ⟨chosen, rfl⟩
  · simp [nobody]
  · rw [Monitor.mem_leave_waiting]
    exact fun member => member.2 (alone.eq_zero_of_waiting chosen).symm

/-- The notifier has the mutex. -/
theorem ParkedAt.pollsWithin_six (parked : ParkedAt (.waiting false) s) (inv : Awake s) {i : Nat}
    (found : s.parking.threads[i]? = some .notify) : PollsWithin 6 s := by
  have other : i ≠ 0 := by
    rintro rfl
    cases found.symm.trans parked.first
  obtain ⟨choice, some⟩ := s.parking.shared.monitor.exists_notifyOne
  obtain ⟨m, notified⟩ := Option.isSome_iff_exists.mp some
  have moved : ParkPc.notify.move .threadParker onlyFirst i s.parking.shared (.notify choice) =
      .some ({ s.parking.shared with monitor := m }, .unlockNotify) := by
    simp [ParkPc.move, notified]
  obtain ⟨s', taken, still, same, after⟩ := parked.other rfl found other moved parked.state
  refine .step taken trivial (still.pollsWithin_five ?_ after)
  rw [same]
  exact notified_of_notifyOne inv.alone notified

/-- The notifier has yet to take the mutex, which is free. -/
theorem ParkedAt.pollsWithin_seven (parked : ParkedAt (.waiting false) s) (inv : Awake s)
    (free : s.parking.shared.monitor.owner = none) {i : Nat}
    (found : s.parking.threads[i]? = some .lockNotify) : PollsWithin 7 s := by
  have other : i ≠ 0 := by
    rintro rfl
    cases found.symm.trans parked.first
  have moved : ParkPc.lockNotify.move .threadParker onlyFirst i s.parking.shared .next =
      some (_, .notify) :=
    congrArg (Option.map _) (Monitor.acquire_of_free free i)
  obtain ⟨s', taken, still, same, after⟩ := parked.other rfl found other moved parked.state
  exact .step taken trivial (still.pollsWithin_six (inv.step (step_of_taken taken)) after)

end Stages

/-! ## Answered wakes -/

/-- Thread `0` is blocked in the wait of `park`. -/
def Asleep (s : State V) : Prop := s.parking.threads[0]? = some (.waiting false)

/-- A loop that sleeps with a wake comes to its next poll. -/
def Answered (s : State V) : Prop := s.woken = true → Asleep s → PollsWithin 7 s

/-- Outside of `park_timeout` an `unpark` holds the mutex. -/
theorem notify_of_holds {u : ParkPc} (outside : u.parks = false) (hold : u.holds = true) :
    u = .notify ∨ u = .unlockNotify := by
  cases u with
  | notify => exact .inl rfl
  | unlockNotify => exact .inr rfl
  | idle | lockNotify => cases hold
  | _ => cases outside

theorem idle_of_outside {u : ParkPc} (outside : u.parks = false) (calm : u.unparks = false) :
    u = .idle := by
  cases u with
  | idle => rfl
  | lockNotify | notify | unlockNotify => cases calm
  | _ => cases outside

/-- The owner of the mutex is a thread that holds it. -/
theorem exists_holder {s : State V} (inv : Awake s) {j : Nat}
    (owner : s.parking.shared.monitor.owner = some j) :
    ∃ u, s.parking.threads[j]? = some u ∧ u.holds = true := by
  have found := List.getElem?_eq_getElem (inv.owned j owner)
  exact ⟨_, found, (inv.alone.keeps.owner j _ found).mpr owner⟩

/-- A sleeping loop whose unpark is not lost polls next. -/
theorem ParkedAt.pollsWithin {s : State V} (parked : ParkedAt (.waiting false) s) (inv : Awake s)
    (kept : ¬Lost s.parking) : PollsWithin 7 s := by
  have unparking {j : Nat} {u : ParkPc} (found : s.parking.threads[j]? = some u)
      (hold : u.holds = true) : u = .notify ∨ u = .unlockNotify := by
    refine notify_of_holds (Bool.eq_false_of_not_eq_true fun parks => ?_) hold
    obtain rfl := inv.alone.first j u found parks
    cases parked.first.symm.trans found
    cases hold
  by_cases unnotified : 0 ∈ s.parking.shared.monitor.waiting
  · obtain ⟨i, u, found, unparks⟩ : ∃ (i : Nat) (u : ParkPc), s.parking.threads[i]? = some u ∧
        u.unparks = true := by
      by_contra none
      refine kept ⟨⟨false, parked.first⟩, unnotified, parked.state, fun i u found => ?_⟩
      exact Bool.eq_false_of_not_eq_true fun unparks => none ⟨i, u, found, unparks⟩
    cases u with
    | notify => exact (parked.pollsWithin_six inv found).mono (by omega)
    | unlockNotify => exact absurd unnotified (inv.alone.notified i _ found rfl)
    | lockNotify =>
        cases owner : s.parking.shared.monitor.owner with
        | none => exact parked.pollsWithin_seven inv owner found
        | some j =>
            obtain ⟨u, foundJ, hold⟩ := exists_holder inv owner
            rcases unparking foundJ hold with rfl | rfl
            · exact (parked.pollsWithin_six inv foundJ).mono (by omega)
            · exact absurd unnotified (inv.alone.notified j _ foundJ rfl)
    | _ => cases unparks
  · cases owner : s.parking.shared.monitor.owner with
    | none => exact (parked.pollsWithin_four unnotified owner).mono (by omega)
    | some j =>
        obtain ⟨u, foundJ, hold⟩ := exists_holder inv owner
        rcases unparking foundJ hold with rfl | rfl
        · exact (parked.pollsWithin_six inv foundJ).mono (by omega)
        · exact (parked.pollsWithin_five unnotified foundJ).mono (by omega)

/-- When the unpark is lost no thread goes on in a call. -/
theorem stuck_of_lost {s s' : State V} {a : Label V} (inv : Awake s) (lost : Lost s.parking)
    (goes : goesOn s a) : (machine V).step s a ≠ some s' := by
  intro taken
  cases step_of_taken taken with
  | thread allowed moved =>
      rename_i i l parking
      obtain ⟨u, shared, u', found, moved, rfl⟩ := Pool.step_eq_some moved
      obtain ⟨timed, first⟩ := lost.blocked
      have calm := lost.finished i u found
      by_cases mine : i = 0
      · subst mine
        cases first.symm.trans found
        cases l with
        | wake timedOut => exact goes lost.unnotified
        | next | notify choice => cases moved
        | _ => exact goes
      · have outside : u.parks = false := Bool.eq_false_of_not_eq_true fun parks =>
          mine (inv.alone.first i u found parks)
        obtain rfl := idle_of_outside outside calm
        cases l with
        | next | wake _ | notify _ => cases moved
        | _ => exact goes
  | _ => exact goes

/-- **A wake of a sleeping loop is answered exactly when its unpark is not lost.** -/
theorem answered_iff {s : State V} (reached : (machine V).Reaches s) :
    Answered s ↔ ¬Lost s.parking := by
  have inv := awake reached
  have inPark {t : ParkPc} (first : s.parking.threads[0]? = some t) (inside : t.parks = true) :
      s.pc = .park ∧ untimed t = true := by
    obtain ⟨u, found, fits⟩ := inv.thread
    cases first.symm.trans found
    exact Pc.park_of_fits fits inside
  constructor
  · intro answered lost
    obtain ⟨timed, first⟩ := lost.blocked
    obtain ⟨here, untimed⟩ := inPark first rfl
    obtain rfl : timed = false := by simpa [BlockOn.untimed] using untimed
    have polls := (answered (inv.late _ first rfl lost.state) first).of_stuck fun _ _ goes =>
      stuck_of_lost inv lost goes
    rw [here] at polls
    cases polls
  · intro kept woken asleep
    have here := (inPark asleep rfl).1
    have notified := (inv.woken woken).resolve_right (by simp [here])
    exact ParkedAt.pollsWithin ⟨here, notified, asleep⟩ inv kept

/-! ## Runs whose wakes are answered -/

/-- The wait of the loop, if this step begins it, is covered. -/
def covers (s : State V) : Label V → Bool
  | .thread i l => waitsCovered s.parking (i, l)
  | _ => true

/-- A step of a thread loses an unpark exactly when it is a wait that is not covered. -/
theorem lost_step_iff {impl : ParkerImpl} {s s' : ParkingState} {a : Nat × ParkLabel}
    (inv : Alone s) (kept : ¬Lost s) (taken : (parking impl onlyFirst).step s a = some s') :
    ¬Lost s' ↔ waitsCovered s a = true := by
  obtain ⟨t, shared, t', found, moved, rfl⟩ := Pool.step_eq_some taken
  have step := ParkPc.step_of_move moved
  by_cases waits : ∃ timed, t = .wait timed
  · obtain ⟨timed, rfl⟩ := waits
    obtain ⟨i, l⟩ := a
    obtain rfl := inv.first i _ found rfl
    cases step
    simp only [waitsCovered, found, lost_of_wait_iff inv found]
    cases s.shared.state <;> simp
  · have covered : waitsCovered s a = true := by
      simp only [waitsCovered, found]
      cases t with
      | wait timed => exact absurd ⟨timed, rfl⟩ waits
      | _ => rfl
    exact iff_of_true (not_lost_of_step inv found step (fun timed same => waits ⟨timed, same⟩) kept)
      covered

theorem covered_of_idle {s : ParkingState} (first : s.threads[0]? = some .idle) (l : ParkLabel) :
    waitsCovered s (0, l) = true := by
  simp [waitsCovered, first]

/-- **The wakes of a sleeping loop are answered exactly along the runs in which it never waits on a
word that is `NOTIFIED` without an unpark that has yet to notify.** -/
theorem answered_along_iff (n : Nat) (labels : List (Label V)) :
    (machine V).Always Answered (.startWith V n) labels ↔
      (machine V).Meets (fun s a => covers s a = true) (.startWith V n) labels := by
  refine Machine.always_iff_meets ?_ (.start ⟨n, rfl⟩) nofun
  intro s a s' reached answered taken
  have inv := awake reached
  have kept := (answered_iff reached).mp answered
  rw [answered_iff (reached.step trivial taken)]
  cases step_of_taken taken with
  | thread allowed moved => exact lost_step_iff inv.alone kept moved
  | parks here moved =>
      rw [lost_step_iff inv.alone kept moved]
      exact iff_of_true (covered_of_idle (inv.idle (.inr here)) _) rfl
  | _ => exact iff_of_true kept rfl

/-- A wake falls between the exchange to `PARKED` and the wait. -/
def wokenBeforeWait : List (Label Unit) :=
  [.call, .poll, .pending, .ran, .isIdle true, .thread 0 .next, .thread 1 .unpark, .thread 1 .next,
   .thread 1 (.notify 0), .thread 1 .next, .thread 0 .next, .thread 0 .next]

/-- The loop sleeps for good with that wake. -/
theorem not_answered : ∃ s, (machine Unit).Reaches s ∧ ¬Answered s := by
  obtain ⟨s, reached, tested⟩ := (machine Unit).exists_reaches_of_test
    (fun s => s.parking.threads == [.waiting false, .idle] &&
      s.parking.shared == ⟨.notified, ⟨none, [0]⟩⟩) wokenBeforeWait ⟨1, rfl⟩ (by decide)
  simp only [Bool.and_eq_true, beq_iff_eq] at tested
  obtain ⟨threads, shared⟩ := tested
  refine ⟨s, reached, fun answered => (answered_iff reached).mp answered ⟨⟨false, ?_⟩, ?_, ?_, ?_⟩⟩
  · rw [threads]
    rfl
  · simp [shared]
  · rw [shared]
  · intro i pc found
    rw [threads] at found
    have member := List.mem_of_getElem? found
    simp only [List.mem_cons, List.not_mem_nil, or_false] at member
    rcases member with rfl | rfl <;> rfl

end LoonyRuntime.Runtime.CurrentThread.BlockOn
