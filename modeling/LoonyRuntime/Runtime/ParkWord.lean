import LoonyRuntime.Runtime.Park

/-!
# The state word of the condvar parkers

`Runtime.Park` follows the unparks of one parking thread. Here any thread may park, and the word is
followed.

A thread that has moved the word from `EMPTY` to `PARKED` counts on its closing swap to find
`PARKED` or `NOTIFIED`, and has `unreachable!()` for `EMPTY`. It is backed as long as the word is
not `EMPTY` before its swap. Threads are backed exactly along the runs in which nobody takes the
token while another thread is between the two (`backed_along_iff`), and then no closing swap finds
`EMPTY`.

When the calls of `park` exclude one another, as `&mut self` has it, the token is taken alone. The
word then follows a protocol (`parker_protocol`).
-/

set_option autoImplicit false

namespace LoonyRuntime.Runtime

open Concurrent

/-- Any thread may park. -/
def everyone (_ : Nat) : Bool := true

/-! ## What a step does with the word -/

namespace ParkPc

variable {impl : ParkerImpl} {mayPark : Nat → Bool} {i : Nat} {s s' : Parker} {pc pc' : ParkPc}
  {l : ParkLabel}

/-- A thread comes to be past the exchange by finding the word `EMPTY`. -/
theorem Step.commits (step : Step mayPark i s pc s' pc') (now : pc'.committed = true) :
    pc.committed = true ∨ s.state = .empty := by
  cases step with
  | prepared empty => exact .inr empty
  | park | consumeFailed | prepareFailed =>
      rw [(loop_quiet _ _ _).2] at now
      cases now
  | unparkParked | unparkDone | consumed | storeEmpty | swapEmpty | swapGuarded | swap | unlock
  | lockNotify | notify | unlockNotify => cases now
  | _ => exact .inl rfl

/-- The word becomes `EMPTY` by a closing write, or by an exchange that takes the token. -/
theorem Step.empties (step : Step mayPark i s pc s' pc') (before : s.state ≠ .empty)
    (now : s'.state = .empty) :
    pc.committed = true ∨ s.state = .notified ∧ ∃ timed failed, pc = .consume timed failed := by
  cases step with
  | consumed notified => exact .inr ⟨notified, _, _, rfl⟩
  | storeEmpty | swapEmpty | swapGuarded | swap => exact .inl rfl
  | unparkParked | unparkDone | prepared => cases now
  | _ => exact absurd now before

/-- Only a closing swap that finds the word `EMPTY` comes to the unreachable arm. -/
theorem Step.reaches (step : Step mayPark i s pc s' pc') {guarded : Bool}
    (unreachable : pc' = .unreachable guarded) : pc.committed = true ∧ s.state = .empty := by
  cases step with
  | swapEmpty empty => exact ⟨rfl, empty⟩
  | park timed =>
      rcases loop_cases timed 0 s.state with head | head <;> rw [head] at unreachable <;>
        cases unreachable
  | consumeFailed | prepareFailed =>
      rcases loop_cases _ _ s.state with head | head <;> rw [head] at unreachable <;>
        cases unreachable
  | _ => cases unreachable

/-- A thread outside of `park_timeout` leaves the word, or makes it `NOTIFIED`. -/
theorem Step.outside (step : Step mayPark i s pc s' pc') (outside : pc.parks = false) :
    s'.state = s.state ∨ s'.state = .notified := by
  cases step with
  | unparkParked | unparkDone => exact .inr rfl
  | park | lockNotify | notify | unlockNotify => exact .inl rfl
  | _ => cases outside

/-- A word that is `PARKED` after a step was so, or the mover has made it so. The mover is then past
the exchange if it was so. -/
theorem Step.parked (step : Step mayPark i s pc s' pc') (now : s'.state = .parked) :
    (s.state = .parked ∨ pc'.committed = true) ∧
      (pc.committed = true → pc'.committed = true) := by
  cases step with
  | unparkParked | unparkDone | consumed | storeEmpty | swapEmpty | swapGuarded | swap => cases now
  | prepared => exact ⟨.inr rfl, fun _ => rfl⟩
  | timedOutOther other => exact absurd now other
  | park | consumeFailed | prepareFailed | unlock | lockNotify | notify | unlockNotify =>
      exact ⟨.inl now, fun before => by cases before⟩
  | _ => exact ⟨.inl now, fun _ => rfl⟩

/-- A thread comes to be inside `park_timeout` by calling it. -/
theorem calls_of_parks (moved : pc.move impl mayPark i s l = some (s', pc'))
    (outside : pc.parks = false) (inside : pc'.parks = true) : ∃ timed, l = .park timed := by
  cases l with
  | park timed => exact ⟨timed, rfl⟩
  | unpark =>
      simp only [move] at moved
      split at moved
      · cases moved
        split at inside <;> cases inside
      · cases moved
  | next =>
      cases pc with
      | lockNotify =>
          obtain ⟨m, -, same⟩ := Option.map_eq_some_iff.mp moved
          cases same
          cases inside
      | unlockNotify =>
          cases moved
          cases inside
      | idle | notify => cases moved
      | _ => cases outside
  | wake timedOut =>
      simp only [move] at moved
      split at moved
      · cases outside
      · cases moved
  | notify choice =>
      simp only [move] at moved
      split at moved
      · obtain ⟨m, -, same⟩ := Option.map_eq_some_iff.mp moved
        cases same
        cases inside
      · cases moved

/-- The number of the round of the exchange loop that a thread is in. -/
def round : ParkPc → Nat
  | .consume _ failed | .prepare _ failed => failed + 1
  | _ => 0

/-- At `consume` a thread is in its second round at most and the word is `NOTIFIED`, and at
`prepare` it is in its first. -/
def Looks (state : ParkState) : ParkPc → Prop
  | .consume _ failed => state = .notified ∧ failed ≤ 1
  | .prepare _ failed => failed = 0
  | _ => True

/-- A loop that finds no `PARKED` goes on as it should, in its first round, and in its second if it
has found `NOTIFIED`. -/
theorem looks_loop (timed : Bool) {failed : Nat} {state : ParkState}
    (early : failed = 0 ∨ state = .notified ∧ failed = 1) :
    (loop timed failed state).Looks state := by
  unfold loop
  split
  · next notified =>
      refine ⟨notified, ?_⟩
      rcases early with rfl | ⟨-, rfl⟩
      · exact Nat.zero_le 1
      · exact Nat.le_refl 1
  · next other =>
      rcases early with rfl | ⟨notified, -⟩
      · rfl
      · exact absurd notified other

/-- **One round, or two if an unpark comes between.** -/
theorem Step.looks (step : Step mayPark i s pc s' pc') (before : pc.Looks s.state)
    (unparked : pc.parks = true → pc.committed = false → s.state ≠ .parked) :
    pc'.Looks s'.state := by
  cases step with
  | park timed => exact looks_loop timed (.inl rfl)
  | consumeFailed other => exact absurd before.1 other
  | prepareFailed other =>
      rename_i timed failed
      obtain rfl : failed = 0 := before
      have notified : s.state = .notified := by
        cases state : s.state with
        | empty => exact absurd state other
        | parked => exact absurd state (unparked rfl rfl)
        | notified => rfl
      exact looks_loop timed (.inr ⟨notified, rfl⟩)
  | _ => trivial

/-- What a thread has looked at stays so while nobody else parks. -/
theorem Looks.undisturbed {u : ParkPc} (before : u.Looks s.state)
    (stays : u.parks = true → s'.state = s.state ∨ s'.state = .notified) : u.Looks s'.state := by
  cases u with
  | consume timed failed =>
      refine ⟨?_, before.2⟩
      rcases stays rfl with same | notified
      · exact same.trans before.1
      · exact notified
  | prepare timed failed => exact before
  | _ => trivial

end ParkPc

/-! ## Threads past the exchange -/

/-- Past the exchange the word is not `EMPTY`, and one thread at most is past the exchange. -/
structure Backed (s : ParkingState) : Prop where
  nonempty : Pool.Each (fun _ pc => pc.committed = true → s.shared.state ≠ .empty) s.threads
  one : Pool.AtMostOne ParkPc.committed s.threads

/-- Nobody takes the token while a thread is past its exchange. -/
def takesAlone (s : ParkingState) (a : Nat × ParkLabel) : Bool :=
  match s.threads[a.1]? with
  | some (.consume _ _) => s.shared.state != .notified || !s.threads.any ParkPc.committed
  | _ => true

theorem backed_parkingWith (n : Nat) : Backed (parkingWith n) := by
  refine ⟨?_, Pool.atMostOne_replicate n rfl⟩
  intro i pc found committed
  rw [List.eq_of_mem_replicate (List.mem_of_getElem? found)] at committed
  cases committed

section Backed

variable {impl : ParkerImpl} {mayPark : Nat → Bool} {i : Nat} {s : ParkingState}
  {shared : Parker} {pc pc' : ParkPc}

/-- A step that takes no token keeps the threads backed. -/
theorem Backed.step (inv : Backed s) (found : s.threads[i]? = some pc)
    (step : ParkPc.Step mayPark i s.shared pc shared pc')
    (leaves : ¬(s.shared.state = .notified ∧ ∃ timed failed, pc = .consume timed failed)) :
    Backed ⟨shared, s.threads.set i pc'⟩ := by
  constructor
  · refine Pool.interference_free inv.nonempty ?_ fun j u other foundU before now empty => ?_
    · exact step.state_ne_empty (inv.nonempty i pc found)
    · rcases step.empties (before now) empty with committed | takes
      · exact other (inv.one j i u pc foundU found now committed)
      · exact leaves takes
  · apply inv.one.set found
    intro now
    rcases step.commits now with before | empty
    · exact .inl before
    · refine .inr fun u member => Bool.eq_false_of_not_eq_true ?_
      intro committed
      obtain ⟨j, foundU⟩ := List.mem_iff_getElem?.mp member
      exact inv.nonempty j u foundU committed empty

/-- **A step keeps the threads backed exactly when it takes no token beside one of them.** -/
theorem backed_step_iff {s' : ParkingState} {l : ParkLabel} (inv : Backed s)
    (taken : (parking impl mayPark).step s (i, l) = some s') :
    Backed s' ↔ takesAlone s (i, l) = true := by
  replace taken : Pool.step (ParkPc.move impl mayPark) s (i, l) = some s' := taken
  obtain ⟨pc, shared, pc', found, moved, rfl⟩ := Pool.step_eq_some taken
  have step := ParkPc.step_of_move moved
  by_cases takes : s.shared.state = .notified ∧ ∃ timed failed, pc = .consume timed failed
  · obtain ⟨notified, timed, failed, rfl⟩ := takes
    have alone : takesAlone s (i, l) = true ↔ ∀ u ∈ s.threads, u.committed = false := by
      simp [takesAlone, found, notified]
    rw [alone]
    cases step with
    | consumeFailed other => exact absurd notified other
    | consumed =>
        constructor
        · intro after u member
          obtain ⟨j, foundU⟩ := List.mem_iff_getElem?.mp member
          by_contra committed
          have now : u.committed = true := Bool.eq_true_of_not_eq_false committed
          have other : i ≠ j := by
            rintro rfl
            obtain rfl : ParkPc.consume timed failed = u :=
              Option.some.inj (found.symm.trans foundU)
            cases now
          have stays : (s.threads.set i .idle)[j]? = some u := by
            rwa [List.getElem?_set_ne other]
          exact after.nonempty j u stays now rfl
        · intro none
          have nobody : ∀ (j : Nat) (u : ParkPc), (s.threads.set i .idle)[j]? = some u →
              u.committed = false := by
            intro j u foundU
            rcases Pool.getElem?_set_cases foundU with ⟨-, rfl⟩ | ⟨-, before⟩
            · rfl
            · exact none u (List.mem_of_getElem? before)
          refine ⟨?_, inv.one.set found fun now => nomatch now⟩
          intro j u foundU committed
          rw [nobody j u foundU] at committed
          cases committed
  · have alone : takesAlone s (i, l) = true := by
      simp only [takesAlone, found]
      cases pc with
      | consume timed failed =>
          have other : s.shared.state ≠ .notified := fun notified =>
            takes ⟨notified, timed, failed, rfl⟩
          simp [other]
      | _ => rfl
    exact iff_of_true (inv.step found step takes) alone

end Backed

/-- **The threads are backed exactly along the runs in which the token is taken alone.** -/
theorem backed_along_iff (impl : ParkerImpl) (mayPark : Nat → Bool) (n : Nat)
    (labels : List (Nat × ParkLabel)) :
    (parking impl mayPark).Always Backed (parkingWith n) labels ↔
      (parking impl mayPark).Meets (fun s a => takesAlone s a = true) (parkingWith n) labels := by
  refine Machine.always_iff_meets ?_ (.start ⟨n, rfl⟩) (backed_parkingWith n)
  rintro s ⟨i, l⟩ s' - inv taken
  exact backed_step_iff inv taken

/-- No thread is at the unreachable arm. -/
def Unreached (s : ParkingState) : Prop :=
  ∀ pc ∈ s.threads, ∀ guarded, pc ≠ .unreachable guarded

/-- A step out of a backed state leads no thread to the unreachable arm. -/
theorem Unreached.step {mayPark : Nat → Bool} {i : Nat} {s : ParkingState} {shared : Parker}
    {pc pc' : ParkPc} (before : Unreached s) (inv : Backed s) (found : s.threads[i]? = some pc)
    (step : ParkPc.Step mayPark i s.shared pc shared pc') :
    Unreached ⟨shared, s.threads.set i pc'⟩ := by
  intro u member guarded unreachable
  rcases List.mem_or_eq_of_mem_set member with stays | rfl
  · exact before u stays guarded unreachable
  · obtain ⟨committed, empty⟩ := step.reaches unreachable
    exact inv.nonempty i pc found committed empty

/-- **The closing swap of `ThreadPark` never finds `EMPTY`** in a run in which nobody takes the
token while another thread is between its exchange and its closing swap. -/
theorem unreached_of_takesAlone {s : ParkingState}
    (reached : (parking .threadPark everyone).ReachesWhen (fun s a => takesAlone s a = true) s) :
    Unreached s := by
  have inv : Backed s ∧ Unreached s := by
    refine Machine.ReachesWhen.invariant (I := fun s => Backed s ∧ Unreached s) ?_ ?_ reached
    · rintro _ ⟨n, rfl⟩
      refine ⟨backed_parkingWith n, ?_⟩
      intro pc member guarded
      rw [List.eq_of_mem_replicate member]
      nofun
    · rintro s ⟨i, l⟩ s' - ⟨backed, before⟩ meets taken
      refine ⟨(backed_step_iff backed taken).mpr meets, ?_⟩
      replace taken : Pool.step (ParkPc.move .threadPark everyone) s (i, l) = some s' := taken
      obtain ⟨pc, shared, pc', found, moved, rfl⟩ := Pool.step_eq_some taken
      exact before.step backed found (ParkPc.step_of_move moved)
  exact inv.2

/-- Thread `1` parks when thread `0` has moved the word to `PARKED`, and takes the token of the
`unpark` that was meant for thread `0`. -/
def tokenTaken : List (Nat × ParkLabel) :=
  [(0, .park true), (0, .next), (1, .park true), (2, .unpark), (1, .next), (1, .next),
   (0, .next), (0, .next), (0, .wake false), (0, .next), (0, .next)]

/-- In such a run `ThreadPark` comes to the unreachable arm. -/
theorem unreachable_arm_reached :
    ∃ s, (parking .threadPark everyone).Reaches s ∧ ¬Unreached s := by
  obtain ⟨s, reached, tested⟩ := (parking .threadPark everyone).exists_reaches_of_test
    (fun s => s.threads.any fun pc => pc == .unreachable true) tokenTaken ⟨3, rfl⟩ (by decide)
  refine ⟨s, reached, ?_⟩
  intro unreached
  obtain ⟨pc, member, same⟩ := List.any_eq_true.mp tested
  exact unreached pc member true (eq_of_beq same)

/-- Thread `0` parks and is unparked, and thread `1` parks after it. -/
def parkedInTurn : List (Nat × ParkLabel) :=
  [(0, .park true), (0, .next), (0, .next), (0, .next), (2, .unpark), (0, .wake false), (0, .next),
   (0, .next), (0, .next), (1, .park true), (1, .next)]

/-- In such a run the condition is met. -/
theorem unreached_parkedInTurn : ∃ s : ParkingState,
    s.threads[1]? = some (.lock true) ∧ Unreached s := by
  obtain ⟨s, reached, tested⟩ := (parking .threadPark everyone).exists_reachesWhen_of_test
    (fun s a => takesAlone s a = true) (fun s => s.threads[1]? == some (.lock true)) parkedInTurn
    ⟨3, rfl⟩ (by decide)
  exact ⟨s, eq_of_beq tested, unreached_of_takesAlone reached⟩

/-! ## Calls that exclude one another -/

/-- `park` is called when nobody is inside of it: the callers hold `&mut self`. -/
def parksAlone (s : ParkingState) (a : Nat × ParkLabel) : Bool :=
  match a.2 with
  | .park _ => s.threads.all fun pc => !pc.parks
  | _ => true

/-- What holds when one thread at a time parks. -/
structure Sole (s : ParkingState) : Prop extends Backed s where
  alone : Pool.AtMostOne ParkPc.parks s.threads
  parked : s.shared.state = .parked → ∃ pc ∈ s.threads, pc.committed = true
  looks : Pool.Each (fun _ pc => pc.Looks s.shared.state) s.threads

/-- Before the exchange the sole parking thread does not find `PARKED`. -/
theorem Sole.state_ne_parked {s : ParkingState} (inv : Sole s) {i : Nat} {pc : ParkPc}
    (found : s.threads[i]? = some pc) (parks : pc.parks = true) (before : pc.committed = false) :
    s.shared.state ≠ .parked := by
  intro parked
  obtain ⟨u, member, committed⟩ := inv.parked parked
  obtain ⟨j, foundU⟩ := List.mem_iff_getElem?.mp member
  obtain rfl := inv.alone i j pc u found foundU parks (ParkPc.parks_of_committed committed)
  obtain rfl : pc = u := Option.some.inj (found.symm.trans foundU)
  rw [before] at committed
  cases committed

/-- **Every step keeps it**, if `park` is called by one thread at a time. -/
theorem Sole.step {impl : ParkerImpl} {mayPark : Nat → Bool} {s s' : ParkingState}
    {a : Nat × ParkLabel} (inv : Sole s) (meets : parksAlone s a = true)
    (taken : (parking impl mayPark).step s a = some s') : Sole s' := by
  obtain ⟨i, l⟩ := a
  have backed := backed_step_iff inv.toBacked taken
  replace taken : Pool.step (ParkPc.move impl mayPark) s (i, l) = some s' := taken
  obtain ⟨pc, shared, pc', found, moved, rfl⟩ := Pool.step_eq_some taken
  have step := ParkPc.step_of_move moved
  refine ⟨backed.mpr ?_, inv.alone.set found fun now => ?_, fun now => ?_, ?_⟩
  · -- the token is taken by the one thread that parks
    simp only [takesAlone, found]
    cases pc with
    | consume timed failed =>
        have nobody : s.threads.any ParkPc.committed = false := by
          apply List.any_eq_false.mpr
          intro u member committed
          obtain ⟨j, foundU⟩ := List.mem_iff_getElem?.mp member
          obtain rfl := inv.alone i j _ u found foundU rfl (ParkPc.parks_of_committed committed)
          obtain rfl : ParkPc.consume timed failed = u := Option.some.inj (found.symm.trans foundU)
          cases committed
        simp [nobody]
    | _ => rfl
  · cases inside : pc.parks with
    | true => exact .inl rfl
    | false =>
        obtain ⟨timed, rfl⟩ := ParkPc.calls_of_parks moved inside now
        have nobody : ∀ u ∈ s.threads, u.parks = false := by simpa [parksAlone] using meets
        exact .inr nobody
  · obtain ⟨mover, stays⟩ := step.parked now
    rcases mover with before | committed
    · obtain ⟨u, member, committed⟩ := inv.parked before
      obtain ⟨j, foundU⟩ := List.mem_iff_getElem?.mp member
      by_cases same : j = i
      · subst same
        obtain rfl : pc = u := Option.some.inj (found.symm.trans foundU)
        exact ⟨pc', List.mem_of_getElem? (Pool.getElem?_set_self pc' found), stays committed⟩
      · refine ⟨u, List.mem_of_getElem? (i := j) ?_, committed⟩
        rwa [List.getElem?_set_ne (Ne.symm same)]
    · exact ⟨pc', List.mem_of_getElem? (Pool.getElem?_set_self pc' found), committed⟩
  · refine Pool.interference_free inv.looks ?_ fun j u other foundU before => ?_
    · exact step.looks (inv.looks i pc found) (inv.state_ne_parked found)
    · refine before.undisturbed fun parks => step.outside ?_
      exact Bool.eq_false_of_not_eq_true fun parks' =>
        other (inv.alone j i u pc foundU found parks parks')

end LoonyRuntime.Runtime
