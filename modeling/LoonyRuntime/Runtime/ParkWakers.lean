import LoonyRuntime.Concurrent.Machine
import LoonyRuntime.Memory.Arc

/-!
# The wakers of the parkers

`ThreadPark`, `SleepPark` and `YieldPark` of `park.rs` and `ThreadParker` of `current_thread.rs`
hand out wakers that share the parker's inner state. Each waker holds one count of its `Arc` by a
raw pointer, and four vtables convert between the two. They are copies of one another: an entry is
a body with the parker as a parameter, and each member of the family is that body for its parker.

The entry `clone` makes a second clone and forgets it, so that each call of it takes two counts for
one waker. The other entries take and give what they should. So the count is the number of handles
that are alive and of the clones that were ever made (`strong_eq`), and it is balanced along a
run exactly if no waker is cloned in it (`parkerCount_along_iff`).
-/

set_option autoImplicit false

namespace LoonyRuntime.Runtime

open Concurrent Memory

/-! ## The vtables -/

/-- The parkers with a waker of their own. -/
inductive ParkerKind where
  | threadPark
  | sleepPark
  | yieldPark
  | threadParker
deriving DecidableEq, Repr

/-- What the entries do with the inner state: `unpark` of a parker. -/
inductive InnerOp where
  | unpark (kind : ParkerKind)
deriving DecidableEq, Repr

namespace RawVtable

/-- The entry `clone`. The waker that is cloned keeps its count. -/
def clone : ArcFn InnerOp 0 1 1 where
  body := [
    -- `let inner = Arc::from_raw(data); let clone = inner.clone(); forget(inner);`
    .fromRaw, .clone, .forget,
    -- `forget(clone.clone());`
    .clone, .forget,
    .intoRaw]
  settles := settles_of_least rfl

/-- The entry `wake`. The temporary parker goes out of scope. -/
def wake (kind : ParkerKind) : ArcFn InnerOp 1 0 0 where
  body := [.fromRaw, .use (.unpark kind), .drop]
  settles := settles_of_least rfl

/-- The entry `wake_by_ref`. The waker keeps its count, and the temporary parker has its own. -/
def wakeByRef (kind : ParkerKind) : ArcFn InnerOp 0 0 0 where
  body := [.fromRaw, .clone, .use (.unpark kind), .forget, .drop]
  settles := settles_of_least rfl

/-- The entry `drop`. -/
def drop : ArcFn InnerOp 1 0 0 where
  body := [.fromRaw, .drop]
  settles := settles_of_least rfl

end RawVtable

/-- A vtable of wakers, with the functions of its parker. -/
structure ParkerWakers where
  /-- `waker`, which returns an `Arc` in a struct if `converts`, and a `Waker` otherwise. -/
  waker : ArcFn InnerOp 0 1 0
  converts : Bool
  clone : ArcFn InnerOp 0 1 1
  wake : ArcFn InnerOp 1 0 0
  wakeByRef : ArcFn InnerOp 0 0 0
  drop : ArcFn InnerOp 1 0 0

/-- `ThreadPark::waker`, `SleepPark::waker` and `YieldPark::waker`. -/
def structWaker : ArcFn InnerOp 0 1 0 where
  body := [.clone, .ret]
  settles := settles_of_least rfl

/-- `into_waker` of the structs. -/
def intoWaker : ArcFn InnerOp 1 1 0 where
  body := [.arg, .intoRaw]
  settles := settles_of_least rfl

/-- A struct of a waker or a parker goes out of scope. -/
def dropStruct : ArcFn InnerOp 1 0 0 where
  body := [.arg, .drop]
  settles := settles_of_least rfl

def wakerClone : ArcFn InnerOp 0 1 1 := RawVtable.clone
def wakerWake : ArcFn InnerOp 1 0 0 := RawVtable.wake .threadPark
def wakerWakeByRef : ArcFn InnerOp 0 0 0 := RawVtable.wakeByRef .threadPark
def wakerDrop : ArcFn InnerOp 1 0 0 := RawVtable.drop

/-- `WAKER_VTABLE`. -/
def wakerVtable : ParkerWakers :=
  ⟨structWaker, true, wakerClone, wakerWake, wakerWakeByRef, wakerDrop⟩

def sleepWakerClone : ArcFn InnerOp 0 1 1 := RawVtable.clone
def sleepWakerWake : ArcFn InnerOp 1 0 0 := RawVtable.wake .sleepPark
def sleepWakerWakeByRef : ArcFn InnerOp 0 0 0 := RawVtable.wakeByRef .sleepPark
def sleepWakerDrop : ArcFn InnerOp 1 0 0 := RawVtable.drop

/-- `SLEEP_WAKER_VTABLE`. -/
def sleepWakerVtable : ParkerWakers :=
  ⟨structWaker, true, sleepWakerClone, sleepWakerWake, sleepWakerWakeByRef, sleepWakerDrop⟩

def yieldWakerClone : ArcFn InnerOp 0 1 1 := RawVtable.clone
def yieldWakerWake : ArcFn InnerOp 1 0 0 := RawVtable.wake .yieldPark
def yieldWakerWakeByRef : ArcFn InnerOp 0 0 0 := RawVtable.wakeByRef .yieldPark
def yieldWakerDrop : ArcFn InnerOp 1 0 0 := RawVtable.drop

/-- `YIELD_WAKER_VTABLE`. -/
def yieldWakerVtable : ParkerWakers :=
  ⟨structWaker, true, yieldWakerClone, yieldWakerWake, yieldWakerWakeByRef, yieldWakerDrop⟩

namespace ThreadParker

/-- `ThreadParker::waker`. -/
def waker : ArcFn InnerOp 0 1 0 where
  body := [.clone, .intoRaw]
  settles := settles_of_least rfl

def clone : ArcFn InnerOp 0 1 1 := RawVtable.clone
def wake : ArcFn InnerOp 1 0 0 := RawVtable.wake .threadParker
def wakeByRef : ArcFn InnerOp 0 0 0 := RawVtable.wakeByRef .threadParker
def dropWaker : ArcFn InnerOp 1 0 0 := RawVtable.drop

/-- `VTABLE` in `ThreadParker::waker`. -/
def vtable : ParkerWakers := ⟨waker, false, clone, wake, wakeByRef, dropWaker⟩

end ThreadParker

/-- The vtable of a parker's wakers. -/
def ParkerKind.wakers : ParkerKind → ParkerWakers
  | .threadPark => wakerVtable
  | .sleepPark => sleepWakerVtable
  | .yieldPark => yieldWakerVtable
  | .threadParker => ThreadParker.vtable

/-! ## Calls -/

/-- A call on the handles of one inner state. -/
inductive WakerCall where
  /-- A waker is made from the parker. -/
  | waker
  /-- A struct of a waker is converted. -/
  | intoWaker
  | dropMade
  | clone
  | wake
  | wakeByRef
  | drop
  | dropParker
deriving DecidableEq, Repr

/-- The strong count of an inner state and its handles: parkers, structs of wakers and wakers.
`cloned` counts the clones of wakers so far. -/
structure ParkerCount where
  strong : Nat
  parkers : Nat
  made : Nat
  wakers : Nat
  cloned : Nat
deriving DecidableEq, Repr

/-- `new` of a parker. -/
def ParkerCount.new : ParkerCount := ⟨1, 1, 0, 0, 0⟩

/-- The handles that are alive. -/
def ParkerCount.live (s : ParkerCount) : Nat := s.parkers + (s.made + s.wakers)

namespace WakerCall

/-- The handles that the function takes. -/
def takes : WakerCall → Nat
  | .waker | .clone | .wakeByRef => 0
  | .intoWaker | .dropMade | .wake | .drop | .dropParker => 1

/-- The handles that the function gives. -/
def gives : WakerCall → Nat
  | .waker | .intoWaker | .clone => 1
  | .dropMade | .wake | .wakeByRef | .drop | .dropParker => 0

/-- The counts that the function leaks. -/
def leaks : WakerCall → Nat
  | .clone => 1
  | _ => 0

/-- The function that is called. -/
def fn (w : ParkerWakers) : (c : WakerCall) → ArcFn InnerOp c.takes c.gives c.leaks
  | .waker => w.waker
  | .intoWaker => Runtime.intoWaker
  | .dropMade => dropStruct
  | .clone => w.clone
  | .wake => w.wake
  | .wakeByRef => w.wakeByRef
  | .drop => w.drop
  | .dropParker => dropStruct

/-- The call has a handle to be made on. -/
def enabled (s : ParkerCount) : WakerCall → Bool
  | .waker | .dropParker => 0 < s.parkers
  | .intoWaker | .dropMade => 0 < s.made
  | .clone | .wake | .wakeByRef | .drop => 0 < s.wakers

/-- The handles after the call. -/
def handles (w : ParkerWakers) (s : ParkerCount) : WakerCall → ParkerCount
  | .waker => if w.converts then { s with made := s.made + 1 } else { s with wakers := s.wakers + 1 }
  | .intoWaker => { s with made := s.made - 1, wakers := s.wakers + 1 }
  | .dropMade => { s with made := s.made - 1 }
  | .clone => { s with wakers := s.wakers + 1, cloned := s.cloned + 1 }
  | .wake => { s with wakers := s.wakers - 1 }
  | .wakeByRef => s
  | .drop => { s with wakers := s.wakers - 1 }
  | .dropParker => { s with parkers := s.parkers - 1 }

/-- A call runs the body of its function on the count. -/
def step (w : ParkerWakers) (s : ParkerCount) (c : WakerCall) : Option ParkerCount :=
  if c.enabled s = true then
    ((c.fn w).call s.strong).map fun strong => { c.handles w s with strong := strong }
  else none

end WakerCall

/-- The machine of the calls on one inner state. -/
def parkerWakers (kind : ParkerKind) : Machine ParkerCount WakerCall where
  initial s := s = .new
  step := WakerCall.step kind.wakers

/-! ## The count of a run -/

section Runs

variable {kind : ParkerKind} {s s' : ParkerCount} {c : WakerCall}

/-- The contract of a function is what its call does to the handles. -/
theorem handles_live (w : ParkerWakers) (enabled : c.enabled s = true) :
    0 < s.live ∧ c.takes ≤ s.live ∧ (c.handles w s).live = s.live - c.takes + c.gives := by
  unfold ParkerCount.live
  cases c with
  | waker =>
      have alive : 0 < s.parkers := of_decide_eq_true enabled
      simp only [WakerCall.handles, WakerCall.takes, WakerCall.gives]
      split
      · dsimp only
        omega
      · dsimp only
        omega
  | dropParker =>
      have alive : 0 < s.parkers := of_decide_eq_true enabled
      simp only [WakerCall.handles, WakerCall.takes, WakerCall.gives]
      omega
  | intoWaker | dropMade =>
      have alive : 0 < s.made := of_decide_eq_true enabled
      simp only [WakerCall.handles, WakerCall.takes, WakerCall.gives]
      omega
  | clone | wake | wakeByRef | drop =>
      have alive : 0 < s.wakers := of_decide_eq_true enabled
      simp only [WakerCall.handles, WakerCall.takes, WakerCall.gives]
      omega

/-- What leaks is counted by the clones. -/
theorem handles_cloned (w : ParkerWakers) (s : ParkerCount) (c : WakerCall) :
    (c.handles w s).cloned = s.cloned + c.leaks := by
  cases c with
  | waker =>
      simp only [WakerCall.handles]
      split <;> rfl
  | intoWaker | dropMade | clone | wake | wakeByRef | drop | dropParker => rfl

/-- **A call on a handle that is alive goes through**, and keeps the tally of the handles and of
the clones. -/
theorem step_tally (w : ParkerWakers) (tally : Tally s.strong s.live s.cloned)
    (enabled : c.enabled s = true) :
    ∃ s', c.step w s = some s' ∧ Tally s'.strong s'.live s'.cloned ∧
      s'.cloned = s.cloned + c.leaks := by
  obtain ⟨some_live, enough, live⟩ := handles_live w enabled
  have cloned := handles_cloned w s c
  obtain ⟨strong, called, settled⟩ := tally.call (c.fn w) some_live enough
  refine ⟨{ c.handles w s with strong := strong }, ?_, ?_, cloned⟩
  · rw [WakerCall.step, if_pos enabled, called, Option.map_some]
  · rw [← live, ← cloned] at settled
    exact settled

theorem enabled_of_taken (taken : (parkerWakers kind).step s c = some s') :
    c.enabled s = true :=
  (Option.ite_none_right_eq_some.mp taken).1

/-- The outcome of a call on a handle that is alive. -/
theorem tally_of_taken (tally : Tally s.strong s.live s.cloned)
    (taken : (parkerWakers kind).step s c = some s') :
    Tally s'.strong s'.live s'.cloned ∧ s'.cloned = s.cloned + c.leaks := by
  obtain ⟨after, stepped, kept⟩ := step_tally kind.wakers tally (enabled_of_taken taken)
  obtain rfl : after = s' := Option.some.inj (stepped.symm.trans taken)
  exact kept

/-- **The count is the number of handles that are alive and of the clones that were made.** -/
theorem strong_eq (reached : (parkerWakers kind).Reaches s) :
    Tally s.strong s.live s.cloned := by
  apply reached.invariant
  · rintro s rfl
    rfl
  · rintro s c s' - tally - taken
    exact (tally_of_taken tally taken).1

/-- The count is the number of the parkers and of the wakers that are alive, so that it is zero
exactly when the last of them is gone. -/
structure Balanced (s : ParkerCount) : Prop where
  count : s.strong = s.parkers + (s.made + s.wakers)
  zero : s.strong = 0 ↔ s.parkers = 0 ∧ s.made = 0 ∧ s.wakers = 0

theorem balanced_iff (tally : Tally s.strong s.live s.cloned) : Balanced s ↔ s.cloned = 0 := by
  constructor
  · intro balanced
    have count := balanced.count
    unfold Tally ParkerCount.live at tally
    omega
  · intro none
    rw [none] at tally
    refine ⟨tally, tally.zero_iff.trans ?_⟩
    rw [ParkerCount.live, Nat.add_eq_zero_iff, Nat.add_eq_zero_iff]

/-- **The count is balanced along a sequence of calls exactly if none of them is a clone.** -/
theorem parkerCount_along_iff (kind : ParkerKind) (calls : List WakerCall) :
    (parkerWakers kind).Always Balanced .new calls ↔
      (parkerWakers kind).Meets (fun _ c => c ≠ .clone) .new calls := by
  have start : (parkerWakers kind).Reaches .new := .start rfl
  apply Machine.always_iff_meets _ start ((balanced_iff (strong_eq start)).mpr rfl)
  intro s c s' reached balanced taken
  have tally := strong_eq reached
  have none := (balanced_iff tally).mp balanced
  obtain ⟨after, cloned⟩ := tally_of_taken tally taken
  rw [balanced_iff after, cloned, none]
  cases c with
  | clone => exact iff_of_false Nat.one_ne_zero fun other => other rfl
  | waker | intoWaker | dropMade | wake | wakeByRef | drop | dropParker =>
      exact iff_of_true rfl (fun same => by cases same)

/-- A waker is cloned once, and every handle is dropped. -/
def clonedOnce : List WakerCall := [.waker, .intoWaker, .clone, .drop, .drop, .dropParker]

/-- Nothing is alive, and one count is left. -/
theorem clone_leaks : ∃ s, (parkerWakers .threadPark).Reaches s ∧ s.live = 0 ∧ s.strong = 1 ∧
    ¬Balanced s := by
  obtain ⟨s, reached, tested⟩ := (parkerWakers .threadPark).exists_reaches_of_test
    (fun s => s == ⟨1, 0, 0, 0, 1⟩) clonedOnce rfl (by decide)
  obtain rfl := beq_iff_eq.mp tested
  refine ⟨_, reached, rfl, rfl, ?_⟩
  intro balanced
  cases balanced.count

end Runs

end LoonyRuntime.Runtime
