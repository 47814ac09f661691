import LoonyRuntime.Collections.MaxHeap
import LoonyRuntime.Concurrent.Machine

/-!
# The time driver

`TimeDriver` of `park.rs` keeps its timers in a max-heap whose order is that of the deadlines,
reversed. So the heap shows an earliest deadline, and `process` pops timers while their deadline
has passed. Instants are readings of the monotonic clock, in nanoseconds.

`processLoop_spec` says what one call of `process` fires, and `timers_fire_once` what every
sequence of calls does: each timer that was scheduled is in the heap or was fired, once.
-/

set_option autoImplicit false

namespace LoonyRuntime.Time

open Collections Concurrent

structure TimerEntry (W : Type) where
  deadline : Nat
  waker : W
deriving DecidableEq, Repr

variable {W : Type}

namespace TimerEntry

/-- `Ord::cmp`: the deadlines, reversed. -/
def cmp (self other : TimerEntry W) : Ordering := compare other.deadline self.deadline

/-- An entry compares less or equal when its deadline is later or equal. -/
theorem isLE_cmp {self other : TimerEntry W} :
    (self.cmp other).isLE = true ↔ other.deadline ≤ self.deadline :=
  Nat.isLE_compare

/-- The order of the entries is lawful. -/
instance : Std.TransCmp (cmp (W := W)) where
  eq_swap := Std.OrientedOrd.eq_swap
  isLE_trans := by
    intro a b c first second
    rw [isLE_cmp] at first second ⊢
    exact Nat.le_trans second first

end TimerEntry

/-! ## Operations -/

/-- A max-heap of timer entries: `BinaryHeap<TimerEntry>`. -/
abbrev TimerHeap (W : Type) := MaxHeap (TimerEntry W) TimerEntry.cmp

structure TimeDriver (H : TimerHeap W) where
  timers : H.Heap

namespace TimeDriver

variable {H : TimerHeap W}

def new (H : TimerHeap W) : TimeDriver H := ⟨H.new⟩

/-- `schedule`. What its `notify_one` does is the subject of `Time.Parker`. -/
def schedule (self : TimeDriver H) (deadline : Nat) (waker : W) : TimeDriver H :=
  ⟨H.push self.timers ⟨deadline, waker⟩⟩

def nextDeadline (self : TimeDriver H) : Option Nat :=
  (H.peek self.timers).map TimerEntry.deadline

/-- The loop of `process`, with the entries it wakes in their order. `none` is the panic of
`unwrap`. -/
def processLoop (H : TimerHeap W) (now : Nat) (timers : H.Heap) :
    Option (List (TimerEntry W) × H.Heap) :=
  match H.peek timers with
  | none => some ([], timers)
  | some entry =>
      if now < entry.deadline then some ([], timers)
      else match popped : H.pop timers with
        | none => none
        | some (entry, rest) =>
            have := H.card_pop popped
            (processLoop H now rest).map fun r => (entry :: r.1, r.2)
termination_by (H.items timers).card
decreasing_by assumption

def process (self : TimeDriver H) (now : Nat) : Option (List (TimerEntry W) × TimeDriver H) :=
  (processLoop H now self.timers).map fun r => (r.1, ⟨r.2⟩)

/-! ## What one call does -/

/-- A shown entry has an earliest deadline. -/
theorem deadline_le_of_peek {timers : H.Heap} {entry : TimerEntry W}
    (shown : H.peek timers = some entry) :
    ∀ other ∈ H.items timers, entry.deadline ≤ other.deadline := fun other member =>
  TimerEntry.isLE_cmp.mp (H.isLE_of_peek shown other member)

/-- **`next_deadline` is the earliest deadline**, and there is none exactly when there is no
timer. -/
theorem nextDeadline_eq_none (self : TimeDriver H) :
    self.nextDeadline = none ↔ H.items self.timers = 0 := by
  rw [nextDeadline, Option.map_eq_none_iff]
  exact H.peek_eq_none

theorem nextDeadline_eq_some {self : TimeDriver H} {deadline : Nat}
    (next : self.nextDeadline = some deadline) :
    (∃ entry ∈ H.items self.timers, entry.deadline = deadline) ∧
      ∀ entry ∈ H.items self.timers, deadline ≤ entry.deadline := by
  obtain ⟨entry, shown, rfl⟩ := Option.map_eq_some_iff.mp next
  exact ⟨⟨entry, H.mem_of_peek shown, rfl⟩, deadline_le_of_peek shown⟩

/-- A bound of the next deadline is a bound of all deadlines. -/
theorem le_nextDeadline_iff {self : TimeDriver H} {bound : Nat} :
    (∀ deadline ∈ self.nextDeadline, bound ≤ deadline) ↔
      ∀ entry ∈ H.items self.timers, bound ≤ entry.deadline := by
  constructor
  · intro least entry member
    cases next : self.nextDeadline with
    | none =>
        rw [self.nextDeadline_eq_none.mp next] at member
        exact absurd member (Multiset.notMem_zero entry)
    | some deadline =>
        exact Nat.le_trans (least deadline next) ((nextDeadline_eq_some next).2 entry member)
  · intro all deadline next
    obtain ⟨⟨entry, member, rfl⟩, -⟩ := nextDeadline_eq_some next
    exact all entry member

/-- What `process` fires: the timers whose deadline has passed, in the order of their deadlines,
and it leaves the others. -/
structure Fires (now : Nat) (before after : Multiset (TimerEntry W))
    (woken : List (TimerEntry W)) : Prop where
  due : (woken : Multiset (TimerEntry W)) = before.filter (·.deadline ≤ now)
  ordered : woken.Pairwise fun first second => first.deadline ≤ second.deadline
  kept : after = before.filter (now < ·.deadline)

/-- No timer is lost or fired twice. -/
theorem Fires.conserves {now : Nat} {before after : Multiset (TimerEntry W)}
    {woken : List (TimerEntry W)} (fires : Fires now before after woken) :
    after + woken = before := by
  have later : after = before.filter fun entry => ¬entry.deadline ≤ now := by
    simpa only [Nat.not_le] using fires.kept
  rw [later, fires.due, add_comm]
  exact Multiset.filter_add_not _ before

/-- **The loop of `process` ends without a panic, and fires what is due.** -/
theorem processLoop_spec (now : Nat) (timers : H.Heap) :
    ∃ woken rest, processLoop H now timers = some (woken, rest) ∧
      Fires now (H.items timers) (H.items rest) woken := by
  fun_induction processLoop H now timers with
  | case1 timers empty =>
      rw [H.peek_eq_none] at empty
      refine ⟨[], timers, rfl, ?_, .nil, ?_⟩ <;> simp [empty]
  | case2 timers entry shown later =>
      have all : ∀ other ∈ H.items timers, now < other.deadline := fun other member =>
        Nat.lt_of_lt_of_le later (deadline_le_of_peek shown other member)
      refine ⟨[], timers, rfl, ?_, .nil, ?_⟩
      · refine (Multiset.filter_eq_nil.mpr ?_).symm
        intro other member
        exact Nat.not_le.mpr (all other member)
      · exact (Multiset.filter_eq_self.mpr all).symm
  | case3 timers entry shown due none =>
      obtain ⟨rest, popped⟩ := H.exists_pop_of_peek shown
      rw [none] at popped
      cases popped
  | case4 timers entry shown due popped rest taken fewer ih =>
      -- the entry that is popped is the one that was shown
      obtain ⟨rest', same⟩ := H.exists_pop_of_peek shown
      obtain ⟨rfl, rfl⟩ := Prod.mk.inj (Option.some.inj (taken.symm.trans same))
      have first : popped.deadline ≤ now := Nat.le_of_not_lt due
      have items := H.items_pop taken
      obtain ⟨woken, left, ran, fires⟩ := ih
      refine ⟨popped :: woken, left, by rw [ran]; rfl, ?_, ?_, ?_⟩
      · have step := Multiset.filter_cons_of_pos (p := fun e : TimerEntry W => e.deadline ≤ now)
          (H.items rest) first
        rw [items, step, ← fires.due, Multiset.cons_coe]
      · refine List.pairwise_cons.mpr ⟨?_, fires.ordered⟩
        intro other member
        have inside : other ∈ H.items rest := by
          have : other ∈ (woken : Multiset (TimerEntry W)) := member
          rw [fires.due] at this
          exact Multiset.mem_of_mem_filter this
        exact deadline_le_of_peek shown other (items ▸ Multiset.mem_cons_of_mem inside)
      · have step := Multiset.filter_cons_of_neg (p := fun e : TimerEntry W => now < e.deadline)
          (H.items rest) due
        rw [items, step]
        exact fires.kept

theorem process_spec (self : TimeDriver H) (now : Nat) :
    ∃ woken driver, self.process now = some (woken, driver) ∧
      Fires now (H.items self.timers) (H.items driver.timers) woken := by
  obtain ⟨woken, rest, ran, fires⟩ := processLoop_spec now self.timers
  exact ⟨woken, ⟨rest⟩, by rw [process, ran]; rfl, fires⟩

end TimeDriver

/-! ## Every sequence of calls -/

/-- A call on the driver. `process` comes with its reading of the clock. -/
inductive TimeOp (W : Type) where
  | schedule (deadline : Nat) (waker : W)
  | nextDeadline
  | process (now : Nat)

/-- A driver with the entries that were scheduled and those that were fired. -/
structure Timers (H : TimerHeap W) where
  driver : TimeDriver H
  scheduled : Multiset (TimerEntry W)
  fired : Multiset (TimerEntry W)

namespace Timers

variable {H : TimerHeap W}

def new (H : TimerHeap W) : Timers H := ⟨.new H, 0, 0⟩

/-- One call. A panic has no step. -/
def call (s : Timers H) : TimeOp W → Option (Timers H)
  | .schedule deadline waker =>
      some { s with
        driver := s.driver.schedule deadline waker
        scheduled := ⟨deadline, waker⟩ ::ₘ s.scheduled }
  | .nextDeadline => some s
  | .process now =>
      (s.driver.process now).map fun r => { s with driver := r.2, fired := s.fired + r.1 }

end Timers

/-- The machine of a driver: its labels are the calls. -/
def timers (H : TimerHeap W) : Machine (Timers H) (TimeOp W) where
  initial s := s = .new H
  step := Timers.call

/-- The heap holds what was scheduled and not yet fired. -/
def Timers.Balanced {H : TimerHeap W} (s : Timers H) : Prop :=
  H.items s.driver.timers + s.fired = s.scheduled

/-- **Every call returns, and keeps the heap balanced.** -/
theorem Timers.Balanced.call {H : TimerHeap W} {s : Timers H} (inv : s.Balanced) (op : TimeOp W) :
    ∃ s', s.call op = some s' ∧ s'.Balanced := by
  cases op with
  | schedule deadline waker =>
      refine ⟨_, rfl, ?_⟩
      simp only [Balanced, TimeDriver.schedule, H.items_push, Multiset.cons_add]
      exact congrArg _ inv
  | nextDeadline => exact ⟨s, rfl, inv⟩
  | process now =>
      obtain ⟨woken, driver, ran, fires⟩ := s.driver.process_spec now
      refine ⟨{ s with driver := driver, fired := s.fired + woken }, ?_, ?_⟩
      · rw [Timers.call, ran]
        rfl
      · change H.items driver.timers + (s.fired + woken) = s.scheduled
        rw [add_left_comm, fires.conserves, add_comm]
        exact inv

/-- Every sequence of calls returns, and keeps the heap balanced. -/
theorem Timers.run_balanced (H : TimerHeap W) (calls : List (TimeOp W)) :
    ∃ s, (timers H).run (.new H) calls = some s ∧ s.Balanced := by
  have go : ∀ s : Timers H, s.Balanced →
      ∃ s', (timers H).run s calls = some s' ∧ s'.Balanced := by
    induction calls with
    | nil => exact fun s inv => ⟨s, rfl, inv⟩
    | cons op rest ih =>
        intro s inv
        obtain ⟨middle, called, after⟩ := inv.call op
        obtain ⟨s', ran, last⟩ := ih middle after
        refine ⟨s', ?_, last⟩
        rw [Machine.run, Machine.runWhen, if_pos trivial]
        exact Option.bind_eq_some_iff.mpr ⟨middle, called, ran⟩
  apply go
  change H.items H.new + 0 = 0
  rw [H.items_new, add_zero]

/-- **Each timer fires once, on time and in order.** Every sequence of calls returns. After it, the
heap holds what was scheduled and not yet fired. A `process` then ends, and wakes the entries whose
deadline has passed, each once and in the order of the deadlines, and keeps the others. The next
deadline is the earliest one that remains, and there is none exactly when no entry remains. -/
theorem timers_fire_once (H : TimerHeap W) (calls : List (TimeOp W)) :
    ∃ s, (timers H).run (.new H) calls = some s ∧
      H.items s.driver.timers + s.fired = s.scheduled ∧
      (∀ now, ∃ woken driver, s.driver.process now = some (woken, driver) ∧
        (woken : Multiset (TimerEntry W)) =
          (H.items s.driver.timers).filter (·.deadline ≤ now) ∧
        (woken.Pairwise fun first second => first.deadline ≤ second.deadline) ∧
        H.items driver.timers = (H.items s.driver.timers).filter (now < ·.deadline)) ∧
      (s.driver.nextDeadline = none ↔ H.items s.driver.timers = 0) ∧
      ∀ deadline, s.driver.nextDeadline = some deadline →
        (∃ entry ∈ H.items s.driver.timers, entry.deadline = deadline) ∧
          ∀ entry ∈ H.items s.driver.timers, deadline ≤ entry.deadline := by
  obtain ⟨s, ran, balanced⟩ := Timers.run_balanced H calls
  refine ⟨s, ran, balanced, fun now => ?_, s.driver.nextDeadline_eq_none,
    fun deadline => TimeDriver.nextDeadline_eq_some⟩
  obtain ⟨woken, driver, processed, fires⟩ := s.driver.process_spec now
  exact ⟨woken, driver, processed, fires.due, fires.ordered, fires.kept⟩

end LoonyRuntime.Time
