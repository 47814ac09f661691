import LoonyRuntime.Time.Parker
import Mathlib.Data.ENat.Lattice

/-!
# The timeout of a parker with a time driver

`Parker::park_timeout` of `park.rs` parks on the inner parker until the earliest deadline if that
lies ahead and comes before its own timeout. A deadline that has passed is treated like no deadline.

`rightWait` is the wait that the timers ask for: the least of the timeout and of the time that is
left until the earliest deadline, which is zero once it has passed. `park_timeout` asks for it
exactly if no deadline has passed, or if it is called with a timeout of zero
(`asks_rightWait_iff`). It never subtracts a later instant from an earlier one
(`parkTimeout_eq_innerTimeout`).
-/

set_option autoImplicit false

namespace LoonyRuntime.Time

variable {W : Type} {H : TimerHeap W}

/-! ## What the inner parker is asked for -/

/-- `Instant - Instant`. There is no duration between an instant and an earlier one. -/
def durationSince (later earlier : Nat) : Option Nat :=
  if earlier ≤ later then some (later - earlier) else none

/-- The call that `Parker::park_timeout` makes on the inner parker, at a reading of the clock:
`park`, or `park_timeout` with a duration. There is none if the subtraction of instants fails. -/
def parkTimeout (timeDriver : Option (TimeDriver H)) (now : Nat) (timeout : Option Nat) :
    Option (Option Nat) :=
  match timeDriver.bind TimeDriver.nextDeadline with
  | some deadline =>
      if now < deadline then
        (durationSince deadline now).map fun duration =>
          match timeout with
          | some timeout => if duration < timeout then some duration else some timeout
          | none => some duration
      else some timeout
  | none => some timeout

/-- **The subtraction never fails**, and the call is the one of the machine of a parker. -/
theorem parkTimeout_eq_innerTimeout (timeDriver : Option (TimeDriver H)) (now : Nat)
    (timeout : Option Nat) :
    parkTimeout timeDriver now timeout =
      some (innerTimeout (timeDriver.bind TimeDriver.nextDeadline) now timeout) := by
  unfold parkTimeout innerTimeout
  cases timeDriver.bind TimeDriver.nextDeadline with
  | none => rfl
  | some deadline =>
      by_cases ahead : now < deadline
      · simp only [if_pos ahead, durationSince, if_pos (Nat.le_of_lt ahead), Option.map_some]
        cases timeout <;> rfl
      · simp only [if_neg ahead]

/-! ## The right wait -/

/-- The limit that a call sets to the wait. `park` leaves it to the inner parker. -/
def limit : Option Nat → ℕ∞
  | some duration => duration
  | none => ⊤

/-- The earliest deadline of some timers, if there are any. -/
noncomputable def earliest (timers : Multiset (TimerEntry W)) : ℕ∞ :=
  ⨅ entry ∈ timers, (entry.deadline : ℕ∞)

/-- The least of the timeout and of the time that is left until the earliest deadline. -/
noncomputable def rightWait (timers : Multiset (TimerEntry W)) (now : Nat) (timeout : Option Nat) :
    ℕ∞ :=
  min (limit timeout) (earliest timers - now)

/-- `next_deadline` is the earliest deadline. -/
theorem earliest_eq_limit (driver : TimeDriver H) :
    earliest (H.items driver.timers) = limit driver.nextDeadline := by
  cases next : driver.nextDeadline with
  | none =>
      rw [driver.nextDeadline_eq_none.mp next]
      simp [earliest, limit]
  | some deadline =>
      obtain ⟨⟨entry, member, rfl⟩, least⟩ := TimeDriver.nextDeadline_eq_some next
      apply le_antisymm
      · exact iInf₂_le entry member
      · refine le_iInf₂ ?_
        intro other inside
        exact Nat.cast_le.mpr (least other inside)

theorem limit_eq_zero {timeout : Option Nat} : limit timeout = 0 ↔ timeout = some 0 := by
  cases timeout with
  | none => simp [limit]
  | some duration => simp [limit]

/-- **`park_timeout` asks for the right wait exactly if** no deadline has passed, or it is called
with a timeout of zero. -/
theorem asks_rightWait_iff (driver : TimeDriver H) (now : Nat) (timeout : Option Nat) :
    (∃ asked, parkTimeout (some driver) now timeout = some asked ∧
      limit asked = rightWait (H.items driver.timers) now timeout) ↔
      (∀ entry ∈ H.items driver.timers, now < entry.deadline) ∨ timeout = some 0 := by
  have passed : (∀ entry ∈ H.items driver.timers, now < entry.deadline) ↔
      ∀ deadline ∈ driver.nextDeadline, now < deadline := TimeDriver.le_nextDeadline_iff.symm
  rw [parkTimeout_eq_innerTimeout, passed, rightWait, earliest_eq_limit]
  simp only [Option.some.injEq, exists_eq_left', Option.bind_some]
  cases driver.nextDeadline with
  | none => simp [innerTimeout, limit]
  | some deadline =>
      have remains : limit (some deadline) - now = (deadline - now : ℕ) := rfl
      rw [remains]
      by_cases ahead : now < deadline
      · refine iff_of_true ?_ (.inl ?_)
        · rw [innerTimeout, if_pos ahead]
          cases timeout with
          | none => simp [limit]
          | some timeout =>
              by_cases shorter : deadline - now < timeout
              · have least : ((deadline - now : ℕ) : ℕ∞) ≤ timeout :=
                  Nat.cast_le.mpr (Nat.le_of_lt shorter)
                simp only [shorter, if_true, limit]
                exact (min_eq_right least).symm
              · have least : (timeout : ℕ∞) ≤ (deadline - now : ℕ) :=
                  Nat.cast_le.mpr (Nat.le_of_not_lt shorter)
                simp only [shorter, if_false, limit]
                exact (min_eq_left least).symm
        · intro other same
          obtain rfl : deadline = other := by simpa using same
          exact ahead
      · -- the time that is left is zero, and the code asks for the timeout
        rw [innerTimeout, if_neg ahead, Nat.sub_eq_zero_of_le (Nat.le_of_not_lt ahead)]
        simp [ahead, limit_eq_zero]

/-- A driver with a timer that was due at the instant `1`. -/
def dueDriver : TimeDriver (Collections.MaxHeap.ofList (TimerEntry Nat) TimerEntry.cmp) :=
  (TimeDriver.new _).schedule 1 0

/-- At the instant `5`, the thread is parked for as long as the inner parker likes. -/
theorem asks_for_too_long : ∃ asked, parkTimeout (some dueDriver) 5 none = some asked ∧
    limit asked = ⊤ ∧ rightWait (Collections.MaxHeap.items _ dueDriver.timers) 5 none = 0 := by
  refine ⟨none, rfl, rfl, ?_⟩
  have remains : limit dueDriver.nextDeadline - 5 = (1 - 5 : ℕ) := rfl
  rw [rightWait, earliest_eq_limit]
  show min ⊤ (limit dueDriver.nextDeadline - 5) = 0
  rw [remains]
  rfl

end LoonyRuntime.Time
