import LoonyRuntime.Concurrent.Machine

/-!
# Queues by their events

A queue is specified by the events of its items: an item is pushed to the back, or taken from the
front. In every run what was in the queue and what was pushed is, in order, what was taken and what
is left (`fifo_order`). Where the items are numbered in the order of their pushes, what was pushed
is known from the next number (`tickets_order`).

The events of a step are read off from the contents of the queue before and after it (`change`).
-/

set_option autoImplicit false

namespace LoonyRuntime.Collections

open Concurrent

universe u

variable {α : Type u}

inductive QueueEvent (α : Type u) where
  | push (item : α)
  | take (item : α)
deriving DecidableEq, Repr

namespace QueueEvent

def pushed? : QueueEvent α → Option α
  | .push item => some item
  | .take _ => none

def taken? : QueueEvent α → Option α
  | .push _ => none
  | .take item => some item

end QueueEvent

/-- The items that were pushed, in order. -/
def pushes (events : List (QueueEvent α)) : List α := events.filterMap QueueEvent.pushed?

/-- The items that were taken, in order. -/
def takes (events : List (QueueEvent α)) : List α := events.filterMap QueueEvent.taken?

/-- The queue in first-in first-out order. Only the front can be taken. -/
def fifo (α : Type u) [DecidableEq α] : Machine (List α) (QueueEvent α) where
  initial q := q = []
  step
    | q, .push item => some (q ++ [item])
    | front :: rest, .take item => if front = item then some rest else none
    | [], .take _ => none

variable [DecidableEq α]

/-- **First in, first out.** -/
theorem fifo_order {events : List (QueueEvent α)} {q q' : List α}
    (ran : (fifo α).run q events = some q') : q ++ pushes events = takes events ++ q' := by
  induction events generalizing q with
  | nil =>
      cases ran
      exact List.append_nil _
  | cons event rest ih =>
      simp only [Machine.run, Machine.runWhen, if_true] at ran
      obtain ⟨middle, taken, later⟩ := Option.bind_eq_some_iff.mp ran
      have further := ih later
      cases event with
      | push item =>
          cases taken
          rw [List.append_assoc] at further
          exact further
      | take item =>
          cases q with
          | nil => cases taken
          | cons front q =>
              obtain ⟨rfl, same⟩ := Option.ite_none_right_eq_some.mp taken
              cases same
              exact congrArg (front :: ·) further

/-- The next number to be given out. Items are numbered in the order of their pushes. -/
def tickets : Machine Nat (QueueEvent Nat) where
  initial next := next = 0
  step
    | next, .push item => if item = next then some (next + 1) else none
    | next, .take _ => some next

/-- **The pushed items are the numbers in order.** -/
theorem tickets_order {events : List (QueueEvent Nat)} {next next' : Nat}
    (ran : tickets.run next events = some next') :
    List.range next ++ pushes events = List.range next' := by
  induction events generalizing next with
  | nil =>
      cases ran
      exact List.append_nil _
  | cons event rest ih =>
      simp only [Machine.run, Machine.runWhen, if_true] at ran
      obtain ⟨middle, taken, later⟩ := Option.bind_eq_some_iff.mp ran
      have further := ih later
      cases event with
      | push item =>
          obtain ⟨rfl, same⟩ := Option.ite_none_right_eq_some.mp taken
          cases same
          rw [List.range_succ, List.append_assoc] at further
          exact further
      | take item =>
          cases taken
          exact further

/-- The events of a step, from the contents before and after it. -/
def change (q q' : List α) : List (QueueEvent α) :=
  (q.diff q').map .take ++ (q'.diff q).map .push

/-- A list less a part of it. -/
theorem diff_eq_singleton {q q' : List α} {item : α} (part : q.Perm (item :: q')) :
    q.diff q' = [item] := by
  apply Multiset.coe_eq_singleton.mp
  have whole : (q : Multiset α) = {item} + (q' : Multiset α) := Multiset.coe_eq_coe.mpr part
  rw [← Multiset.coe_sub, whole, add_tsub_cancel_right]

/-- A list less one that has all of it. -/
theorem diff_eq_nil {q q' : List α} (part : q.Subperm q') : q.diff q' = [] := by
  have none : (q : Multiset α) - (q' : Multiset α) = 0 :=
    tsub_eq_zero_of_le (Multiset.coe_le.mpr part)
  rw [Multiset.coe_sub] at none
  exact (Multiset.coe_eq_zero _).mp none

@[simp] theorem change_self (q : List α) : change q q = [] := by
  rw [change, diff_eq_nil (List.Subperm.refl q)]
  rfl

theorem change_push (q : List α) (item : α) : change q (q ++ [item]) = [.push item] := by
  have added : (q ++ [item]).Perm (item :: q) := List.perm_append_singleton item q
  rw [change, diff_eq_nil (List.sublist_append_left q [item]).subperm, diff_eq_singleton added]
  rfl

theorem change_take (item : α) (q : List α) : change (item :: q) q = [.take item] := by
  rw [change, diff_eq_singleton (List.Perm.refl _),
    diff_eq_nil (List.sublist_cons_self item q).subperm]
  rfl

end LoonyRuntime.Collections
