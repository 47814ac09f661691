import Mathlib.Data.List.Basic

/-!
# Worklists in first-in first-out order

A worklist takes items from its front. Handling an item yields further items, which go to the back.
`Fifo next q log` relates the items `q` at the start to the items `log` in the order of handling.
It has a derivation exactly when the worklist runs dry.

The log is the items of the start followed by what the items of the log yield, in order
(`Fifo.log_eq`). So every item, initial or yielded, is handled once for each time it is enqueued.

`serve` handles a bounded number of items, and `serveRounds` does so again and again, with items
pushed in between. What was handled and what is left is what has been enqueued (`serve_eq`,
`serveRounds_perm`).
-/

set_option autoImplicit false

namespace LoonyRuntime.Collections

universe u

variable {α : Type u} {next : α → List α} {q log : List α}

/-- The items are handled from the front, and what they yield goes to the back. -/
inductive Fifo (next : α → List α) : List α → List α → Prop where
  | done : Fifo next [] []
  | handle {a : α} {rest log : List α} (later : Fifo next (rest ++ next a) log) :
      Fifo next (a :: rest) (a :: log)

/-- **The log is what has been enqueued, in order.** -/
theorem Fifo.log_eq (fifo : Fifo next q log) : log = q ++ log.flatMap next := by
  induction fifo with
  | done => rfl
  | @handle a rest log later ih =>
      rw [List.append_assoc] at ih
      rw [List.cons_append, List.flatMap_cons, ← ih]

/-- A worklist handles its start alone exactly when nothing is yielded. -/
theorem fifo_self_iff : Fifo next q q ↔ ∀ a ∈ q, next a = [] := by
  constructor
  · intro fifo
    have none : q.flatMap next = [] := by simpa using fifo.log_eq
    exact List.flatMap_eq_nil_iff.mp none
  · intro none
    induction q with
    | nil => exact .done
    | cons a rest ih =>
        refine .handle ?_
        rw [none a List.mem_cons_self, List.append_nil]
        exact ih fun b member => none b (List.mem_cons_of_mem a member)

/-! ## Bounded rounds -/

/-- At most `bound` items are handled: those that are, and what is left. -/
def serve (next : α → List α) : Nat → List α → List α × List α
  | 0, q => ([], q)
  | _ + 1, [] => ([], [])
  | bound + 1, a :: rest =>
      let (log, left) := serve next bound (rest ++ next a)
      (a :: log, left)

/-- **What was handled and what is left is what has been enqueued, in order.** -/
theorem serve_eq (next : α → List α) (bound : Nat) (q : List α) :
    (serve next bound q).1 ++ (serve next bound q).2 =
      q ++ (serve next bound q).1.flatMap next := by
  induction bound generalizing q with
  | zero => exact (List.append_nil q).symm
  | succ bound ih =>
      cases q with
      | nil => rfl
      | cons a rest =>
          have later := ih (rest ++ next a)
          simp only [serve, List.cons_append, List.flatMap_cons]
          rw [later, List.append_assoc]

/-- The bound is met, and nothing is left if it is not exhausted. -/
theorem serve_length (next : α → List α) (bound : Nat) (q : List α) :
    (serve next bound q).1.length ≤ bound ∧
      ((serve next bound q).1.length < bound → (serve next bound q).2 = []) := by
  induction bound generalizing q with
  | zero => exact ⟨Nat.le_refl 0, fun below => absurd below (Nat.lt_irrefl 0)⟩
  | succ bound ih =>
      cases q with
      | nil => exact ⟨Nat.zero_le _, fun _ => rfl⟩
      | cons a rest =>
          obtain ⟨most, empty⟩ := ih (rest ++ next a)
          exact ⟨Nat.succ_le_succ most, fun below => empty (Nat.lt_of_succ_lt_succ below)⟩

/-- Rounds of items that are pushed to the back, each before a bounded number is handled. -/
def serveRounds (next : α → List α) (bound : Nat) : List (List α) → List α → List α × List α
  | [], q => ([], q)
  | pushed :: rounds, q =>
      let (log, left) := serve next bound (q ++ pushed)
      let (later, last) := serveRounds next bound rounds left
      (log ++ later, last)

/-- **Nothing is lost over the rounds.** -/
theorem serveRounds_perm (next : α → List α) (bound : Nat) (rounds : List (List α)) (q : List α) :
    ((serveRounds next bound rounds q).1 ++ (serveRounds next bound rounds q).2).Perm
      (q ++ rounds.flatten ++ (serveRounds next bound rounds q).1.flatMap next) := by
  induction rounds generalizing q with
  | nil => simp [serveRounds]
  | cons pushed rounds ih =>
      have here := serve_eq next bound (q ++ pushed)
      have later := ih (serve next bound (q ++ pushed)).2
      simp only [serveRounds, List.flatten_cons, List.flatMap_append]
      generalize serve next bound (q ++ pushed) = first at here later
      generalize serveRounds next bound rounds first.2 = rest at later
      rw [List.append_assoc]
      refine (later.append_left first.1).trans ?_
      have moved : first.1 ++ (first.2 ++ rounds.flatten ++ rest.1.flatMap next) =
          q ++ pushed ++ first.1.flatMap next ++ (rounds.flatten ++ rest.1.flatMap next) := by
        rw [← here]
        simp only [List.append_assoc]
      have swap := List.perm_append_comm_assoc (first.1.flatMap next) rounds.flatten
        (rest.1.flatMap next)
      rw [moved]
      simpa only [List.append_assoc] using (swap.append_left pushed).append_left q

theorem serveRounds_length (next : α → List α) (bound : Nat) (rounds : List (List α))
    (q : List α) : (serveRounds next bound rounds q).1.length ≤ bound * rounds.length := by
  induction rounds generalizing q with
  | nil => exact Nat.zero_le _
  | cons pushed rounds ih =>
      have here := (serve_length next bound (q ++ pushed)).1
      have later := ih (serve next bound (q ++ pushed)).2
      simp only [serveRounds, List.length_append, List.length_cons, Nat.mul_succ]
      omega

end LoonyRuntime.Collections
