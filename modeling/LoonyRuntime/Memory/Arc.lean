import Mathlib

/-!
# Function bodies on one `Arc`

The body of a function that handles an `Arc` by raw pointers is a list of operations. `fromRaw`
and `intoRaw` change no count, `clone` adds one, `drop` at the end of a scope takes one, and
`forget` gives up a handle without taking its count. The handles in the local variables are
counted by `held`: a body that ends with none of them has put every handle it had somewhere.

An `ArcFn` is a body with the handles it takes from its caller and gives back, and with the counts
it leaks, certified for every count. The counts of other handles change nothing for a body
(`runBody_add`), so that the contract is checked at the least count (`settles_of_least`). Where
functions are called on the handles that are alive, the count is the number of these and of what has
leaked (`Tally.call`).
-/

set_option autoImplicit false

namespace LoonyRuntime.Memory

universe u

/-! ## Operations -/

/-- An operation of a body on an `Arc`. -/
inductive ArcOp (α : Type u) where
  /-- `Arc::from_raw`. -/
  | fromRaw
  /-- A handle comes with an argument that is passed by value. -/
  | arg
  /-- `Arc::clone`. -/
  | clone
  /-- What the `Arc` points to is used. -/
  | use (operation : α)
  /-- `Arc::into_raw`. -/
  | intoRaw
  /-- A handle goes with the value that is returned. -/
  | ret
  /-- `mem::forget`. -/
  | forget
  /-- A handle goes out of scope. -/
  | drop
deriving DecidableEq, Repr

/-- The strong count, and the handles in local variables. -/
structure ArcFrame where
  strong : Nat
  held : Nat
deriving DecidableEq, Repr

variable {α : Type u}

/-- One operation. There is none without a handle, or on an `Arc` that was released. -/
def ArcOp.run (s : ArcFrame) : ArcOp α → Option ArcFrame
  | .fromRaw | .arg => some { s with held := s.held + 1 }
  | .clone => if 0 < s.strong then some ⟨s.strong + 1, s.held + 1⟩ else none
  | .use _ => if 0 < s.strong then some s else none
  | .intoRaw | .ret | .forget =>
      if 0 < s.held then some { s with held := s.held - 1 } else none
  | .drop => if 0 < s.held ∧ 0 < s.strong then some ⟨s.strong - 1, s.held - 1⟩ else none

/-- The operations of a body, one after the other. -/
def runBody : List (ArcOp α) → ArcFrame → Option ArcFrame
  | [], s => some s
  | op :: rest, s => (op.run s).bind (runBody rest)

variable {s s' : ArcFrame} {op : ArcOp α} {body : List (ArcOp α)}

/-- The counts of other handles change nothing for an operation, and are kept by it. -/
theorem ArcOp.run_add (k : Nat) (ran : op.run s = some s') :
    op.run ⟨s.strong + k, s.held⟩ = some ⟨s'.strong + k, s'.held⟩ := by
  cases op with
  | fromRaw | arg =>
      cases ran
      rfl
  | clone =>
      obtain ⟨positive, same⟩ := Option.ite_none_right_eq_some.mp ran
      cases same
      rw [ArcOp.run, if_pos (Nat.add_pos_left positive k), Nat.add_right_comm]
  | use operation =>
      obtain ⟨positive, same⟩ := Option.ite_none_right_eq_some.mp ran
      cases same
      rw [ArcOp.run, if_pos (Nat.add_pos_left positive k)]
  | intoRaw | ret | forget =>
      obtain ⟨held, same⟩ := Option.ite_none_right_eq_some.mp ran
      cases same
      exact if_pos held
  | drop =>
      obtain ⟨⟨held, positive⟩, same⟩ := Option.ite_none_right_eq_some.mp ran
      cases same
      rw [ArcOp.run, if_pos ⟨held, Nat.add_pos_left positive k⟩, Nat.sub_add_comm positive]

/-- **The counts of other handles are kept by a body.** -/
theorem runBody_add (k : Nat) (ran : runBody body s = some s') :
    runBody body ⟨s.strong + k, s.held⟩ = some ⟨s'.strong + k, s'.held⟩ := by
  induction body generalizing s with
  | nil =>
      cases ran
      rfl
  | cons op rest ih =>
      obtain ⟨between, first, later⟩ := Option.bind_eq_some_iff.mp ran
      rw [runBody, ArcOp.run_add k first, Option.bind_some]
      exact ih later

/-! ## Functions -/

/-- A body with its contract: the handles it takes and gives, and the counts it leaks. -/
structure ArcFn (α : Type u) (takes gives leaks : Nat) where
  body : List (ArcOp α)
  settles : ∀ strong, 0 < strong → takes ≤ strong →
    runBody body ⟨strong, 0⟩ = some ⟨strong - takes + gives + leaks, 0⟩

variable {takes gives leaks : Nat}

/-- A contract holds for every count if it does for the least one that the call can find. -/
theorem settles_of_least
    (least : runBody body ⟨max 1 takes, 0⟩ = some ⟨max 1 takes - takes + gives + leaks, 0⟩) :
    ∀ strong, 0 < strong → takes ≤ strong →
      runBody body ⟨strong, 0⟩ = some ⟨strong - takes + gives + leaks, 0⟩ := by
  intro strong positive enough
  have bound : max 1 takes ≤ strong := Nat.max_le.mpr ⟨positive, enough⟩
  obtain ⟨k, rfl⟩ := Nat.exists_eq_add_of_le bound
  rw [runBody_add k least]
  congr 2
  dsimp only
  omega

/-- The strong count after a call. -/
def ArcFn.call (f : ArcFn α takes gives leaks) (strong : Nat) : Option Nat :=
  (runBody f.body ⟨strong, 0⟩).map ArcFrame.strong

/-- The count is the number of handles that are alive and of what has leaked. -/
def Tally (strong live leaked : Nat) : Prop := strong = live + leaked

/-- **A call keeps the tally**: with the handles that are alive it does not go below zero, and it
changes them and the leaks by what its contract says. -/
theorem Tally.call {strong live leaked : Nat} (tally : Tally strong live leaked)
    (f : ArcFn α takes gives leaks) (some_live : 0 < live) (enough : takes ≤ live) :
    ∃ strong', f.call strong = some strong' ∧
      Tally strong' (live - takes + gives) (leaked + leaks) := by
  unfold Tally at tally ⊢
  have settled := f.settles strong (by omega) (by omega)
  refine ⟨strong - takes + gives + leaks, ?_, by omega⟩
  rw [ArcFn.call, settled, Option.map_some]

/-- Without a leak the count is zero exactly if no handle is alive. -/
theorem Tally.zero_iff {strong live : Nat} (tally : Tally strong live 0) :
    strong = 0 ↔ live = 0 := by
  unfold Tally at tally
  omega

end LoonyRuntime.Memory
