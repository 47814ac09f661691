import LoonyRuntime.Task.Operational

/-!
# The fields of the state word

Any number of threads clones and drops wakers of one task, sets its join waker, aborts it and
wakes it by reference. The word starts as `create_raw_task` makes it, with one reference for the
one waker that is alive.

A clone and a drop leave the bits below the reference count, and every other operation leaves the
references (`Step`). So the references are the wakers that are alive, modulo 2^48 (`refs_eq`).
`refcount` reads 16 bits of the 48, and the count is exact exactly as long as no clone makes 2^16
wakers (`fields_do_not_interfere`). From there on it is the number of wakers modulo 2^16, and the
test of `drop_waker` for the last reference can pass for one of many (`refcount_wraps`).
-/

set_option autoImplicit false

namespace LoonyRuntime.Task

open TaskState Concurrent

variable {T : Type}

/-! ## Steps -/

/-- Where a thread is: inside no call, in a wake by reference, in `drop_waker` or in
`set_join_waker` after its operation on the word, or in `abort_task`. -/
inductive WordParty where
  | idle
  | wakeByRef (impl : WakerImpl) (pc : WakePc impl)
  | deallocate
  | storeJoinWaker (waker : Nat)
  | abort (pc : AbortPc)

/-- The thread whose frames are these. -/
def WordParty.ofFrames : List (Frame T) → WordParty
  | [.wake impl .byRef pc] => .wakeByRef impl pc
  | [.abort pc] => .abort pc
  | _ => .idle

inductive WordLabel where
  | clone
  | drop
  | setJoinWaker (waker : Nat)
  | abort
  | wakeByRef (impl : WakerImpl)
  /-- The next operation of the call in progress. -/
  | next
  /-- `compare_exchange_weak` fails although the word is the expected one. -/
  | spurious
deriving DecidableEq, Repr

/-- The operation is on the reference count. -/
def WordLabel.counts : WordLabel → Bool
  | .clone => true
  | .drop => true
  | _ => false

/-- One step of a thread. The result of `set_join_waker` is read by `JoinHandle::poll` only, and is
left out. -/
def WordParty.move (s : Cell T) : WordParty → WordLabel → Option (Cell T × WordParty)
  | .idle, .clone =>
      if 0 < s.wakers then
        some ({ s with state := s.state + refOne, wakers := s.wakers + 1 }, .idle)
      else none
  | .idle, .drop =>
      if s.movable then
        some ({ s with state := s.state - refOne, wakers := s.wakers - 1 },
          if lastReference s.state then .deallocate else .idle)
      else none
  | .idle, .setJoinWaker waker =>
      some ({ s with state := s.state ||| joinInterest.bits }, .storeJoinWaker waker)
  | .idle, .abort => some (s, .abort .fetchOr)
  | .idle, .wakeByRef impl =>
      if 0 < s.wakers then some ({ s with borrows := s.borrows + 1 }, .wakeByRef impl .load)
      else none
  | .wakeByRef impl pc, .next =>
      (advanceWake impl .byRef s pc).map fun r => (r.1, .ofFrames r.2)
  | .wakeByRef .waker (.compareExchange _), .spurious => some (s, .wakeByRef .waker .load)
  | .deallocate, .next => some (Task.deallocate s, .idle)
  | .storeJoinWaker waker, .next => some ({ s with joinWaker := some waker }, .idle)
  | .abort pc, .next => (advanceAbort s pc).map fun r => (r.1, .ofFrames r.2)
  | _, _ => none

/-- The task as `create_raw_task` leaves it: one waker is alive, and one reference is counted. -/
def Cell.withOneWaker : Cell T where
  state := (idle.withRefcount 1).bits
  output := none
  joinWaker := none
  queue := 0
  wakers := 1
  borrows := 0
  handle := .idle
  log := []

abbrev WordState (T : Type) := Pool (Cell T) WordParty

/-- One live waker, and `n` threads inside no call. -/
def wordStart (T : Type) (n : Nat) : WordState T := ⟨.withOneWaker, List.replicate n .idle⟩

/-- The machine of the operations on the word, on any number of threads. -/
def wordMachine (T : Type) : Machine (WordState T) (Nat × WordLabel) where
  initial s := ∃ n, s = wordStart T n
  step := Pool.step fun _ => WordParty.move

/-! ## What a step does to the word -/

namespace WordParty

/-- What one step does to the word and to the number of wakers. -/
inductive Step (s : Cell T) : WordLabel → Cell T → Prop where
  | clones : Step s .clone { s with state := s.state + refOne, wakers := s.wakers + 1 }
  | drops (live : 0 < s.wakers) :
      Step s .drop { s with state := s.state - refOne, wakers := s.wakers - 1 }
  | keeps {l : WordLabel} {s' : Cell T} (label : l.counts = false)
      (word : refs s'.state = refs s.state) (wakers : s'.wakers = s.wakers) : Step s l s'

variable {s s' : Cell T} {t t' : WordParty} {l : WordLabel}

theorem pos_of_movable (movable : s.movable = true) : 0 < s.wakers := by
  simp only [Cell.movable, decide_eq_true_eq] at movable
  omega

/-- The word and the wakers after an operation of a wake by reference. -/
theorem advanceWake_keeps {impl : WakerImpl} {pc : WakePc impl} {frames : List (Frame T)}
    (advanced : advanceWake impl .byRef s pc = some (s', frames)) :
    refs s'.state = refs s.state ∧ s'.wakers = s.wakers := by
  cases pc with
  | load =>
      simp only [advanceWake] at advanced
      split at advanced <;> cases advanced <;> exact ⟨rfl, rfl⟩
  | compareExchange current =>
      simp only [advanceWake] at advanced
      split at advanced
      · next same =>
          cases advanced
          exact ⟨(refs_desired impl current.1).trans (congrArg refs same.symm), rfl⟩
      · cases advanced
        exact ⟨rfl, rfl⟩
  | schedule => cases advanced; exact ⟨rfl, rfl⟩
  | ranInline => cases advanced; exact ⟨rfl, rfl⟩

/-- The word and the wakers after an operation of `abort_task`. -/
theorem advanceAbort_keeps {pc : AbortPc} {frames : List (Frame T)}
    (advanced : advanceAbort s pc = some (s', frames)) :
    refs s'.state = refs s.state ∧ s'.wakers = s.wakers := by
  cases pc with
  | fetchOr =>
      cases advanced
      exact ⟨refs_or_aborted s.state, rfl⟩
  | load =>
      simp only [advanceAbort] at advanced
      split at advanced <;> cases advanced <;> exact ⟨rfl, rfl⟩
  | takeJoinWaker =>
      simp only [advanceAbort] at advanced
      split at advanced <;> cases advanced <;> exact ⟨rfl, rfl⟩
  | wakeJoin waker => cases advanced; exact ⟨rfl, rfl⟩

/-- **A step acts on the bits below the reference count or on the references.** -/
theorem step_of_move (moved : t.move s l = some (s', t')) : Step s l s' := by
  cases t with
  | idle =>
      cases l with
      | clone =>
          obtain ⟨-, same⟩ := Option.ite_none_right_eq_some.mp moved
          obtain ⟨rfl, rfl⟩ := Prod.mk.inj (Option.some.inj same)
          exact .clones
      | drop =>
          obtain ⟨movable, same⟩ := Option.ite_none_right_eq_some.mp moved
          obtain ⟨rfl, rfl⟩ := Prod.mk.inj (Option.some.inj same)
          exact .drops (pos_of_movable movable)
      | setJoinWaker waker =>
          cases moved
          exact .keeps rfl (refs_or_joinInterest s.state) rfl
      | abort =>
          cases moved
          exact .keeps rfl rfl rfl
      | wakeByRef impl =>
          simp only [move] at moved
          split at moved <;> cases moved
          exact .keeps rfl rfl rfl
      | next | spurious => cases moved
  | wakeByRef impl pc =>
      cases l with
      | next =>
          obtain ⟨⟨after, frames⟩, advanced, result⟩ := Option.map_eq_some_iff.mp moved
          cases result
          obtain ⟨word, wakers⟩ := advanceWake_keeps advanced
          exact .keeps rfl word wakers
      | spurious =>
          cases impl <;> cases pc <;> cases moved
          exact .keeps rfl rfl rfl
      | clone | drop | setJoinWaker _ | abort | wakeByRef _ => cases moved
  | deallocate =>
      cases l with
      | next =>
          cases moved
          have same : (Task.deallocate s).state = s.state ∧
              (Task.deallocate s).wakers = s.wakers := by
            simp only [Task.deallocate]
            split <;> exact ⟨rfl, rfl⟩
          exact .keeps rfl (congrArg refs same.1) same.2
      | clone | drop | setJoinWaker _ | abort | wakeByRef _ | spurious => cases moved
  | storeJoinWaker waker =>
      cases l with
      | next =>
          cases moved
          exact .keeps rfl rfl rfl
      | clone | drop | setJoinWaker _ | abort | wakeByRef _ | spurious => cases moved
  | abort pc =>
      cases l with
      | next =>
          obtain ⟨⟨after, frames⟩, advanced, result⟩ := Option.map_eq_some_iff.mp moved
          cases result
          obtain ⟨word, wakers⟩ := advanceAbort_keeps advanced
          exact .keeps rfl word wakers
      | clone | drop | setJoinWaker _ | abort | wakeByRef _ | spurious => cases moved

/-- A clone and a drop leave the lifecycle and the flags, another operation leaves the reference
count. -/
theorem Step.fields (step : Step s l s') :
    (l.counts = true → (fromBits s'.state).state = (fromBits s.state).state ∧
      (fromBits s'.state).flags = (fromBits s.state).flags) ∧
    (l.counts = false → (fromBits s'.state).refcount = (fromBits s.state).refcount) := by
  cases step with
  | clones => exact ⟨fun _ => state_flags_of_low (low_add_refOne s.state), nofun⟩
  | drops live => exact ⟨fun _ => state_flags_of_low (low_sub_refOne s.state), nofun⟩
  | keeps label word wakers =>
      constructor
      · intro counts
        rw [label] at counts
        cases counts
      · intro _
        exact refcount_of_refs word

end WordParty

/-! ## The reference count of a run -/

section Count

variable {s s' : WordState T} {i : Nat} {l : WordLabel}

/-- A step of the machine is a step of a thread. -/
theorem wordStep_of_taken (taken : (wordMachine T).step s (i, l) = some s') :
    WordParty.Step s.shared l s'.shared := by
  replace taken : Pool.step (fun _ => WordParty.move) s (i, l) = some s' := taken
  obtain ⟨t, shared, t', found, moved, rfl⟩ := Pool.step_eq_some taken
  exact WordParty.step_of_move moved

/-- The references are the wakers that are alive, modulo the 48 bits above the flags. -/
def RefsCounted (s : Cell T) : Prop := refs s.state = s.wakers % 2 ^ 48

/-- **A step keeps the references counted.** -/
theorem RefsCounted.step {s s' : Cell T} {l : WordLabel} (counted : RefsCounted s)
    (step : WordParty.Step s l s') : RefsCounted s' := by
  simp only [RefsCounted] at counted ⊢
  cases step with
  | clones =>
      simp only [refs_add_refOne, counted]
      omega
  | drops live =>
      simp only [refs_sub_refOne, counted]
      omega
  | keeps label word wakers => rw [word, wakers, counted]

/-- **In every reached state the references are counted.** -/
theorem refs_eq (reached : (wordMachine T).Reaches s) : RefsCounted s.shared := by
  apply Machine.ReachesWhen.invariant (I := fun s => RefsCounted s.shared) _ _ reached
  · rintro s ⟨n, rfl⟩
    show refs (idle.withRefcount 1).bits = 1 % 2 ^ 48
    decide
  · rintro s ⟨i, l⟩ s' - counted - taken
    exact counted.step (wordStep_of_taken taken)

/-- The reference count is the number of wakers that are alive, so that it is one exactly for the
last of them. -/
structure CountExact (s : Cell T) : Prop where
  count : (fromBits s.state).refcount.toNat = s.wakers
  last : (fromBits s.state).refcount = 1 ↔ s.wakers = 1

/-- The count is exact exactly if it fits into its 16 bits. -/
theorem RefsCounted.countExact_iff {s : Cell T} (counted : RefsCounted s) :
    CountExact s ↔ s.wakers < 2 ^ 16 := by
  have count : (fromBits s.state).refcount.toNat = s.wakers % 2 ^ 16 := by
    rw [refcount_toNat, counted]
    omega
  constructor
  · intro exact
    have := exact.count
    omega
  · intro fits
    have same : (fromBits s.state).refcount.toNat = s.wakers := by omega
    refine ⟨same, ?_⟩
    rw [← same, ← BitVec.toNat_inj]
    rfl

/-- A clone leaves fewer than 2^16 wakers alive. -/
def CloneFits (s : WordState T) (a : Nat × WordLabel) : Prop :=
  a.2 = .clone → s.shared.wakers + 1 < 2 ^ 16

/-- Where the count is exact, it is so after a step exactly if the step is no clone that makes
2^16 wakers. -/
theorem RefsCounted.countExact_step {s s' : WordState T} {a : Nat × WordLabel}
    (counted : RefsCounted s.shared) (exact : CountExact s.shared)
    (taken : (wordMachine T).step s a = some s') : CountExact s'.shared ↔ CloneFits s a := by
  obtain ⟨i, l⟩ := a
  have step := wordStep_of_taken taken
  have before := counted.countExact_iff.mp exact
  rw [(counted.step step).countExact_iff]
  generalize s'.shared = after at step
  cases step with
  | clones => exact ⟨fun fits _ => fits, fun fits => fits rfl⟩
  | drops live =>
      refine ⟨fun _ => nofun, fun _ => ?_⟩
      exact Nat.lt_of_le_of_lt (Nat.sub_le _ _) before
  | keeps label word wakers =>
      rw [wakers]
      refine ⟨fun _ clone => ?_, fun _ => before⟩
      have same : l = .clone := clone
      rw [same] at label
      cases label

/-- **The fields do not interfere, below 2^16 wakers.** Clones and drops never change the lifecycle
or the flags, the other operations never change the reference count, and the count is the number
of wakers that are alive all along a run exactly if no clone makes 2^16 of them. -/
theorem fields_do_not_interfere (T : Type) :
    (∀ (s s' : WordState T) (i : Nat) (l : WordLabel), (wordMachine T).step s (i, l) = some s' →
      (l.counts = true →
        (fromBits s'.shared.state).state = (fromBits s.shared.state).state ∧
        (fromBits s'.shared.state).flags = (fromBits s.shared.state).flags) ∧
      (l.counts = false →
        (fromBits s'.shared.state).refcount = (fromBits s.shared.state).refcount)) ∧
    ∀ (n : Nat) (labels : List (Nat × WordLabel)),
      (wordMachine T).Always (fun s => CountExact s.shared) (wordStart T n) labels ↔
        (wordMachine T).Meets CloneFits (wordStart T n) labels := by
  constructor
  · intro s s' i l taken
    exact (wordStep_of_taken taken).fields
  · intro n labels
    have start : (wordMachine T).Reaches (wordStart T n) := .start ⟨n, rfl⟩
    have one : (wordStart T n).shared.wakers < 2 ^ 16 := Nat.one_lt_two_pow (by decide)
    have exact : CountExact (wordStart T n).shared := (refs_eq start).countExact_iff.mpr one
    apply Machine.always_iff_meets _ start exact
    intro s a s' reached exact taken
    exact (refs_eq reached).countExact_step exact taken

/-- A run of two threads. -/
theorem fields_do_not_interfere_twoThreads :
    (wordMachine Unit).Always (fun s => CountExact s.shared) (wordStart Unit 2)
      [(0, .clone), (1, .drop)] := by
  apply ((fields_do_not_interfere Unit).2 2 _).mpr
  intro s' _
  refine ⟨fun _ => ?_, ?_⟩
  · show 1 + 1 < 2 ^ 16
    decide
  · intro s'' _
    exact ⟨nofun, trivial⟩

/-- Any number of clones can be alive. -/
theorem reaches_wakers (T : Type) (k : Nat) :
    ∃ s : WordState T, (wordMachine T).Reaches s ∧ s.threads = [.idle] ∧
      s.shared.wakers = k + 1 := by
  induction k with
  | zero => exact ⟨wordStart T 1, .start ⟨1, rfl⟩, rfl, rfl⟩
  | succ k ih =>
      obtain ⟨s, reached, threads, wakers⟩ := ih
      have found : s.threads[0]? = some .idle := by rw [threads]; rfl
      have live : 0 < s.shared.wakers := by omega
      have taken : (wordMachine T).step s (0, .clone) = some
          ⟨{ s.shared with
              state := s.shared.state + refOne
              wakers := s.shared.wakers + 1 }, s.threads.set 0 .idle⟩ := by
        simp only [wordMachine, Pool.step, found, WordParty.move, if_pos live, Option.map_some]
      refine ⟨_, .step reached trivial taken, ?_, ?_⟩
      · rw [threads]
        rfl
      · exact congrArg (· + 1) wakers

/-- With 2^16 + 1 wakers alive the reference count is one. -/
theorem refcount_wraps : ∃ s : WordState Unit, (wordMachine Unit).Reaches s ∧
    s.shared.wakers = 2 ^ 16 + 1 ∧ (fromBits s.shared.state).refcount.toNat = 1 := by
  obtain ⟨s, reached, -, wakers⟩ := reaches_wakers Unit (2 ^ 16)
  refine ⟨s, reached, wakers, ?_⟩
  rw [refcount_toNat, refs_eq reached, wakers]
  decide

end Count

end LoonyRuntime.Task
