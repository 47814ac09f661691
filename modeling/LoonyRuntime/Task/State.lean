import Mathlib

/-!
# The state word of a task

One 64-bit word holds the lifecycle of a task in bits 0–1, its flags in bits 2–15 and its
waker reference count from bit 16 on. The count is read from bits 16–31 and is added to and
subtracted from without a mask, so that a borrow runs through bits 16–63.

`marks` reads the four bits in use below bit 16 and `refs` the number above them. Every atomic
operation of the task acts on one of the two: the marks survive `fetch_add` and `fetch_sub` of
one reference (`marks_add_refOne`, `marks_sub_refOne`), and the references survive every
`fetch_or` of a mark, the `fetch_and` of the join handle and the exchange of a wake.
-/

set_option autoImplicit false

namespace LoonyRuntime.Task

/-- A machine word. -/
abbrev Usize := BitVec 64

/-- Task state bits. -/
structure TaskState where
  bits : Usize
deriving DecidableEq, Repr

namespace TaskState

def stateMask : Usize := 0x3
def flagsMask : Usize := 0xFFFC
def refcountShift : Nat := 16
def refcountMask : Usize := 0xFFFF0000

def idle : TaskState := ⟨0⟩
def scheduled : TaskState := ⟨1⟩
def running : TaskState := ⟨2⟩
def complete : TaskState := ⟨3⟩

def aborted : TaskState := ⟨0x4⟩
def joinInterest : TaskState := ⟨0x8⟩

def fromBits (bits : Usize) : TaskState := ⟨bits⟩

def state (s : TaskState) : Usize := s.bits &&& stateMask

def flags (s : TaskState) : Usize := s.bits &&& flagsMask

def refcount (s : TaskState) : Usize := (s.bits &&& refcountMask) >>> refcountShift

def isIdle (s : TaskState) : Bool := s.state == idle.bits

def isScheduled (s : TaskState) : Bool := s.state == scheduled.bits

def isRunning (s : TaskState) : Bool := s.state == running.bits

def isComplete (s : TaskState) : Bool := s.state == complete.bits

def isAborted (s : TaskState) : Bool := (s.bits &&& aborted.bits) != 0

def hasJoinInterest (s : TaskState) : Bool := (s.bits &&& joinInterest.bits) != 0

def withRefcount (s : TaskState) (refcount : Usize) : TaskState :=
  ⟨(s.bits &&& ~~~refcountMask) ||| ((refcount <<< refcountShift) &&& refcountMask)⟩

def withFlag (s flag : TaskState) : TaskState := ⟨s.bits ||| flag.bits⟩

def withoutFlag (s flag : TaskState) : TaskState := ⟨s.bits &&& ~~~flag.bits⟩

end TaskState

open TaskState

/-- One reference: the operand of the `fetch_add` and `fetch_sub` on the word. -/
def refOne : Usize := 1 <<< refcountShift

/-- The word a wake of `raw.rs` exchanges for `current`. -/
def wakeBits (current : Usize) : Usize := ((fromBits current).withFlag scheduled).bits

/-- The word a wake of `waker.rs` exchanges for `current`. -/
def wakeBitsMasked (current : Usize) : Usize := (current &&& ~~~stateMask) ||| scheduled.bits

/-! ## The marks -/

/-- The four bits in use below the reference count. -/
def marks (word : Usize) : BitVec 4 := word.setWidth 4

namespace Marks

def isIdle (m : BitVec 4) : Bool := m &&& 3 == 0
def isScheduled (m : BitVec 4) : Bool := m &&& 3 == 1
def isRunning (m : BitVec 4) : Bool := m &&& 3 == 2
def isComplete (m : BitVec 4) : Bool := m &&& 3 == 3
def isAborted (m : BitVec 4) : Bool := m &&& 4 != 0
def hasJoinInterest (m : BitVec 4) : Bool := m &&& 8 != 0

theorem isIdle_of_isComplete {m : BitVec 4} (complete : isComplete m = true) :
    isIdle m = false := by
  revert m
  decide

@[simp] theorem isComplete_or_complete (m : BitVec 4) : isComplete (m ||| 3#4) = true := by
  revert m
  decide

@[simp] theorem isAborted_or_complete (m : BitVec 4) :
    isAborted (m ||| 3#4) = isAborted m := by
  revert m
  decide

@[simp] theorem isComplete_or_aborted (m : BitVec 4) :
    isComplete (m ||| 4#4) = isComplete m := by
  revert m
  decide

@[simp] theorem isAborted_or_aborted (m : BitVec 4) : isAborted (m ||| 4#4) = true := by
  revert m
  decide

@[simp] theorem isIdle_or_joinInterest (m : BitVec 4) : isIdle (m ||| 8#4) = isIdle m := by
  revert m
  decide

@[simp] theorem isComplete_or_joinInterest (m : BitVec 4) :
    isComplete (m ||| 8#4) = isComplete m := by
  revert m
  decide

@[simp] theorem isAborted_or_joinInterest (m : BitVec 4) :
    isAborted (m ||| 8#4) = isAborted m := by
  revert m
  decide

end Marks

/-- A mask of `k` bits sees only the lowest `k` bits of a word. -/
theorem and_setWidth_low {k : Nat} (word : Usize) (mask : BitVec k) :
    word &&& mask.setWidth 64 = (word.setWidth k &&& mask).setWidth 64 := by
  apply BitVec.eq_of_getLsbD_eq
  intro i within
  by_cases low : i < k
  · simp [low, within]
  · simp [low, within, BitVec.getLsbD_of_ge mask i (Nat.le_of_not_lt low)]

/-- A mask of marks sees only the marks of a word. -/
theorem and_setWidth (word : Usize) (mask : BitVec 4) :
    word &&& mask.setWidth 64 = (marks word &&& mask).setWidth 64 :=
  and_setWidth_low word mask

theorem setWidth_inj {m m' : BitVec 4} : m.setWidth 64 = m'.setWidth 64 ↔ m = m' := by
  constructor
  · intro same
    have := congrArg (BitVec.setWidth 4) same
    simpa using this
  · rintro rfl
    rfl

/-- Comparing masked bits of a word is comparing masked marks. -/
theorem and_beq_marks (word : Usize) (mask value : BitVec 4) :
    (word &&& mask.setWidth 64 == value.setWidth 64) = (marks word &&& mask == value) := by
  rw [and_setWidth, Bool.eq_iff_iff, beq_iff_eq, beq_iff_eq, setWidth_inj]

@[simp] theorem isIdle_marks (word : Usize) :
    (fromBits word).isIdle = Marks.isIdle (marks word) :=
  and_beq_marks word 3 0

@[simp] theorem isScheduled_marks (word : Usize) :
    (fromBits word).isScheduled = Marks.isScheduled (marks word) :=
  and_beq_marks word 3 1

@[simp] theorem isRunning_marks (word : Usize) :
    (fromBits word).isRunning = Marks.isRunning (marks word) :=
  and_beq_marks word 3 2

@[simp] theorem isComplete_marks (word : Usize) :
    (fromBits word).isComplete = Marks.isComplete (marks word) :=
  and_beq_marks word 3 3

@[simp] theorem isAborted_marks (word : Usize) :
    (fromBits word).isAborted = Marks.isAborted (marks word) :=
  congrArg (!·) (and_beq_marks word 4 0)

@[simp] theorem hasJoinInterest_marks (word : Usize) :
    (fromBits word).hasJoinInterest = Marks.hasJoinInterest (marks word) :=
  congrArg (!·) (and_beq_marks word 8 0)

/-- The mask test of `COMPLETE` in the join protocol passes on every lifecycle but `IDLE`. -/
theorem completeMask_marks (word : Usize) :
    (word &&& complete.bits != 0) = !Marks.isIdle (marks word) :=
  congrArg (!·) (and_beq_marks word 3 0)

/-! ## Below the reference count -/

/-- The bits of the lifecycle and of the flags. -/
def low (word : Usize) : BitVec 16 := word.setWidth 16

theorem state_eq_low (word : Usize) :
    (fromBits word).state = (low word &&& 0x3).setWidth 64 :=
  and_setWidth_low word (0x3 : BitVec 16)

theorem flags_eq_low (word : Usize) :
    (fromBits word).flags = (low word &&& 0xFFFC).setWidth 64 :=
  and_setWidth_low word (0xFFFC : BitVec 16)

theorem low_add_refOne (word : Usize) : low (word + refOne) = low word := by
  have none : refOne.setWidth 16 = 0#16 := by decide
  rw [low, BitVec.setWidth_add _ _ (by decide), none, BitVec.add_zero, low]

theorem low_sub_refOne (word : Usize) : low (word - refOne) = low word := by
  have none : (-refOne).setWidth 16 = 0#16 := by decide
  rw [BitVec.sub_eq_add_neg, low, BitVec.setWidth_add _ _ (by decide), none, BitVec.add_zero,
    low]

/-- Words that agree below the reference count have one lifecycle and one set of flags. -/
theorem state_flags_of_low {word word' : Usize} (same : low word' = low word) :
    (fromBits word').state = (fromBits word).state ∧
      (fromBits word').flags = (fromBits word).flags := by
  constructor
  · rw [state_eq_low, state_eq_low, same]
  · rw [flags_eq_low, flags_eq_low, same]

/-! ## The marks after each atomic operation -/

@[simp] theorem marks_add_refOne (word : Usize) : marks (word + refOne) = marks word := by
  have none : refOne.setWidth 4 = 0#4 := by decide
  rw [marks, BitVec.setWidth_add _ _ (by decide), none, BitVec.add_zero, marks]

@[simp] theorem marks_sub_refOne (word : Usize) : marks (word - refOne) = marks word := by
  have none : (-refOne).setWidth 4 = 0#4 := by decide
  rw [BitVec.sub_eq_add_neg, marks, BitVec.setWidth_add _ _ (by decide), none,
    BitVec.add_zero, marks]

@[simp] theorem marks_or_complete (word : Usize) :
    marks (word ||| complete.bits) = marks word ||| 3 := by
  simp only [marks, BitVec.setWidth_or]
  rfl

@[simp] theorem marks_or_aborted (word : Usize) :
    marks (word ||| aborted.bits) = marks word ||| 4 := by
  simp only [marks, BitVec.setWidth_or]
  rfl

@[simp] theorem marks_or_joinInterest (word : Usize) :
    marks (word ||| joinInterest.bits) = marks word ||| 8 := by
  simp only [marks, BitVec.setWidth_or]
  rfl

@[simp] theorem marks_and_not_joinInterest (word : Usize) :
    marks (word &&& ~~~joinInterest.bits) = marks word &&& 7 := by
  simp only [marks, BitVec.setWidth_and]
  rfl

theorem marks_wakeBits (word : Usize) : marks (wakeBits word) = marks word ||| 1 := by
  simp only [wakeBits, withFlag, fromBits, marks, BitVec.setWidth_or]
  rfl

theorem marks_wakeBitsMasked (word : Usize) :
    marks (wakeBitsMasked word) = (marks word &&& 12) ||| 1 := by
  simp only [wakeBitsMasked, marks, BitVec.setWidth_or, BitVec.setWidth_and]
  rfl

/-! ## The references -/

/-- The number above the marks: the reference count with the bits it overflows into. -/
def refs (word : Usize) : Nat := word.toNat / 2 ^ 16

theorem refs_lt (word : Usize) : refs word < 2 ^ 48 := by
  have bound := word.isLt
  simp only [refs]
  omega

/-- The reference count of the word is its references modulo 2^16. -/
theorem refcount_toNat (word : Usize) :
    (fromBits word).refcount.toNat = refs word % 2 ^ 16 := by
  have mask : refcountMask.toNat = (2 ^ 16 - 1) <<< 16 := by decide
  simp only [refcount, fromBits, refcountShift, BitVec.toNat_ushiftRight, BitVec.toNat_and, mask]
  rw [Nat.shiftRight_and_distrib, Nat.shiftLeft_shiftRight, Nat.and_two_pow_sub_one_eq_mod,
    Nat.shiftRight_eq_div_pow, refs]

/-- Words of the same references have the same reference count. -/
theorem refcount_of_refs {word word' : Usize} (same : refs word' = refs word) :
    (fromBits word').refcount = (fromBits word).refcount := by
  apply BitVec.eq_of_toNat_eq
  rw [refcount_toNat, refcount_toNat, same]

@[simp] theorem refs_add_refOne (word : Usize) :
    refs (word + refOne) = (refs word + 1) % 2 ^ 48 := by
  have bound := word.isLt
  have one : refOne.toNat = 2 ^ 16 := by decide
  simp only [refs, BitVec.toNat_add, one]
  omega

@[simp] theorem refs_sub_refOne (word : Usize) :
    refs (word - refOne) = (refs word + (2 ^ 48 - 1)) % 2 ^ 48 := by
  have bound := word.isLt
  have one : refOne.toNat = 2 ^ 16 := by decide
  simp only [refs, BitVec.toNat_sub, one]
  omega

/-- Setting bits below the reference count leaves the references. -/
theorem refs_or_of_small (word mask : Usize) (small : mask.toNat < 2 ^ 16) :
    refs (word ||| mask) = refs word := by
  have zero : mask.toNat >>> 16 = 0 := by
    rw [Nat.shiftRight_eq_div_pow]
    omega
  simp only [refs, BitVec.toNat_or, ← Nat.shiftRight_eq_div_pow, Nat.shiftRight_or_distrib, zero,
    Nat.or_zero]

/-- Keeping all bits of the reference count leaves the references. -/
theorem refs_and_of_full (word mask : Usize) (full : mask.toNat / 2 ^ 16 = 2 ^ 48 - 1) :
    refs (word &&& mask) = refs word := by
  have bound := refs_lt word
  have shifted : mask.toNat >>> 16 = 2 ^ 48 - 1 := by
    rw [Nat.shiftRight_eq_div_pow]
    exact full
  simp only [refs, BitVec.toNat_and, ← Nat.shiftRight_eq_div_pow, Nat.shiftRight_and_distrib,
    shifted, Nat.and_two_pow_sub_one_eq_mod]
  rw [Nat.shiftRight_eq_div_pow]
  exact Nat.mod_eq_of_lt bound

@[simp] theorem refs_or_complete (word : Usize) : refs (word ||| complete.bits) = refs word :=
  refs_or_of_small word _ (by decide)

@[simp] theorem refs_or_aborted (word : Usize) : refs (word ||| aborted.bits) = refs word :=
  refs_or_of_small word _ (by decide)

@[simp] theorem refs_or_joinInterest (word : Usize) :
    refs (word ||| joinInterest.bits) = refs word :=
  refs_or_of_small word _ (by decide)

@[simp] theorem refs_and_not_joinInterest (word : Usize) :
    refs (word &&& ~~~joinInterest.bits) = refs word :=
  refs_and_of_full word _ (by decide)

theorem refs_wakeBits (word : Usize) : refs (wakeBits word) = refs word :=
  refs_or_of_small word _ (by decide)

theorem refs_wakeBitsMasked (word : Usize) : refs (wakeBitsMasked word) = refs word := by
  rw [wakeBitsMasked, refs_or_of_small _ _ (by decide), refs_and_of_full word _ (by decide)]

end LoonyRuntime.Task
