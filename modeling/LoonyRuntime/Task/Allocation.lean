import LoonyRuntime.Memory.Region

/-!
# The block of one task

`create_raw_task` asks for one block with the layout of `task_layout` and puts the header, the
future and the output into it, one after the other. `task_layout` takes the largest of the three
alignments, so the block fits every one of them, but neither function pads: a slot is aligned only
if the sizes before it happen to be a multiple of its alignment. `placed_iff` says that this is the
exact condition for the block to hold its parts; that they are apart and inside the block needs
none (`slots_apart`, `slots_within`).
-/

set_option autoImplicit false

namespace LoonyRuntime.Task

open Memory

/-! ## Sizes and alignments -/

/-- Of two powers of two the smaller divides the larger. -/
theorem dvd_max_of_isPowerOfTwo {a b : Nat} (left : a.isPowerOfTwo) (right : b.isPowerOfTwo) :
    a ∣ max a b ∧ b ∣ max a b := by
  obtain ⟨i, rfl⟩ := left
  obtain ⟨j, rfl⟩ := right
  rcases Nat.le_total i j with le | le
  · rw [Nat.max_eq_right (Nat.pow_le_pow_right (by decide) le)]
    exact ⟨Nat.pow_dvd_pow 2 le, dvd_rfl⟩
  · rw [Nat.max_eq_left (Nat.pow_le_pow_right (by decide) le)]
    exact ⟨dvd_rfl, Nat.pow_dvd_pow 2 le⟩

theorem isPowerOfTwo_max {a b : Nat} (left : a.isPowerOfTwo) (right : b.isPowerOfTwo) :
    (max a b).isPowerOfTwo := by
  rcases Nat.le_total a b with le | le
  · rwa [Nat.max_eq_right le]
  · rwa [Nat.max_eq_left le]

/-- The size and the alignment of a type. -/
structure TypeLayout where
  size : Nat
  align : Nat
  power : align.isPowerOfTwo
  multiple : align ∣ size

/-- A type of `n` units of the alignment `2 ^ k`. -/
def TypeLayout.units (k n : Nat) : TypeLayout := ⟨n * 2 ^ k, 2 ^ k, ⟨k, rfl⟩, Nat.dvd_mul_left _ _⟩

/-- The largest size of a block. -/
def isizeMax : Nat := 2 ^ 63 - 1

/-- A layout of the allocator. -/
structure Layout where
  size : Nat
  align : Nat
  power : align.isPowerOfTwo
  fits : size ≤ isizeMax - (align - 1)

/-- `Layout::from_size_align`, for an alignment that is a power of two. -/
def Layout.fromSizeAlign (size align : Nat) (power : align.isPowerOfTwo) : Option Layout :=
  if fits : size ≤ isizeMax - (align - 1) then some ⟨size, align, power, fits⟩ else none

/-- `VTableFor::task_layout`. There is none where `expect` panics. -/
def taskLayout (header future output : TypeLayout) : Option Layout :=
  let totalSize := (header.size + future.size + output.size) % 2 ^ 64
  Layout.fromSizeAlign totalSize (max (max header.align future.align) output.align)
    (isPowerOfTwo_max (isPowerOfTwo_max header.power future.power) output.power)

/-! ## The three slots -/

/-- Where a task has its header, its future and its output. -/
structure Slots where
  header : Region
  future : Region
  output : Region

/-- The addresses `create_raw_task` computes in the block at `base`. -/
def createRawTask (header future output : TypeLayout) (base : Nat) : Slots :=
  -- `ptr.add(1)` of a `*mut Header` and `future_ptr.add(1)` of a `*mut F`
  let futurePtr := base + header.size
  let outputPtr := futurePtr + future.size
  ⟨⟨base, header.size⟩, ⟨futurePtr, future.size⟩, ⟨outputPtr, output.size⟩⟩

namespace Slots

/-- The slots, in the order of the block. -/
def regions (s : Slots) : List Region := [s.header, s.future, s.output]

/-- The block holds the three parts. -/
structure Placed (header future output : TypeLayout) (block : Region) (s : Slots) : Prop where
  headerAligned : s.header.AlignedTo header.align
  futureAligned : s.future.AlignedTo future.align
  outputAligned : s.output.AlignedTo output.align
  headerFuture : s.header.Apart s.future
  headerOutput : s.header.Apart s.output
  futureOutput : s.future.Apart s.output
  headerWithin : s.header.Within block
  futureWithin : s.future.Within block
  outputWithin : s.output.Within block

end Slots

section Placement

variable {header future output : TypeLayout} {layout : Layout} {base : Nat}

/-- The slots follow each other. -/
theorem regions_createRawTask (header future output : TypeLayout) (base : Nat) :
    (createRawTask header future output base).regions =
      consecutive base [header.size, future.size, output.size] := rfl

/-- **The slots are pairwise apart.** -/
theorem slots_apart (header future output : TypeLayout) (base : Nat) :
    (createRawTask header future output base).regions.Pairwise Region.Apart := by
  rw [regions_createRawTask]
  exact pairwise_apart_consecutive _ _

/-- The block has the size of the three parts if their sum is a size. -/
theorem taskLayout_size (sum : header.size + future.size + output.size ≤ isizeMax)
    (asked : taskLayout header future output = some layout) :
    layout.size = [header.size, future.size, output.size].sum := by
  have whole : (header.size + future.size + output.size) % 2 ^ 64 =
      header.size + future.size + output.size :=
    Nat.mod_eq_of_lt (by simp only [isizeMax] at sum; omega)
  simp only [taskLayout, Layout.fromSizeAlign, whole] at asked
  split at asked
  · cases asked
    simp [Nat.add_assoc]
  · cases asked

/-- **The slots lie inside the block.** -/
theorem slots_within (sum : header.size + future.size + output.size ≤ isizeMax)
    (asked : taskLayout header future output = some layout) {r : Region}
    (slot : r ∈ (createRawTask header future output base).regions) :
    r.Within ⟨base, layout.size⟩ := by
  rw [taskLayout_size sum asked]
  exact within_of_mem_consecutive slot

/-- **The alignment of the block fits all three parts.** -/
theorem align_dvd (asked : taskLayout header future output = some layout) :
    header.align ∣ layout.align ∧ future.align ∣ layout.align ∧ output.align ∣ layout.align := by
  have align : layout.align = max (max header.align future.align) output.align := by
    simp only [taskLayout, Layout.fromSizeAlign] at asked
    split at asked
    · cases asked
      rfl
    · cases asked
  have inner := dvd_max_of_isPowerOfTwo header.power future.power
  have outer := dvd_max_of_isPowerOfTwo (isPowerOfTwo_max header.power future.power) output.power
  rw [align]
  exact ⟨inner.1.trans outer.1, inner.2.trans outer.1, outer.2⟩

/-- **The block holds its parts** exactly if the header's size is a multiple of the future's
alignment and the size of both a multiple of the output's. -/
theorem placed_iff (sum : header.size + future.size + output.size ≤ isizeMax)
    (asked : taskLayout header future output = some layout) (aligned : layout.align ∣ base) :
    (createRawTask header future output base).Placed header future output ⟨base, layout.size⟩ ↔
      future.align ∣ header.size ∧ output.align ∣ header.size + future.size := by
  obtain ⟨headerAlign, futureAlign, outputAlign⟩ := align_dvd asked
  have futureSlot : (createRawTask header future output base).future.AlignedTo future.align ↔
      future.align ∣ [header.size].sum :=
    aligned_consecutive_iff [header.size, future.size, output.size] 1
      (futureAlign.trans aligned) rfl
  have outputSlot : (createRawTask header future output base).output.AlignedTo output.align ↔
      output.align ∣ [header.size, future.size].sum :=
    aligned_consecutive_iff [header.size, future.size, output.size] 2
      (outputAlign.trans aligned) rfl
  simp only [List.sum_cons, List.sum_nil, Nat.add_zero] at futureSlot outputSlot
  constructor
  · intro placed
    exact ⟨futureSlot.mp placed.futureAligned, outputSlot.mp placed.outputAligned⟩
  · rintro ⟨futureFits, outputFits⟩
    have apart := slots_apart header future output base
    simp only [Slots.regions, List.pairwise_cons, List.mem_cons, List.not_mem_nil, or_false,
      forall_eq_or_imp, forall_eq] at apart
    obtain ⟨⟨headerFuture, headerOutput⟩, futureOutput, -⟩ := apart
    have within : ∀ r ∈ (createRawTask header future output base).regions,
        r.Within ⟨base, layout.size⟩ := fun r slot => slots_within sum asked slot
    exact {
      headerAligned := headerAlign.trans aligned
      futureAligned := futureSlot.mpr futureFits
      outputAligned := outputSlot.mpr outputFits
      headerFuture, headerOutput, futureOutput
      headerWithin := within _ (.head _)
      futureWithin := within _ (.tail _ (.head _))
      outputWithin := within _ (.tail _ (.tail _ (.head _))) }

/-- Three parts of which each is a multiple of the next one's alignment. -/
theorem placed_words :
    ((createRawTask (.units 3 7) (.units 3 2) (.units 3 1) 64).Placed (.units 3 7) (.units 3 2)
      (.units 3 1) ⟨64, 80⟩ ↔ 2 ^ 3 ∣ 7 * 2 ^ 3 ∧ 2 ^ 3 ∣ 7 * 2 ^ 3 + 2 * 2 ^ 3) :=
  have asked : taskLayout (.units 3 7) (.units 3 2) (.units 3 1) =
      some ⟨80, 8, ⟨3, rfl⟩, by decide⟩ := rfl
  placed_iff (by decide) asked (by decide)

/-- A header of 56 bytes does not end at a multiple of 16: a future of that alignment is
misaligned in a block that is aligned for it. -/
theorem misplaced_future :
    ∃ layout, 7 * 2 ^ 3 + 1 * 2 ^ 4 + 1 * 2 ^ 4 ≤ isizeMax ∧
      taskLayout (.units 3 7) (.units 4 1) (.units 4 1) = some layout ∧ layout.align ∣ 16 ∧
      ¬(createRawTask (.units 3 7) (.units 4 1) (.units 4 1) 16).Placed (.units 3 7) (.units 4 1)
        (.units 4 1) ⟨16, layout.size⟩ := by
  refine ⟨⟨88, 16, ⟨4, rfl⟩, by decide⟩, by decide, rfl, dvd_rfl, ?_⟩
  intro placed
  have misaligned : ¬16 ∣ 72 := by decide
  exact misaligned placed.futureAligned

end Placement

end LoonyRuntime.Task
