import LoonyRuntime.Memory.Region

/-!
# Heaps

A heap is the list of the blocks that are allocated. None of them is empty and no two share a
byte, so an address in a block belongs to no other one (`eq_of_mem_bytes`).

Giving back memory is defined for a block that is allocated, with its own start, size and
alignment, and for nothing else: no other block starts inside a block (`free_of_inside`). What a
`free` takes away is the block it names (`free_perm`), and after an `alloc` it restores the heap
(`free_alloc`).

A box of a type of size zero has no block.
-/

set_option autoImplicit false

namespace LoonyRuntime.Memory

/-- A block: its bytes, and the alignment it was allocated with. -/
structure Block extends Region where
  align : Nat
deriving DecidableEq, Repr

/-- The allocated blocks. -/
structure Heap where
  blocks : List Block
  filled : ∀ b ∈ blocks, 0 < b.size
  apart : blocks.Pairwise fun b c => b.toRegion.Apart c.toRegion

namespace Heap

variable {h h' : Heap} {b c : Block}

theorem ext_blocks (same : h.blocks = h'.blocks) : h = h' := by
  cases h
  cases h'
  cases same
  rfl

/-- Nothing is allocated. -/
def empty : Heap := ⟨[], nofun, .nil⟩

/-- The allocator places a block, aligned and where nothing is allocated. -/
def alloc (h : Heap) (b : Block) : Option Heap :=
  if room : (0 < b.size ∧ b.align ∣ b.start) ∧ ∀ c ∈ h.blocks, b.toRegion.Apart c.toRegion then
    some {
      blocks := b :: h.blocks
      filled := List.forall_mem_cons.mpr ⟨room.1.1, h.filled⟩
      apart := List.pairwise_cons.mpr ⟨room.2, h.apart⟩ }
  else none

/-- A block is given back. Anything that is not an allocated block is undefined. -/
def free (h : Heap) (b : Block) : Option Heap :=
  if b ∈ h.blocks then
    some {
      blocks := h.blocks.erase b
      filled := fun c member => h.filled c (List.mem_of_mem_erase member)
      apart := h.apart.sublist List.erase_sublist }
  else none

/-- `Box::new`. -/
def allocBox (h : Heap) (b : Block) : Option Heap := if b.size = 0 then some h else h.alloc b

/-- The drop of a box. -/
def freeBox (h : Heap) (b : Block) : Option Heap := if b.size = 0 then some h else h.free b

/-! ## What is allocated -/

theorem alloc_eq_some (placed : h.alloc b = some h') : h'.blocks = b :: h.blocks := by
  simp only [alloc] at placed
  split at placed
  · cases placed
    rfl
  · cases placed

theorem free_eq_some_iff : h.free b = some h' ↔ b ∈ h.blocks ∧ h'.blocks = h.blocks.erase b := by
  simp only [free]
  constructor
  · intro freed
    split at freed
    · next member =>
        cases freed
        exact ⟨member, rfl⟩
    · cases freed
  · rintro ⟨member, same⟩
    rw [if_pos member]
    exact congrArg some (ext_blocks same.symm)

/-- A `free` is defined exactly for an allocated block. -/
theorem exists_free_iff : (∃ h', h.free b = some h') ↔ b ∈ h.blocks := by
  constructor
  · rintro ⟨h', freed⟩
    exact (free_eq_some_iff.mp freed).1
  · intro member
    exact ⟨_, if_pos member⟩

/-- **A `free` takes away the block it names**, and nothing else. -/
theorem free_perm (freed : h.free b = some h') : h.blocks.Perm (b :: h'.blocks) := by
  obtain ⟨member, same⟩ := free_eq_some_iff.mp freed
  rw [same]
  exact List.perm_cons_erase member

/-- **A `free` undoes the `alloc` of its block.** -/
theorem free_alloc (placed : h.alloc b = some h') : h'.free b = some h := by
  rw [free_eq_some_iff, alloc_eq_some placed]
  exact ⟨List.mem_cons_self, (List.erase_cons_head ..).symm⟩

/-- What a box adds to the blocks. -/
def boxed (b : Block) : List Block := if b.size = 0 then [] else [b]

theorem allocBox_eq_some (placed : h.allocBox b = some h') :
    h'.blocks = boxed b ++ h.blocks := by
  simp only [allocBox] at placed
  simp only [boxed]
  split at placed
  · next empty =>
      cases placed
      rw [if_pos empty]
      rfl
  · next filled =>
      rw [if_neg filled, alloc_eq_some placed]
      rfl

/-! ## Several boxes -/

/-- Boxes are made one after the other. -/
def allocBoxes (h : Heap) : List Block → Option Heap
  | [] => some h
  | b :: rest => (h.allocBox b).bind fun h => h.allocBoxes rest

/-- Boxes are dropped one after the other. -/
def freeBoxes (h : Heap) : List Block → Option Heap
  | [] => some h
  | b :: rest => (h.freeBox b).bind fun h => h.freeBoxes rest

/-- Boxes that are made are added to the blocks. -/
theorem allocBoxes_perm {boxes : List Block} (placed : h.allocBoxes boxes = some h') :
    h'.blocks.Perm (boxes.flatMap boxed ++ h.blocks) := by
  induction boxes generalizing h with
  | nil =>
      cases placed
      exact .refl _
  | cons b rest ih =>
      obtain ⟨middle, first, later⟩ := Option.bind_eq_some_iff.mp placed
      refine (ih later).trans ?_
      rw [allocBox_eq_some first, List.flatMap_cons, List.append_assoc]
      exact List.perm_append_comm_assoc ..

/-- **Boxes that are on the heap can be dropped**, which leaves the other blocks. -/
theorem exists_freeBoxes {boxes others : List Block}
    (holds : h.blocks.Perm (boxes.flatMap boxed ++ others)) :
    ∃ h', h.freeBoxes boxes = some h' ∧ h'.blocks.Perm others := by
  induction boxes generalizing h with
  | nil => exact ⟨h, rfl, holds⟩
  | cons b rest ih =>
      have dropped : ∃ middle, h.freeBox b = some middle ∧
          middle.blocks.Perm (rest.flatMap boxed ++ others) := by
        by_cases empty : b.size = 0
        · refine ⟨h, if_pos empty, ?_⟩
          simpa [boxed, empty] using holds
        · have here : h.blocks.Perm (b :: (rest.flatMap boxed ++ others)) := by
            simpa [boxed, empty] using holds
          obtain ⟨middle, freed⟩ := exists_free_iff.mpr (here.mem_iff.mpr List.mem_cons_self)
          refine ⟨middle, (if_neg empty).trans freed, ?_⟩
          exact ((free_perm freed).symm.trans here).cons_inv
      obtain ⟨middle, first, left⟩ := dropped
      obtain ⟨h', later, done⟩ := ih left
      exact ⟨h', Option.bind_eq_some_iff.mpr ⟨middle, first, later⟩, done⟩

/-! ## Addresses inside a block -/

/-- Two blocks with a byte in common are the same block. -/
theorem eq_of_mem_bytes (left : b ∈ h.blocks) (right : c ∈ h.blocks) {a : Nat}
    (inLeft : a ∈ b.bytes) (inRight : a ∈ c.bytes) : b = c := by
  by_contra differ
  have symmetric : Std.Symm fun b c : Block => b.toRegion.Apart c.toRegion :=
    ⟨fun _ _ apart => apart.symm⟩
  have apart := h.apart.forall left right differ
  exact Set.disjoint_left.mp apart inLeft inRight

/-- No other block starts inside a block. -/
theorem not_mem_of_inside (member : b ∈ h.blocks) (inside : c.start ∈ b.bytes) (other : c ≠ b) :
    c ∉ h.blocks := by
  intro allocated
  have filled := h.filled c allocated
  have first : c.start ∈ c.bytes := Region.mem_bytes.mpr ⟨Nat.le_refl _, by omega⟩
  exact other (eq_of_mem_bytes allocated member first inside)

/-- **A `free` inside a block, of anything but that block, is undefined.** -/
theorem free_of_inside (member : b ∈ h.blocks) (inside : c.start ∈ b.bytes) (other : c ≠ b) :
    h.free c = none :=
  if_neg (not_mem_of_inside member inside other)

/-- The drop of a box inside a block is defined only for a box of size zero, and gives back
nothing. -/
theorem freeBox_inside_iff (member : b ∈ h.blocks) (inside : 0 < c.size → c.start ∈ b.bytes)
    (other : c ≠ b) : h.freeBox c = some h' ↔ c.size = 0 ∧ h' = h := by
  simp only [freeBox]
  by_cases empty : c.size = 0
  · rw [if_pos empty]
    constructor
    · intro same
      exact ⟨empty, (Option.some.inj same).symm⟩
    · rintro ⟨-, rfl⟩
      rfl
  · rw [if_neg empty, free_of_inside member (inside (Nat.pos_of_ne_zero empty)) other]
    constructor
    · intro undefined
      cases undefined
    · intro both
      exact absurd both.1 empty

end Heap

end LoonyRuntime.Memory
