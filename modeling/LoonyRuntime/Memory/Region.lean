import Mathlib

/-!
# Byte regions and stores

A region is a start address and a size. Its bytes are a half-open interval, so a region of size
zero has none and two regions are apart when they share no byte (`apart_iff`). `consecutive`
lays regions of given sizes one after the other: they are pairwise apart and within the bytes
they add up to, and each starts at a multiple of `a` exactly if the sizes before it add up to
one (`aligned_consecutive_iff`).

A memory gives every address a byte. A store writes a list of bytes from an address on. What is
loaded afterwards is what was stored if the regions are the same (`load_store`), and what was
there before if they are apart (`load_store_apart`). Being apart is necessary too: every byte that
is shared can be changed (`apart_iff_load_store`).

A value in memory is a list of bytes of a fixed length, and an `Encoding` says how it is read
back.
-/

set_option autoImplicit false

namespace LoonyRuntime.Memory

universe u

/-! ## Regions -/

/-- The bytes from an address on. -/
structure Region where
  start : Nat
  size : Nat
deriving DecidableEq, Repr

namespace Region

/-- The first address after the region. -/
def stop (r : Region) : Nat := r.start + r.size

/-- The addresses of the region. -/
def bytes (r : Region) : Set Nat := Set.Ico r.start r.stop

/-- The regions share no byte. -/
def Apart (r q : Region) : Prop := Disjoint r.bytes q.bytes

/-- The region lies between the ends of another one. -/
def Within (r outer : Region) : Prop := outer.start ≤ r.start ∧ r.stop ≤ outer.stop

/-- The region starts at a multiple of `a`. -/
def AlignedTo (r : Region) (a : Nat) : Prop := a ∣ r.start

/-- The region, seen from an address `base` lower. -/
def above (r : Region) (base : Nat) : Region := ⟨base + r.start, r.size⟩

variable {r q outer : Region}

theorem mem_bytes {a : Nat} : a ∈ r.bytes ↔ r.start ≤ a ∧ a < r.start + r.size := Iff.rfl

theorem Apart.symm (apart : r.Apart q) : q.Apart r := Disjoint.symm apart

/-- A region of size zero has no bytes. -/
theorem bytes_eq_empty (zero : r.size = 0) : r.bytes = ∅ := by
  simp [bytes, stop, zero]

/-- Regions are apart when one is empty or one ends where the other begins or before. -/
theorem apart_iff :
    r.Apart q ↔ r.size = 0 ∨ q.size = 0 ∨ r.stop ≤ q.start ∨ q.stop ≤ r.start := by
  rw [Apart, bytes, bytes, Set.Ico_disjoint_Ico]
  simp only [stop]
  omega

instance : Decidable (r.Apart q) := decidable_of_iff _ apart_iff.symm

instance : Decidable (r.Within outer) := inferInstanceAs (Decidable (_ ∧ _))

/-- An empty region is apart from every region. -/
theorem apart_of_size_zero (zero : r.size = 0) : r.Apart q :=
  apart_iff.mpr (.inl zero)

/-- Regions that follow each other are apart. -/
theorem apart_of_stop_le (before : r.stop ≤ q.start) : r.Apart q :=
  apart_iff.mpr (.inr (.inr (.inl before)))

/-- What lies within a region is apart from what the region is apart from. -/
theorem Apart.of_within (apart : outer.Apart q) (within : r.Within outer) : r.Apart q := by
  rw [apart_iff] at apart ⊢
  simp only [Within, stop] at apart within ⊢
  omega

/-- Regions that are not apart share a byte. -/
theorem exists_shared (overlap : ¬r.Apart q) : ∃ a, a ∈ r.bytes ∧ a ∈ q.bytes :=
  Set.not_disjoint_iff.mp overlap

/-- Moving both regions changes nothing. -/
@[simp] theorem above_apart_above {base : Nat} : (r.above base).Apart (q.above base) ↔ r.Apart q := by
  simp only [apart_iff, above, stop]
  omega

/-- Two regions have the same bytes exactly if they are the same region or both are empty. -/
theorem bytes_eq_iff : r.bytes = q.bytes ↔ r = q ∨ r.size = 0 ∧ q.size = 0 := by
  constructor
  · intro same
    by_cases zero : r.size = 0
    · right
      refine ⟨zero, ?_⟩
      by_contra positive
      have first : q.start ∈ q.bytes := mem_bytes.mpr ⟨Nat.le_refl _, by omega⟩
      rw [← same, bytes_eq_empty zero] at first
      exact first
    · left
      have filled : r.start < r.stop := by
        simp only [stop]
        omega
      obtain ⟨starts, stops⟩ := (Set.Ico_eq_Ico_iff (.inl filled)).mp same
      simp only [stop] at stops
      cases r
      cases q
      simp only at starts stops
      subst starts
      simp only [mk.injEq, true_and]
      omega
  · rintro (rfl | ⟨left, right⟩)
    · rfl
    · rw [bytes_eq_empty left, bytes_eq_empty right]

end Region

/-! ## Regions one after the other -/

/-- Regions of the given sizes, the first at `base`. -/
def consecutive : Nat → List Nat → List Region
  | _, [] => []
  | base, size :: rest => ⟨base, size⟩ :: consecutive (base + size) rest

theorem start_le_of_mem_consecutive {base : Nat} {sizes : List Nat} {r : Region}
    (member : r ∈ consecutive base sizes) : base ≤ r.start := by
  induction sizes generalizing base with
  | nil => cases member
  | cons size rest ih =>
      rcases List.mem_cons.mp member with rfl | later
      · exact Nat.le_refl _
      · exact (Nat.le_add_right _ _).trans (ih later)

/-- **Consecutive regions are pairwise apart.** -/
theorem pairwise_apart_consecutive (base : Nat) (sizes : List Nat) :
    (consecutive base sizes).Pairwise Region.Apart := by
  induction sizes generalizing base with
  | nil => exact .nil
  | cons size rest ih =>
      apply List.Pairwise.cons
      · intro r later
        exact Region.apart_of_stop_le (start_le_of_mem_consecutive later)
      · exact ih _

/-- **Consecutive regions lie within what they add up to.** -/
theorem within_of_mem_consecutive {base : Nat} {sizes : List Nat} {r : Region}
    (member : r ∈ consecutive base sizes) : r.Within ⟨base, sizes.sum⟩ := by
  induction sizes generalizing base with
  | nil => cases member
  | cons size rest ih =>
      simp only [Region.Within, Region.stop, List.sum_cons]
      rcases List.mem_cons.mp member with rfl | later
      · simp only
        omega
      · obtain ⟨starts, stops⟩ := ih later
        simp only [Region.stop] at starts stops
        omega

/-- **A region starts at a multiple exactly if the sizes before it add up to one.** -/
theorem aligned_consecutive_iff {base a : Nat} (sizes : List Nat) (k : Nat) {r : Region}
    (aligned : a ∣ base) (found : (consecutive base sizes)[k]? = some r) :
    r.AlignedTo a ↔ a ∣ (sizes.take k).sum := by
  have starts : r.start = base + (sizes.take k).sum := by
    clear aligned
    induction sizes generalizing base k with
    | nil => cases found
    | cons size rest ih =>
        cases k with
        | zero =>
            cases found
            simp
        | succ k =>
            rw [ih k found]
            simp only [List.take_succ_cons, List.sum_cons]
            omega
  rw [Region.AlignedTo, starts, Nat.dvd_add_right aligned]

/-! ## Stores and loads -/

abbrev Byte := BitVec 8

/-- A byte at every address. -/
abbrev Bytes := Nat → Byte

namespace Bytes

/-- Write the bytes from `start` on. -/
def store (m : Bytes) (start : Nat) (values : List Byte) : Bytes := fun a =>
  if start ≤ a then values.getD (a - start) (m a) else m a

/-- Read the bytes of a region. -/
def load (m : Bytes) (r : Region) : List Byte :=
  (List.range r.size).map fun i => m (r.start + i)

@[simp] theorem length_load (m : Bytes) (r : Region) : (m.load r).length = r.size := by
  simp [load]

/-- A store of no bytes does nothing. -/
@[simp] theorem store_nil (m : Bytes) (start : Nat) : m.store start [] = m := by
  funext a
  simp [store]

/-- A store does not change the bytes outside of it. -/
theorem store_outside {m : Bytes} {start a : Nat} {values : List Byte}
    (outside : a ∉ (⟨start, values.length⟩ : Region).bytes) : m.store start values a = m a := by
  rw [Region.mem_bytes] at outside
  unfold store
  split
  · next after =>
      apply List.getD_eq_default
      simp only at outside
      omega
  · rfl

theorem store_inside (m : Bytes) {start i : Nat} {values : List Byte} (inside : i < values.length) :
    m.store start values (start + i) = values[i] := by
  simp [store, inside]

/-- **What is loaded is what was stored.** -/
theorem load_store (m : Bytes) (start : Nat) (values : List Byte) :
    (m.store start values).load ⟨start, values.length⟩ = values := by
  apply List.ext_getElem
  · simp
  · intro i _ inside
    simp only [load, List.getElem_map, List.getElem_range]
    exact store_inside m inside

/-- **A store does not change a region that is apart.** -/
theorem load_store_apart (m : Bytes) {start : Nat} {values : List Byte} {r : Region}
    (apart : Region.Apart ⟨start, values.length⟩ r) : (m.store start values).load r = m.load r := by
  apply List.map_congr_left
  intro i member
  apply store_outside
  intro written
  have read : r.start + i ∈ r.bytes := by
    rw [Region.mem_bytes]
    have := List.mem_range.mp member
    omega
  exact Set.disjoint_left.mp apart written read

/-- **A region is unchanged by every store exactly if it is apart.** -/
theorem apart_iff_load_store {written r : Region} :
    written.Apart r ↔ ∀ (m : Bytes) (values : List Byte), values.length = written.size →
      (m.store written.start values).load r = m.load r := by
  constructor
  · intro apart m values fills
    apply load_store_apart
    rwa [fills]
  · intro unchanged
    by_contra overlap
    obtain ⟨a, write, read⟩ := Region.exists_shared overlap
    rw [Region.mem_bytes] at write read
    -- over a memory of zeroes, ones are written to every byte of the region
    have same := unchanged (fun _ => 0) (List.replicate written.size 1) (by simp)
    have at_a := congrArg (fun bytes => bytes.getD (a - r.start) 0) same
    have within : a - r.start < r.size := by omega
    have place : r.start + (a - r.start) = a := by omega
    have index : a - written.start < written.size := by omega
    simp [load, within, place, store, write.1, index] at at_a

end Bytes

/-! ## Values in memory -/

/-- A way to keep the values of a type in a fixed number of bytes. -/
structure Encoding (α : Type u) where
  size : Nat
  encode : α → List Byte
  decode : List Byte → α
  length_encode : ∀ a, (encode a).length = size
  decode_encode : ∀ a, decode (encode a) = a

namespace Encoding

variable {α β : Type u} (e : Encoding α)

/-- A type of two values or more takes a byte at least. -/
theorem size_pos [Nontrivial α] : 0 < e.size := by
  obtain ⟨a, b, differ⟩ := exists_pair_ne α
  by_contra none
  have empty : ∀ c, e.encode c = [] := by
    intro c
    have := e.length_encode c
    exact List.eq_nil_of_length_eq_zero (by omega)
  have same := congrArg e.decode ((empty a).trans (empty b).symm)
  rw [e.decode_encode, e.decode_encode] at same
  exact differ same

/-- Store a value at an address. -/
def store (m : Bytes) (start : Nat) (a : α) : Bytes := m.store start (e.encode a)

/-- Load the value at an address. -/
def load (m : Bytes) (start : Nat) : α := e.decode (m.load ⟨start, e.size⟩)

/-- **A stored value is loaded.** -/
@[simp] theorem load_store (m : Bytes) (start : Nat) (a : α) : e.load (e.store m start a) start = a := by
  have stored := m.load_store start (e.encode a)
  rw [e.length_encode] at stored
  rw [load, store, stored, e.decode_encode]

/-- **A store does not change a value that is apart.** -/
theorem load_of_apart (m : Bytes) {start other : Nat} {values : List Byte}
    (apart : Region.Apart ⟨start, values.length⟩ ⟨other, e.size⟩) :
    e.load (m.store start values) other = e.load m other := by
  rw [load, Bytes.load_store_apart m apart, load]

/-- A value of one type kept as a value of another. -/
def map (into : β → α) (back : α → β) (inverse : ∀ b, back (into b) = b) : Encoding β where
  size := e.size
  encode b := e.encode (into b)
  decode bytes := back (e.decode bytes)
  length_encode b := e.length_encode (into b)
  decode_encode b := by rw [e.decode_encode, inverse]

/-- A pair, one value after the other. -/
def prod (e : Encoding α) (f : Encoding β) : Encoding (α × β) where
  size := e.size + f.size
  encode p := e.encode p.1 ++ f.encode p.2
  decode bytes := (e.decode (bytes.take e.size), f.decode (bytes.drop e.size))
  length_encode p := by rw [List.length_append, e.length_encode, f.length_encode]
  decode_encode p := by
    rw [List.take_left' (e.length_encode p.1), List.drop_left' (e.length_encode p.1),
      e.decode_encode, f.decode_encode]

/-- The lowest `n` bytes of a number, the lowest first. -/
def lowBytes : Nat → Nat → List Byte
  | 0, _ => []
  | n + 1, value => BitVec.ofNat 8 value :: lowBytes n (value / 256)

/-- The number of a list of bytes, the lowest first. -/
def ofBytes : List Byte → Nat
  | [] => 0
  | byte :: rest => byte.toNat + 256 * ofBytes rest

theorem length_lowBytes (n value : Nat) : (lowBytes n value).length = n := by
  induction n generalizing value with
  | zero => rfl
  | succ n ih => simp [lowBytes, ih]

theorem ofBytes_lowBytes (n value : Nat) : ofBytes (lowBytes n value) = value % 256 ^ n := by
  induction n generalizing value with
  | zero => simp [lowBytes, ofBytes, Nat.mod_one]
  | succ n ih =>
      have lowest : (BitVec.ofNat 8 value).toNat = value % 256 := BitVec.toNat_ofNat ..
      rw [lowBytes, ofBytes, ih, lowest, Nat.pow_succ', Nat.mod_mul]

/-- A machine word of `n` bytes, the lowest byte first. -/
def word (n : Nat) : Encoding (BitVec (8 * n)) where
  size := n
  encode w := lowBytes n w.toNat
  decode bytes := BitVec.ofNat (8 * n) (ofBytes bytes)
  length_encode w := length_lowBytes n w.toNat
  decode_encode w := by
    have small : w.toNat < 256 ^ n := by
      have := w.isLt
      rwa [Nat.pow_mul] at this
    rw [ofBytes_lowBytes, Nat.mod_eq_of_lt small, BitVec.ofNat_toNat, BitVec.setWidth_eq]

end Encoding

end LoonyRuntime.Memory
