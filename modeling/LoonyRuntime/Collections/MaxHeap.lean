import Mathlib.Data.Multiset.Filter
import Mathlib.Data.Multiset.AddSub

/-!
# Max-heaps by a comparison

A max-heap holds a multiset of items. It gives back an item that is greatest by a comparison,
provided that the comparison is transitive and antisymmetric up to ties. Which of several
greatest items comes first is left open, so a fact about all max-heaps is a fact about each way
of breaking ties.

`MaxHeap.ofList` scans a list, and shows that there is a max-heap for each comparison.
-/

set_option autoImplicit false

namespace LoonyRuntime.Collections

universe u

/-- A heap with the items it holds. -/
structure MaxHeap (α : Type u) (cmp : α → α → Ordering) where
  Heap : Type u
  items : Heap → Multiset α
  new : Heap
  push : Heap → α → Heap
  peek : Heap → Option α
  pop : Heap → Option (α × Heap)
  items_new : items new = 0
  items_push : ∀ h a, items (push h a) = a ::ₘ items h
  pop_eq_none : ∀ h, pop h = none ↔ items h = 0
  /-- An item is taken out. -/
  items_pop : ∀ {h a rest}, pop h = some (a, rest) → items h = a ::ₘ items rest
  /-- The item that is shown is the one that is taken out. -/
  peek_eq : ∀ h, peek h = (pop h).map Prod.fst
  /-- No item compares greater than the one taken out. -/
  pop_greatest : Std.TransCmp cmp → ∀ {h a rest}, pop h = some (a, rest) →
    ∀ b ∈ items h, (cmp b a).isLE = true

namespace MaxHeap

variable {α : Type u} {cmp : α → α → Ordering} (H : MaxHeap α cmp)

attribute [simp] items_new items_push

/-- Nothing is shown exactly when there is nothing. -/
theorem peek_eq_none {h : H.Heap} : H.peek h = none ↔ H.items h = 0 := by
  rw [H.peek_eq, Option.map_eq_none_iff]
  exact H.pop_eq_none h

/-- What is shown can be taken out. -/
theorem exists_pop_of_peek {h : H.Heap} {a : α} (shown : H.peek h = some a) :
    ∃ rest, H.pop h = some (a, rest) := by
  rw [H.peek_eq] at shown
  obtain ⟨⟨a', rest⟩, popped, rfl⟩ := Option.map_eq_some_iff.mp shown
  exact ⟨rest, popped⟩

/-- What is shown is held. -/
theorem mem_of_peek {h : H.Heap} {a : α} (shown : H.peek h = some a) : a ∈ H.items h := by
  obtain ⟨rest, popped⟩ := H.exists_pop_of_peek shown
  rw [H.items_pop popped]
  exact Multiset.mem_cons_self a _

/-- What is shown is greatest. -/
theorem isLE_of_peek [lawful : Std.TransCmp cmp] {h : H.Heap} {a : α}
    (shown : H.peek h = some a) : ∀ b ∈ H.items h, (cmp b a).isLE = true := by
  obtain ⟨rest, popped⟩ := H.exists_pop_of_peek shown
  exact H.pop_greatest lawful popped

/-- Taking an item out leaves fewer. -/
theorem card_pop {h rest : H.Heap} {a : α} (popped : H.pop h = some (a, rest)) :
    (H.items rest).card < (H.items h).card := by
  rw [H.items_pop popped, Multiset.card_cons]
  exact Nat.lt_succ_self _

/-! ## A heap that scans a list -/

/-- Take a greatest item out of a list. -/
def extractMax (cmp : α → α → Ordering) : List α → Option (α × List α)
  | [] => none
  | a :: rest =>
      match extractMax cmp rest with
      | none => some (a, [])
      | some (b, others) =>
          if (cmp b a).isLE = true then some (a, rest) else some (b, a :: others)

theorem extractMax_eq_none (cmp : α → α → Ordering) (l : List α) :
    extractMax cmp l = none ↔ l = [] := by
  cases l with
  | nil => simp [extractMax]
  | cons a rest =>
      simp only [extractMax]
      split
      · simp
      · split <;> simp

/-- What is taken out of a list and what is left are the list. -/
theorem extractMax_perm {l : List α} {a : α} {rest : List α}
    (taken : extractMax cmp l = some (a, rest)) : l.Perm (a :: rest) := by
  induction l generalizing a rest with
  | nil => cases taken
  | cons x xs ih =>
      simp only [extractMax] at taken
      split at taken
      · next none =>
          cases taken
          rw [(extractMax_eq_none cmp xs).mp none]
      · next b others further =>
          split at taken
          · cases taken
            exact .refl _
          · cases taken
            exact ((ih further).cons x).trans (.swap _ _ _)

theorem isLE_self [Std.ReflCmp cmp] (a : α) : (cmp a a).isLE = true := by
  have same : cmp a a = .eq := Std.ReflCmp.compare_self
  rw [same]
  rfl

/-- What is taken out of a list is greatest. -/
theorem extractMax_greatest [Std.TransCmp cmp] {l : List α} {a : α} {rest : List α}
    (taken : extractMax cmp l = some (a, rest)) : ∀ b ∈ l, (cmp b a).isLE = true := by
  induction l generalizing a rest with
  | nil => cases taken
  | cons x xs ih =>
      simp only [extractMax] at taken
      intro y member
      split at taken
      · next none =>
          cases taken
          rw [(extractMax_eq_none cmp xs).mp none] at member
          rw [List.mem_singleton.mp member]
          exact isLE_self x
      · next b others further =>
          split at taken
          · next below =>
              cases taken
              rcases List.mem_cons.mp member with rfl | inside
              · exact isLE_self y
              · exact Std.TransCmp.isLE_trans (ih further y inside) below
          · next above =>
              cases taken
              rcases List.mem_cons.mp member with rfl | inside
              · rw [Std.OrientedCmp.lt_of_not_isLE above]
                rfl
              · exact ih further y inside

/-- The heap that scans a list. -/
def ofList (α : Type u) (cmp : α → α → Ordering) : MaxHeap α cmp where
  Heap := List α
  items l := l
  new := []
  push l a := a :: l
  peek l := (extractMax cmp l).map Prod.fst
  pop := extractMax cmp
  items_new := rfl
  items_push _ _ := rfl
  pop_eq_none l := by
    rw [extractMax_eq_none, Multiset.coe_eq_zero]
  items_pop taken := by
    rw [Multiset.cons_coe, Multiset.coe_eq_coe]
    exact extractMax_perm taken
  peek_eq _ := rfl
  pop_greatest lawful _ _ _ taken := extractMax_greatest taken

end MaxHeap

end LoonyRuntime.Collections
