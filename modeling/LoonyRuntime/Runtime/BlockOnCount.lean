import LoonyRuntime.Runtime.BlockOn

/-!
# The count of the state of `block_on_with_worker`

The state is kept by an `Arc`. The loop holds one handle of it, and `Arc::into_raw` has put one
into the waker of the context. `clone` hands the pointer out again without counting it and `drop`
does nothing, while `wake` makes an `Arc` from the pointer and drops it. So a clone that is woken
by value releases a count that nobody took for it.

`Covered` says that the count is at least one for the loop and one for every waker that is alive.
It holds along a run exactly if the waker is not cloned in it (`covered_along_iff`). With two
clones woken by value the state is released while the loop still runs (`released_in_loop`).
-/

set_option autoImplicit false

namespace LoonyRuntime.Runtime.BlockOn

open Concurrent

variable {Output : Type}

/-! ## What has to be covered -/

/-- The loop has not been left. -/
def LoopPc.running : Option (LoopPc Output) → Nat
  | none | some (.left _) => 0
  | _ => 1

def Thread.running (t : Thread Output) : Nat := LoopPc.running t.loop

/-- The wakers that are alive while the loop runs: the one of the context, and the clones. -/
def Shared.alive (s : Shared Output) : Nat := 1 + s.clones

/-- While the loop runs, the count is at least one for its handle and one for each waker that is
alive. -/
def Covered (s : State Output) : Prop :=
  0 < total Thread.running s.threads → 1 + s.shared.alive ≤ s.shared.strong

/-- The step is no clone of a waker. -/
def NoClone (_ : State Output) (a : Nat × Label Output) : Prop := a.2 ≠ .call .clone

/-! ## Runs without clones -/

/-- A wake by value. -/
def WakePc.byValue : Option WakePc → Bool
  | some (.lock b) | some (.take b) | some (.unlock b _) | some (.wake b _) => b
  | some .dropArc => true
  | none => false

def Thread.byValue (t : Thread Output) : Bool := WakePc.byValue t.wake

/-- Without clones there is no wake by value, and the count is that of the loop and of the waker of
the context. -/
structure Uncloned (s : State Output) : Prop where
  clones : s.shared.clones = 0
  byRef : ∀ t ∈ s.threads, t.byValue = false
  strong : s.shared.strong = 1 + total Thread.running s.threads
  one : total Thread.running s.threads ≤ 1

section Steps

variable {i : Nat} {s s' : Shared Output} {t t' : Thread Output} {l : Label Output}

/-- An operation of a wake by reference leaves the counts. -/
theorem wake_byRef {pc : WakePc} {pc' : Option WakePc} (byRef : WakePc.byValue (some pc) = false)
    (advanced : pc.advance i s = some (s', pc')) :
    s'.clones = s.clones ∧ s'.strong = s.strong ∧ WakePc.byValue pc' = false := by
  cases pc with
  | lock byValue =>
      obtain ⟨m, -, same⟩ := Option.map_eq_some_iff.mp advanced
      cases same
      exact ⟨rfl, rfl, byRef⟩
  | take byValue =>
      cases byRef
      cases advanced
      exact ⟨rfl, rfl, rfl⟩
  | unlock byValue waker =>
      cases byRef
      cases waker with
      | none =>
          cases advanced
          exact ⟨rfl, rfl, rfl⟩
      | some waker =>
          cases advanced
          exact ⟨rfl, rfl, rfl⟩
  | wake byValue waker =>
      cases byRef
      cases advanced
      exact ⟨rfl, rfl, rfl⟩
  | dropArc => cases byRef

theorem running_le_one (loop : Option (LoopPc Output)) : LoopPc.running loop ≤ 1 := by
  unfold LoopPc.running
  split
  · exact Nat.zero_le 1
  · exact Nat.zero_le 1
  · exact Nat.le_refl 1

/-- A loop that takes a step has not been left. -/
theorem running_of_loopStep {pc pc' : LoopPc Output} (step : LoopStep i s pc s' pc') :
    LoopPc.running (some pc) = 1 := by
  cases step <;> rfl

/-- The loop releases its handle when it is left, and leaves the counts before. -/
theorem loop_counts {pc pc' : LoopPc Output} (positive : 0 < s.strong)
    (step : LoopStep i s pc s' pc') :
    s'.clones = s.clones ∧
      s'.strong + LoopPc.running (some pc) = s.strong + LoopPc.running (some pc') := by
  cases step with
  | leave how =>
      refine ⟨rfl, ?_⟩
      simp only [LoopPc.running]
      omega
  | check =>
      refine ⟨rfl, ?_⟩
      cases s.completed <;> rfl
  | unlock output =>
      refine ⟨rfl, ?_⟩
      cases output <;> rfl
  | steal rounds found =>
      refine ⟨rfl, ?_⟩
      cases found <;> rfl
  | lock taken | poll output | unlockBreak | again | ran rounds => exact ⟨rfl, rfl⟩

/-- A clone is taken by code of the user that has a waker at hand. -/
theorem clone_of_move (moved : t.move i s (.call .clone) = some (s', t')) :
    s.hasWaker t.loop = true ∧ s' = { s with clones := s.clones + 1 } ∧ t'.loop = t.loop := by
  obtain ⟨loop, wake⟩ := t
  cases wake with
  | some pc => cases moved
  | none =>
      obtain ⟨-, moved⟩ := Option.ite_none_right_eq_some.mp moved
      obtain ⟨r, began, same⟩ := Option.map_eq_some_iff.mp moved
      obtain ⟨has, cloned⟩ := Option.ite_none_right_eq_some.mp began
      cases cloned
      cases same
      exact ⟨has, rfl, rfl⟩

/-- **Without clones a step leaves the wakers**, wakes none by value, and releases the handle of the
loop when it is left. -/
theorem counts_of_move (moved : t.move i s l = some (s', t')) (byRef : t.byValue = false)
    (none_cloned : s.clones = 0) (positive : 0 < s.strong) (other : l ≠ .call .clone) :
    s'.clones = 0 ∧ t'.byValue = false ∧ s'.strong + t.running = s.strong + t'.running := by
  obtain ⟨loop, wake⟩ := t
  cases wake with
  | some pc =>
      cases l with
      | next =>
          obtain ⟨⟨after, pc'⟩, advanced, same⟩ := Option.map_eq_some_iff.mp moved
          cases same
          obtain ⟨clones, strong, quiet⟩ := wake_byRef byRef advanced
          exact ⟨clones.trans none_cloned, quiet, congrArg (· + LoopPc.running loop) strong⟩
      | polled output | steal found | ran | call c => cases moved
  | none =>
      cases l with
      | call c =>
          obtain ⟨-, moved⟩ := Option.ite_none_right_eq_some.mp moved
          obtain ⟨⟨after, pc'⟩, began, same⟩ := Option.map_eq_some_iff.mp moved
          cases same
          have empty : ¬0 < s.clones := by omega
          cases c with
          | clone => exact absurd rfl other
          | wake | drop =>
              simp only [Call.begin, if_neg empty] at began
              cases began
          | wakeByRef =>
              obtain ⟨-, same⟩ := Option.ite_none_right_eq_some.mp began
              cases same
              exact ⟨none_cloned, rfl, rfl⟩
      | next | polled output | steal found | ran =>
          obtain ⟨pc, rfl, moved⟩ := Option.bind_eq_some_iff.mp moved
          obtain ⟨⟨after, pc'⟩, advanced, same⟩ := Option.map_eq_some_iff.mp moved
          cases same
          obtain ⟨clones, strong⟩ := loop_counts positive (loopStep_of_advance advanced)
          exact ⟨clones.trans none_cloned, rfl, strong⟩

/-- The loop runs no more than before. -/
theorem running_of_move (moved : t.move i s l = some (s', t')) : t'.running ≤ t.running := by
  cases step_of_move moved with
  | loop step => exact (running_le_one _).trans (running_of_loopStep step).ge
  | wake step => exact Nat.le_refl _
  | call clones outside => exact Nat.le_refl _

end Steps

section Runs

variable {s s' : State Output} {a : Nat × Label Output}

theorem uncloned_start (n : Nat) : Uncloned (start Output n) := by
  have running : total Thread.running (start Output n).threads = 1 := by
    rw [start, total_cons, total_replicate_eq_zero Thread.running rfl]
    rfl
  refine ⟨rfl, ?_, ?_, running.le⟩
  · intro t member
    rcases List.mem_cons.mp member with rfl | other
    · rfl
    · rw [List.eq_of_mem_replicate other]
      rfl
  · rw [running]
    rfl

/-- **Without clones every step keeps the counts.** -/
theorem Uncloned.step (inv : Uncloned s) (other : NoClone s a)
    (taken : (blockOn Output).step s a = some s') : Uncloned s' := by
  obtain ⟨i, l⟩ := a
  replace taken : Pool.step Thread.move s (i, l) = some s' := taken
  obtain ⟨t, shared, t', found, moved, rfl⟩ := Pool.step_eq_some taken
  have positive : 0 < s.shared.strong := by
    have := inv.strong
    omega
  obtain ⟨clones, quiet, strong⟩ :=
    counts_of_move moved (inv.byRef t (List.mem_of_getElem? found)) inv.clones positive other
  have fewer := running_of_move moved
  have before := inv.strong
  have one := inv.one
  rw [total_eq_others found] at before one
  refine ⟨clones, ?_, ?_, ?_⟩
  · intro u member
    rcases List.mem_or_eq_of_mem_set member with old | rfl
    · exact inv.byRef u old
    · exact quiet
  · rw [total_set_others t' found]
    show shared.strong = _
    omega
  · rw [total_set_others t' found]
    omega

/-- Where the counts are kept, they cover the wakers. -/
theorem Uncloned.covered (inv : Uncloned s) : Covered s := by
  intro running
  have strong := inv.strong
  have clones := inv.clones
  simp only [Shared.alive]
  omega

/-- A clone leaves one waker uncovered. -/
theorem Uncloned.not_covered (inv : Uncloned s) {i : Nat}
    (taken : (blockOn Output).step s (i, .call .clone) = some s') : ¬Covered s' := by
  replace taken : Pool.step Thread.move s (i, .call .clone) = some s' := taken
  obtain ⟨t, shared, t', found, moved, rfl⟩ := Pool.step_eq_some taken
  obtain ⟨has, rfl, same⟩ := clone_of_move moved
  have strong := inv.strong
  have clones := inv.clones
  have one := inv.one
  -- without a clone the only waker at hand is the one of the context
  have polls : t.loop = some .poll := by
    by_contra outside
    have at_hand : s.shared.hasWaker t.loop = decide (0 < s.shared.clones) := by
      unfold Shared.hasWaker
      split
      · next same => exact absurd same outside
      · rfl
    rw [at_hand, clones] at has
    cases has
  have runs : t'.running = 1 := by
    rw [Thread.running, same, polls]
    rfl
  have before : t.running = 1 := by
    rw [Thread.running, polls]
    rfl
  rw [total_eq_others found, before] at strong one
  intro covered
  have bound := covered (by rw [total_set_others t' found, runs]; omega)
  simp only [Shared.alive, clones] at bound
  omega

/-- **The count covers the wakers along a run exactly if none of them is cloned in it.** -/
theorem covered_along_iff (n : Nat) (labels : List (Nat × Label Output)) :
    (blockOn Output).Always Covered (start Output n) labels ↔
      (blockOn Output).Meets NoClone (start Output n) labels := by
  apply Machine.always_iff_meets_of (R := Uncloned) (fun _ _ _ inv other taken =>
    inv.step other taken) _ (uncloned_start n) (uncloned_start n).covered
  intro s a s' inv _ taken
  constructor
  · rintro covered clones
    obtain ⟨i, l⟩ := a
    have label : l = .call .clone := clones
    subst label
    exact inv.not_covered taken covered
  · intro other
    exact (inv.step other taken).covered

/-- The future clones the waker twice and returns `Pending`, and another thread wakes both clones
by value while the loop looks for a task. -/
def wakesTwoClones : List (Nat × Label Nat) :=
  loops 2 ++ [(0, .call .clone), (0, .call .clone), (0, .polled none), (0, .next)] ++ wakes ++ wakes

/-- The state is released while the loop still runs. -/
theorem released_in_loop : ∃ s, (blockOn Nat).Reaches s ∧
    0 < total Thread.running s.threads ∧ s.shared.strong = 0 ∧ ¬Covered s := by
  obtain ⟨s, reached, tested⟩ := (blockOn Nat).exists_reaches_of_test
    (fun s => decide (0 < total Thread.running s.threads) && s.shared.strong == 0)
    wakesTwoClones ⟨1, rfl⟩ (by decide)
  simp only [Bool.and_eq_true, decide_eq_true_eq, beq_iff_eq] at tested
  obtain ⟨running, released⟩ := tested
  refine ⟨s, reached, running, released, ?_⟩
  intro covered
  have bound := covered running
  omega

end Runs

end LoonyRuntime.Runtime.BlockOn
