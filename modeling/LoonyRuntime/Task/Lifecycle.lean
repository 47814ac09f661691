import LoonyRuntime.Task.Account

/-!
# The fields of the word and the life of a task

`TaskState` packs a lifecycle, a set of flags and a count into the lower half of a word. The fields
read back what was written, a count modulo `2 ^ 16`, and written again they are the lower half of
the word (`fields_round_trip`).

The lifecycle of a task goes up from `IDLE` over `SCHEDULED` to `COMPLETE`, and never down
(`lifecycle_rises`). The state `RUNNING` between the two is entered by no operation, so the tests
for it in the wakes and in the task never pass.
-/

set_option autoImplicit false

namespace LoonyRuntime.Task

open TaskState Concurrent

variable {T : Type}

/-! ## The packed record -/

namespace TaskState

/-- A record of a lifecycle, flags and a count. -/
def pack (state flags refcount : Usize) : TaskState :=
  ((fromBits (state &&& stateMask)).withFlag (fromBits (flags &&& flagsMask))).withRefcount refcount

theorem getLsbD_stateMask {i : Nat} (within : i < 64) :
    stateMask.getLsbD i = decide (i < 2) := by
  revert i
  decide

theorem getLsbD_flagsMask {i : Nat} (within : i < 64) :
    flagsMask.getLsbD i = decide (2 ≤ i ∧ i < 16) := by
  revert i
  decide

theorem getLsbD_refcountMask {i : Nat} (within : i < 64) :
    refcountMask.getLsbD i = decide (16 ≤ i ∧ i < 32) := by
  revert i
  decide

/-- The bits of a packed record, each from its field. -/
theorem getLsbD_pack (state flags refcount : Usize) {i : Nat} (within : i < 64) :
    (pack state flags refcount).bits.getLsbD i =
      (decide (i < 2) && state.getLsbD i || decide (2 ≤ i ∧ i < 16) && flags.getLsbD i ||
        decide (16 ≤ i ∧ i < 32) && refcount.getLsbD (i - 16)) := by
  simp only [pack, fromBits, withFlag, withRefcount, refcountShift, BitVec.getLsbD_or,
    BitVec.getLsbD_and, BitVec.getLsbD_not, BitVec.getLsbD_shiftLeft, getLsbD_stateMask within,
    getLsbD_flagsMask within, getLsbD_refcountMask within, within, decide_true, Bool.true_and]
  rcases Nat.lt_or_ge i 2 with low | high
  · have below : ¬16 ≤ i := by omega
    simp [low, below, Nat.not_le_of_lt low]
  · rcases Nat.lt_or_ge i 16 with low | high'
    · simp [low, high, Nat.not_le_of_lt low, Nat.not_lt_of_le high]
    · simp [high', Nat.not_lt_of_le high', Nat.not_lt_of_le high]
      grind

theorem getLsbD_state (s : TaskState) {i : Nat} (within : i < 64) :
    s.state.getLsbD i = (s.bits.getLsbD i && decide (i < 2)) := by
  rw [state, BitVec.getLsbD_and, getLsbD_stateMask within]

theorem getLsbD_flags (s : TaskState) {i : Nat} (within : i < 64) :
    s.flags.getLsbD i = (s.bits.getLsbD i && decide (2 ≤ i ∧ i < 16)) := by
  rw [flags, BitVec.getLsbD_and, getLsbD_flagsMask within]

theorem getLsbD_refcount (s : TaskState) (i : Nat) :
    s.refcount.getLsbD i = (s.bits.getLsbD (16 + i) && decide (i < 16)) := by
  rw [refcount, refcountShift, BitVec.getLsbD_ushiftRight, BitVec.getLsbD_and]
  by_cases within : 16 + i < 64
  · rw [getLsbD_refcountMask within]
    congr 1
    simp only [decide_eq_decide]
    omega
  · rw [BitVec.getLsbD_of_ge s.bits _ (Nat.le_of_not_lt within), Bool.false_and, Bool.false_and]

/-- **The fields read back what was packed**, the count modulo `2 ^ 16`, and packed again they are
the lower half of the word. -/
theorem fields_round_trip (word state flags refcount : Usize) :
    (pack (fromBits word).state (fromBits word).flags (fromBits word).refcount).bits =
        word &&& 0xFFFFFFFF ∧
      (pack state flags refcount).state = state &&& stateMask ∧
      (pack state flags refcount).flags = flags &&& flagsMask ∧
      (pack state flags refcount).refcount = refcount &&& 0xFFFF := by
  refine ⟨?_, ?_, ?_, ?_⟩
  all_goals
    apply BitVec.eq_of_getLsbD_eq
    intro i within
  · have lower : (0xFFFFFFFF : Usize).getLsbD i = decide (i < 32) := by
      revert i
      decide
    rw [getLsbD_pack _ _ _ within, getLsbD_state _ within, getLsbD_flags _ within,
      getLsbD_refcount, BitVec.getLsbD_and, lower]
    grind [fromBits]
  · rw [getLsbD_state _ within, getLsbD_pack _ _ _ within, BitVec.getLsbD_and,
      getLsbD_stateMask within]
    grind
  · rw [getLsbD_flags _ within, getLsbD_pack _ _ _ within, BitVec.getLsbD_and,
      getLsbD_flagsMask within]
    grind
  · have count : (0xFFFF : Usize).getLsbD i = decide (i < 16) := by
      revert i
      decide
    rw [getLsbD_refcount, BitVec.getLsbD_and, count]
    by_cases low : i < 16
    · rw [getLsbD_pack _ _ _ (by omega)]
      grind
    · simp [low]

end TaskState

/-! ## The lifecycle -/

/-- The lifecycle among the marks. -/
def Marks.lifecycle (m : BitVec 4) : Nat := (m &&& 3).toNat

/-- `TaskState::state` of the word. -/
def Cell.lifecycle (s : Cell T) : Nat := (fromBits s.state).state.toNat

theorem lifecycle_marks (s : Cell T) : s.lifecycle = Marks.lifecycle (marks s.state) := by
  have same : (fromBits s.state).state = (marks s.state &&& 3).setWidth 64 :=
    and_setWidth s.state 3
  rw [Cell.lifecycle, same, Marks.lifecycle, BitVec.toNat_setWidth]
  exact Nat.mod_eq_of_lt (Nat.lt_trans (marks s.state &&& 3).isLt (by decide))

/-- **What an operation does to the lifecycle**: it stays, or goes up, and not to `RUNNING`. -/
theorem Account.Step.lifecycle {op : Op} {a a' : Account} (step : Account.Step op a a')
    (running : Marks.isRunning a.marks = false) :
    Marks.isRunning a'.marks = false ∧ Marks.lifecycle a.marks ≤ Marks.lifecycle a'.marks := by
  have finite : ∀ m : BitVec 4, Marks.isRunning m = false →
      (Marks.isRunning (m ||| 1) = false ∧ Marks.lifecycle m ≤ Marks.lifecycle (m ||| 1)) ∧
      (Marks.isRunning (m ||| 3) = false ∧ Marks.lifecycle m ≤ Marks.lifecycle (m ||| 3)) ∧
      (Marks.isRunning (m ||| 4) = false ∧ Marks.lifecycle m ≤ Marks.lifecycle (m ||| 4)) ∧
      (Marks.isRunning (m ||| 8) = false ∧ Marks.lifecycle m ≤ Marks.lifecycle (m ||| 8)) ∧
      (Marks.isRunning (m &&& 7) = false ∧ Marks.lifecycle m ≤ Marks.lifecycle (m &&& 7)) := by
    decide
  obtain ⟨scheduled, complete, aborted, interest, cleared⟩ := finite _ running
  cases step with
  | interest marks after =>
      rcases marks with marks | marks <;> rw [marks]
      · exact interest
      · exact cleared
  | proceed | takeJoin => exact ⟨running, Nat.le_refl _⟩
  | schedule _ _ _ after =>
      rw [after]
      exact scheduled
  | complete _ after =>
      rw [after]
      exact complete
  | abort after =>
      rw [after]
      exact aborted
  | run _ after | runInline _ after | clone _ after | breakOff _ _ _ after | push _ _ _ after
  | inlineReturn _ _ _ after | ready after | release after | dropContext _ _ after
  | dropClone _ _ after | deallocatePoll _ _ after | deallocateDrop _ _ after
  | dropHandle after | quiet _ after =>
      rw [after]
      exact ⟨running, Nat.le_refl _⟩

/-- No task is ever `RUNNING`. -/
theorem not_running {creator : Creator} {s : State T} (reached : (machine creator).Reaches s) :
    Marks.isRunning (marks s.shared.state) = false :=
  account_invariant (I := fun a => Marks.isRunning a.marks = false) (fun _ _ => True)
    (fun _ _ _ _ _ => trivial) rfl (fun _ _ _ running _ step => (step.lifecycle running).1) reached

/-- **The lifecycle of a task only goes up**, in every run from every reached state, and is never
`RUNNING`. -/
theorem lifecycle_rises {creator : Creator} {s s' : State T} {labels : List (Action T)}
    (reached : (machine creator).Reaches s) (ran : (machine creator).run s labels = some s') :
    (fromBits s'.shared.state).isRunning = false ∧
      s.shared.lifecycle ≤ s'.shared.lifecycle := by
  have rising : ∀ (s₁ : State T) a s₂, (machine creator).Reaches s₁ →
      s.shared.lifecycle ≤ s₁.shared.lifecycle → True → (machine creator).step s₁ a = some s₂ →
      s.shared.lifecycle ≤ s₂.shared.lifecycle := by
    intro s₁ a s₂ reached₁ rises _ taken
    have step := (machine_refines_account taken).lifecycle (not_running reached₁)
    rw [lifecycle_marks s₂.shared]
    rw [lifecycle_marks s₁.shared] at rises
    exact rises.trans step.2
  obtain ⟨later, rises⟩ := Machine.runWhen_invariant rising reached (Nat.le_refl _) ran
  exact ⟨(isRunning_marks _).trans (not_running later), rises⟩

/-- A task that is woken in its first poll and completed in its second one. -/
def wokenThenReady : List (Action Unit) :=
  [(0, .begin .run), (0, .begin (.wake .raw .context)), (0, .next), (0, .next), (0, .next),
   (0, .pending), (0, .next), (0, .next), (0, .begin .run), (0, .ready ()), (0, .next),
   (0, .next)]

/-- It goes from `IDLE` to `COMPLETE`. -/
theorem lifecycle_rises_toComplete : ∃ s' : State Unit,
    s'.shared.lifecycle = 3 ∧ (fromBits s'.shared.state).isRunning = false ∧
      (spawnedWith Unit 1).shared.lifecycle ≤ s'.shared.lifecycle := by
  have ends : ((machine .createTask).run (spawnedWith Unit 1) wokenThenReady).map
      (fun s' => s'.shared.lifecycle) = some 3 := by decide
  obtain ⟨s', ran, complete⟩ := Option.map_eq_some_iff.mp ends
  exact ⟨s', complete, lifecycle_rises (.start ⟨1, rfl⟩) ran⟩

end LoonyRuntime.Task
