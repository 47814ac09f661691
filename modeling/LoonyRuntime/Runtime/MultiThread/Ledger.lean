import LoonyRuntime.Runtime.MultiThread.Steps

/-!
# The entries of the scheduler

An entry that was pushed is in a queue, held by a thread that is about to run it, or was run.
`places` counts these situations. No step adds one but the push (`Step.conserves`), so that no
entry is ever handed out twice (`places_le_one`).

The checks of the sleep section take an entry out of a queue and drop it (`Step.discards`). Each
entry is in exactly one of the situations exactly along the runs in which these checks find
nothing (`accounted_along_iff`).
-/

set_option autoImplicit false

namespace LoonyRuntime.Runtime.MultiThread

open Concurrent

/-! ## Where an entry is -/

/-- How often an entry is in the queues. -/
def Shared.queued (s : Shared) (e : Nat) : Nat := s.injector.count e + total (List.count e) s.locals

/-- A thread holds the entry, and runs it next. -/
def Thread.held (e : Nat) (t : Thread) : Nat :=
  match t.point with
  | .hold entry => if entry = e then 1 else 0
  | .worker (.unlockStealers (some entry)) => if entry = e then 1 else 0
  | .stealWork (.unlockStealers (some entry)) => if entry = e then 1 else 0
  | _ => 0

/-- The situations an entry is in: in a queue, held by a thread, or passed to `Task::run`. -/
def places (s : State) (e : Nat) : Nat :=
  s.shared.queued e + total (Thread.held e) s.threads + s.shared.ran.count e

/-- Every entry pushed is in exactly one situation. -/
def Accounted (s : State) : Prop := ∀ e, e < s.shared.pushed → places s e = 1

theorem Thread.resume_held (e : Nat) (b : List Caller) : (Thread.resume b).held e = 0 := by
  cases b with
  | nil => rfl
  | cons caller rest => cases caller <;> rfl

/-! ## What a step does to it -/

/-- The points of the checks whose result is only tested with `is_some()`. -/
def Thread.checks (t : Thread) : Bool :=
  match t.point with
  | .worker .checkPop | .worker .checkSteal | .worker .wakePop | .worker .wakeSteal => true
  | _ => false

/-- The queue that a check looks into has an entry, and the steal does not come back with
`Steal::Retry`. -/
def checksFind (i : Nat) (s : Shared) (t : Thread) (l : Label) : Bool :=
  match t.point, l with
  | .worker .checkPop, .next _ => s.locals[i]?.any (!·.isEmpty)
  | .worker .wakePop, .next _ => s.locals[i]?.any (!·.isEmpty)
  | .worker .checkSteal, .next retry => !retry && !s.injector.isEmpty
  | .worker .wakeSteal, .next retry => !retry && !s.injector.isEmpty
  | _, _ => false

/-- A pop finds an entry exactly when the local queue has one. -/
theorem Shared.isSome_pop (s : Shared) (i : Nat) :
    (s.pop i).isSome = s.locals[i]?.any (!·.isEmpty) := by
  cases queue : s.locals[i]? with
  | none => simp [Shared.pop, queue]
  | some entries => cases entries <;> simp [Shared.pop, queue]

/-- A steal that does not come back with `Retry` finds an entry exactly when there is one. -/
theorem Shared.isSome_stealInjector (s : Shared) (retry : Bool) :
    (s.stealInjector retry).isSome = (!retry && !s.injector.isEmpty) := by
  cases retry with
  | true => rfl
  | false => cases queue : s.injector <;> simp [Shared.stealInjector, queue]

section Steps

variable {n : Nat} {retries : Bool} {i : Nat} {s s' : Shared} {t t' : Thread}

/-- The head of a local queue is taken out. -/
theorem queued_of_pop {target x : Nat} {rest : List Nat}
    (queue : s.locals[target]? = some (x :: rest)) (e : Nat) :
    s.queued e = Shared.queued { s with locals := s.locals.set target rest } e +
      if x = e then 1 else 0 := by
  simp only [Shared.queued, total_eq_others queue, total_set_others rest queue, List.count_cons,
    beq_iff_eq]
  omega

/-- The head of the injector is taken out. -/
theorem queued_of_steal {x : Nat} {rest : List Nat} (queue : s.injector = x :: rest) (e : Nat) :
    s.queued e = Shared.queued { s with injector := rest } e + if x = e then 1 else 0 := by
  simp only [Shared.queued, queue, List.count_cons, beq_iff_eq]
  omega

/-- An entry is pushed. -/
theorem queued_push (e : Nat) :
    s.push.queued e = s.queued e + if s.pushed = e then 1 else 0 := by
  simp only [Shared.queued, Shared.push, List.count_append, List.count_singleton, beq_iff_eq]
  omega

/-- A step that drops nothing keeps every entry where it is or moves it on, and a push adds the
entry it pushes. -/
theorem Step.conserves (step : Step n retries i s t s' t')
    (kept : t.checks = true → t'.point ≠ .worker .incActive) (e : Nat) :
    s'.queued e + t'.held e + s'.ran.count e =
      s.queued e + t.held e + s.ran.count e + if s.pushed ≤ e ∧ e < s'.pushed then 1 else 0 := by
  have unpushed : ∀ k : Nat, (if k ≤ e ∧ e < k then 1 else 0) = 0 := fun k =>
    if_neg (by omega)
  cases step with
  | checkPopFound | checkStealFound | wakePopFound | wakeStealFound => exact absurd rfl (kept rfl)
  | popFound queue | stealFound queue | helpFound queue =>
      have moved := queued_of_pop queue e
      simp only [Thread.held, unpushed]
      omega
  | injectorFound queue | helpInjectorFound queue | processFound queue =>
      have moved := queued_of_steal queue e
      simp only [Thread.held, unpushed]
      omega
  | run =>
      simp only [Thread.held, unpushed, List.count_cons, beq_iff_eq]
      exact (Nat.add_assoc _ _ _).trans (by simp only [Shared.queued]; omega)
  | spawn | spawnInRun =>
      have added := queued_push (s := s) e
      have next : s.push.pushed = s.pushed + 1 := rfl
      have ran : s.push.ran = s.ran := rfl
      simp only [Thread.held, next, ran, added]
      by_cases same : s.pushed = e
      · rw [if_pos same, if_pos (by omega)]
        omega
      · rw [if_neg same, if_neg (by omega)]
        omega
  | finish | notifyReturn | helpUnlockNone | processReturn | shutdownReturn =>
      simp only [Thread.resume_held, unpushed]
      rfl
  | _ =>
      simp only [unpushed]
      rfl

/-- A check that finds an entry drops it. -/
theorem Step.discards (step : Step n retries i s t s' t') (checks : t.checks = true)
    (found : t'.point = .worker .incActive) :
    ∃ x, s'.pushed = s.pushed ∧ ∀ e, s'.queued e + t'.held e + s'.ran.count e +
      (if x = e then 1 else 0) = s.queued e + t.held e + s.ran.count e := by
  cases step with
  | @checkPopFound _ entry _ queue | @wakePopFound _ entry _ queue =>
      refine ⟨entry, rfl, ?_⟩
      intro e
      have moved := queued_of_pop queue e
      simp only [Thread.held]
      omega
  | @checkStealFound _ entry _ queue | @wakeStealFound _ entry _ queue =>
      refine ⟨entry, rfl, ?_⟩
      intro e
      have moved := queued_of_steal queue e
      simp only [Thread.held]
      omega
  | whileShutdown | finish | notifyReturn | helpUnlockNone | processReturn | shutdownReturn =>
      cases checks
  | _ => cases found

/-- A check finds an entry exactly when its queue has one. -/
theorem found_iff_checksFind {l : Label} (moved : move n retries i s t l = some (s', t')) :
    (t.checks = true ∧ t'.point = .worker .incActive) ↔ checksFind i s t l = true := by
  obtain ⟨point, below⟩ := t
  cases l with
  | next retry =>
      simp only [move] at moved
      split at moved
      · cases moved
      · cases point with
        | worker pc =>
            cases pc with
            | checkPop | wakePop =>
                simp only [checksFind, ← Shared.isSome_pop]
                cases popped : s.pop i with
                | none =>
                    simp only [advance, advanceWorker, popped] at moved
                    cases moved
                    simp [Thread.checks]
                | some r =>
                    simp only [advance, advanceWorker, popped] at moved
                    cases moved
                    simp [Thread.checks]
            | checkSteal | wakeSteal =>
                simp only [checksFind, ← Shared.isSome_stealInjector]
                cases stolen : s.stealInjector retry with
                | none =>
                    simp only [advance, advanceWorker, stolen] at moved
                    cases moved
                    simp [Thread.checks]
                | some r =>
                    simp only [advance, advanceWorker, stolen] at moved
                    cases moved
                    simp [Thread.checks]
            | _ => simp [Thread.checks, checksFind]
        | _ => simp [Thread.checks, checksFind]
  | begin call =>
      cases point with
      | user | run _ => simp [Thread.checks, checksFind]
      | _ => cases moved
  | wake =>
      simp only [move] at moved
      split at moved
      · next here =>
          cases here
          simp [Thread.checks, checksFind]
      · cases moved
  | notify choice =>
      simp only [move] at moved
      split at moved
      · next here =>
          cases here
          simp [Thread.checks, checksFind]
      · cases moved
  | finish =>
      cases point with
      | run _ => simp [Thread.checks, checksFind]
      | _ => cases moved

end Steps

/-- Every check of the sleep section finds nothing. -/
def checksFindNothing (s : State) (a : Nat × Label) : Bool :=
  match s.threads[a.1]? with
  | some t => !checksFind a.1 s.shared t a.2
  | none => true

/-- No entry is in two situations, and none that was not pushed is in any. -/
def Bounded (s : State) : Prop := ∀ e, places s e ≤ if e < s.shared.pushed then 1 else 0

theorem bounded_startWith (n others : Nat) : Bounded (startWith n others) := by
  intro e
  have queues : total (List.count e) (List.replicate n ([] : List Nat)) = 0 :=
    total_replicate_eq_zero _ List.count_nil
  have held : total (Thread.held e) (startWith n others).threads = 0 := by
    simp only [startWith, total_append]
    rw [total_replicate_eq_zero (Thread.held e) rfl, total_replicate_eq_zero (Thread.held e) rfl]
  have none : places (startWith n others) e = 0 := by
    rw [places, held]
    simp only [startWith, Shared.new, Shared.queued, queues, List.count_nil]
  rw [none]
  exact Nat.zero_le _

/-- A step that drops nothing adds the pushed entry to the ledger. -/
theorem places_of_kept {n : Nat} {retries : Bool} {s : State} {i : Nat} {t t' : Thread}
    {shared : Shared} (found : s.threads[i]? = some t)
    (step : Step n retries i s.shared t shared t')
    (kept : t.checks = true → t'.point ≠ .worker .incActive) (e : Nat) :
    places ⟨shared, s.threads.set i t'⟩ e =
      places s e + if s.shared.pushed ≤ e ∧ e < shared.pushed then 1 else 0 := by
  have balance := step.conserves kept e
  simp only [places, total_eq_others found, total_set_others t' found]
  omega

/-- A step that drops an entry takes it off the ledger. -/
theorem places_of_dropped {n : Nat} {retries : Bool} {s : State} {i : Nat} {t t' : Thread}
    {shared : Shared} (found : s.threads[i]? = some t)
    (step : Step n retries i s.shared t shared t') (checks : t.checks = true)
    (drops : t'.point = .worker .incActive) :
    ∃ x, shared.pushed = s.shared.pushed ∧ ∀ e,
      places ⟨shared, s.threads.set i t'⟩ e + (if x = e then 1 else 0) = places s e := by
  obtain ⟨x, pushed, balance⟩ := step.discards checks drops
  refine ⟨x, pushed, ?_⟩
  intro e
  have balance := balance e
  simp only [places, total_eq_others found, total_set_others t' found]
  omega

/-- A step pushes one entry at most. -/
theorem Step.pushed_cases {n : Nat} {retries : Bool} {i : Nat} {s s' : Shared} {t t' : Thread}
    (step : Step n retries i s t s' t') : s'.pushed = s.pushed ∨ s'.pushed = s.pushed + 1 := by
  cases step with
  | spawn | spawnInRun => exact .inr rfl
  | _ => exact .inl rfl

/-- **Every step keeps the ledger bounded.** -/
theorem Bounded.step {n : Nat} {retries : Bool} {s s' : State} {a : Nat × Label}
    (inv : Bounded s) (taken : (machine n retries).step s a = some s') : Bounded s' := by
  obtain ⟨i, l⟩ := a
  obtain ⟨t, shared, t', found, step, -, rfl⟩ := step_of_taken taken
  intro e
  have before := inv e
  by_cases drops : t.checks = true ∧ t'.point = .worker .incActive
  · obtain ⟨x, pushed, after⟩ := places_of_dropped found step drops.1 drops.2
    have after := after e
    rw [pushed]
    omega
  · have after := places_of_kept found step (fun checks found => drops ⟨checks, found⟩) e
    rw [after]
    rcases step.pushed_cases with same | next
    · rw [same, if_neg (by omega : ¬(s.shared.pushed ≤ e ∧ e < s.shared.pushed))]
      exact before
    · rw [next]
      split at before <;> split <;> split <;> omega

theorem bounded {n : Nat} {retries : Bool} {s : State}
    (reached : (machine n retries).Reaches s) : Bounded s := by
  refine reached.invariant ?_ fun s a s' _ inv _ taken => inv.step taken
  rintro _ ⟨others, rfl⟩
  exact bounded_startWith n others

/-- **No entry is ever in two situations**: none is handed out twice, and none is run twice. -/
theorem places_le_one {n : Nat} {retries : Bool} {s : State}
    (reached : (machine n retries).Reaches s) (e : Nat) : places s e ≤ 1 := by
  have bound := bounded reached e
  split at bound <;> omega

/-- **A step decides by what its check finds whether every entry stays accounted for.** -/
theorem accounted_step_iff {n : Nat} {retries : Bool} {s s' : State} {a : Nat × Label}
    (bounded : Bounded s) (inv : Accounted s) (taken : (machine n retries).step s a = some s') :
    Accounted s' ↔ checksFindNothing s a = true := by
  obtain ⟨i, l⟩ := a
  obtain ⟨t, shared, t', found, step, moved, rfl⟩ := step_of_taken taken
  have decided := found_iff_checksFind moved
  simp only [checksFindNothing, found]
  by_cases drops : t.checks = true ∧ t'.point = .worker .incActive
  · obtain ⟨x, pushed, after⟩ := places_of_dropped found step drops.1 drops.2
    have finds : checksFind i s.shared t l = true := decided.mp drops
    refine iff_of_false ?_ (by simp [finds])
    intro accounted
    have gone := after x
    have before := bounded x
    rw [if_pos rfl] at gone
    split at before
    · next within =>
        have now := accounted x (pushed ▸ within)
        omega
    · omega
  · have misses : checksFind i s.shared t l = false :=
      Bool.eq_false_of_not_eq_true fun finds => drops (decided.mpr finds)
    refine iff_of_true ?_ (by simp [misses])
    intro e within
    rw [places_of_kept found step (fun checks found => drops ⟨checks, found⟩) e]
    by_cases earlier : e < s.shared.pushed
    · rw [inv e earlier, if_neg (by omega)]
    · have before := bounded e
      rw [if_neg earlier] at before
      rw [if_pos ⟨Nat.le_of_not_lt earlier, within⟩]
      omega

/-- **Every entry pushed is in exactly one situation exactly along the runs in which the checks of
the sleep section find nothing.** -/
theorem accounted_along_iff (n others : Nat) (retries : Bool) (labels : List (Nat × Label)) :
    (machine n retries).Always Accounted (startWith n others) labels ↔
      (machine n retries).Meets (fun s a => checksFindNothing s a = true) (startWith n others)
        labels := by
  refine Machine.always_iff_meets ?_ (.start ⟨others, rfl⟩) fun e within => nomatch within
  intro s a s' reached inv taken
  exact accounted_step_iff (bounded reached) inv taken

/-- An entry is pushed while the only worker makes its double check. -/
def pushedInCheck : List (Nat × Label) :=
  List.replicate 9 (0, .next false) ++ [(1, .begin .spawn), (0, .next false)]

/-- The entry is lost: it is in no queue, no thread holds it, and it was not run. -/
theorem entry_lost : ∃ s, (machine 1 false).Reaches s ∧ s.shared.shutdown = false ∧
    0 < s.shared.pushed ∧ places s 0 = 0 := by
  obtain ⟨s, reached, tested⟩ := (machine 1 false).exists_reaches_of_test
    (fun s => !s.shared.shutdown && decide (0 < s.shared.pushed) && places s 0 == 0)
    pushedInCheck ⟨1, rfl⟩ (by decide)
  simp only [Bool.and_eq_true, Bool.not_eq_true', decide_eq_true_eq, beq_iff_eq] at tested
  obtain ⟨⟨running, pushed⟩, lost⟩ := tested
  exact ⟨s, reached, running, pushed, lost⟩

end LoonyRuntime.Runtime.MultiThread
