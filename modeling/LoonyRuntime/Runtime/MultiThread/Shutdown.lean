import LoonyRuntime.Runtime.MultiThread.Steps

/-!
# Shutdown and the workers

The guard of the unparkers lives until `MultiThread::shutdown` returns, so the thread in shutdown
holds it while it joins the workers. It holds neither of the other locks there, and one thread is
in shutdown at a time (`Once`), so a worker awaits a lock of that thread only inside of
`Shared::notify_worker`.

The flag is stored outside of `shared.mutex`, but a worker reads it under the mutex before it
waits. So the workers are all awake, or notified, when shutdown has released the mutex (`Roused`),
and stay so (`shutdown_reaches_all`).

`Clear` is the invariant that no worker has the unparkers yet to lock while a thread in shutdown
has their guard. Two steps may break it (`keepsClear`): the lock of the guard by shutdown, and the
push of a worker; the invariant holds exactly along the runs without them (`clear_along_iff`), and
there shutdown is not deadlocked (`not_deadlocked_of_keepsClear`). Once the invariant is broken,
shutdown stays stuck in its joins (`stuck_forever`, `never_returns`).
-/

set_option autoImplicit false

namespace LoonyRuntime.Runtime.MultiThread

open Concurrent

namespace Thread

/-- The lock that the thread takes next. -/
def awaits (s : Shared) (t : Thread) : Option Monitor :=
  match t.point with
  | .worker .lockSleep | .worker .reacquire | .notifyWorker .lockMutex
  | .shutdown .lockMutex => some s.mutex
  | .notifyWorker .lockUnparkers | .shutdown .lockUnparkers => some s.unparkers
  | .worker .lockStealers | .stealWork .lockStealers => some s.stealers
  | _ => none

/-- Inside of `MultiThread::shutdown`. -/
def shutsDown (t : Thread) : Nat :=
  match t.point with
  | .shutdown _ => 1
  | _ => 0

/-- In shutdown, with the guard of the unparkers and before the last join. -/
def joins (t : Thread) : Bool :=
  match t.point with
  | .shutdown .unparkAll | .shutdown (.join _) => true
  | _ => false

/-- Inside of `Shared::notify_worker`, with the unparkers yet to lock. -/
def yetToUnpark (t : Thread) : Bool :=
  match t.point with
  | .notifyWorker .lockMutex | .notifyWorker .notify | .notifyWorker .unlockMutex
  | .notifyWorker .lockUnparkers => true
  | _ => false

theorem resume_shutsDown (b : List Caller) :
    (resume b).shutsDown = 0 ∧ (resume b).joins = false ∧ (resume b).yetToUnpark = false := by
  cases b with
  | nil => exact ⟨rfl, rfl, rfl⟩
  | cons caller rest => cases caller <;> exact ⟨rfl, rfl, rfl⟩

/-- A thread that returns is outside of shutdown. -/
theorem resume_ne_shutdown (b : List Caller) (pc : ShutdownPc) :
    (resume b).point ≠ .shutdown pc := by
  cases b with
  | nil => exact nofun
  | cons caller rest => cases caller <;> exact nofun

/-- A worker comes back to the head of its loop. -/
theorem resume_ne_wait (b : List Caller) : (resume b).point ≠ .worker .wait := by
  cases b with
  | nil => exact nofun
  | cons caller rest => cases caller <;> exact nofun

/-- The join before the last one, or the step before the first. -/
theorem joins_cases {t : Thread} (joins : t.joins = true) :
    t.point = .shutdown .unparkAll ∨ ∃ k, t.point = .shutdown (.join k) := by
  unfold Thread.joins at joins
  split at joins
  · next here => exact .inl here
  · next k here => exact .inr ⟨k, here⟩
  · cases joins

theorem shutsDown_of_joins {t : Thread} (joins : t.joins = true) : t.shutsDown = 1 := by
  rcases joins_cases joins with here | ⟨k, here⟩ <;> simp [shutsDown, here]

theorem holdsUnparkers_of_joins {t : Thread} (joins : t.joins = true) :
    t.holdsUnparkers = true := by
  rcases joins_cases joins with here | ⟨k, here⟩ <;> simp [holdsUnparkers, here]

end Thread

/-- Shutdown waits in `join` for a worker that awaits a lock owned by the thread in shutdown. -/
def Deadlocked (n : Nat) (s : State) : Prop :=
  ∃ j w t u m, s.threads[j]? = some t ∧ t.point = .shutdown (.join w) ∧ w < n ∧
    s.threads[w]? = some u ∧ u.awaits s.shared = some m ∧ m.owner = some j

/-! ## One thread in shutdown -/

/-- One thread is in shutdown at most, and only after the store of the flag. -/
def Once (s : State) : Prop := total Thread.shutsDown s.threads ≤ s.shared.shutdown.toNat

section Steps

variable {n : Nat} {retries : Bool} {i : Nat} {s s' : Shared} {t t' : Thread}

/-- A thread enters shutdown as it sets the flag. -/
theorem Step.shutsDown (step : Step n retries i s t s' t') :
    t'.shutsDown + s.shutdown.toNat ≤ t.shutsDown + s'.shutdown.toNat := by
  cases step with
  | shutdown running | shutdownInRun running =>
      rw [running]
      exact Nat.le_refl 1
  | finish | notifyReturn | helpUnlockNone | processReturn | shutdownReturn =>
      rw [(Thread.resume_shutsDown _).1, Nat.zero_add]
      exact Nat.le_add_left _ _
  | _ => exact Nat.le_refl _

/-- Shutdown begins to join after it has locked the unparkers. -/
theorem Step.joins (step : Step n retries i s t s' t') (joins : t'.joins = true) :
    t.joins = true ∨ t.point = .shutdown .lockUnparkers := by
  cases step with
  | shutdownLockUnparkers => exact .inr rfl
  | unparkAll | join => exact .inl rfl
  | finish | notifyReturn | helpUnlockNone | processReturn | shutdownReturn =>
      rw [(Thread.resume_shutsDown _).2.1] at joins
      cases joins
  | _ => cases joins

/-- A thread enters `notify_worker` from code of the user. -/
theorem Step.yetToUnpark (step : Step n retries i s t s' t') (now : t'.yetToUnpark = true) :
    t.yetToUnpark = true ∨ t.point = .user ∨ ∃ e, t.point = .run e := by
  cases step with
  | spawn => exact .inr (.inl rfl)
  | @spawnInRun _ e => exact .inr (.inr ⟨e, rfl⟩)
  | notifyLock | notify | notifyUnlock => exact .inl rfl
  | finish | notifyReturn | helpUnlockNone | processReturn | shutdownReturn =>
      rw [(Thread.resume_shutsDown _).2.2] at now
      cases now
  | _ => cases now

/-- Of the calls, the push alone goes on to notify a worker. -/
theorem spawn_of_yetToUnpark {below : List Caller} {call : Call}
    (moved : begins s below call = some (s', t')) (now : t'.yetToUnpark = true) :
    call = .spawn := by
  cases call with
  | spawn => rfl
  | stealWork | processSomeTasks =>
      cases moved
      cases now
  | shutdown =>
      simp only [begins] at moved
      split at moved <;> cases moved
      cases now

/-- A thread that enters `notify_worker` has pushed. -/
theorem begin_of_yetToUnpark {l : Label} (moved : move n retries i s t l = some (s', t'))
    (before : t.yetToUnpark = false) (now : t'.yetToUnpark = true) : l = .begin .spawn := by
  rcases (step_of_move moved).yetToUnpark now with already | here | ⟨e, here⟩
  · rw [before] at already
    cases already
  · cases l with
    | begin call =>
        simp only [move, here] at moved
        rw [spawn_of_yetToUnpark moved now]
    | _ => simp [move, advance, here] at moved
  · cases l with
    | begin call =>
        simp only [move, here] at moved
        rw [spawn_of_yetToUnpark moved now]
    | finish =>
        simp only [move, here] at moved
        cases moved
        rw [(Thread.resume_shutsDown _).2.2] at now
        cases now
    | _ => simp [move, advance, here] at moved

/-- A push comes from code of the user, and goes on to notify a worker. -/
theorem yetToUnpark_of_begin (moved : move n retries i s t (.begin .spawn) = some (s', t')) :
    (t.point = .user ∨ ∃ e, t.point = .run e) ∧ t'.yetToUnpark = true := by
  obtain ⟨point, below⟩ := t
  cases point with
  | user =>
      cases moved
      exact ⟨.inl rfl, rfl⟩
  | run e =>
      cases moved
      exact ⟨.inr ⟨e, rfl⟩, rfl⟩
  | _ => cases moved

end Steps

theorem once_startWith (n others : Nat) : Once (startWith n others) := by
  have none : total Thread.shutsDown (startWith n others).threads = 0 := by
    simp only [startWith, total_append]
    rw [total_replicate_eq_zero Thread.shutsDown rfl, total_replicate_eq_zero Thread.shutsDown rfl]
  rw [Once, none]
  exact Nat.zero_le _

theorem once {n : Nat} {retries : Bool} {ok : State → Nat × Label → Prop} {s : State}
    (reached : (machine n retries).ReachesWhen ok s) : Once s := by
  refine reached.invariant ?_ ?_
  · rintro _ ⟨others, rfl⟩
    exact once_startWith n others
  · rintro s ⟨i, l⟩ s' - inv - taken
    obtain ⟨t, shared, t', found, step, -, rfl⟩ := step_of_taken taken
    have enters := step.shutsDown
    simp only [Once, total_eq_others found, total_set_others t' found] at inv ⊢
    omega

/-- Two threads in shutdown are one. -/
theorem Once.same {s : State} (once : Once s) {j k : Nat} {t u : Thread}
    (found : s.threads[j]? = some t) (foundU : s.threads[k]? = some u) (first : t.shutsDown = 1)
    (second : u.shutsDown = 1) : k = j := by
  by_contra other
  have rest : u.shutsDown ≤ others Thread.shutsDown j s.threads := le_others other foundU
  have flag : s.shared.shutdown.toNat ≤ 1 := Bool.toNat_le _
  rw [Once, total_eq_others found] at once
  omega

/-! ## No worker sleeps through shutdown -/

/-- The flag is set, nobody waits on the condvar without having been notified, and no worker is
about to wait. -/
structure Roused (s : State) : Prop where
  flag : s.shared.shutdown = true
  waiting : s.shared.mutex.waiting = []
  enters : ∀ t ∈ s.threads, t.point ≠ .worker .wait

/-- While shutdown holds `shared.mutex` after its `notify_all`, nobody waits unnotified. -/
def Notified (s : State) : Prop :=
  Pool.Each (fun _ t => t.point = .shutdown .unlockMutex → s.shared.mutex.waiting = []) s.threads

section Steps

variable {n : Nat} {retries : Bool} {i : Nat} {s s' : Shared} {t t' : Thread}

/-- A worker comes to the wait after it has read the flag as unset. -/
theorem Step.enters (step : Step n retries i s t s' t') (enters : t'.point = .worker .wait) :
    s.shutdown = false := by
  cases step with
  | whileRunning running => exact running
  | finish | notifyReturn | helpUnlockNone | processReturn | shutdownReturn =>
      exact absurd enters (Thread.resume_ne_wait _)
  | _ => cases enters

/-- Shutdown comes to release the mutex from its `notify_all`. -/
theorem Step.notifiesAll (step : Step n retries i s t s' t')
    (here : t'.point = .shutdown .unlockMutex) : s'.mutex.waiting = [] := by
  cases step with
  | notifyAll => rfl
  | finish | notifyReturn | helpUnlockNone | processReturn | shutdownReturn =>
      exact absurd here (Thread.resume_ne_shutdown _ _)
  | _ => cases here

/-- With nobody waiting, only a thread at the wait brings somebody in. -/
theorem Step.waiting_eq_nil (step : Step n retries i s t s' t') (empty : s.mutex.waiting = [])
    (elsewhere : t.point ≠ .worker .wait) : s'.mutex.waiting = [] := by
  apply List.eq_nil_iff_forall_not_mem.mpr
  intro j member
  rcases step.usesMutex.mem_waiting member with before | ⟨-, -, waits⟩
  · rw [empty] at before
    cases before
  · exact elsewhere (step.waits waits)

end Steps

theorem holdsMutex_of_wait {t : Thread} (here : t.point = .worker .wait) :
    t.holdsMutex = true := by
  simp [Thread.holdsMutex, here]

theorem Notified.step {n : Nat} {retries : Bool} {s s' : State} {a : Nat × Label}
    (locks : Locked s) (inv : Notified s) (taken : (machine n retries).step s a = some s') :
    Notified s' := by
  obtain ⟨i, l⟩ := a
  obtain ⟨t, shared, t', found, step, -, rfl⟩ := step_of_taken taken
  refine Pool.interference_free inv step.notifiesAll ?_
  intro j u other foundU before here
  apply step.waiting_eq_nil (before here)
  intro waits
  -- whoever enters the wait holds the mutex that shutdown holds
  have hold : u.holdsMutex = true := by simp [Thread.holdsMutex, here]
  exact other (locks.mutex.exclusive foundU found hold (holdsMutex_of_wait waits))

theorem notified {n : Nat} {retries : Bool} {ok : State → Nat × Label → Prop} {s : State}
    (reached : (machine n retries).ReachesWhen ok s) : Notified s := by
  refine reached.invariant ?_ fun s a s' before inv _ taken => inv.step (locked before) taken
  rintro _ ⟨others, rfl⟩ i t found here
  rcases startWith_cases found with ⟨-, rfl⟩ | ⟨-, rfl⟩ <;> cases here

/-- Shutdown rouses the workers before it releases the mutex. -/
theorem roused_of_unlockMutex {n : Nat} {retries : Bool} {s : State}
    (reached : (machine n retries).Reaches s) {i : Nat} {t : Thread}
    (found : s.threads[i]? = some t) (here : t.point = .shutdown .unlockMutex) : Roused s := by
  refine ⟨?_, notified reached i t found here, fun u member waits => ?_⟩
  · have inside : t.shutsDown ≤ total Thread.shutsDown s.threads :=
      le_total (List.mem_of_getElem? found)
    have most := Nat.le_trans inside (once reached)
    cases flag : s.shared.shutdown with
    | true => rfl
    | false => simp [Thread.shutsDown, here, flag] at most
  · obtain ⟨j, foundU⟩ := List.mem_iff_getElem?.mp member
    have hold : t.holdsMutex = true := by simp [Thread.holdsMutex, here]
    obtain rfl := (locked reached).mutex.exclusive found foundU hold (holdsMutex_of_wait waits)
    obtain rfl : t = u := Option.some.inj (found.symm.trans foundU)
    rw [here] at waits
    cases waits

/-- **The workers stay roused.** -/
theorem Roused.step {n : Nat} {retries : Bool} {s s' : State} {a : Nat × Label} (inv : Roused s)
    (taken : (machine n retries).step s a = some s') : Roused s' := by
  obtain ⟨i, l⟩ := a
  obtain ⟨t, shared, t', found, step, -, rfl⟩ := step_of_taken taken
  refine ⟨step.flag inv.flag,
    step.waiting_eq_nil inv.waiting (inv.enters t (List.mem_of_getElem? found)), ?_⟩
  intro u member waits
  obtain ⟨j, foundU⟩ := List.mem_iff_getElem?.mp member
  rcases Pool.getElem?_set_cases foundU with ⟨-, rfl⟩ | ⟨-, before⟩
  · have running := step.enters waits
    rw [inv.flag] at running
    cases running
  · exact inv.enters u (List.mem_of_getElem? before) waits

/-- **Shutdown reaches every worker.** Whatever runs after shutdown has released the mutex, nobody
waits on the condvar without having been notified, and no worker is about to wait. -/
theorem shutdown_reaches_all {n : Nat} {retries : Bool} {s released s' : State} {i : Nat}
    {t : Thread} {l : Label} {labels : List (Nat × Label)}
    (reached : (machine n retries).Reaches s) (found : s.threads[i]? = some t)
    (here : t.point = .shutdown .unlockMutex)
    (taken : (machine n retries).step s (i, l) = some released)
    (ran : (machine n retries).run released labels = some s') :
    s'.shared.mutex.waiting = [] ∧ ∀ u ∈ s'.threads, u.point ≠ .worker .wait := by
  have roused : Roused released := (roused_of_unlockMutex reached found here).step taken
  have later : Roused s' := (Machine.runWhen_invariant
    (fun _ _ _ _ inv _ taken => inv.step taken) (.step reached trivial taken) roused ran).2
  exact ⟨later.waiting, later.enters⟩

/-- The worker falls asleep, and the other thread shuts down up to its release of the mutex. -/
def shutdownAsleep : List (Nat × Label) :=
  List.replicate 12 (0, .next false) ++
    [(1, .begin .shutdown), (1, .next false), (1, .next false)]

/-- The worker wakes and leaves its loop. -/
def leavesLoop : List (Nat × Label) := (0, .wake) :: List.replicate 7 (0, .next false)

/-- In such a run the worker ends. -/
theorem shutdown_reaches_asleep : ∃ s' : State,
    s'.threads[0]? = some ⟨.worker .exited, []⟩ ∧
      s'.shared.mutex.waiting = [] ∧ ∀ u ∈ s'.threads, u.point ≠ .worker .wait := by
  obtain ⟨s, reached, tested⟩ := (machine 1 false).exists_reaches_of_test
    (fun s => s.threads[1]? == some ⟨.shutdown .unlockMutex, []⟩ &&
      (((machine 1 false).step s (1, .next false)).bind
        ((machine 1 false).run · leavesLoop)).map (·.threads[0]?) ==
          some (some ⟨.worker .exited, []⟩))
    shutdownAsleep ⟨1, rfl⟩ (by decide)
  simp only [Bool.and_eq_true, beq_iff_eq] at tested
  obtain ⟨found, tested⟩ := tested
  obtain ⟨s', ran, exited⟩ := Option.map_eq_some_iff.mp tested
  obtain ⟨released, taken, ran⟩ := Option.bind_eq_some_iff.mp ran
  exact ⟨s', exited, shutdown_reaches_all reached found rfl taken ran⟩

/-! ## Clear of the workers -/

/-- While a thread in shutdown has the guard of the unparkers, no worker has it yet to lock. -/
def Clear (n : Nat) (s : State) : Prop :=
  ∀ (j : Nat) (t : Thread) (w : Nat) (u : Thread), s.threads[j]? = some t → t.joins = true →
    w < n → s.threads[w]? = some u → u.yetToUnpark = false

/-- Shutdown locks the unparkers when no worker has them yet to lock inside `notify_worker`, and no
worker pushes from then to the last join. -/
def keepsClear (n : Nat) (s : State) (a : Nat × Label) : Bool :=
  match s.threads[a.1]? with
  | none => true
  | some t =>
      (t.point != .shutdown .lockUnparkers || (s.threads.take n).all (!·.yetToUnpark)) &&
        (a.2 != .begin .spawn || decide (n ≤ a.1) || s.threads.all (!·.joins))

/-- The workers are the first threads. -/
theorem mem_workers {n : Nat} {threads : List Thread} {u : Thread} :
    u ∈ threads.take n ↔ ∃ w, w < n ∧ threads[w]? = some u := by
  rw [List.mem_iff_getElem?]
  apply exists_congr
  intro w
  rw [List.getElem?_take]
  split
  · next within => simp [within]
  · next beyond => simp [beyond]

/-- **A step that meets the condition keeps the workers clear.** -/
theorem Clear.step {n : Nat} {retries : Bool} {s s' : State} {a : Nat × Label} (inv : Clear n s)
    (meets : keepsClear n s a = true) (taken : (machine n retries).step s a = some s') :
    Clear n s' := by
  obtain ⟨i, l⟩ := a
  obtain ⟨t, shared, t', found, step, moved, rfl⟩ := step_of_taken taken
  simp only [keepsClear, found, Bool.and_eq_true, Bool.or_eq_true, bne_iff_ne, List.all_eq_true,
    Bool.not_eq_true', decide_eq_true_eq] at meets
  obtain ⟨locks, pushes⟩ := meets
  intro j v w u foundJ joins within foundW
  rcases Pool.getElem?_set_cases foundJ with ⟨rfl, rfl⟩ | ⟨otherJ, beforeJ⟩
  · rcases Pool.getElem?_set_cases foundW with ⟨rfl, rfl⟩ | ⟨otherW, beforeW⟩
    · rcases Thread.joins_cases joins with here | ⟨k, here⟩ <;> simp [Thread.yetToUnpark, here]
    · rcases step.joins joins with already | locking
      · exact inv j t w u found already within beforeW
      · exact locks.resolve_left (fun never => never locking) u
          (mem_workers.mpr ⟨w, within, beforeW⟩)
  · rcases Pool.getElem?_set_cases foundW with ⟨rfl, rfl⟩ | ⟨otherW, beforeW⟩
    · have before : t.yetToUnpark = false := inv j v w t beforeJ joins within found
      cases now : u.yetToUnpark with
      | false => rfl
      | true =>
          have quiet : ∀ x ∈ s.threads, x.joins = false := by
            rcases pushes with (never | beyond) | quiet
            · exact absurd (begin_of_yetToUnpark moved before now) never
            · exact absurd within (Nat.not_lt.mpr beyond)
            · exact quiet
          rw [quiet v (List.mem_of_getElem? beforeJ)] at joins
          cases joins
    · exact inv j v w u beforeJ joins within beforeW

/-- A step that breaks the condition catches a worker. -/
theorem not_clear_of_breaks {n : Nat} {retries : Bool} {s s' : State} {a : Nat × Label}
    (breaks : keepsClear n s a = false) (taken : (machine n retries).step s a = some s') :
    ¬Clear n s' := by
  obtain ⟨i, l⟩ := a
  obtain ⟨t, shared, t', found, step, moved, rfl⟩ := step_of_taken taken
  simp only [keepsClear, found, Bool.and_eq_false_iff, Bool.or_eq_false_iff, bne_eq_false_iff_eq,
    List.all_eq_false, Bool.not_eq_true', Bool.not_eq_false, decide_eq_false_iff_not,
    Nat.not_le] at breaks
  intro clear
  rcases breaks with ⟨here, u, member, yet⟩ | ⟨⟨rfl, within⟩, v, member, joins⟩
  · obtain ⟨w, within, foundU⟩ := mem_workers.mp member
    have other : i ≠ w := by
      rintro rfl
      obtain rfl : t = u := Option.some.inj (found.symm.trans foundU)
      simp [Thread.yetToUnpark, here] at yet
    have joins : t'.joins = true := by
      cases step with
      | shutdownLockUnparkers => rfl
      | _ => cases here
    have free := clear i t' w u (Pool.getElem?_set_self t' found) joins within
      (by rwa [List.getElem?_set_ne other])
    rw [free] at yet
    cases yet
  · obtain ⟨user, yet⟩ := yetToUnpark_of_begin moved
    obtain ⟨j, foundV⟩ := List.mem_iff_getElem?.mp member
    have other : i ≠ j := by
      rintro rfl
      obtain rfl : t = v := Option.some.inj (found.symm.trans foundV)
      rcases user with here | ⟨e, here⟩ <;> simp [Thread.joins, here] at joins
    have free := clear j v i t' (by rwa [List.getElem?_set_ne other]) joins within
      (Pool.getElem?_set_self t' found)
    rw [free] at yet
    cases yet

/-- No thread of the start is in shutdown. -/
theorem clear_startWith (n others : Nat) : Clear n (startWith n others) := by
  intro j t w u found joins _ _
  rcases startWith_cases found with ⟨-, rfl⟩ | ⟨-, rfl⟩ <;> cases joins

/-- **The workers stay clear of shutdown exactly along the runs whose steps meet the condition.** -/
theorem clear_along_iff (n others : Nat) (retries : Bool) (labels : List (Nat × Label)) :
    (machine n retries).Always (Clear n) (startWith n others) labels ↔
      (machine n retries).Meets (fun s a => keepsClear n s a = true) (startWith n others)
        labels := by
  refine Machine.always_iff_meets ?_ (.start ⟨others, rfl⟩) (clear_startWith n others)
  intro s a s' _ inv taken
  refine ⟨?_, fun meets => inv.step meets taken⟩
  intro clear
  by_contra breaks
  exact not_clear_of_breaks (Bool.eq_false_of_not_eq_true breaks) taken clear

/-- A lock of a thread that joins is awaited in `notify_worker`, or in shutdown. -/
theorem Locked.awaited {s : State} (locks : Locked s) {j k : Nat} {t u : Thread} {m : Monitor}
    (found : s.threads[j]? = some t) (joining : t.point = .shutdown (.join k))
    (awaits : u.awaits s.shared = some m) (owned : m.owner = some j) :
    u.point = .notifyWorker .lockUnparkers ∨ u.point = .shutdown .lockUnparkers := by
  have mutex : s.shared.mutex.owner ≠ some j := fun owned => by
    have holds := (locks.mutex.owner j t found).mpr owned
    simp [Thread.holdsMutex, joining] at holds
  have stealers : s.shared.stealers.owner ≠ some j := fun owned => by
    have holds := (locks.stealers.owner j t found).mpr owned
    simp [Thread.holdsStealers, joining] at holds
  unfold Thread.awaits at awaits
  split at awaits
  case h_1 | h_2 | h_3 | h_4 =>
    cases awaits
    exact absurd owned mutex
  case h_5 here => exact .inl here
  case h_6 here => exact .inr here
  case h_7 | h_8 =>
    cases awaits
    exact absurd owned stealers
  case h_9 => cases awaits

/-- **Shutdown does not deadlock with a worker** in a run in which no worker is on its way to the
unparkers when shutdown locks them, and none pushes from then to the last join. -/
theorem not_deadlocked_of_keepsClear {n : Nat} {retries : Bool} {s : State}
    (reached : (machine n retries).ReachesWhen (fun s a => keepsClear n s a = true) s) :
    ¬Deadlocked n s := by
  have clear : Clear n s := by
    refine reached.invariant ?_ fun s a s' _ inv meets taken => inv.step meets taken
    rintro _ ⟨others, rfl⟩
    exact clear_startWith n others
  rintro ⟨j, w, t, u, m, found, joining, within, foundU, awaits, owned⟩
  have joins : t.joins = true := by simp [Thread.joins, joining]
  rcases (locked reached).awaited found joining awaits owned with notifying | locking
  · have free := clear j t w u found joins within foundU
    simp [Thread.yetToUnpark, notifying] at free
  · have same : w = j := (once reached).same found foundU (Thread.shutsDown_of_joins joins)
      (by simp [Thread.shutsDown, locking])
    subst same
    obtain rfl : t = u := Option.some.inj (found.symm.trans foundU)
    rw [joining] at locking
    cases locking

/-! ## Stuck in shutdown -/

/-- What the joins of shutdown rely on: who has exited stays there, and was joined after that. -/
structure Ended (s : State) : Prop where
  exited : ∀ w ∈ s.shared.exited, ∃ u, s.threads[w]? = some u ∧ u.point = .worker .exited
  joined : Pool.Each (fun _ t => ∀ k, t.point = .shutdown (.join k) →
    ∀ w, w < k → w ∈ s.shared.exited) s.threads

section Steps

variable {n : Nat} {retries : Bool} {i : Nat} {s s' : Shared} {t t' : Thread}

/-- A worker exits as it ends its loop, and does not step after that. -/
theorem Step.exited (step : Step n retries i s t s' t') : t.point ≠ .worker .exited ∧
    (s'.exited = s.exited ∨ s'.exited = i :: s.exited ∧ t'.point = .worker .exited) := by
  cases step with
  | exit => exact ⟨nofun, .inr ⟨rfl, rfl⟩⟩
  | _ => exact ⟨nofun, .inl rfl⟩

/-- Shutdown joins the workers in order. -/
theorem Step.join_cases (step : Step n retries i s t s' t') {k : Nat}
    (here : t'.point = .shutdown (.join k)) :
    k = 0 ∨ ∃ w, k = w + 1 ∧ t.point = .shutdown (.join w) ∧ w ∈ s.exited := by
  cases step with
  | unparkAll =>
      cases here
      exact .inl rfl
  | @join _ w ended =>
      cases here
      exact .inr ⟨w, rfl, rfl, ended⟩
  | finish | notifyReturn | helpUnlockNone | processReturn | shutdownReturn =>
      exact absurd here (Thread.resume_ne_shutdown _ _)
  | _ => cases here

/-- A worker on its way to the unparkers stays so as long as they are owned. -/
theorem Step.stays (step : Step n retries i s t s' t') (yet : t.yetToUnpark = true)
    (owned : s.unparkers.owner ≠ none) : t'.yetToUnpark = true := by
  cases step with
  | notifyLock | notify | notifyUnlock => rfl
  | notifyLockUnparkers taken => exact absurd (Monitor.acquire_eq_some taken).1 owned
  | _ => cases yet

/-- Shutdown goes on to the next worker when the one before has exited. -/
theorem Step.goes_on (step : Step n retries i s t s' t') {w : Nat} (within : w < n)
    (ended : w ∉ s.exited)
    (here : t.point = .shutdown .unparkAll ∨ ∃ k, k ≤ w ∧ t.point = .shutdown (.join k)) :
    ∃ k, k ≤ w ∧ t'.point = .shutdown (.join k) := by
  cases step with
  | unparkAll => exact ⟨0, Nat.zero_le w, rfl⟩
  | @join _ k exited =>
      rcases here with here | ⟨k', upTo, here⟩
      · cases here
      · cases here
        refine ⟨k + 1, Nat.lt_of_le_of_ne upTo ?_, rfl⟩
        rintro rfl
        exact ended exited
  | joined all =>
      rcases here with here | ⟨k', upTo, here⟩
      · cases here
      · cases here
        omega
  | _ => rcases here with here | ⟨k, -, here⟩ <;> cases here

end Steps

theorem Ended.step {n : Nat} {retries : Bool} {s s' : State} {a : Nat × Label} (inv : Ended s)
    (taken : (machine n retries).step s a = some s') : Ended s' := by
  obtain ⟨i, l⟩ := a
  obtain ⟨t, shared, t', found, step, -, rfl⟩ := step_of_taken taken
  obtain ⟨running, exits⟩ := step.exited
  have grows : ∀ w ∈ s.shared.exited, w ∈ shared.exited := by
    rcases exits with same | ⟨more, -⟩
    · exact fun w member => same ▸ member
    · exact fun w member => more ▸ List.mem_cons_of_mem i member
  have kept : ∀ w ∈ s.shared.exited, ∃ u, (s.threads.set i t')[w]? = some u ∧
      u.point = .worker .exited := by
    intro w member
    obtain ⟨u, foundU, there⟩ := inv.exited w member
    have other : i ≠ w := by
      rintro rfl
      obtain rfl : t = u := Option.some.inj (found.symm.trans foundU)
      exact running there
    exact ⟨u, by rwa [List.getElem?_set_ne other], there⟩
  refine ⟨fun w member => ?_, ?_⟩
  · rcases exits with same | ⟨more, there⟩
    · exact kept w (same ▸ member)
    · rcases List.mem_cons.mp (more ▸ member) with rfl | earlier
      · exact ⟨t', Pool.getElem?_set_self t' found, there⟩
      · exact kept w earlier
  · refine Pool.interference_free inv.joined (fun k here w before => ?_)
      fun j u _ _ joined k here w before => grows w (joined k here w before)
    rcases step.join_cases here with rfl | ⟨k, rfl, there, last⟩
    · exact absurd before (Nat.not_lt_zero w)
    · rcases Nat.lt_succ_iff_lt_or_eq.mp before with earlier | rfl
      · exact grows w (inv.joined i t found k there w earlier)
      · exact grows w last

theorem ended {n : Nat} {retries : Bool} {ok : State → Nat × Label → Prop} {s : State}
    (reached : (machine n retries).ReachesWhen ok s) : Ended s := by
  refine reached.invariant ?_ fun s a s' _ inv _ taken => inv.step taken
  rintro _ ⟨others, rfl⟩
  refine ⟨fun w member => (List.not_mem_nil member).elim, ?_⟩
  intro i t found k here
  rcases startWith_cases found with ⟨-, rfl⟩ | ⟨-, rfl⟩ <;> cases here

/-- Thread `j` in shutdown has the guard of the unparkers and has yet to join worker `w`, which has
the unparkers yet to lock. -/
def Stuck (j w : Nat) (s : State) : Prop :=
  ∃ t u, s.threads[j]? = some t ∧
    (t.point = .shutdown .unparkAll ∨ ∃ k, k ≤ w ∧ t.point = .shutdown (.join k)) ∧
    s.threads[w]? = some u ∧ u.yetToUnpark = true

/-- Shutdown is stuck as soon as a worker is not clear of it. -/
theorem stuck_of_not_clear {n : Nat} {s : State} (ended : Ended s) (caught : ¬Clear n s) :
    ∃ j w, w < n ∧ Stuck j w s := by
  simp only [Clear, not_forall] at caught
  obtain ⟨j, t, w, u, found, joins, within, foundU, yet⟩ := caught
  refine ⟨j, w, within, t, u, found, ?_, foundU, Bool.eq_true_of_not_eq_false yet⟩
  rcases Thread.joins_cases joins with here | ⟨k, here⟩
  · exact .inl here
  · refine .inr ⟨k, Nat.le_of_not_lt ?_, here⟩
    intro earlier
    obtain ⟨v, foundV, there⟩ := ended.exited w (ended.joined j t found k here w earlier)
    obtain rfl : u = v := Option.some.inj (foundU.symm.trans foundV)
    simp [Thread.yetToUnpark, there] at yet

/-- **Shutdown that is stuck stays stuck**: it never returns, whatever the threads do. -/
theorem stuck_forever {n : Nat} {retries : Bool} {s s' : State} {j w : Nat} (within : w < n)
    {labels : List (Nat × Label)} (reached : (machine n retries).Reaches s) (stuck : Stuck j w s)
    (ran : (machine n retries).run s labels = some s') : Stuck j w s' := by
  refine (Machine.runWhen_invariant (I := Stuck j w) ?_ reached stuck ran).2
  rintro s ⟨i, l⟩ s' reached ⟨t, u, foundT, here, foundU, yet⟩ - taken
  obtain ⟨x, shared, x', found, step, -, rfl⟩ := step_of_taken taken
  have joins : t.joins = true := by
    rcases here with here | ⟨k, -, here⟩ <;> simp [Thread.joins, here]
  have running : w ∉ s.shared.exited := by
    intro exited
    obtain ⟨v, foundV, there⟩ := (ended reached).exited w exited
    obtain rfl : u = v := Option.some.inj (foundU.symm.trans foundV)
    simp [Thread.yetToUnpark, there] at yet
  have other : j ≠ w := by
    rintro rfl
    obtain rfl : t = u := Option.some.inj (foundT.symm.trans foundU)
    rcases here with here | ⟨k, -, here⟩ <;> simp [Thread.yetToUnpark, here] at yet
  by_cases shuts : i = j
  · subst shuts
    obtain rfl : x = t := Option.some.inj (found.symm.trans foundT)
    exact ⟨x', u, Pool.getElem?_set_self x' found, .inr (step.goes_on within running here),
      by rwa [List.getElem?_set_ne other], yet⟩
  · refine ⟨t, ?_⟩
    by_cases works : i = w
    · subst works
      obtain rfl : x = u := Option.some.inj (found.symm.trans foundU)
      have owned : s.shared.unparkers.owner ≠ none := by
        rw [((locked reached).unparkers.owner j t foundT).mp (Thread.holdsUnparkers_of_joins joins)]
        exact Option.some_ne_none j
      exact ⟨x', by rwa [List.getElem?_set_ne shuts], here, Pool.getElem?_set_self x' found,
        step.stays yet owned⟩
    · exact ⟨u, by rwa [List.getElem?_set_ne shuts], here, by rwa [List.getElem?_set_ne works], yet⟩

/-- **Shutdown never returns once a worker is not clear of it.** -/
theorem never_returns {n : Nat} {retries : Bool} {s : State}
    (reached : (machine n retries).Reaches s) (caught : ¬Clear n s) :
    ∃ j : Nat, ∀ labels s', (machine n retries).run s labels = some s' →
      ∃ t : Thread, s'.threads[j]? = some t ∧ t.joins = true := by
  obtain ⟨j, w, within, stuck⟩ := stuck_of_not_clear (ended reached) caught
  refine ⟨j, ?_⟩
  intro labels s' ran
  obtain ⟨t, -, found, here, -, -⟩ := stuck_forever within reached stuck ran
  refine ⟨t, found, ?_⟩
  rcases here with here | ⟨k, -, here⟩ <;> simp [Thread.joins, here]

/-- An entry is spawned and run, and the other thread shuts down. -/
def shutdownInRun : List (Nat × Label) :=
  [(1, .begin .spawn), (1, .next false), (1, .notify 0)] ++ List.replicate 4 (1, .next false) ++
    List.replicate 7 (0, .next false) ++ (1, .begin .shutdown) ::
    List.replicate 5 (1, .next false)

/-- Shutdown joins the worker while the worker runs the entry. -/
theorem not_deadlocked_shutdownInRun : ∃ s, (machine 1 false).ReachesWhen
    (fun s a => keepsClear 1 s a = true) s ∧
      s.threads = [⟨.run 0, [.worker]⟩, ⟨.shutdown (.join 0), []⟩] ∧ ¬Deadlocked 1 s := by
  obtain ⟨s, reached, tested⟩ := (machine 1 false).exists_reachesWhen_of_test
    (fun s a => keepsClear 1 s a = true)
    (fun s => s.threads == [⟨.run 0, [.worker]⟩, ⟨.shutdown (.join 0), []⟩])
    shutdownInRun ⟨1, rfl⟩ (by decide)
  exact ⟨s, reached, beq_iff_eq.mp tested, not_deadlocked_of_keepsClear reached⟩

/-- The entry then spawns another one. -/
def spawnInShutdown : List (Nat × Label) :=
  shutdownInRun ++ [(0, .begin .spawn), (0, .next false), (0, .notify 0), (0, .next false)]

/-- The worker awaits the unparkers, and shutdown awaits the worker. -/
theorem shutdown_deadlocks : ∃ s, (machine 1 false).Reaches s ∧ Deadlocked 1 s := by
  obtain ⟨s, reached, tested⟩ := (machine 1 false).exists_reaches_of_test
    (fun s => s.threads == [⟨.notifyWorker .lockUnparkers, [.run 0, .worker]⟩,
      ⟨.shutdown (.join 0), []⟩] && s.shared.unparkers.owner == some 1)
    spawnInShutdown ⟨1, rfl⟩ (by decide)
  simp only [Bool.and_eq_true, beq_iff_eq] at tested
  obtain ⟨threads, owned⟩ := tested
  exact ⟨s, reached, 1, 0, _, _, s.shared.unparkers, by rw [threads]; rfl, rfl, Nat.one_pos,
    by rw [threads]; rfl, rfl, owned⟩

/-- That shutdown never returns. -/
theorem never_returns_spawnInShutdown : ∃ s, (machine 1 false).Reaches s ∧
    ∃ j : Nat, ∀ labels s', (machine 1 false).run s labels = some s' →
      ∃ t : Thread, s'.threads[j]? = some t ∧ t.joins = true := by
  obtain ⟨s, reached, tested⟩ := (machine 1 false).exists_reaches_of_test
    (fun s => s.threads == [⟨.notifyWorker .lockUnparkers, [.run 0, .worker]⟩,
      ⟨.shutdown (.join 0), []⟩])
    spawnInShutdown ⟨1, rfl⟩ (by decide)
  have threads := beq_iff_eq.mp tested
  refine ⟨s, reached, never_returns reached fun clear => ?_⟩
  have yet := clear 1 _ 0 _ (by rw [threads]; rfl) rfl Nat.one_pos (by rw [threads]; rfl)
  cases yet

end LoonyRuntime.Runtime.MultiThread
