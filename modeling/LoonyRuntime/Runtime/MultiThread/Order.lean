import LoonyRuntime.Collections.Queue
import LoonyRuntime.Concurrent.Simulation
import LoonyRuntime.Runtime.MultiThread.Ledger

/-!
# The order of the entries

Every spawn pushes to the injector, and a worker takes one entry from it at a time. So the local
queues are empty in every run, no steal from one succeeds, and the scheduler of any number of
workers refines one queue (`refines_fifo`): the entries leave it in the order of their pushes, those
that the checks of the sleep section drop too. No entry is run twice (`runs_once`). A single worker
that nobody helps runs them in the order of their pushes (`runs_in_order`).
-/

set_option autoImplicit false

namespace LoonyRuntime.Runtime.MultiThread

open Concurrent Collections

/-! ## What a step does to the queues -/

/-- The entries in the queues. -/
def Shared.entries (s : Shared) : List Nat := s.locals.flatten ++ s.injector

/-- The entry that a thread holds, and runs next. -/
def Thread.carried (t : Thread) : Option Nat :=
  match t.point with
  | .hold entry => some entry
  | .worker (.unlockStealers found) => found
  | .stealWork (.unlockStealers found) => found
  | _ => none

theorem Thread.resume_carried (b : List Caller) : (Thread.resume b).carried = none := by
  cases b with
  | nil => rfl
  | cons caller rest => cases caller <;> rfl

/-- What a step does to the injector and to the entries that were run. -/
inductive Effect (s : Shared) (t : Thread) (s' : Shared) (t' : Thread) : Prop where
  | quiet (injector : s'.injector = s.injector) (pushed : s'.pushed = s.pushed)
      (ran : s'.ran = s.ran) (carried : t'.carried = t.carried)
  | push (injector : s'.injector = s.injector ++ [s.pushed]) (pushed : s'.pushed = s.pushed + 1)
      (ran : s'.ran = s.ran) (free : t'.carried = none)
  | take {e : Nat} (injector : s.injector = e :: s'.injector) (pushed : s'.pushed = s.pushed)
      (ran : s'.ran = s.ran) (carried : t'.carried = some e ∨ t'.carried = none)
  | run {e : Nat} (injector : s'.injector = s.injector) (pushed : s'.pushed = s.pushed)
      (carried : t.carried = some e) (ran : s'.ran = e :: s.ran) (free : t'.carried = none)

section Steps

variable {n : Nat} {retries : Bool} {i : Nat} {s s' : Shared} {t t' : Thread}

/-- An empty local queue has no entry. -/
theorem no_entry (empty : s.locals = List.replicate n []) {target e : Nat} {rest : List Nat} :
    s.locals[target]? ≠ some (e :: rest) := by
  intro queue
  rw [empty, List.getElem?_replicate] at queue
  split at queue <;> cases queue

/-- **Where the local queues are empty they stay so, and a step has one of the effects.** -/
theorem Step.effect (empty : s.locals = List.replicate n []) (step : Step n retries i s t s' t') :
    s'.locals = List.replicate n [] ∧ Effect s t s' t' := by
  cases step with
  | popFound queue | stealFound queue | checkPopFound queue | wakePopFound queue
  | helpFound queue => exact absurd queue (no_entry empty)
  | injectorFound queue | helpInjectorFound queue | processFound queue =>
      exact ⟨empty, .take queue rfl rfl (.inl rfl)⟩
  | checkStealFound queue | wakeStealFound queue =>
      exact ⟨empty, .take queue rfl rfl (.inr rfl)⟩
  | spawn | spawnInRun => exact ⟨empty, .push rfl rfl rfl rfl⟩
  | run => exact ⟨empty, .run rfl rfl rfl rfl rfl⟩
  | finish | notifyReturn | helpUnlockNone | processReturn | shutdownReturn =>
      exact ⟨empty, .quiet rfl rfl rfl (Thread.resume_carried _)⟩
  | _ => exact ⟨empty, .quiet rfl rfl rfl rfl⟩

end Steps

/-! ## One queue -/

/-- **The local queues are empty in every run.** -/
theorem locals_empty {n : Nat} {retries : Bool} {ok : State → Nat × Label → Prop} {s : State}
    (reached : (machine n retries).ReachesWhen ok s) : s.shared.locals = List.replicate n [] := by
  refine reached.invariant (I := fun s => s.shared.locals = List.replicate n []) ?_ ?_
  · rintro _ ⟨others, rfl⟩
    rfl
  · rintro s ⟨i, l⟩ s' - empty - taken
    obtain ⟨t, shared, t', -, step, -, rfl⟩ := step_of_taken taken
    exact (step.effect empty).1

/-- Where the local queues are empty, the entries are those of the injector. -/
theorem Shared.entries_of_empty {n : Nat} {s : Shared} (empty : s.locals = List.replicate n []) :
    s.entries = s.injector := by
  rw [Shared.entries, empty, List.flatten_replicate_nil]
  exact List.nil_append _

/-- The events of a step on the queues, read off from the entries before and after it. -/
def events (s s' : State) : List (QueueEvent Nat) := change s.shared.entries s'.shared.entries

/-- **A step pushes to the back, or takes from the front, or does neither**, and an entry that it
pushes has the next number. -/
theorem Effect.events {s s' : Shared} {t t' : Thread} (effect : Effect s t s' t') :
    (fifo Nat).run s.injector (change s.injector s'.injector) = some s'.injector ∧
      tickets.run s.pushed (change s.injector s'.injector) = some s'.pushed := by
  cases effect with
  | quiet injector pushed ran carried | run injector pushed carried ran free =>
      rw [injector, pushed, change_self]
      exact ⟨rfl, rfl⟩
  | push injector pushed ran free =>
      rw [injector, pushed, change_push]
      simp [Machine.run, Machine.runWhen, fifo, tickets]
  | take injector pushed ran carried =>
      rw [injector, pushed, change_take]
      simp [Machine.run, Machine.runWhen, fifo, tickets]

theorem events_of_step {n : Nat} {retries : Bool} {s s' : State} {a : Nat × Label}
    (empty : s.shared.locals = List.replicate n [])
    (taken : (machine n retries).step s a = some s') :
    s'.shared.locals = List.replicate n [] ∧
      (fifo Nat).run s.shared.injector (events s s') = some s'.shared.injector ∧
      tickets.run s.shared.pushed (events s s') = some s'.shared.pushed := by
  obtain ⟨i, l⟩ := a
  obtain ⟨t, shared, t', -, step, -, rfl⟩ := step_of_taken taken
  obtain ⟨still, effect⟩ := step.effect empty
  refine ⟨still, ?_⟩
  rw [events, Shared.entries_of_empty empty, Shared.entries_of_empty still]
  exact effect.events

/-- **The scheduler refines one queue.** What its steps push and take, over any run of any number of
workers and of other threads, is a run of the queue. So the entries that left are, in the order in
which they left, a first part of the entries `0, 1, 2, …` in the order of their pushes, and the rest
is what is in the queues. -/
theorem refines_fifo (n others : Nat) (retries : Bool) {labels : List (Nat × Label)} {s : State}
    (ran : (machine n retries).run (startWith n others) labels = some s) :
    let seen := (machine n retries).trace events (startWith n others) labels
    (fifo Nat).run [] seen = some s.shared.entries ∧
      pushes seen = List.range s.shared.pushed ∧
      takes seen ++ s.shared.entries = List.range s.shared.pushed := by
  intro seen
  have start : (startWith n others).shared.locals = List.replicate n [] := rfl
  have reached : (machine n retries).Reaches s :=
    Machine.reachesWhen_of_runWhen (.start ⟨others, rfl⟩) ran
  have queue : (fifo Nat).run [] seen = some s.shared.injector :=
    Machine.run_trace (fun s : State => s.shared.injector)
      (fun _ _ _ empty taken => (events_of_step empty taken).1)
      (fun _ _ _ empty taken => (events_of_step empty taken).2.1) start ran
  have numbers : tickets.run 0 seen = some s.shared.pushed :=
    Machine.run_trace (fun s : State => s.shared.pushed)
      (fun _ _ _ empty taken => (events_of_step empty taken).1)
      (fun _ _ _ empty taken => (events_of_step empty taken).2.2) start ran
  have pushed : pushes seen = List.range s.shared.pushed := tickets_order numbers
  rw [Shared.entries_of_empty (locals_empty reached)]
  refine ⟨queue, pushed, ?_⟩
  rw [← pushed]
  exact (fifo_order queue).symm

/-- The double check of the only worker drops the first entry, and the second is in the queue. -/
def droppedThenQueued : List (Nat × Label) :=
  List.replicate 9 (0, .next false) ++ [(1, .begin .spawn), (0, .next false), (2, .begin .spawn)]

theorem refines_fifo_dropped : ∃ s : State,
    takes ((machine 1 false).trace events (startWith 1 2) droppedThenQueued) ++ s.shared.entries =
      List.range s.shared.pushed := by
  obtain ⟨s, ran⟩ := Option.isSome_iff_exists.mp
    (by decide : ((machine 1 false).run (startWith 1 2) droppedThenQueued).isSome = true)
  exact ⟨s, (refines_fifo 1 2 false ran).2.2⟩

/-! ## The local queues -/

/-- The loop of `Shared::approx_task_count` over the stealers. An entry that a steal finds is
counted and dropped. -/
def countStolen (retry : Nat → Bool) : List Nat → Shared → Nat × Shared
  | [], s => (0, s)
  | target :: rest, s =>
      match s.steal (retry target) target with
      | some (_, s') =>
          let (count, last) := countStolen retry rest s'
          (count + 1, last)
      | none => countStolen retry rest s

/-- `Shared::approx_task_count`. -/
def approxTaskCount (n : Nat) (retry : Nat → Bool) (s : Shared) : Nat × Shared :=
  let (count, last) := countStolen retry (List.range n) s
  (s.injector.length + count, last)

theorem Shared.pop_of_empty {n : Nat} {s : Shared} (empty : s.locals = List.replicate n [])
    (target : Nat) : s.pop target = none := by
  cases popped : s.pop target with
  | none => rfl
  | some r =>
      obtain ⟨rest, queue, -⟩ := Shared.pop_eq_some popped
      exact absurd queue (no_entry empty)

theorem Shared.steal_of_empty {n : Nat} {s : Shared} (empty : s.locals = List.replicate n [])
    (retry : Bool) (target : Nat) : s.steal retry target = none := by
  rw [steal, pop_of_empty empty, ite_self]

theorem countStolen_of_empty {n : Nat} {s : Shared} (empty : s.locals = List.replicate n [])
    (retry : Nat → Bool) (targets : List Nat) : countStolen retry targets s = (0, s) := by
  induction targets with
  | nil => rfl
  | cons target rest ih =>
      rw [countStolen, Shared.steal_of_empty empty]
      exact ih

/-- **Only the injector is ever used.** In every run a pop from a local queue and a steal from one
find nothing, and `approx_task_count` is the length of the injector, and takes nothing. -/
theorem only_injector {n : Nat} {retries : Bool} {s : State}
    (reached : (machine n retries).Reaches s) (target : Nat) (retry : Nat → Bool) :
    s.shared.pop target = none ∧ s.shared.steal (retry target) target = none ∧
      approxTaskCount n retry s.shared = (s.shared.injector.length, s.shared) := by
  have empty := locals_empty reached
  refine ⟨Shared.pop_of_empty empty target, Shared.steal_of_empty empty _ target, ?_⟩
  rw [approxTaskCount, countStolen_of_empty empty]
  rfl

theorem only_injector_spawned : ∃ s : State, s.shared.injector = [0] ∧
    approxTaskCount 3 (fun _ => false) s.shared = (s.shared.injector.length, s.shared) := by
  obtain ⟨s, reached, tested⟩ := (machine 3 false).exists_reaches_of_test
    (fun s => s.shared.injector == [0]) [(3, .begin .spawn)] ⟨1, rfl⟩ (by decide)
  exact ⟨s, by simpa using tested, (only_injector reached 0 fun _ => false).2.2⟩

/-! ## No entry is run twice -/

/-- The entries that are in a queue, held by a thread, or were run. -/
def whereabouts (s : State) : List Nat :=
  s.shared.entries ++ s.threads.filterMap Thread.carried ++ s.shared.ran

theorem Thread.count_carried (e : Nat) (t : Thread) : t.carried.toList.count e = t.held e := by
  obtain ⟨point, below⟩ := t
  cases point with
  | hold entry => simp [carried, held, List.count_singleton]
  | worker pc =>
      cases pc with
      | unlockStealers found => cases found <;> simp [carried, held, List.count_singleton]
      | _ => rfl
  | stealWork pc =>
      cases pc with
      | unlockStealers found => cases found <;> simp [carried, held, List.count_singleton]
      | _ => rfl
  | _ => rfl

theorem count_carried (e : Nat) (threads : List Thread) :
    (threads.filterMap Thread.carried).count e = total (Thread.held e) threads := by
  induction threads with
  | nil => rfl
  | cons t rest ih =>
      rw [List.filterMap_cons, total_cons, ← Thread.count_carried, ← ih]
      cases t.carried with
      | none => simp
      | some entry => simp [List.count_cons, Nat.add_comm]

/-- An entry is as often in the list as it has places. -/
theorem count_whereabouts (s : State) (e : Nat) : (whereabouts s).count e = places s e := by
  simp only [whereabouts, places, Shared.entries, Shared.queued, List.count_append, count_carried,
    List.count_flatten, total]
  omega

/-- **No entry is run twice, and none is run that another thread may still run**, whatever the
checks of the sleep section drop. In every run the entries in the queues, the entries that threads
hold and the entries that were run are all different, and were all pushed. -/
theorem runs_once {n : Nat} {retries : Bool} {s : State}
    (reached : (machine n retries).Reaches s) :
    (whereabouts s).Nodup ∧ ∀ e ∈ whereabouts s, e < s.shared.pushed := by
  refine ⟨List.nodup_iff_count_le_one.mpr ?_, ?_⟩
  · intro e
    rw [count_whereabouts]
    exact places_le_one reached e
  · intro e member
    have somewhere : 0 < places s e := by
      rw [← count_whereabouts]
      exact List.count_pos_iff.mpr member
    have bound := bounded reached e
    by_contra beyond
    rw [if_neg beyond] at bound
    omega

theorem runs_once_queued : ∃ s : State, whereabouts s = [1, 0] ∧ (whereabouts s).Nodup := by
  obtain ⟨s, reached, tested⟩ := (machine 2 false).exists_reaches_of_test
    (fun s => whereabouts s == [1, 0])
    ([(2, .begin .spawn), (3, .begin .spawn), (2, .next false), (2, .notify 0)] ++
      List.replicate 4 (2, .next false) ++ [(2, .begin .processSomeTasks)] ++
      List.replicate 2 (2, .next false)) ⟨2, rfl⟩ (by decide)
  exact ⟨s, by simpa using tested, (runs_once reached).1⟩

/-! ## The order of one worker -/

/-- The points of a thread that runs no entry. -/
def Thread.outside (t : Thread) : Bool :=
  t.below.isEmpty && match t.point with
    | .user | .notifyWorker _ | .shutdown _ => true
    | _ => false

/-- No thread but the worker takes work in a `block_on`. -/
def unaided (_ : State) (a : Nat × Label) : Bool :=
  a.1 == 0 || match a.2 with
    | .begin .stealWork | .begin .processSomeTasks => false
    | _ => true

/-- The entry that a thread holds was taken, after all that were run. -/
def Thread.HoldsLast (next : Nat) (ran : List Nat) (t : Thread) : Prop :=
  ∀ e, t.carried = some e → e < next ∧ ∀ r ∈ ran, r < e

/-- The injector has the entries from `next` on, and the entries before it were run in the order of
their numbers, or dropped. The worker holds the last of those that were taken. -/
structure InOrder (next : Nat) (s : State) : Prop where
  injector : s.shared.injector = List.range' next (s.shared.pushed - next)
  pushed : next ≤ s.shared.pushed
  ran : s.shared.ran.Pairwise (· > ·)
  before : ∀ e ∈ s.shared.ran, e < next
  holds : Pool.Each (fun _ t => t.HoldsLast next s.shared.ran) s.threads
  outside : Pool.Each (fun i t => i ≠ 0 → t.outside = true) s.threads

section Order

variable {n : Nat} {retries : Bool} {i : Nat} {s s' : Shared} {t t' : Thread}

theorem Thread.carried_of_outside (outside : t.outside = true) : t.carried = none := by
  obtain ⟨point, below⟩ := t
  cases point with
  | user | notifyWorker _ | shutdown _ => rfl
  | _ => simp [Thread.outside] at outside

/-- A thread outside that begins no help stays there, and takes nothing. -/
theorem Step.outside (step : Step n retries i s t s' t') (outside : t.outside = true)
    (unaided : t'.point ≠ .stealWork .lockStealers ∧ t'.point ≠ .processSomeTasks 10) :
    t'.outside = true ∧ s.injector.length ≤ s'.injector.length := by
  have below : t.below = [] := by
    simp only [Thread.outside, Bool.and_eq_true, List.isEmpty_iff] at outside
    exact outside.1
  cases step with
  | help => exact absurd rfl unaided.1
  | process => exact absurd rfl unaided.2
  | spawn => exact ⟨outside, by simp [Shared.push]⟩
  | notifyReturn | shutdownReturn =>
      cases below
      exact ⟨rfl, le_rfl⟩
  | notifyLock | notify | notifyUnlock | notifyLockUnparkers | notifyUnpark | shutdownLock
  | notifyAll | shutdownUnlock | shutdownLockUnparkers | unparkAll | join | joined
  | shutdown => exact ⟨outside, le_rfl⟩
  | _ => simp [Thread.outside] at outside

/-- Code of the user begins to help by the two calls only. -/
theorem helps_of_move {l : Label} (outside : t.outside = true)
    (moved : move n retries i s t l = some (s', t'))
    (helps : t'.point = .stealWork .lockStealers ∨ t'.point = .processSomeTasks 10) :
    l = .begin .stealWork ∨ l = .begin .processSomeTasks := by
  have begins : t.point = .user := by
    cases step_of_move moved with
    | help | process => rfl
    | notifyReturn | shutdownReturn =>
        simp only [Thread.outside, Bool.and_eq_true, List.isEmpty_iff] at outside
        rw [outside.1] at helps
        rcases helps with here | here <;> cases here
    | helpInRun | processInRun | finish | helpUnlockNone | processReturn =>
        simp [Thread.outside] at outside
    | _ => rcases helps with here | here <;> cases here
  obtain ⟨point, below⟩ := t
  cases begins
  cases l with
  | begin call =>
      cases call with
      | stealWork => exact .inl rfl
      | processSomeTasks => exact .inr rfl
      | spawn =>
          cases moved
          rcases helps with here | here <;> cases here
      | shutdown =>
          simp only [move, MultiThread.begins] at moved
          split at moved
          · cases moved
          · cases moved
            rcases helps with here | here <;> cases here
  | _ => simp [move, advance] at moved

/-- A thread that is not the worker stays outside, and takes nothing. -/
theorem Step.stays_outside {state : State} {l : Label} (step : Step n retries i s t s' t')
    (moved : move n retries i s t l = some (s', t')) (outside : t.outside = true) (other : i ≠ 0)
    (alone : unaided state (i, l) = true) :
    t'.outside = true ∧ s.injector.length ≤ s'.injector.length := by
  refine step.outside outside ?_
  by_contra helps
  rw [← not_or, not_not] at helps
  rcases helps_of_move outside moved helps with rfl | rfl <;> simp [unaided, other] at alone

/-- Where the other threads are outside, only the worker has an entry in hand. -/
theorem holdsLast_of_worker {threads : List Thread} {next : Nat} {ran : List Nat}
    (outside : Pool.Each (fun i t => i ≠ 0 → t.outside = true) threads)
    (worker : ∀ t, threads[0]? = some t → t.HoldsLast next ran) :
    Pool.Each (fun _ t => t.HoldsLast next ran) threads := by
  intro i t found
  by_cases zero : i = 0
  · exact worker t (zero ▸ found)
  · intro e held
    cases (Thread.carried_of_outside (outside i t found zero)).symm.trans held

end Order

/-- A step keeps the order. Only the worker takes an entry, and only the worker runs one. -/
theorem InOrder.step {retries : Bool} {next : Nat} {s s' : State} {a : Nat × Label}
    (inv : InOrder next s) (empty : s.shared.locals = List.replicate 1 [])
    (alone : unaided s a = true) (taken : (machine 1 retries).step s a = some s') :
    ∃ next', InOrder next' s' := by
  obtain ⟨i, l⟩ := a
  obtain ⟨t, shared, t', found, step, moved, rfl⟩ := step_of_taken taken
  have mine := inv.holds i t found
  have stays : i ≠ 0 → t'.outside = true ∧ s.shared.injector.length ≤ shared.injector.length :=
    fun other => step.stays_outside moved (inv.outside i t found other) other alone
  have outside : Pool.Each (fun i t => i ≠ 0 → t.outside = true) (s.threads.set i t') :=
    Pool.interference_free inv.outside (fun other => (stays other).1)
      fun _ _ _ _ outside => outside
  have holds : ∀ {next ran}, i = 0 → t'.HoldsLast next ran →
      Pool.Each (fun _ t => t.HoldsLast next ran) (s.threads.set i t') := by
    intro next ran zero last
    refine holdsLast_of_worker outside fun u now => ?_
    cases (Pool.getElem?_set_self t' (zero ▸ found)).symm.trans (zero ▸ now)
    exact last
  obtain ⟨-, effect⟩ := step.effect empty
  cases effect with
  | quiet injector pushed ran carried =>
      refine ⟨next, ⟨by rw [injector, pushed, inv.injector], pushed ▸ inv.pushed, ran ▸ inv.ran,
        ran ▸ inv.before, ?_, outside⟩⟩
      rw [ran]
      exact Pool.interference_free inv.holds (fun e held => mine e (carried ▸ held))
        fun _ _ _ _ holds => holds
  | push injector pushed ran free =>
      have bound := inv.pushed
      refine ⟨next, ⟨?_, pushed ▸ Nat.le_succ_of_le bound, ran ▸ inv.ran, ran ▸ inv.before, ?_,
        outside⟩⟩
      · have last : next + (s.shared.pushed - next) = s.shared.pushed := Nat.add_sub_cancel' bound
        rw [injector, pushed, inv.injector, Nat.succ_sub bound, List.range'_1_concat, last]
      · rw [ran]
        exact Pool.interference_free inv.holds (fun e held => nomatch free ▸ held)
          fun _ _ _ _ holds => holds
  | @take e injector pushed ran carried =>
      have zero : i = 0 := by
        by_contra other
        have length := (stays other).2
        rw [injector, List.length_cons] at length
        omega
      have front := inv.injector.symm.trans injector
      obtain ⟨rfl, some, rest⟩ := List.range'_eq_cons_iff.mp front
      have bound : next + 1 ≤ s.shared.pushed := by omega
      refine ⟨next + 1, ⟨?_, pushed ▸ bound, ran ▸ inv.ran, ?_, holds zero ?_, outside⟩⟩
      · rw [rest, pushed, Nat.sub_sub]
      · intro r member
        exact Nat.lt_succ_of_lt (inv.before r (ran ▸ member))
      · intro e held
        rcases carried with now | now
        · cases now.symm.trans held
          exact ⟨Nat.lt_succ_self next, fun r member => inv.before r (ran ▸ member)⟩
        · cases now.symm.trans held
  | @run e injector pushed carried ran free =>
      have zero : i = 0 := by
        by_contra other
        cases (Thread.carried_of_outside (inv.outside i t found other)).symm.trans carried
      obtain ⟨below, above⟩ := mine e carried
      refine ⟨next, ⟨by rw [injector, pushed, inv.injector], pushed ▸ inv.pushed, ?_, ?_,
        holds zero (fun e held => nomatch free ▸ held), outside⟩⟩
      · rw [ran]
        exact List.pairwise_cons.mpr ⟨above, inv.ran⟩
      · rw [ran]
        exact List.forall_mem_cons.mpr ⟨below, inv.before⟩

theorem inOrder_startWith (others : Nat) : InOrder 0 (startWith 1 others) where
  injector := rfl
  pushed := le_rfl
  ran := .nil
  before e member := nomatch member
  holds i t found e held := by
    rcases startWith_cases found with ⟨-, rfl⟩ | ⟨-, rfl⟩ <;> cases held
  outside i t found other := by
    rcases startWith_cases found with ⟨first, rfl⟩ | ⟨-, rfl⟩
    · exact absurd (Nat.lt_one_iff.mp first) other
    · rfl

/-- **One worker runs the entries in the order of their pushes**, those that a run of an entry
pushes and those that it runs itself included, in every run in which no other thread takes work in a
`block_on`. -/
theorem runs_in_order {retries : Bool} {s : State}
    (reached : (machine 1 retries).ReachesWhen (fun s a => unaided s a = true) s) :
    s.shared.ran.Pairwise (· > ·) := by
  have inv : s.shared.locals = List.replicate 1 [] ∧ ∃ next, InOrder next s := by
    refine reached.invariant
      (I := fun s => s.shared.locals = List.replicate 1 [] ∧ ∃ next, InOrder next s) ?_ ?_
    · rintro _ ⟨others, rfl⟩
      exact ⟨rfl, 0, inOrder_startWith others⟩
    · rintro s a s' - ⟨empty, next, inv⟩ alone taken
      exact ⟨(events_of_step empty taken).1, inv.step empty alone taken⟩
  obtain ⟨-, next, inOrder⟩ := inv
  exact inOrder.ran

/-- The worker takes an entry in a `block_on` that the run of an entry enters. -/
def nestedRuns : List (Nat × Label) :=
  [(1, .begin .spawn), (2, .begin .spawn)] ++ List.replicate 7 (0, .next false) ++
    [(0, .begin .processSomeTasks)] ++ List.replicate 2 (0, .next false)

theorem runs_in_order_nested : ∃ s : State, s.shared.ran = [1, 0] ∧
    s.shared.ran.Pairwise (· > ·) := by
  obtain ⟨s, reached, tested⟩ := (machine 1 false).exists_reachesWhen_of_test
    (fun s a => unaided s a = true) (fun s => s.shared.ran == [1, 0]) nestedRuns ⟨2, rfl⟩
    (by decide)
  exact ⟨s, by simpa using tested, runs_in_order reached⟩

end LoonyRuntime.Runtime.MultiThread
