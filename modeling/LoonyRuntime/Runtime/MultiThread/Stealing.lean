import LoonyRuntime.Runtime.MultiThread.Operational

/-!
# One scan of a stealing worker

`WorkerThread::steal_work` asks the deques of the other workers in turn. `stealWork` is that
function over any world in which a deque is asked: what a steal answers and does is left to the
world, which may also let other threads run in between. Every arithmetic operation is checked, and
every index, so that `none` is a panic.

The targets are those of the loop, two reductions modulo the number of workers. They are
`roundRobin`, the workers after `i` and then those before it (`targets_eq_roundRobin`), and so
each other worker once (`mem_roundRobin`, `nodup_roundRobin`). `steal_work_scans` says that the
scan does not panic, asks in that order, and ends with the first deque that answers `Success`.
The machine of the scheduler takes the same steps: a worker that nobody interferes with goes
through the scan to the result of `stealWork` (`run_stealWork`).
-/

set_option autoImplicit false

namespace LoonyRuntime.Runtime.MultiThread

open Concurrent

/-! ## Checked operations of a `usize` -/

def checkedAdd (a b : Nat) : Option Nat := if a + b < 2 ^ 64 then some (a + b) else none

def checkedSub (a b : Nat) : Option Nat := if b ≤ a then some (a - b) else none

def checkedRem (a b : Nat) : Option Nat := if b ≠ 0 then some (a % b) else none

/-! ## The scan -/

/-- The answer of a deque. -/
inductive Steal (T : Type) where
  | empty
  | success (task : T)
  | retry
deriving DecidableEq, Repr

/-- `Steal::success`. -/
def Steal.success? {T : Type} : Steal T → Option T
  | .success task => some task
  | _ => none

/-- The stealers of a scheduler, one for each worker. A `Vec` of them has at most `isize::MAX`
bytes, so at most as many elements. -/
structure Stealers (D : Type) where
  list : List D
  length_lt : list.length < 2 ^ 63

variable {D σ T : Type}

/-- The loop of `steal_work`, over the offsets that are left. -/
def stealFrom (steal : D → σ → Steal T × σ) (stealers : List D) (start : Nat) :
    List Nat → σ → Option (Option T × σ)
  | [], world => some (none, world)
  | offset :: rest, world => do
      let sum ← checkedAdd start offset
      let target ← checkedRem sum stealers.length
      let stealer ← stealers[target]?
      match steal stealer world with
      | (.success task, world') => some (some task, world')
      | (.empty, world') => stealFrom steal stealers start rest world'
      | (.retry, world') => stealFrom steal stealers start rest world'

/-- `WorkerThread::steal_work`. -/
def stealWork (steal : D → σ → Steal T × σ) (stealers : Stealers D) (myIndex : Nat) (world : σ) :
    Option (Option T × σ) := do
  let numWorkers := stealers.list.length
  let next ← checkedAdd myIndex 1
  let start ← checkedRem next numWorkers
  let stop ← checkedSub numWorkers 1
  stealFrom steal stealers.list start (List.range stop) world

/-! ## The targets -/

/-- The workers after `i`, and then those before it. -/
def roundRobin (n i : Nat) : List Nat := List.range' (i + 1) (n - (i + 1)) ++ List.range i

/-- The target of the loop at this offset. -/
def targetAt (n i offset : Nat) : Nat := ((i + 1) % n + offset) % n

section Targets

variable {n i : Nat}

/-- The first target is the next worker, or the first one. -/
theorem start_eq (within : i < n) : (i + 1) % n = if i + 1 < n then i + 1 else 0 := by
  split
  · next inner => exact Nat.mod_eq_of_lt inner
  · next last =>
      have same : i + 1 = n := by omega
      rw [same, Nat.mod_self]

/-- A target is so many workers on, around the end. -/
theorem targetAt_eq (within : i < n) {offset : Nat} (inside : offset < n - 1) :
    targetAt n i offset = if i + 1 + offset < n then i + 1 + offset else i + 1 + offset - n := by
  rw [targetAt, start_eq within]
  split
  · split
    · next fits => exact Nat.mod_eq_of_lt fits
    · next wraps =>
        rw [Nat.mod_eq_sub_mod (Nat.le_of_not_lt wraps)]
        exact Nat.mod_eq_of_lt (by omega)
  · rw [if_neg (by omega), Nat.mod_eq_of_lt (by omega)]
    omega

theorem length_roundRobin (within : i < n) : (roundRobin n i).length = n - 1 := by
  simp only [roundRobin, List.length_append, List.length_range', List.length_range]
  omega

/-- **The loop visits the workers in round-robin order.** -/
theorem targets_eq_roundRobin (within : i < n) :
    (List.range (n - 1)).map (targetAt n i) = roundRobin n i := by
  apply List.ext_getElem
  · rw [List.length_map, List.length_range, length_roundRobin within]
  · intro offset inside _
    rw [List.length_map, List.length_range] at inside
    rw [List.getElem_map, List.getElem_range, targetAt_eq within inside]
    simp only [roundRobin, List.getElem_append, List.length_range', List.getElem_range',
      List.getElem_range]
    split <;> split <;> omega

/-- **The targets are the other workers.** -/
theorem mem_roundRobin (within : i < n) {j : Nat} : j ∈ roundRobin n i ↔ j < n ∧ j ≠ i := by
  simp only [roundRobin, List.mem_append, List.mem_range'_1, List.mem_range]
  omega

/-- **Each is visited once.** -/
theorem nodup_roundRobin (n i : Nat) : (roundRobin n i).Nodup := by
  apply List.Nodup.append
  · exact List.nodup_range'
  · exact List.nodup_range
  · intro j later earlier
    have after := List.mem_range'_1.mp later
    have before := List.mem_range.mp earlier
    omega

end Targets

/-! ## What a scan does -/

/-- The steals that were made, the worker asked with its answer, in order. -/
abbrev Asked (T : Type) := List (Nat × Steal T)

/-- These steals, one after the other, lead from one world to the other. -/
inductive Answers (steal : D → σ → Steal T × σ) (stealers : List D) :
    σ → Asked T → σ → Prop where
  | nil {world : σ} : Answers steal stealers world [] world
  | cons {target : Nat} {stealer : D} {world middle world' : σ} {answer : Steal T}
      {asked : Asked T} (found : stealers[target]? = some stealer)
      (answers : steal stealer world = (answer, middle))
      (later : Answers steal stealers middle asked world') :
      Answers steal stealers world ((target, answer) :: asked) world'

/-- A scan of the targets: it asks them in order, none after the first that answers `Success`,
returns what that one gave, and returns `None` if none does. -/
structure Scanned (steal : D → σ → Steal T × σ) (stealers : List D) (targets : List Nat)
    (world : σ) (asked : Asked T) (found : Option T) (world' : σ) : Prop where
  answers : Answers steal stealers world asked world'
  order : asked.map Prod.fst <+: targets
  first : ∀ a ∈ asked.dropLast, a.2.success? = none
  returns : found = asked.getLast?.bind fun a => a.2.success?
  all : found = none → asked.map Prod.fst = targets

namespace Scanned

variable {steal : D → σ → Steal T × σ} {stealers : List D} {targets : List Nat} {target : Nat}
  {world middle world' : σ} {asked : Asked T} {found : Option T} {stealer : D} {answer : Steal T}

/-- A scan of no targets. -/
theorem nil : Scanned steal stealers [] world [] none world where
  answers := .nil
  order := List.prefix_refl _
  first := by
    intro a member
    cases member
  returns := rfl
  all _ := rfl

/-- A scan ends with a deque that answers `Success`. -/
theorem stop {task : T} (place : stealers[target]? = some stealer)
    (answers : steal stealer world = (.success task, world')) :
    Scanned steal stealers (target :: targets) world [(target, .success task)] (some task)
      world' where
  answers := .cons place answers .nil
  order := List.prefix_append [target] targets
  first := by
    intro a member
    cases member
  returns := rfl
  all none := by cases none

/-- A scan goes on after a deque that answers otherwise. -/
theorem next (place : stealers[target]? = some stealer)
    (answers : steal stealer world = (answer, middle)) (fails : answer.success? = none)
    (later : Scanned steal stealers targets middle asked found world') :
    Scanned steal stealers (target :: targets) world ((target, answer) :: asked) found world' where
  answers := .cons place answers later.answers
  order := by
    rw [List.map_cons, List.cons_prefix_cons]
    exact ⟨rfl, later.order⟩
  first := by
    intro a member
    cases asked with
    | nil => cases member
    | cons b rest =>
        rcases List.mem_cons.mp member with rfl | inner
        · exact fails
        · exact later.first a inner
  returns := by
    rw [later.returns]
    cases asked with
    | nil => exact fails.symm
    | cons b rest => rfl
  all none := by rw [List.map_cons, later.all none]

/-- **A scan returns `None` exactly if nobody answered `Success`.** -/
theorem none_iff (scan : Scanned steal stealers targets world asked found world') :
    found = none ↔ ∀ a ∈ asked, a.2.success? = none := by
  rw [scan.returns]
  rcases List.eq_nil_or_concat asked with rfl | ⟨before, last, rfl⟩
  · exact iff_of_true rfl fun a member => by cases member
  · have first := scan.first
    rw [List.concat_eq_append, List.dropLast_concat] at first
    rw [List.concat_eq_append, List.getLast?_concat, Option.bind_some]
    constructor
    · intro fails a member
      rcases List.mem_append.mp member with earlier | end_
      · exact first a earlier
      · rw [List.mem_singleton.mp end_]
        exact fails
    · intro fails
      exact fails last (List.mem_append_right _ (List.mem_singleton_self last))

end Scanned

/-- **What a deque holds is left alone by the steals from others.** -/
theorem Answers.untouched {steal : D → σ → Steal T × σ} {stealers : List D} {world world' : σ}
    {asked : Asked T} (answers : Answers steal stealers world asked world') {β : Type}
    (view : σ → β) (frame : ∀ target ∈ asked.map Prod.fst, ∀ stealer world,
      stealers[target]? = some stealer → view (steal stealer world).2 = view world) :
    view world' = view world := by
  induction answers with
  | nil => rfl
  | @cons target stealer world middle world' answer asked found answers later ih =>
      have here := frame target List.mem_cons_self stealer world found
      rw [answers] at here
      rw [ih fun target member => frame target (List.mem_cons_of_mem _ member), here]

/-- **The loop scans the targets of its offsets**, if these are in range. -/
theorem stealFrom_scans (steal : D → σ → Steal T × σ) (stealers : Stealers D) {start : Nat}
    (within : start < stealers.list.length) {offsets : List Nat}
    (inside : ∀ offset ∈ offsets, offset < stealers.list.length) (world : σ) :
    ∃ asked found world', stealFrom steal stealers.list start offsets world =
        some (found, world') ∧
      Scanned steal stealers.list
        (offsets.map fun offset => (start + offset) % stealers.list.length) world asked found
        world' := by
  induction offsets generalizing world with
  | nil => exact ⟨[], none, world, rfl, .nil⟩
  | cons offset rest ih =>
      have bound := stealers.length_lt
      have offset_lt := inside offset List.mem_cons_self
      have sum : checkedAdd start offset = some (start + offset) := if_pos (by omega)
      have some_worker : stealers.list.length ≠ 0 := by omega
      have rem : checkedRem (start + offset) stealers.list.length =
          some ((start + offset) % stealers.list.length) := if_pos some_worker
      have target_lt : (start + offset) % stealers.list.length < stealers.list.length :=
        Nat.mod_lt _ (by omega)
      have place := List.getElem?_eq_getElem target_lt
      have later := ih fun offset member => inside offset (List.mem_cons_of_mem _ member)
      simp only [stealFrom, sum, rem, place, Option.bind_eq_bind, Option.bind_some, List.map_cons]
      split
      · next task world' answers => exact ⟨_, _, _, rfl, .stop place answers⟩
      · next middle answers =>
          obtain ⟨asked, found, world', returns, scan⟩ := later middle
          exact ⟨_, found, world', returns, scan.next place answers rfl⟩
      · next middle answers =>
          obtain ⟨asked, found, world', returns, scan⟩ := later middle
          exact ⟨_, found, world', returns, scan.next place answers rfl⟩

/-- **A stealing worker scans every other worker once.** A scan of worker `i` does not panic. Its
targets are in round-robin order the other workers, each once. It asks them in that order up to
the first that answers `Success`, returns what that one gave, and returns `None` exactly if no
one answered `Success`. What a deque holds that was not asked is untouched. -/
theorem steal_work_scans (steal : D → σ → Steal T × σ) (stealers : Stealers D) {i : Nat}
    (within : i < stealers.list.length) (world : σ) :
    ((roundRobin stealers.list.length i).Nodup ∧
      (roundRobin stealers.list.length i).length = stealers.list.length - 1 ∧
      ∀ j, j ∈ roundRobin stealers.list.length i ↔ j < stealers.list.length ∧ j ≠ i) ∧
    ∃ asked found world', stealWork steal stealers i world = some (found, world') ∧
      Scanned steal stealers.list (roundRobin stealers.list.length i) world asked found world' ∧
      (found = none ↔ ∀ a ∈ asked, a.2.success? = none) ∧
      ∀ (β : Type) (view : σ → β) (j : Nat), j ∉ asked.map Prod.fst →
        (∀ target stealer world, target ≠ j → stealers.list[target]? = some stealer →
          view (steal stealer world).2 = view world) → view world' = view world := by
  refine ⟨⟨nodup_roundRobin _ i, length_roundRobin within, fun j => mem_roundRobin within⟩, ?_⟩
  have bound := stealers.length_lt
  have next : checkedAdd i 1 = some (i + 1) := if_pos (by omega)
  have some_worker : stealers.list.length ≠ 0 := by omega
  have start : checkedRem (i + 1) stealers.list.length =
      some ((i + 1) % stealers.list.length) := if_pos some_worker
  have stop : checkedSub stealers.list.length 1 = some (stealers.list.length - 1) :=
    if_pos (by omega)
  have start_lt : (i + 1) % stealers.list.length < stealers.list.length :=
    Nat.mod_lt _ (by omega)
  have inside : ∀ offset ∈ List.range (stealers.list.length - 1),
      offset < stealers.list.length := by
    intro offset member
    have := List.mem_range.mp member
    omega
  obtain ⟨asked, found, world', returns, scan⟩ :=
    stealFrom_scans steal stealers start_lt inside world
  have targets := targets_eq_roundRobin within
  unfold targetAt at targets
  rw [targets] at scan
  refine ⟨asked, found, world', ?_, scan, scan.none_iff, ?_⟩
  · simp only [stealWork, next, start, stop, Option.bind_eq_bind, Option.bind_some]
    exact returns
  · intro β view j later frame
    apply scan.answers.untouched view
    intro target member stealer world place
    exact frame target stealer world (fun same => later (same ▸ member)) place

/-- Three deques, each named by its number. -/
def threeDeques : Stealers Nat := ⟨[0, 1, 2], by decide⟩

/-- Deque `2` answers `Retry`, another one `Success`. The world counts the steals. -/
def retriesLast (stealer steals : Nat) : Steal Nat × Nat :=
  (if stealer = 2 then .retry else .success stealer, steals + 1)

/-- Worker `1` asks `2` and then `0`. -/
theorem steal_work_scans_threeDeques : ∃ (asked : Asked Nat) (found : Option Nat) (steals : Nat),
    stealWork retriesLast threeDeques 1 0 = some (found, steals) ∧
      asked.map Prod.fst <+: roundRobin 3 1 ∧ (found = none ↔ ∀ a ∈ asked, a.2.success? = none) :=
  have ⟨_, asked, found, steals, returns, scan, none_iff, _⟩ :=
    steal_work_scans retriesLast threeDeques (by decide : 1 < 3) 0
  ⟨asked, found, steals, returns, scan.order, none_iff⟩

/-! ## The scan in the machine -/

section Machine

variable {n i : Nat} {retry : Bool} {s s' : Shared}

/-- A steal from the deque of a worker, with its answer. -/
def Shared.ask (retry : Bool) (target : Nat) (s : Shared) : Steal Nat × Shared :=
  match s.steal retry target with
  | some (entry, s') => (.success entry, s')
  | none => (if retry = true then .retry else .empty, s)

/-- The scan of the machine at an offset is one round of the loop. -/
theorem advanceWorker_steal (below : List Caller) {offset : Nat} (inside : offset < n - 1) :
    advanceWorker n retry i s below (.steal offset) =
      match s.ask retry (targetAt n i offset) with
      | (.success entry, s') => some (s', ⟨.worker (.unlockStealers (some entry)), below⟩)
      | (_, s') => some (s', ⟨.worker (.steal (offset + 1)), below⟩) := by
  simp only [advanceWorker, if_pos inside, Shared.ask, targetAt]
  cases s.steal retry (((i + 1) % n + offset) % n) with
  | none => cases retry <;> rfl
  | some stolen => rfl

/-- A step of a worker in the machine. -/
theorem step_worker {retries : Bool} (allowed : retry = true → retries = true)
    {threads : List Thread} {pc : WorkerPc} {below : List Caller}
    (place : threads[i]? = some ⟨.worker pc, below⟩) :
    (machine n retries).step ⟨s, threads⟩ (i, .next retry) =
      (advanceWorker n retry i s below pc).map fun r => ⟨r.1, threads.set i r.2⟩ := by
  have may : ¬(retry = true ∧ retries = false) := by
    rintro ⟨retried, never⟩
    rw [allowed retried] at never
    cases never
  simp only [machine, Pool.step, place, move, if_neg may, advance]

/-- The loop goes on from a target that does not answer `Success`, and ends at one that does. -/
theorem stealFrom_cons (within : i < n) (small : n < 2 ^ 63) {offset : Nat}
    (inside : offset < n - 1) (rest : List Nat) (s : Shared) :
    stealFrom (Shared.ask retry) (List.range n) ((i + 1) % n) (offset :: rest) s =
      match s.ask retry (targetAt n i offset) with
      | (.success entry, s') => some (some entry, s')
      | (_, s') => stealFrom (Shared.ask retry) (List.range n) ((i + 1) % n) rest s' := by
  have start_lt : (i + 1) % n < n := Nat.mod_lt _ (by omega)
  have sum : checkedAdd ((i + 1) % n) offset = some ((i + 1) % n + offset) :=
    if_pos (by omega)
  have rem : checkedRem ((i + 1) % n + offset) (List.range n).length =
      some (targetAt n i offset) := by
    rw [List.length_range]
    exact if_pos (by omega)
  have target_lt : targetAt n i offset < n := Nat.mod_lt _ (by omega)
  have stealer : (List.range n)[targetAt n i offset]? = some (targetAt n i offset) :=
    List.getElem?_range target_lt
  simp only [stealFrom, sum, rem, stealer, Option.bind_eq_bind, Option.bind_some]
  rcases s.ask retry (targetAt n i offset) with ⟨answer, s'⟩
  cases answer <;> rfl

/-- **A worker that nobody interferes with goes through the loop**, to the return of its scan with
the result of `stealFrom`. -/
theorem run_stealFrom {retries : Bool} (allowed : retry = true → retries = true) (within : i < n)
    (small : n < 2 ^ 63) (below : List Caller) (left : Nat) {offset : Nat}
    (rest : offset + left = n - 1) {threads : List Thread}
    (place : threads[i]? = some ⟨.worker (.steal offset), below⟩) (s : Shared) :
    ∃ found s' labels,
      stealFrom (Shared.ask retry) (List.range n) ((i + 1) % n) (List.range' offset left) s =
        some (found, s') ∧
      (machine n retries).run ⟨s, threads⟩ labels =
        some ⟨s', threads.set i ⟨.worker (.unlockStealers found), below⟩⟩ := by
  induction left generalizing offset threads s with
  | zero =>
      have last : ¬offset < n - 1 := by omega
      refine ⟨none, s, [(i, .next retry)], rfl, ?_⟩
      simp only [Machine.run, Machine.runWhen, if_true, step_worker allowed place, advanceWorker,
        if_neg last, Option.map_some, Option.bind_some]
  | succ left ih =>
      have inside : offset < n - 1 := by omega
      have here := step_worker (n := n) (s := s) allowed place
      rw [advanceWorker_steal below inside] at here
      rw [List.range'_succ, stealFrom_cons within small inside]
      -- a steal that fails leaves the worker at the next offset
      have goes_on : ∀ s', (machine n retries).step ⟨s, threads⟩ (i, .next retry) =
          some ⟨s', threads.set i ⟨.worker (.steal (offset + 1)), below⟩⟩ →
          ∃ found s'' labels,
            stealFrom (Shared.ask retry) (List.range n) ((i + 1) % n)
              (List.range' (offset + 1) left) s' = some (found, s'') ∧
            (machine n retries).run ⟨s, threads⟩ labels =
              some ⟨s'', threads.set i ⟨.worker (.unlockStealers found), below⟩⟩ := by
        intro s' moved
        have fewer : offset + 1 + left = n - 1 := by omega
        obtain ⟨found, s'', labels, returns, ran⟩ :=
          ih fewer (Pool.getElem?_set_self _ place) s'
        refine ⟨found, s'', (i, .next retry) :: labels, returns, ?_⟩
        rw [List.set_set] at ran
        simp only [Machine.run, Machine.runWhen, if_true, moved, Option.bind_some]
        exact ran
      rcases answered : s.ask retry (targetAt n i offset) with ⟨answer, s'⟩
      rw [answered] at here
      cases answer with
      | success entry =>
          refine ⟨some entry, s', [(i, .next retry)], rfl, ?_⟩
          simp only [Machine.run, Machine.runWhen, if_true, here, Option.map_some,
            Option.bind_some]
      | empty => exact goes_on s' here
      | retry => exact goes_on s' here

/-- **The scan of the machine is `stealWork`.** A worker that nobody interferes with returns from
its scan with what `stealWork` returns. -/
theorem run_stealWork {retries : Bool} (allowed : retry = true → retries = true) (within : i < n)
    (small : n < 2 ^ 63) (below : List Caller) {threads : List Thread}
    (place : threads[i]? = some ⟨.worker (.steal 0), below⟩) (s : Shared) :
    ∃ found s' labels,
      stealWork (Shared.ask retry) ⟨List.range n, by rwa [List.length_range]⟩ i s =
        some (found, s') ∧
      (machine n retries).run ⟨s, threads⟩ labels =
        some ⟨s', threads.set i ⟨.worker (.unlockStealers found), below⟩⟩ := by
  obtain ⟨found, s', labels, returns, ran⟩ :=
    run_stealFrom allowed within small below (n - 1) (Nat.zero_add _) place s
  refine ⟨found, s', labels, ?_, ran⟩
  have next : checkedAdd i 1 = some (i + 1) := if_pos (by omega)
  have start : checkedRem (i + 1) n = some ((i + 1) % n) := if_pos (by omega)
  have stop : checkedSub n 1 = some (n - 1) := if_pos (by omega)
  rw [← List.range_eq_range'] at returns
  simp only [stealWork, List.length_range, next, start, stop, Option.bind_eq_bind,
    Option.bind_some]
  exact returns

end Machine

end LoonyRuntime.Runtime.MultiThread
