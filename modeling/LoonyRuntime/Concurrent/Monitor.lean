import LoonyRuntime.Concurrent.Threads

/-!
# A mutex with a condition variable

A monitor is a mutex and the set of threads that are blocked in a wait on its condition variable.
To wait is to release the mutex and to block, in one step. A notification takes one blocked
thread, or all of them, out of the set, and has no effect when nobody waits. A blocked thread may
also leave by itself, by a timeout or spuriously. Whoever has left takes the mutex again before
its wait returns.

`Keeps` relates a monitor to the program points of the threads: the owner is the one thread at a
point that holds the mutex, and a thread in the set is at a point of waiting. It has one rule for
each operation, and `Keeps.exclusive` is mutual exclusion. A mutex alone is a monitor on which
nobody waits.
-/

set_option autoImplicit false

namespace LoonyRuntime.Concurrent

universe u

/-- The owner of the mutex, and the threads blocked in a wait. -/
structure Monitor where
  owner : Option Nat
  waiting : List Nat
deriving DecidableEq, Repr

namespace Monitor

/-! ## Operations -/

/-- A free mutex, and nobody waits. -/
def new : Monitor := ⟨none, []⟩

/-- Take the mutex. A thread that finds it owned has no step. -/
def acquire (m : Monitor) (i : Nat) : Option Monitor :=
  if m.owner = none then some { m with owner := some i } else none

def release (m : Monitor) : Monitor := { m with owner := none }

/-- Release the mutex and block. -/
def wait (m : Monitor) (i : Nat) : Monitor := ⟨none, i :: m.waiting⟩

/-- A thread is no longer blocked. -/
def leave (m : Monitor) (i : Nat) : Monitor :=
  { m with waiting := m.waiting.filter (· != i) }

/-- Notify a blocked thread of the notifier's choice, if there is one. -/
def notifyOne (m : Monitor) (choice : Nat) : Option Monitor :=
  if m.waiting = [] then some m
  else if choice ∈ m.waiting then some (m.leave choice) else none

def notifyAll (m : Monitor) : Monitor := { m with waiting := [] }

@[simp] theorem release_owner (m : Monitor) : m.release.owner = none := rfl

@[simp] theorem release_waiting (m : Monitor) : m.release.waiting = m.waiting := rfl

@[simp] theorem wait_owner (m : Monitor) (i : Nat) : (m.wait i).owner = none := rfl

@[simp] theorem wait_waiting (m : Monitor) (i : Nat) :
    (m.wait i).waiting = i :: m.waiting := rfl

@[simp] theorem leave_owner (m : Monitor) (i : Nat) : (m.leave i).owner = m.owner := rfl

@[simp] theorem mem_leave_waiting (m : Monitor) (i j : Nat) :
    j ∈ (m.leave i).waiting ↔ j ∈ m.waiting ∧ j ≠ i := by
  simp [leave]

@[simp] theorem notifyAll_owner (m : Monitor) : m.notifyAll.owner = m.owner := rfl

@[simp] theorem notifyAll_waiting (m : Monitor) : m.notifyAll.waiting = [] := rfl

/-- The mutex is taken when it is free. -/
theorem acquire_eq_some {m m' : Monitor} {i : Nat} (taken : m.acquire i = some m') :
    m.owner = none ∧ m' = { m with owner := some i } := by
  simp only [acquire] at taken
  split at taken
  · next free => exact ⟨free, (Option.some.inj taken).symm⟩
  · cases taken

/-- A notification finds nobody, or takes one thread out. -/
theorem notifyOne_eq_some {m m' : Monitor} {choice : Nat}
    (notified : m.notifyOne choice = some m') :
    m.waiting = [] ∧ m' = m ∨ choice ∈ m.waiting ∧ m' = m.leave choice := by
  simp only [notifyOne] at notified
  split at notified
  · next empty => exact .inl ⟨empty, (Option.some.inj notified).symm⟩
  · split at notified
    · next member => exact .inr ⟨member, (Option.some.inj notified).symm⟩
    · cases notified

theorem notifyOne_owner {m m' : Monitor} {choice : Nat}
    (notified : m.notifyOne choice = some m') : m'.owner = m.owner := by
  rcases notifyOne_eq_some notified with ⟨-, rfl⟩ | ⟨-, rfl⟩ <;> rfl

/-- A notifier has a choice. -/
theorem exists_notifyOne (m : Monitor) : ∃ choice, (m.notifyOne choice).isSome = true := by
  obtain ⟨owner, waiting⟩ := m
  cases waiting with
  | nil => exact ⟨0, rfl⟩
  | cons choice rest => exact ⟨choice, by simp [notifyOne]⟩

/-- A free mutex can be taken. -/
theorem acquire_of_free {m : Monitor} (free : m.owner = none) (i : Nat) :
    m.acquire i = some { m with owner := some i } := if_pos free

/-- A notification takes nobody in. -/
theorem notifyOne_subset {m m' : Monitor} {choice : Nat}
    (notified : m.notifyOne choice = some m') {j : Nat} (member : j ∈ m'.waiting) :
    j ∈ m.waiting := by
  rcases notifyOne_eq_some notified with ⟨-, rfl⟩ | ⟨-, rfl⟩
  · exact member
  · exact ((mem_leave_waiting m choice j).mp member).1

/-! ## The monitor and the program points -/

variable {π : Type u} {holds blocked : π → Bool} {m m' : Monitor} {threads : List π} {i : Nat}
  {t t' : π}

/-- The owner is the thread that holds the mutex, and blocked threads are at a wait. -/
structure Keeps (holds blocked : π → Bool) (m : Monitor) (threads : List π) : Prop where
  owner : Pool.Each (fun i t => holds t = true ↔ m.owner = some i) threads
  waiting : ∀ i ∈ m.waiting, ∃ t, threads[i]? = some t ∧ blocked t = true

/-- Threads that neither hold nor wait keep a new monitor. -/
theorem Keeps.new (quiet : ∀ t ∈ threads, holds t = false) :
    Keeps holds blocked .new threads where
  owner := fun i t found => by
    simp [Monitor.new, quiet t (List.mem_of_getElem? found)]
  waiting := fun i member => by simp [Monitor.new] at member

namespace Keeps

/-- **Mutual exclusion.** -/
theorem exclusive (inv : Keeps holds blocked m threads) {j : Nat} {u : π}
    (found : threads[i]? = some t) (found' : threads[j]? = some u) (hold : holds t = true)
    (hold' : holds u = true) : i = j := by
  have first := (inv.owner i t found).mp hold
  rw [(inv.owner j u found').mp hold'] at first
  exact (Option.some.inj first).symm

/-- A thread at a point without a wait is not blocked. -/
theorem not_waiting (inv : Keeps holds blocked m threads) (found : threads[i]? = some t)
    (awake : blocked t = false) : i ∉ m.waiting := by
  intro member
  obtain ⟨u, foundU, asleep⟩ := inv.waiting i member
  obtain rfl : t = u := Option.some.inj (found.symm.trans foundU)
  rw [awake] at asleep
  cases asleep

/-- A step keeps the monitor when it takes the mutex from nobody else and lets nobody else in. -/
theorem move (inv : Keeps holds blocked m threads) (found : threads[i]? = some t)
    (mine : holds t' = true ↔ m'.owner = some i)
    (others : ∀ j, j ≠ i → (m.owner = some j ↔ m'.owner = some j))
    (enters : i ∈ m'.waiting → blocked t' = true)
    (stays : ∀ j, j ≠ i → j ∈ m'.waiting → j ∈ m.waiting) :
    Keeps holds blocked m' (threads.set i t') where
  owner := Pool.interference_free inv.owner mine fun j _ other _ each =>
    each.trans (others j other)
  waiting := fun j member => by
    by_cases same : j = i
    · subst same
      exact ⟨t', Pool.getElem?_set_self t' found, enters member⟩
    · obtain ⟨u, foundU, asleep⟩ := inv.waiting j (stays j same member)
      refine ⟨u, ?_, asleep⟩
      rwa [List.getElem?_set_ne (Ne.symm same)]

/-- A step beside the monitor. -/
theorem quiet (inv : Keeps holds blocked m threads) (found : threads[i]? = some t)
    (same : holds t' = holds t) (awake : blocked t = false) :
    Keeps holds blocked m (threads.set i t') :=
  inv.move found (by rw [same]; exact inv.owner i t found) (fun _ _ => Iff.rfl)
    (fun member => absurd member (inv.not_waiting found awake)) fun _ _ => id

/-- The mutex is taken. -/
theorem acquire (inv : Keeps holds blocked m threads) (found : threads[i]? = some t)
    (taken : m.acquire i = some m') (awake : blocked t = false) (hold : holds t' = true) :
    Keeps holds blocked m' (threads.set i t') := by
  obtain ⟨free, rfl⟩ := acquire_eq_some taken
  refine inv.move found (by simp [hold]) (fun j other => ?_)
    (fun member => absurd member (inv.not_waiting found awake)) fun _ _ => id
  simp [free, Ne.symm other]

/-- The mutex is released by its owner. -/
theorem release (inv : Keeps holds blocked m threads) (found : threads[i]? = some t)
    (hold : holds t = true) (awake : blocked t = false) (hold' : holds t' = false) :
    Keeps holds blocked m.release (threads.set i t') := by
  have owner := (inv.owner i t found).mp hold
  refine inv.move found (by simp [hold']) (fun j other => ?_)
    (fun member => absurd member (inv.not_waiting found awake)) fun _ _ => id
  simp [owner, Ne.symm other]

/-- The owner waits. -/
theorem wait (inv : Keeps holds blocked m threads) (found : threads[i]? = some t)
    (hold : holds t = true) (hold' : holds t' = false) (asleep : blocked t' = true) :
    Keeps holds blocked (m.wait i) (threads.set i t') := by
  have owner := (inv.owner i t found).mp hold
  refine inv.move found (by simp [hold']) (fun j other => ?_) (fun _ => asleep)
    fun j other member => ?_
  · simp [owner, Ne.symm other]
  · simpa [other] using member

/-- A blocked thread leaves. -/
theorem leave (inv : Keeps holds blocked m threads) (found : threads[i]? = some t)
    (same : holds t' = holds t) : Keeps holds blocked (m.leave i) (threads.set i t') := by
  refine inv.move found ?_ (fun _ _ => Iff.rfl) (fun member => ?_) fun j _ member => ?_
  · rw [same]
    exact inv.owner i t found
  · simp at member
  · exact ((mem_leave_waiting m i j).mp member).1

/-- A thread notifies one. -/
theorem notifyOne (inv : Keeps holds blocked m threads) (found : threads[i]? = some t)
    {choice : Nat} (notified : m.notifyOne choice = some m') (same : holds t' = holds t)
    (awake : blocked t = false) : Keeps holds blocked m' (threads.set i t') := by
  have owner := notifyOne_owner notified
  refine inv.move found ?_ (fun j _ => by rw [owner]) (fun member => ?_) fun j _ member => ?_
  · rw [same, owner]
    exact inv.owner i t found
  · exact absurd (notifyOne_subset notified member) (inv.not_waiting found awake)
  · exact notifyOne_subset notified member

/-- A thread notifies all. -/
theorem notifyAll (inv : Keeps holds blocked m threads) (found : threads[i]? = some t)
    (same : holds t' = holds t) : Keeps holds blocked m.notifyAll (threads.set i t') := by
  refine inv.move found ?_ (fun _ _ => Iff.rfl) (fun member => ?_) fun j _ member => ?_
  · rw [same]
    exact inv.owner i t found
  · simp at member
  · simp at member

/-- **Only the mover can come to take the mutex that it owns.** `locks` says of a point that its
next operation is to take the mutex. -/
theorem relock_iff {locks : π → Bool} (inv : Keeps holds blocked m threads)
    (inv' : Keeps holds blocked m' (threads.set i t')) (found : threads[i]? = some t)
    (free : Pool.Each (fun j u => ¬(locks u = true ∧ m.owner = some j)) threads) :
    Pool.Each (fun j u => ¬(locks u = true ∧ m'.owner = some j)) (threads.set i t') ↔
      ¬(locks t' = true ∧ m'.owner = some i) := by
  refine Pool.each_set_iff found free ?_
  rintro j u other before mine ⟨toLock, owner⟩
  have after : (threads.set i t')[j]? = some u := by
    rwa [List.getElem?_set_ne (Ne.symm other)]
  have hold : holds u = true := (inv'.owner j u after).mpr owner
  exact mine ⟨toLock, (inv.owner j u before).mp hold⟩

end Keeps

/-- What a step of thread `i` from the point `t` to the point `t'` does with the monitor. -/
inductive Uses (holds blocked : π → Bool) (i : Nat) (t t' : π) : Monitor → Monitor → Prop where
  | quiet {m : Monitor} (awake : blocked t = false) (same : holds t' = holds t) :
      Uses holds blocked i t t' m m
  | acquire {m m' : Monitor} (awake : blocked t = false) (hold : holds t' = true)
      (taken : m.acquire i = some m') : Uses holds blocked i t t' m m'
  | release {m : Monitor} (awake : blocked t = false) (hold : holds t = true)
      (hold' : holds t' = false) : Uses holds blocked i t t' m m.release
  | wait {m : Monitor} (hold : holds t = true) (hold' : holds t' = false)
      (asleep : blocked t' = true) : Uses holds blocked i t t' m (m.wait i)
  | leave {m : Monitor} (same : holds t' = holds t) : Uses holds blocked i t t' m (m.leave i)
  | notifyOne {m m' : Monitor} {choice : Nat} (awake : blocked t = false)
      (same : holds t' = holds t) (notified : m.notifyOne choice = some m') :
      Uses holds blocked i t t' m m'
  | notifyAll {m : Monitor} (same : holds t' = holds t) :
      Uses holds blocked i t t' m m.notifyAll

/-- **Every use of the monitor keeps it.** -/
theorem Keeps.uses (inv : Keeps holds blocked m threads) (found : threads[i]? = some t)
    (use : Uses holds blocked i t t' m m') : Keeps holds blocked m' (threads.set i t') := by
  cases use with
  | quiet awake same => exact inv.quiet found same awake
  | acquire awake hold taken => exact inv.acquire found taken awake hold
  | release awake hold hold' => exact inv.release found hold awake hold'
  | wait hold hold' asleep => exact inv.wait found hold hold' asleep
  | leave same => exact inv.leave found same
  | notifyOne awake same notified => exact inv.notifyOne found notified same awake
  | notifyAll same => exact inv.notifyAll found same

/-- A thread that is in the set after a step was in it, or it held the mutex and waits. -/
theorem Uses.mem_waiting (use : Uses holds blocked i t t' m m') {j : Nat}
    (member : j ∈ m'.waiting) : j ∈ m.waiting ∨ j = i ∧ holds t = true ∧ blocked t' = true := by
  cases use with
  | quiet awake same => exact .inl member
  | acquire awake hold taken =>
      obtain ⟨-, rfl⟩ := acquire_eq_some taken
      exact .inl member
  | release awake hold hold' => exact .inl member
  | wait hold hold' asleep =>
      rcases List.mem_cons.mp member with rfl | before
      · exact .inr ⟨rfl, hold, asleep⟩
      · exact .inl before
  | leave same => exact .inl ((mem_leave_waiting m i j).mp member).1
  | notifyOne awake same notified => exact .inl (notifyOne_subset notified member)
  | notifyAll same => simp at member

/-- The owner after a step owned the mutex before it, or is the mover. -/
theorem Uses.owner_cases (use : Uses holds blocked i t t' m m') {j : Nat}
    (owner : m'.owner = some j) : m.owner = some j ∨ j = i := by
  cases use with
  | quiet awake same => exact .inl owner
  | acquire awake hold taken =>
      obtain ⟨-, rfl⟩ := acquire_eq_some taken
      exact .inr (Option.some.inj owner).symm
  | release awake hold hold' => cases owner
  | wait hold hold' asleep => cases owner
  | leave same => exact .inl owner
  | notifyOne awake same notified => exact .inl (notifyOne_owner notified ▸ owner)
  | notifyAll same => exact .inl owner

end Monitor

end LoonyRuntime.Concurrent
