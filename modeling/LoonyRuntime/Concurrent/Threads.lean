import LoonyRuntime.Concurrent.Machine

/-!
# Pools of threads over a shared state

A pool is a shared state and a list of threads, each with its own local state. A step belongs
to one thread. It reads and writes the shared state and that thread's local state, and leaves
the other threads as they are.

A quantity summed over the threads changes by what the moving thread contributed. `total` is
the sum and `others` is the sum without one thread, so `total_eq_others` and
`total_set_others` split a pool before and after a step at the same remainder.

`interference_free` is the Owicki–Gries rule: an assertion about each thread survives a step
when the moving thread re-establishes its own and no step disturbs another thread's.
-/

set_option autoImplicit false

namespace LoonyRuntime.Concurrent

universe u v w

/-! ## Sums over threads -/

section Totals

variable {π : Type v} (f : π → Nat)

/-- The sum of a quantity over a list of threads. -/
def total (threads : List π) : Nat := (threads.map f).sum

/-- The sum of a quantity over the threads other than the thread `i`. -/
def others (i : Nat) (threads : List π) : Nat := total f (threads.eraseIdx i)

@[simp] theorem total_nil : total f [] = 0 := rfl

@[simp] theorem total_cons (t : π) (threads : List π) :
    total f (t :: threads) = f t + total f threads := by
  simp [total]

@[simp] theorem total_singleton (t : π) : total f [t] = f t := by
  simp [total]

@[simp] theorem total_append (left right : List π) :
    total f (left ++ right) = total f left + total f right := by
  simp [total]

/-- Threads that contribute nothing sum to nothing. -/
theorem total_eq_zero {threads : List π} (none : ∀ t ∈ threads, f t = 0) :
    total f threads = 0 := by
  apply List.sum_eq_zero_iff_forall_eq_nat.mpr
  intro x image
  obtain ⟨t, member, rfl⟩ := List.mem_map.mp image
  exact none t member

/-- Copies of one thread that contributes nothing sum to nothing. -/
theorem total_replicate_eq_zero {n : Nat} {t : π} (none : f t = 0) :
    total f (List.replicate n t) = 0 :=
  total_eq_zero f fun _ member => (List.eq_of_mem_replicate member) ▸ none

/-- **A bound by the number of places.** If only the first `n` threads contribute, and one each at
most, the sum is at most `n`. -/
theorem total_le_places {threads : List π} {n : Nat} (one : ∀ t, f t ≤ 1)
    (first : ∀ i t, threads[i]? = some t → 0 < f t → i < n) : total f threads ≤ n := by
  induction threads generalizing n with
  | nil => exact Nat.zero_le n
  | cons t rest ih =>
      rw [total_cons]
      cases n with
      | zero =>
          have none : f t = 0 := Nat.eq_zero_of_not_pos fun pos => nomatch first 0 t rfl pos
          have later : total f rest ≤ 0 := ih fun i u found pos =>
            absurd (first (i + 1) u found pos) (Nat.not_lt_zero _)
          omega
      | succ n =>
          have here := one t
          have later : total f rest ≤ n := ih fun i u found pos =>
            Nat.lt_of_succ_lt_succ (first (i + 1) u found pos)
          omega

variable {f}

/-- A thread contributes at most the sum. -/
theorem le_total {threads : List π} {t : π} (member : t ∈ threads) :
    f t ≤ total f threads :=
  List.le_sum_of_mem (List.mem_map_of_mem member)

/-- A positive sum has a contributing thread. -/
theorem exists_of_total_pos {threads : List π} (pos : 0 < total f threads) :
    ∃ t ∈ threads, 0 < f t := by
  by_contra absent
  have zero : total f threads = 0 := total_eq_zero f fun t member => by
    by_contra contributes
    exact absent ⟨t, member, Nat.pos_of_ne_zero contributes⟩
  omega

/-- A pointwise bound is a bound of the sums. -/
theorem total_le_total {g : π → Nat} {threads : List π} (bound : ∀ t, f t ≤ g t) :
    total f threads ≤ total g threads :=
  List.sum_le_sum fun t _ => bound t

/-- **A pool splits at one thread.** -/
theorem total_eq_others {threads : List π} {i : Nat} {t : π} (found : threads[i]? = some t) :
    total f threads = f t + others f i threads := by
  induction threads generalizing i with
  | nil => simp at found
  | cons u rest ih =>
      cases i with
      | zero =>
          obtain rfl : u = t := by simpa using found
          simp [others]
      | succ i =>
          have tail : rest[i]? = some t := by simpa using found
          rw [total_cons, ih tail]
          simp only [others, List.eraseIdx_cons_succ, total_cons]
          omega

/-- **A pool splits at the same remainder after that thread moved.** -/
theorem total_set_others {threads : List π} {i : Nat} {t : π} (t' : π)
    (found : threads[i]? = some t) :
    total f (threads.set i t') = f t' + others f i threads := by
  obtain ⟨within, -⟩ := List.getElem?_eq_some_iff.mp found
  have moved : (threads.set i t')[i]? = some t' := by simp [within]
  rw [total_eq_others moved, others, others, List.eraseIdx_set_eq]

/-- Another thread contributes to the remainder. -/
theorem le_others {threads : List π} {i j : Nat} {u : π} (other : j ≠ i)
    (found : threads[j]? = some u) : f u ≤ others f i threads :=
  le_total (List.mem_eraseIdx_iff_getElem?.mpr ⟨j, other, found⟩)

end Totals

/-! ## Threads that are stacks of calls -/

section Stacks

variable {π : Type v} {f g : π → Nat}

/-- Calls that contribute nothing sum to nothing. -/
theorem total_stacks_eq_zero {threads : List (List π)}
    (none : ∀ stack ∈ threads, ∀ call ∈ stack, f call = 0) : total (total f) threads = 0 :=
  total_eq_zero _ fun stack member => total_eq_zero _ (none stack member)

/-- Threads that are inside no call sum to nothing. -/
theorem total_idle_eq_zero (f : π → Nat) (n : Nat) : total (total f) (List.replicate n []) = 0 :=
  total_replicate_eq_zero _ (total_nil f)

/-- A pointwise bound of the calls is a bound of the remainders. -/
theorem others_stacks_le (i : Nat) (threads : List (List π)) (bound : ∀ call, f call ≤ g call) :
    others (total f) i threads ≤ others (total g) i threads :=
  total_le_total fun _ => total_le_total bound

/-- Where no thread is inside a call, every call is as one likes. -/
theorem forall_calls_of_idle {p : π → Prop} {threads : List (List π)}
    (idle : threads.all List.isEmpty = true) : ∀ stack ∈ threads, ∀ call ∈ stack, p call := by
  intro stack member call inside
  have empty := List.isEmpty_iff.mp (List.all_eq_true.mp idle stack member)
  rw [empty] at inside
  cases inside

end Stacks

/-! ## Pools -/

/-- A shared state and the local states of the threads. -/
structure Pool (σ : Type u) (π : Type v) where
  shared : σ
  threads : List π
deriving DecidableEq, Repr

namespace Pool

variable {σ : Type u} {π : Type v} {α : Type w}

/-- A step of one thread, from the step of a thread on the shared state and its own. -/
def step (move : Nat → σ → π → α → Option (σ × π)) (s : Pool σ π) (a : Nat × α) :
    Option (Pool σ π) :=
  match s.threads[a.1]? with
  | none => none
  | some t => (move a.1 s.shared t a.2).map fun r => ⟨r.1, s.threads.set a.1 r.2⟩

variable {move : Nat → σ → π → α → Option (σ × π)}

/-- **A step moves one thread.** -/
theorem step_eq_some {s s' : Pool σ π} {i : Nat} {a : α} (taken : step move s (i, a) = some s') :
    ∃ t shared t', s.threads[i]? = some t ∧ move i s.shared t a = some (shared, t') ∧
      s' = ⟨shared, s.threads.set i t'⟩ := by
  simp only [step] at taken
  split at taken
  · cases taken
  · next t found =>
      obtain ⟨⟨shared, t'⟩, moved, rfl⟩ := Option.map_eq_some_iff.mp taken
      exact ⟨t, shared, t', found, moved, rfl⟩

/-- After a step the moving thread has its new local state. -/
theorem getElem?_set_self {threads : List π} {i : Nat} {t : π} (t' : π)
    (found : threads[i]? = some t) : (threads.set i t')[i]? = some t' := by
  obtain ⟨within, -⟩ := List.getElem?_eq_some_iff.mp found
  simp [within]

/-- After a step a thread is the moved one, or it is as before. -/
theorem getElem?_set_cases {threads : List π} {i j : Nat} {t' u : π}
    (found : (threads.set i t')[j]? = some u) :
    (j = i ∧ u = t') ∨ (j ≠ i ∧ threads[j]? = some u) := by
  by_cases same : j = i
  · subst same
    rw [List.getElem?_set_self'] at found
    cases before : threads[j]? with
    | none => simp [before] at found
    | some t => exact .inl ⟨rfl, by simpa [before] using found.symm⟩
  · exact .inr ⟨same, by rwa [List.getElem?_set_ne (Ne.symm same)] at found⟩

/-- A property of every thread's local state. -/
def Each (p : Nat → π → Prop) (threads : List π) : Prop :=
  ∀ i t, threads[i]? = some t → p i t

/-- **Owicki–Gries.** An assertion about each thread survives a step when the mover
re-establishes its own and the step disturbs no other thread's. -/
theorem interference_free {p p' : Nat → π → Prop} {threads : List π} {i : Nat} {t' : π}
    (each : Each p threads) (mover : p' i t')
    (undisturbed : ∀ j u, j ≠ i → threads[j]? = some u → p j u → p' j u) :
    Each p' (threads.set i t') := by
  intro j u found
  rcases getElem?_set_cases found with ⟨rfl, rfl⟩ | ⟨other, before⟩
  · exact mover
  · exact undisturbed j u other before (each j u before)

/-- **The mover decides.** Where a step disturbs no other thread's assertion, all of them hold after
it exactly if the mover's does. -/
theorem each_set_iff {p p' : Nat → π → Prop} {threads : List π} {i : Nat} {t t' : π}
    (found : threads[i]? = some t) (each : Each p threads)
    (undisturbed : ∀ j u, j ≠ i → threads[j]? = some u → p j u → p' j u) :
    Each p' (threads.set i t') ↔ p' i t' := by
  constructor
  · intro after
    exact after i t' (getElem?_set_self t' found)
  · intro mover
    exact interference_free each mover undisturbed

/-- One thread at most is as `p` says. -/
def AtMostOne (p : π → Bool) (threads : List π) : Prop :=
  ∀ (i j : Nat) (t u : π), threads[i]? = some t → threads[j]? = some u → p t = true →
    p u = true → i = j

/-- Copies of a thread that is not as `p` says. -/
theorem atMostOne_replicate {p : π → Bool} {t : π} (n : Nat) (none : p t = false) :
    AtMostOne p (List.replicate n t) := by
  intro i j u v found _ now
  rw [List.eq_of_mem_replicate (List.mem_of_getElem? found), none] at now
  cases now

/-- **One thread at most** is as `p` says after a step, if the mover was so, or nobody was. -/
theorem AtMostOne.set {p : π → Bool} {threads : List π} (one : AtMostOne p threads) {i : Nat}
    {t t' : π} (found : threads[i]? = some t)
    (enters : p t' = true → p t = true ∨ ∀ u ∈ threads, p u = false) :
    AtMostOne p (threads.set i t') := by
  have mover : ∀ k v, k ≠ i → threads[k]? = some v → p t' = true → p v = true → i = k := by
    intro k v _ foundV now nowV
    rcases enters now with before | none
    · exact one i k t v found foundV before nowV
    · rw [none v (List.mem_of_getElem? foundV)] at nowV
      cases nowV
  intro j k u v foundU foundV nowU nowV
  rcases getElem?_set_cases foundU with ⟨sameU, rfl⟩ | ⟨otherU, beforeU⟩
  · rcases getElem?_set_cases foundV with ⟨sameV, rfl⟩ | ⟨otherV, beforeV⟩
    · exact sameU.trans sameV.symm
    · exact sameU.trans (mover k v otherV beforeV nowU nowV)
  · rcases getElem?_set_cases foundV with ⟨sameV, rfl⟩ | ⟨otherV, beforeV⟩
    · exact (mover j u otherU beforeU nowV nowU).symm.trans sameV.symm
    · exact one j k u v beforeU beforeV nowU nowV

end Pool

end LoonyRuntime.Concurrent
