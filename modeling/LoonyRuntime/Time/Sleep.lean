import LoonyRuntime.Collections.MaxHeap
import LoonyRuntime.Concurrent.Threads

/-!
# Sleeping futures

`TimeDriver::sleep` of `time/mod.rs` makes a `Sleep` with a deadline. The first poll before the
deadline pushes an entry with the waker of its context into the heap of the driver and marks the
`Sleep` as registered. A later poll does not look at its waker, and no code takes entries out of the
heap.

The machine is a driver with any number of `Sleep`s that share it. A `Sleep` is armed when its
latest poll, if that returned `Pending`, has left one entry of it in the heap, with its deadline and
with the waker of that poll. It is armed along a run exactly when each of its polls that returns
`Pending` is given the waker of the ones before (`armed_along_iff`).

The driver wakes no waker: its own is never set, and the wakers of its entries are woken by nobody,
so the entries only add up (`driver_wakes_nobody`).

The order of the entries, which the source does not define, is a parameter, and so is the heap.
-/

set_option autoImplicit false

namespace LoonyRuntime.Time

open Collections Concurrent

variable {W : Type}

/-! ## Operations -/

/-- `TimeEntry`, with the number of the `Sleep` that has pushed it. -/
structure TimeEntry (W : Type) where
  sleep : Nat
  deadline : Nat
  waker : W
deriving DecidableEq, Repr

/-- A max-heap of reversed entries: `BinaryHeap<Reverse<TimeEntry>>`. -/
abbrev SleepHeap (W : Type) (cmp : TimeEntry W → TimeEntry W → Ordering) := MaxHeap (TimeEntry W) cmp

variable {cmp : TimeEntry W → TimeEntry W → Ordering}

structure TimeDriverInner (H : SleepHeap W cmp) where
  timers : H.Heap
  waker : Option W

/-- `Sleep`, without its reference to the driver. -/
structure Sleep where
  deadline : Nat
  registered : Bool
deriving DecidableEq, Repr

/-- The result of a poll. -/
inductive SleepPoll where
  | ready
  | pending
deriving DecidableEq, Repr

variable {H : SleepHeap W cmp}

/-- `TimeDriver::new`. -/
def TimeDriverInner.new (H : SleepHeap W cmp) : TimeDriverInner H := ⟨H.new, none⟩

/-- The push of an entry, with the waker of the driver taken. -/
def TimeDriverInner.register (inner : TimeDriverInner H) (entry : TimeEntry W) :
    TimeDriverInner H where
  timers := H.push inner.timers entry
  waker := none

/-- What a poll leaves behind, with the driver's waker if it was woken. -/
structure SleepPolled (H : SleepHeap W cmp) where
  result : SleepPoll
  self : Sleep
  inner : TimeDriverInner H
  woken : Option W

/-- `Sleep::poll` of the `Sleep` with the number `id`, at a reading of the clock. -/
def Sleep.poll (self : Sleep) (inner : TimeDriverInner H) (id now : Nat) (cx : W) :
    SleepPolled H :=
  if self.deadline ≤ now then ⟨.ready, self, inner, none⟩
  else if self.registered then ⟨.pending, self, inner, none⟩
  else ⟨.pending, { self with registered := true }, inner.register ⟨id, self.deadline, cx⟩,
    inner.waker⟩

/-! ## The machine -/

/-- A `Sleep`, and the waker of its latest poll if that poll returned `Pending`. -/
structure Sleeper (W : Type) extends Sleep where
  latest : Option W
deriving DecidableEq, Repr

/-- A driver with its `Sleep`s, the latest reading of the clock, and the wakers of the driver that
were woken. -/
structure SleepState (H : SleepHeap W cmp) where
  clock : Nat
  inner : TimeDriverInner H
  sleeps : List (Sleeper W)
  woken : List W

inductive SleepOp (W : Type) where
  /-- `TimeDriver::sleep`, at a reading of the clock. -/
  | sleep (now duration : Nat)
  | poll (id now : Nat) (cx : W)

namespace SleepState

def new (H : SleepHeap W cmp) : SleepState H := ⟨0, .new H, [], []⟩

def poll (s : SleepState H) (id now : Nat) (cx : W) (sleeper : Sleeper W) : SleepState H :=
  let polled := sleeper.toSleep.poll s.inner id now cx
  { clock := now
    inner := polled.inner
    sleeps := s.sleeps.set id ⟨polled.self, if polled.result = .pending then some cx else none⟩
    woken := polled.woken.toList ++ s.woken }

/-- One call. Readings of the clock do not decrease. -/
def step (s : SleepState H) : SleepOp W → Option (SleepState H)
  | .sleep now duration =>
      if s.clock ≤ now then
        some { s with clock := now, sleeps := s.sleeps ++ [⟨⟨now + duration, false⟩, none⟩] }
      else none
  | .poll id now cx => if s.clock ≤ now then s.sleeps[id]?.map (s.poll id now cx) else none

/-- The entries of a `Sleep` in the heap. -/
def entries (s : SleepState H) (id : Nat) : Multiset (TimeEntry W) :=
  (H.items s.inner.timers).filter (·.sleep = id)

end SleepState

/-- The machine of a driver: its labels are the calls. -/
def sleeping (H : SleepHeap W cmp) : Machine (SleepState H) (SleepOp W) where
  initial s := s = .new H
  step := SleepState.step

/-! ## Armed sleeps -/

/-- If the latest poll of the `Sleep` returned `Pending`, then the heap holds one entry of it, with
its deadline and with the waker of that poll. -/
def Armed (id : Nat) (s : SleepState H) : Prop :=
  ∀ sleeper cx, s.sleeps[id]? = some sleeper → sleeper.latest = some cx →
    s.entries id = {⟨id, sleeper.deadline, cx⟩}

/-- A poll of the `Sleep` before its deadline is given the waker of the poll before, if that one
returned `Pending`. -/
def sameWaker [DecidableEq W] (id : Nat) (s : SleepState H) : SleepOp W → Bool
  | .poll id' now cx =>
      id' != id || s.sleeps[id]?.all fun sleeper =>
        decide (sleeper.deadline ≤ now) || (sleeper.latest.isNone || sleeper.latest == some cx)
  | .sleep _ _ => true

/-- A `Sleep` that is not registered has no entry, and its latest poll, if any, did not return
`Pending`. The latest poll of a registered one did, as long as its deadline lies ahead. -/
structure Sleeper.Fits (sleeper : Sleeper W) (clock : Nat) (entries : Multiset (TimeEntry W)) :
    Prop where
  unregistered : sleeper.registered = false → entries = 0 ∧ sleeper.latest = none
  waits : sleeper.registered = true → clock < sleeper.deadline → sleeper.latest ≠ none

/-- What the heap holds of the `Sleep`s. -/
structure Registered (s : SleepState H) : Prop where
  unknown : ∀ id, s.sleeps.length ≤ id → s.entries id = 0
  each : ∀ (id : Nat) (sleeper : Sleeper W), s.sleeps[id]? = some sleeper →
    sleeper.Fits s.clock (s.entries id)

/-- What a poll does to the `Sleep` with the number `id`. -/
inductive Polls (s : SleepState H) (id now : Nat) (cx : W) (sleeper : Sleeper W) :
    SleepState H → Prop where
  | ready (due : sleeper.deadline ≤ now) :
      Polls s id now cx sleeper { s with
        clock := now, sleeps := s.sleeps.set id { sleeper with latest := none } }
  | again (early : now < sleeper.deadline) (registered : sleeper.registered = true) :
      Polls s id now cx sleeper { s with
        clock := now, sleeps := s.sleeps.set id { sleeper with latest := some cx } }
  | first (early : now < sleeper.deadline) (unregistered : sleeper.registered = false) :
      Polls s id now cx sleeper { s with
        clock := now
        inner := s.inner.register ⟨id, sleeper.deadline, cx⟩
        sleeps := s.sleeps.set id { sleeper with registered := true, latest := some cx }
        woken := s.inner.waker.toList ++ s.woken }

theorem polls_poll (s : SleepState H) (id now : Nat) (cx : W) (sleeper : Sleeper W) :
    Polls s id now cx sleeper (s.poll id now cx sleeper) := by
  unfold SleepState.poll Sleep.poll
  by_cases due : sleeper.deadline ≤ now
  · rw [if_pos due]
    exact .ready due
  · have early : now < sleeper.deadline := Nat.lt_of_not_le due
    rw [if_neg due]
    cases registered : sleeper.registered with
    | true => exact .again early registered
    | false => exact .first early registered

/-- A push adds to the entries of its `Sleep`. -/
theorem entries_register (s : SleepState H) (inner : TimeDriverInner H) (entry : TimeEntry W)
    (pushed : inner = s.inner.register entry) (id : Nat) :
    (H.items inner.timers).filter (·.sleep = id) =
      if entry.sleep = id then entry ::ₘ s.entries id else s.entries id := by
  subst pushed
  simp only [TimeDriverInner.register, H.items_push, SleepState.entries]
  split
  · next mine => exact Multiset.filter_cons_of_pos _ mine
  · next other => exact Multiset.filter_cons_of_neg _ other

theorem Registered.new (H : SleepHeap W cmp) : Registered (SleepState.new H) where
  unknown := by
    intro id _
    simp [SleepState.entries, SleepState.new, TimeDriverInner.new]
  each := nofun

theorem Sleeper.Fits.later {sleeper : Sleeper W} {clock clock' : Nat}
    {entries : Multiset (TimeEntry W)} (fits : sleeper.Fits clock entries)
    (later : clock ≤ clock') : sleeper.Fits clock' entries where
  unregistered := fits.unregistered
  waits := fun registered early => fits.waits registered (Nat.lt_of_le_of_lt later early)

/-- One `Sleep` changes, with its entries. -/
theorem Registered.set {s s' : SleepState H} {id : Nat} {sleeper' : Sleeper W}
    (inv : Registered s) (later : s.clock ≤ s'.clock) (within : id < s.sleeps.length)
    (sleeps : s'.sleeps = s.sleeps.set id sleeper')
    (others : ∀ other, other ≠ id → s'.entries other = s.entries other)
    (fits : sleeper'.Fits s'.clock (s'.entries id)) : Registered s' where
  unknown := by
    intro other beyond
    rw [sleeps, List.length_set] at beyond
    rw [others other (Nat.ne_of_gt (Nat.lt_of_lt_of_le within beyond))]
    exact inv.unknown other beyond
  each := by
    intro other sleeper found
    rw [sleeps] at found
    rcases Pool.getElem?_set_cases found with ⟨rfl, rfl⟩ | ⟨differs, before⟩
    · exact fits
    · rw [others other differs]
      exact (inv.each other sleeper before).later later

/-- Where one `Sleep` changes, another one is armed as before if its entries are as before. -/
theorem Armed.of_other {s s' : SleepState H} {id mine : Nat} {sleeper' : Sleeper W}
    (armed : Armed mine s) (differs : mine ≠ id) (sleeps : s'.sleeps = s.sleeps.set id sleeper')
    (entries : s'.entries mine = s.entries mine) : Armed mine s' := by
  intro sleeper cx found latest
  rw [sleeps, List.getElem?_set_ne (Ne.symm differs)] at found
  rw [entries]
  exact armed sleeper cx found latest

/-- The `Sleep` that changes is armed if its entry has the waker of its latest poll. -/
theorem armed_set_iff {s s' : SleepState H} {id : Nat} {sleeper sleeper' : Sleeper W}
    (found : s.sleeps[id]? = some sleeper) (sleeps : s'.sleeps = s.sleeps.set id sleeper') :
    Armed id s' ↔ ∀ cx, sleeper'.latest = some cx →
      s'.entries id = {⟨id, sleeper'.deadline, cx⟩} := by
  have here : s'.sleeps[id]? = some sleeper' := by
    rw [sleeps]
    exact Pool.getElem?_set_self sleeper' found
  constructor
  · intro armed cx latest
    exact armed sleeper' cx here latest
  · intro armed sleeper'' cx found' latest
    obtain rfl : sleeper' = sleeper'' := Option.some.inj (here.symm.trans found')
    exact armed cx latest

/-- **A poll** keeps what the heap holds of the `Sleep`s, and keeps a `Sleep` armed exactly if it is
given the same waker. -/
theorem armed_poll [DecidableEq W] {s s' : SleepState H} {id now : Nat} {cx : W}
    {sleeper : Sleeper W} (inv : Registered s) (later : s.clock ≤ now)
    (found : s.sleeps[id]? = some sleeper) (polls : Polls s id now cx sleeper s') :
    Registered s' ∧ ∀ mine, Armed mine s →
      (Armed mine s' ↔ sameWaker mine s (.poll id now cx) = true) := by
  obtain ⟨within, -⟩ := List.getElem?_eq_some_iff.mp found
  have fits := inv.each id sleeper found
  -- another `Sleep` is armed as before
  have other : ∀ {sleeper' : Sleeper W} {mine : Nat}, s'.sleeps = s.sleeps.set id sleeper' →
      (∀ other, other ≠ id → s'.entries other = s.entries other) → mine ≠ id → Armed mine s →
      (Armed mine s' ↔ sameWaker mine s (.poll id now cx) = true) := by
    intro sleeper' mine sleeps others differs armed
    exact iff_of_true (armed.of_other differs sleeps (others mine differs))
      (by simp [sameWaker, Ne.symm differs])
  cases polls with
  | ready due =>
      refine ⟨inv.set later within rfl (fun _ _ => rfl) ⟨?_, ?_⟩, ?_⟩
      · intro unregistered
        exact ⟨(fits.unregistered unregistered).1, rfl⟩
      · intro _ early
        exact absurd due (Nat.not_le_of_lt early)
      · intro mine armed
        by_cases differs : mine = id
        · subst differs
          rw [armed_set_iff found rfl]
          exact iff_of_true nofun (by simp [sameWaker, found, due])
        · exact other rfl (fun _ _ => rfl) differs armed
  | again early registered =>
      refine ⟨inv.set later within rfl (fun _ _ => rfl) ⟨?_, ?_⟩, ?_⟩
      · intro unregistered
        rw [registered] at unregistered
        cases unregistered
      · exact fun _ _ => nofun
      · intro mine armed
        by_cases differs : mine = id
        · subst differs
          obtain ⟨first, latest⟩ := Option.ne_none_iff_exists'.mp
            (fits.waits registered (Nat.lt_of_le_of_lt later early))
          have entries := armed sleeper first found latest
          have tells : sameWaker mine s (.poll mine now cx) = true ↔ first = cx := by
            simp [sameWaker, found, latest, early]
          rw [armed_set_iff found rfl, tells]
          constructor
          · intro armed'
            have same := entries.symm.trans (armed' cx rfl)
            exact congrArg TimeEntry.waker (Multiset.singleton_inj.mp same)
          · rintro rfl cx' ⟨⟩
            exact entries
        · exact other rfl (fun _ _ => rfl) differs armed
  | first early unregistered =>
      obtain ⟨none, latest⟩ := fits.unregistered unregistered
      have entries := entries_register s _ ⟨id, sleeper.deadline, cx⟩ rfl
      have others : ∀ other, other ≠ id →
          (H.items (s.inner.register ⟨id, sleeper.deadline, cx⟩).timers).filter (·.sleep = other) =
            s.entries other := by
        intro other differs
        rw [entries, if_neg (Ne.symm differs)]
      refine ⟨inv.set later within rfl others ⟨nofun, fun _ _ => nofun⟩, ?_⟩
      intro mine armed
      by_cases differs : mine = id
      · subst differs
        rw [armed_set_iff found rfl]
        refine iff_of_true ?_ (by simp [sameWaker, found, latest])
        rintro cx' ⟨⟩
        show (H.items _).filter _ = _
        rw [entries, if_pos rfl, none]
        rfl
      · exact other rfl others differs armed

/-- A new `Sleep` is not armed, and the others are as before. -/
theorem armed_sleep {s : SleepState H} {now : Nat} (deadline : Nat) (inv : Registered s)
    (later : s.clock ≤ now) :
    let s' := { s with clock := now, sleeps := s.sleeps ++ [⟨⟨deadline, false⟩, none⟩] }
    Registered s' ∧ ∀ mine, Armed mine s → Armed mine s' := by
  intro s'
  -- a `Sleep` of the longer list is an old one or the new one
  have cases_of : ∀ {id : Nat} {sleeper : Sleeper W}, s'.sleeps[id]? = some sleeper →
      s.sleeps[id]? = some sleeper ∨
        id = s.sleeps.length ∧ sleeper = ⟨⟨deadline, false⟩, none⟩ := by
    intro id sleeper found
    rcases Nat.lt_trichotomy id s.sleeps.length with within | rfl | beyond
    · exact .inl (by rwa [List.getElem?_append_left within] at found)
    · rw [List.getElem?_concat_length] at found
      exact .inr ⟨rfl, (Option.some.inj found).symm⟩
    · rw [List.getElem?_eq_none (by simpa [s'] using beyond)] at found
      cases found
  refine ⟨⟨?_, ?_⟩, ?_⟩
  · intro id beyond
    exact inv.unknown id (by simp [s'] at beyond; omega)
  · intro id sleeper found
    rcases cases_of found with before | ⟨rfl, rfl⟩
    · exact (inv.each id sleeper before).later later
    · exact ⟨fun _ => ⟨inv.unknown _ (Nat.le_refl _), rfl⟩, nofun⟩
  · intro mine armed sleeper cx found latest
    rcases cases_of found with before | ⟨rfl, rfl⟩
    · exact armed sleeper cx before latest
    · cases latest

/-- **A `Sleep` is armed along every run exactly when** each of its polls before the deadline is
given the waker of the ones before. -/
theorem armed_along_iff [DecidableEq W] (H : SleepHeap W cmp) (id : Nat) (ops : List (SleepOp W)) :
    (sleeping H).Always (Armed id) (.new H) ops ↔
      (sleeping H).Meets (fun s op => sameWaker id s op = true) (.new H) ops := by
  have step : ∀ (s : SleepState H) (op : SleepOp W) (s' : SleepState H), Registered s →
      (sleeping H).step s op = some s' →
      Registered s' ∧ (Armed id s → (Armed id s' ↔ sameWaker id s op = true)) := by
    intro s op s' inv taken
    cases op with
    | sleep now duration =>
        obtain ⟨later, same⟩ := Option.ite_none_right_eq_some.mp taken
        cases same
        obtain ⟨registered, keeps⟩ := armed_sleep (now + duration) inv later
        exact ⟨registered, fun armed => iff_of_true (keeps id armed) rfl⟩
    | poll id' now cx =>
        obtain ⟨later, same⟩ := Option.ite_none_right_eq_some.mp taken
        obtain ⟨sleeper, found, rfl⟩ := Option.map_eq_some_iff.mp same
        obtain ⟨registered, decides⟩ :=
          armed_poll inv later found (polls_poll s id' now cx sleeper)
        exact ⟨registered, decides id⟩
  refine Machine.always_iff_meets_of (R := Registered) ?_ ?_ (.new H) nofun
  · intro s op s' inv _ taken
    exact (step s op s' inv taken).1
  · intro s op s' inv armed taken
    exact (step s op s' inv taken).2 armed

/-- The entries of a heap that is a list. -/
def SleepState.listed (s : SleepState (MaxHeap.ofList (TimeEntry W) cmp)) : List (TimeEntry W) :=
  s.inner.timers

/-- A `Sleep` is polled with the waker `1`, and then, in another task, with the waker `2`. -/
def polledByTwo : List (SleepOp Nat) := [.sleep 0 10, .poll 0 1 1, .poll 0 2 2]

/-- The entry has the waker of the first poll still. -/
theorem rearm_forgotten : ∃ s : SleepState
      (MaxHeap.ofList (TimeEntry Nat) fun a b => compare b.deadline a.deadline),
    (sleeping _).Reaches s ∧ ¬Armed 0 s ∧ s.entries 0 = {⟨0, 10, 1⟩} ∧
      s.sleeps = [⟨⟨10, true⟩, some 2⟩] := by
  obtain ⟨s, reached, tested⟩ := (sleeping (MaxHeap.ofList (TimeEntry Nat)
      fun a b => compare b.deadline a.deadline)).exists_reaches_of_test
    (fun s => s.listed == [⟨0, 10, 1⟩] && s.sleeps == [⟨⟨10, true⟩, some 2⟩]) polledByTwo rfl
    (by decide)
  rw [Bool.and_eq_true, beq_iff_eq, beq_iff_eq] at tested
  obtain ⟨listed, sleeps⟩ := tested
  have entries : s.entries 0 = {⟨0, 10, 1⟩} := by
    show ((s.listed : List (TimeEntry Nat)) : Multiset (TimeEntry Nat)).filter _ = _
    rw [listed]
    rfl
  refine ⟨s, reached, ?_, entries, sleeps⟩
  intro armed
  have same := entries.symm.trans (armed ⟨⟨10, true⟩, some 2⟩ 2 (by rw [sleeps]; rfl) rfl)
  cases Multiset.singleton_inj.mp same

/-! ## What the driver wakes -/

/-- No waker was woken, the driver has none of its own, and a `Sleep` that is registered has one
entry. -/
structure Unwoken (s : SleepState H) : Prop where
  woken : s.woken = []
  waker : s.inner.waker = none
  entries : ∀ (id : Nat) (sleeper : Sleeper W), s.sleeps[id]? = some sleeper →
    Multiset.card (s.entries id) = sleeper.registered.toNat
  unknown : ∀ id, s.sleeps.length ≤ id → s.entries id = 0

theorem Unwoken.new (H : SleepHeap W cmp) : Unwoken (SleepState.new H) where
  woken := rfl
  waker := rfl
  entries := nofun
  unknown := (Registered.new H).unknown

/-- A poll wakes nobody, and takes no entry out of the heap. -/
theorem Unwoken.poll {s s' : SleepState H} {id now : Nat} {cx : W} {sleeper : Sleeper W}
    (inv : Unwoken s) (found : s.sleeps[id]? = some sleeper)
    (polls : Polls s id now cx sleeper s') :
    Unwoken s' ∧ ∀ other, s.entries other ≤ s'.entries other := by
  obtain ⟨within, -⟩ := List.getElem?_eq_some_iff.mp found
  have mine := inv.entries id sleeper found
  have changed : ∀ {sleeps : List (Sleeper W)} {sleeper' : Sleeper W} {other : Nat}
      {u : Sleeper W}, sleeps = s.sleeps.set id sleeper' → sleeps[other]? = some u →
      other = id ∧ u = sleeper' ∨ other ≠ id ∧ s.sleeps[other]? = some u := by
    rintro sleeps sleeper' other u rfl here
    rcases Pool.getElem?_set_cases here with ⟨rfl, rfl⟩ | ⟨differs, before⟩
    · exact .inl ⟨rfl, rfl⟩
    · exact .inr ⟨differs, before⟩
  cases polls with
  | ready due =>
      refine ⟨⟨inv.woken, inv.waker, ?_, ?_⟩, fun _ => le_rfl⟩
      · intro other u here
        rcases changed rfl here with ⟨rfl, rfl⟩ | ⟨-, before⟩
        · exact mine
        · exact inv.entries other u before
      · intro other beyond
        exact inv.unknown other (by simpa using beyond)
  | again early registered =>
      refine ⟨⟨inv.woken, inv.waker, ?_, ?_⟩, fun _ => le_rfl⟩
      · intro other u here
        rcases changed rfl here with ⟨rfl, rfl⟩ | ⟨-, before⟩
        · exact mine
        · exact inv.entries other u before
      · intro other beyond
        exact inv.unknown other (by simpa using beyond)
  | first early unregistered =>
      have entries := entries_register s _ ⟨id, sleeper.deadline, cx⟩ rfl
      rw [unregistered] at mine
      refine ⟨⟨?_, rfl, ?_, ?_⟩, ?_⟩
      · simp [inv.waker, inv.woken]
      · intro other u here
        show Multiset.card ((H.items _).filter _) = _
        rw [entries]
        rcases changed rfl here with ⟨rfl, rfl⟩ | ⟨differs, before⟩
        · rw [if_pos rfl, Multiset.card_cons, mine]
          rfl
        · rw [if_neg (Ne.symm differs)]
          exact inv.entries other u before
      · intro other beyond
        have beyond' : s.sleeps.length ≤ other := by simpa using beyond
        show (H.items _).filter _ = _
        rw [entries, if_neg (Nat.ne_of_lt (Nat.lt_of_lt_of_le within beyond'))]
        exact inv.unknown other beyond'
      · intro other
        show _ ≤ (H.items _).filter _
        rw [entries]
        split
        · exact Multiset.le_cons_self _ _
        · exact le_rfl

theorem Unwoken.step {s s' : SleepState H} {op : SleepOp W} (inv : Unwoken s)
    (taken : (sleeping H).step s op = some s') :
    Unwoken s' ∧ ∀ other, s.entries other ≤ s'.entries other := by
  cases op with
  | sleep now duration =>
      obtain ⟨later, same⟩ := Option.ite_none_right_eq_some.mp taken
      cases same
      refine ⟨⟨inv.woken, inv.waker, ?_, ?_⟩, fun _ => le_rfl⟩
      · intro other u here
        rcases Nat.lt_or_ge other s.sleeps.length with within | beyond
        · rw [List.getElem?_append_left within] at here
          exact inv.entries other u here
        · rw [List.getElem?_append_right beyond, List.getElem?_singleton] at here
          obtain ⟨-, made⟩ := Option.ite_none_right_eq_some.mp here
          cases made
          exact congrArg Multiset.card (inv.unknown other beyond)
      · intro other beyond
        exact inv.unknown other (by simp at beyond; omega)
  | poll id now cx =>
      obtain ⟨later, same⟩ := Option.ite_none_right_eq_some.mp taken
      obtain ⟨sleeper, found, rfl⟩ := Option.map_eq_some_iff.mp same
      exact inv.poll found (polls_poll s id now cx sleeper)

theorem unwoken {s : SleepState H} (reached : (sleeping H).Reaches s) : Unwoken s := by
  refine reached.invariant (I := Unwoken) ?_ fun s op s' _ inv _ taken => (inv.step taken).1
  rintro _ rfl
  exact .new H

/-- A poll of the `Sleep` before its deadline. -/
def earlyPoll (id : Nat) (s : SleepState H) : SleepOp W → Bool
  | .poll id' now _ => id' == id && s.sleeps[id]?.any fun sleeper => decide (now < sleeper.deadline)
  | .sleep _ _ => false

theorem Unwoken.card_le_one {s : SleepState H} (inv : Unwoken s) (id : Nat) :
    Multiset.card (s.entries id) ≤ 1 := by
  cases found : s.sleeps[id]? with
  | none =>
      rw [inv.unknown id (List.getElem?_eq_none_iff.mp found)]
      exact Nat.zero_le 1
  | some sleeper =>
      rw [inv.entries id sleeper found]
      exact Bool.toNat_le _

/-- A poll before the deadline leaves one entry of its `Sleep`. No other call changes them. -/
theorem Unwoken.card_step {s s' : SleepState H} {op : SleepOp W} (inv : Unwoken s)
    (taken : (sleeping H).step s op = some s') (id : Nat) :
    Multiset.card (s'.entries id) =
      min 1 (Multiset.card (s.entries id) + (earlyPoll id s op).toNat) := by
  have bounded := inv.card_le_one id
  have same {op : SleepOp W} {entries : Multiset (TimeEntry W)} (kept : entries = s.entries id)
      (other : earlyPoll id s op = false) : Multiset.card entries =
        min 1 (Multiset.card (s.entries id) + (earlyPoll id s op).toNat) := by
    rw [kept, other, Bool.toNat_false, Nat.add_zero, Nat.min_eq_right bounded]
  cases op with
  | sleep now duration =>
      obtain ⟨later, made⟩ := Option.ite_none_right_eq_some.mp taken
      cases made
      exact same rfl rfl
  | poll id' now cx =>
      obtain ⟨later, polled⟩ := Option.ite_none_right_eq_some.mp taken
      obtain ⟨sleeper, found, rfl⟩ := Option.map_eq_some_iff.mp polled
      have entries := inv.entries id' sleeper found
      have polls := polls_poll s id' now cx sleeper
      generalize s.poll id' now cx sleeper = s' at polls
      by_cases mine : id' = id
      · subst mine
        have early : earlyPoll id' s (.poll id' now cx) = decide (now < sleeper.deadline) := by
          simp [earlyPoll, found]
        cases polls with
        | ready due => exact same rfl (by simpa [early] using due)
        | again before registered =>
            rw [early, decide_eq_true before]
            refine Eq.trans ?_ (Nat.min_eq_left (Nat.le_add_left 1 _)).symm
            exact entries.trans (by rw [registered]; rfl)
        | first before unregistered =>
            rw [early, decide_eq_true before]
            refine Eq.trans ?_ (Nat.min_eq_left (Nat.le_add_left 1 _)).symm
            show Multiset.card ((H.items _).filter _) = 1
            rw [entries_register s _ ⟨id', sleeper.deadline, cx⟩ rfl, if_pos rfl,
              Multiset.card_cons, entries, unregistered]
            rfl
      · have other : earlyPoll id s (.poll id' now cx) = false := by simp [earlyPoll, mine]
        cases polls with
        | ready due => exact same rfl other
        | again before registered => exact same rfl other
        | first before unregistered =>
            refine same ?_ other
            show (H.items _).filter _ = _
            rw [entries_register s _ ⟨id', sleeper.deadline, cx⟩ rfl, if_neg mine]

/-- **The driver of `time/mod.rs` wakes nobody**: in every run no waker is woken, and the heap has
one entry of each `Sleep` that was polled before its deadline, and none of any other. However late
the clock is, the entries stay for good. -/
theorem driver_wakes_nobody {ops later : List (SleepOp W)} {s s' : SleepState H}
    (ran : (sleeping H).run (.new H) ops = some s)
    (further : (sleeping H).run s later = some s') :
    s.woken = [] ∧
      (∀ id, Multiset.card (s.entries id) =
        min 1 ((sleeping H).count (earlyPoll id) (.new H) ops)) ∧
      ∀ id, s.entries id ≤ s'.entries id := by
  have start : (sleeping H).Reaches (.new H) := .start rfl
  have reached : (sleeping H).Reaches s := Machine.reachesWhen_of_runWhen start ran
  refine ⟨(unwoken reached).woken, ?_, ?_⟩
  · intro id
    have counted := Machine.count_saturates (f := fun s => Multiset.card (s.entries id))
      (fun s op s' (inv : Unwoken s) taken => (inv.step taken).1)
      (fun s op s' (inv : Unwoken s) taken => inv.card_step taken id)
      (.new H) ((Unwoken.new H).card_le_one id) ran
    rwa [(Registered.new H).unknown id (Nat.zero_le id), Multiset.card_zero, Nat.zero_add]
      at counted
  · have kept : ∀ (s₁ : SleepState H) op s₂, (sleeping H).Reaches s₁ →
        (∀ id, s.entries id ≤ s₁.entries id) → True → (sleeping H).step s₁ op = some s₂ →
        ∀ id, s.entries id ≤ s₂.entries id := by
      intro s₁ op s₂ reached₁ before _ taken id
      exact (before id).trans (((unwoken reached₁).step taken).2 id)
    exact (Machine.runWhen_invariant kept reached (fun _ => le_rfl) further).2

/-- A `Sleep` is polled twice before its deadline, and another one is not polled. -/
def polledTwice : List (SleepOp Nat) := [.sleep 0 10, .sleep 0 5, .poll 0 1 1, .poll 0 2 1]

/-- The driver with a heap that is a list. -/
abbrev listing : Machine (SleepState (MaxHeap.ofList (TimeEntry Nat) fun a b =>
    compare b.deadline a.deadline)) (SleepOp Nat) :=
  sleeping _

/-- The entry of the one stays when it is ready, and the other has none. -/
theorem driver_wakes_nobody_ready : ∃ s s', listing.run (.new _) polledTwice = some s ∧
    listing.run s [.poll 0 20 2] = some s' ∧ s'.clock = 20 ∧
    s.woken = [] ∧
      (∀ id, Multiset.card (s.entries id) =
        min 1 (listing.count (earlyPoll id) (.new _) polledTwice)) ∧
      ∀ id, s.entries id ≤ s'.entries id := by
  have ends : ((listing.run (.new _) polledTwice).bind fun s =>
      (listing.run s [.poll 0 20 2]).map (·.clock)) = some 20 := by
    decide
  obtain ⟨s, ran, later⟩ := Option.bind_eq_some_iff.mp ends
  obtain ⟨s', further, clock⟩ := Option.map_eq_some_iff.mp later
  exact ⟨s, s', ran, further, clock, driver_wakes_nobody ran further⟩

end LoonyRuntime.Time
