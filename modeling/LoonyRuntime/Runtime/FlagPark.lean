import LoonyRuntime.Concurrent.History
import LoonyRuntime.Concurrent.Threads

/-!
# The flag parkers

`BlockOnParker` of `MultiThread::block_on` and `SleepPark` of `park.rs` park a thread on a flag and
on the permit that std keeps for each thread. They differ in the thread whose permit an unpark sets:
`BlockOnParker` has stored its own thread, `SleepPark` takes `thread::current()`, the thread that
unparks.

A thread parks in `thread::park` until its permit is set, which it then takes, or returns
spuriously. Other code may set the permit of any thread at any time, and a thread may take its own
permit while it is outside of `park`. One thread parks, thread `0`; any thread unparks, that thread
too.

With the stored thread no unpark is lost (`block_on_parker_keeps_unparks`). With the current thread
an unpark is heard exactly if it does not come while the parking thread sleeps
(`heard_along_iff`).
-/

set_option autoImplicit false

namespace LoonyRuntime.Runtime

open Concurrent

/-! ## Steps -/

/-- `BlockOnParker` or `SleepPark`. -/
inductive FlagParkImpl where
  | blockOnParker
  | sleepPark
deriving DecidableEq, Repr

/-- The thread that an unpark by thread `i` calls `Thread::unpark` on. -/
def FlagParkImpl.thread : FlagParkImpl → Nat → Nat
  | .blockOnParker, _ => 0
  | .sleepPark, i => i

/-- What has happened to the flag. -/
inductive FlagEvent where
  /-- A thread's `unpark` has stored `true`. -/
  | stored (thread : Nat)
  /-- The swap of `park` has found `false`. -/
  | foundFalse
  /-- The swap of `park` has taken `true`, and `park` returns. -/
  | parkReturned
deriving DecidableEq, Repr

/-- The flag, and the permits of the threads. -/
structure FlagParker where
  flag : Bool
  permits : Nat → Bool
  log : List FlagEvent

def FlagParker.new : FlagParker := ⟨false, fun _ => false, []⟩

/-- `Thread::unpark`. -/
def FlagParker.setPermit (s : FlagParker) (thread : Nat) : FlagParker :=
  { s with permits := Function.update s.permits thread true }

/-- `thread::park` takes the permit. -/
def FlagParker.takePermit (s : FlagParker) (thread : Nat) : FlagParker :=
  { s with permits := Function.update s.permits thread false }

/-- Where a thread is. -/
inductive FlagPc where
  /-- Inside no call. -/
  | idle
  /-- The swap of `park`. -/
  | swap
  /-- Inside `thread::park`. -/
  | parked
  /-- `unpark` has found `false`, and calls `Thread::unpark`. -/
  | unparkThread
deriving DecidableEq, Repr

inductive FlagLabel where
  | park
  /-- `unpark` is called: its swap. -/
  | unpark
  /-- The next operation. `thread::park` returns by the permit. -/
  | next
  /-- `thread::park` returns spuriously. -/
  | spurious
  /-- Other code sets a permit. -/
  | setPermit (thread : Nat)
  /-- Other code of the thread takes its permit. -/
  | takePermit
deriving DecidableEq, Repr

/-- One step of thread `i`. -/
def FlagPc.move (impl : FlagParkImpl) (i : Nat) (s : FlagParker) :
    FlagPc → FlagLabel → Option (FlagParker × FlagPc)
  | .idle, .park => if i = 0 then some (s, .swap) else none
  | .swap, .next =>
      if s.flag = true then some ({ s with flag := false, log := .parkReturned :: s.log }, .idle)
      else some ({ s with log := .foundFalse :: s.log }, .parked)
  | .parked, .next => if s.permits i = true then some (s.takePermit i, .swap) else none
  | .parked, .spurious => some (s, .swap)
  | .idle, .unpark =>
      some ({ s with flag := true, log := .stored i :: s.log },
        if s.flag = true then .idle else .unparkThread)
  | .unparkThread, .next => some (s.setPermit (impl.thread i), .idle)
  | .idle, .setPermit thread => some (s.setPermit thread, .idle)
  | .idle, .takePermit => some (s.takePermit i, .idle)
  | _, _ => none

abbrev FlagState := Pool FlagParker FlagPc

/-- A new parker with `n` threads. -/
def flagParkingWith (n : Nat) : FlagState := ⟨.new, List.replicate n .idle⟩

/-- The machine of a flag parker. -/
def flagParking (impl : FlagParkImpl) : Machine FlagState (Nat × FlagLabel) where
  initial s := ∃ n, s = flagParkingWith n
  step := Pool.step (FlagPc.move impl)

/-! ## What a step can do -/

namespace FlagParker

@[simp] theorem setPermit_flag (s : FlagParker) (i : Nat) : (s.setPermit i).flag = s.flag := rfl

@[simp] theorem setPermit_log (s : FlagParker) (i : Nat) : (s.setPermit i).log = s.log := rfl

@[simp] theorem takePermit_flag (s : FlagParker) (i : Nat) : (s.takePermit i).flag = s.flag := rfl

@[simp] theorem takePermit_log (s : FlagParker) (i : Nat) : (s.takePermit i).log = s.log := rfl

@[simp] theorem setPermit_self (s : FlagParker) (i : Nat) : (s.setPermit i).permits i = true := by
  simp [setPermit]

/-- A permit that is set stays set when another is. -/
theorem setPermit_of_set {s : FlagParker} {j : Nat} (i : Nat) (set : s.permits j = true) :
    (s.setPermit i).permits j = true := by
  by_cases same : j = i
  · subst same
    exact s.setPermit_self j
  · simpa [setPermit, same] using set

theorem setPermit_other {s : FlagParker} {i j : Nat} (other : j ≠ i) :
    (s.setPermit i).permits j = s.permits j := by
  simp [setPermit, other]

theorem takePermit_other {s : FlagParker} {i j : Nat} (other : j ≠ i) :
    (s.takePermit i).permits j = s.permits j := by
  simp [takePermit, other]

end FlagParker

namespace FlagPc

/-- The outcomes of one step of thread `i`. -/
inductive Step (impl : FlagParkImpl) (i : Nat) (s : FlagParker) :
    FlagPc → FlagLabel → FlagParker → FlagPc → Prop where
  | park (first : i = 0) : Step impl i s .idle .park s .swap
  | returns (set : s.flag = true) :
      Step impl i s .swap .next { s with flag := false, log := .parkReturned :: s.log } .idle
  | sleeps (unset : s.flag = false) :
      Step impl i s .swap .next { s with log := .foundFalse :: s.log } .parked
  | permitted (permit : s.permits i = true) : Step impl i s .parked .next (s.takePermit i) .swap
  | spurious : Step impl i s .parked .spurious s .swap
  | unparkSet (set : s.flag = true) :
      Step impl i s .idle .unpark { s with flag := true, log := .stored i :: s.log } .idle
  | unpark (unset : s.flag = false) :
      Step impl i s .idle .unpark { s with flag := true, log := .stored i :: s.log } .unparkThread
  | unparkThread : Step impl i s .unparkThread .next (s.setPermit (impl.thread i)) .idle
  | setPermit (thread : Nat) : Step impl i s .idle (.setPermit thread) (s.setPermit thread) .idle
  | takePermit : Step impl i s .idle .takePermit (s.takePermit i) .idle

variable {impl : FlagParkImpl} {i : Nat} {s s' : FlagParker} {pc pc' : FlagPc} {l : FlagLabel}

/-- **A step has one of these outcomes.** -/
theorem step_of_move (moved : pc.move impl i s l = some (s', pc')) : Step impl i s pc l s' pc' := by
  cases pc with
  | idle =>
      cases l with
      | park =>
          simp only [move] at moved
          split at moved
          · next first =>
              cases moved
              exact .park first
          · cases moved
      | unpark =>
          simp only [move] at moved
          cases flag : s.flag with
          | true =>
              rw [flag] at moved
              cases moved
              exact .unparkSet flag
          | false =>
              rw [flag] at moved
              cases moved
              exact .unpark flag
      | setPermit thread =>
          cases moved
          exact .setPermit thread
      | takePermit =>
          cases moved
          exact .takePermit
      | next | spurious => cases moved
  | swap =>
      cases l with
      | next =>
          simp only [move] at moved
          split at moved
          · next set =>
              cases moved
              exact .returns set
          · next unset =>
              cases moved
              exact .sleeps (Bool.eq_false_of_not_eq_true unset)
      | _ => cases moved
  | parked =>
      cases l with
      | next =>
          simp only [move] at moved
          split at moved
          · next permit =>
              cases moved
              exact .permitted permit
          · cases moved
      | spurious =>
          cases moved
          exact .spurious
      | _ => cases moved
  | unparkThread =>
      cases l with
      | next =>
          cases moved
          exact .unparkThread
      | _ => cases moved

end FlagPc

/-! ## Unparks that are not heard -/

/-- The parking thread is inside `thread::park` and has no permit. -/
def asleep (s : FlagState) : Bool := s.threads[0]? == some .parked && !s.shared.permits 0

/-- The parking thread is asleep although the flag is set. -/
def Unheard (s : FlagState) : Prop := asleep s = true ∧ s.shared.flag = true

/-- It is asleep so, and every `unpark` has finished. -/
def Stuck (s : FlagState) : Prop := Unheard s ∧ ∀ pc ∈ s.threads, pc ≠ .unparkThread

/-- No `unpark` comes while the parking thread is asleep. -/
def heard (s : FlagState) (a : Nat × FlagLabel) : Bool := !(a.2 == .unpark && asleep s)

theorem asleep_iff {s : FlagState} :
    asleep s = true ↔ s.threads[0]? = some .parked ∧ s.shared.permits 0 = false := by
  simp [asleep]

theorem heard_iff {s : FlagState} {i : Nat} {l : FlagLabel} :
    heard s (i, l) = true ↔ ¬(l = .unpark ∧ asleep s = true) := by
  rw [heard, Bool.not_eq_true', ← Bool.not_eq_true]
  simp

section Steps

variable {impl : FlagParkImpl} {i : Nat} {s : FlagState} {shared : FlagParker} {pc pc' : FlagPc}
  {l : FlagLabel}

/-- **The parking thread comes to miss an unpark** by an `unpark` that comes while it is asleep. -/
theorem unheard_step_iff (found : s.threads[i]? = some pc)
    (step : FlagPc.Step impl i s.shared pc l shared pc') (before : ¬Unheard s) :
    Unheard ⟨shared, s.threads.set i pc'⟩ ↔ l = .unpark ∧ asleep s = true := by
  simp only [Unheard, asleep_iff] at before ⊢
  by_cases first : i = 0
  · subst first
    rw [Pool.getElem?_set_self pc' found, found]
    cases step with
    | sleeps unset => simp [unset]
    | _ => simp
  · rw [List.getElem?_set_ne first]
    cases step with
    | park isFirst => exact absurd isFirst first
    | returns | sleeps | spurious => simp_all
    | permitted | takePermit =>
        rw [FlagParker.takePermit_other (Ne.symm first)]
        simp_all
    | unparkSet set =>
        constructor
        · exact fun missed => absurd ⟨missed.1, set⟩ before
        · exact fun missed => absurd ⟨missed.2, set⟩ before
    | unpark unset => simp
    | unparkThread | setPermit =>
        refine iff_of_false (fun missed => before ⟨⟨missed.1.1, ?_⟩, missed.2⟩) (by simp)
        apply Bool.eq_false_of_not_eq_true
        intro set
        simp [FlagParker.setPermit_of_set _ set] at missed

end Steps

/-- A step of the machine, with its outcome. -/
theorem flagStep_of_taken {impl : FlagParkImpl} {s s' : FlagState} {i : Nat} {l : FlagLabel}
    (taken : (flagParking impl).step s (i, l) = some s') :
    ∃ pc shared pc', s.threads[i]? = some pc ∧ FlagPc.Step impl i s.shared pc l shared pc' ∧
      s' = ⟨shared, s.threads.set i pc'⟩ := by
  replace taken : Pool.step (FlagPc.move impl) s (i, l) = some s' := taken
  obtain ⟨pc, shared, pc', found, moved, rfl⟩ := Pool.step_eq_some taken
  exact ⟨pc, shared, pc', found, FlagPc.step_of_move moved, rfl⟩

theorem not_unheard_flagParkingWith (n : Nat) : ¬Unheard (flagParkingWith n) :=
  fun missed => nomatch missed.2

/-- **Every unpark is heard exactly along the runs in which none comes while the parking thread is
asleep.** -/
theorem heard_along_iff (impl : FlagParkImpl) (n : Nat) (labels : List (Nat × FlagLabel)) :
    (flagParking impl).Always (fun s => ¬Unheard s) (flagParkingWith n) labels ↔
      (flagParking impl).Meets (fun s a => heard s a = true) (flagParkingWith n) labels := by
  refine Machine.always_iff_meets ?_ (.start ⟨n, rfl⟩) (not_unheard_flagParkingWith n)
  rintro s ⟨i, l⟩ s' - before taken
  obtain ⟨pc, shared, pc', found, step, rfl⟩ := flagStep_of_taken taken
  rw [unheard_step_iff found step before]
  exact heard_iff.symm

/-! ## `SleepPark` -/

/-- **`SleepPark` loses no unpark** in a run in which none comes while the parking thread is
asleep. -/
theorem not_stuck_of_heard {s : FlagState}
    (reached : (flagParking .sleepPark).ReachesWhen (fun s a => heard s a = true) s) :
    ¬Stuck s := by
  have inv : ¬Unheard s := by
    refine Machine.ReachesWhen.invariant (I := fun s => ¬Unheard s) ?_ ?_ reached
    · rintro _ ⟨n, rfl⟩
      exact not_unheard_flagParkingWith n
    · rintro s ⟨i, l⟩ s' - before meets taken
      obtain ⟨pc, shared, pc', found, step, rfl⟩ := flagStep_of_taken taken
      rw [unheard_step_iff found step before]
      exact heard_iff.mp meets
  exact fun stuck => inv stuck.1

/-- **An unpark of `SleepPark` that is not heard is lost** as soon as the unparks in progress have
finished: each sets the permit of its own thread. -/
theorem stuck_of_unheard {s : FlagState} (missed : Unheard s) :
    ∃ labels s', (flagParking .sleepPark).run s labels = some s' ∧ Stuck s' := by
  -- by induction on the number of unparks in progress
  let unparking : FlagPc → Nat := fun pc => if pc = .unparkThread then 1 else 0
  induction left : total unparking s.threads using Nat.strongRecOn generalizing s with
  | ind left ih =>
      subst left
      by_cases none : ∀ pc ∈ s.threads, pc ≠ .unparkThread
      · exact ⟨[], s, rfl, missed, none⟩
      · obtain ⟨pc, member, rfl⟩ : ∃ pc ∈ s.threads, pc = .unparkThread := by
          simpa using none
        obtain ⟨i, found⟩ := List.mem_iff_getElem?.mp member
        obtain ⟨parked, permit⟩ := asleep_iff.mp missed.1
        have other : i ≠ 0 := by
          rintro rfl
          rw [parked] at found
          cases found
        let s' : FlagState := ⟨s.shared.setPermit i, s.threads.set i .idle⟩
        have taken : (flagParking .sleepPark).step s (i, .next) = some s' := by
          simp [flagParking, Pool.step, found, FlagPc.move, FlagParkImpl.thread, s']
        have still : Unheard s' := by
          refine ⟨asleep_iff.mpr ⟨?_, ?_⟩, missed.2⟩
          · rw [List.getElem?_set_ne other]
            exact parked
          · rw [FlagParker.setPermit_other (Ne.symm other)]
            exact permit
        have fewer : total unparking s'.threads < total unparking s.threads := by
          rw [total_set_others .idle found, total_eq_others found]
          simp [unparking]
        obtain ⟨labels, s'', ran, stuck⟩ := ih _ fewer still rfl
        refine ⟨(i, .next) :: labels, s'', ?_, stuck⟩
        simp [Machine.runWhen, taken, ran]

/-- Thread `0` parks and sleeps, and thread `1` unparks it. -/
def unparkedAsleep : List (Nat × FlagLabel) :=
  [(0, .park), (0, .next), (1, .unpark), (1, .next)]

/-- That unpark is lost by `SleepPark`. -/
theorem sleepPark_stuck : ∃ s, (flagParking .sleepPark).Reaches s ∧ Stuck s := by
  obtain ⟨s, reached, tested⟩ := (flagParking .sleepPark).exists_reaches_of_test
    (fun s => asleep s && s.shared.flag && s.threads.all fun pc => pc != .unparkThread)
    unparkedAsleep ⟨2, rfl⟩ (by decide)
  simp only [Bool.and_eq_true, List.all_eq_true, bne_iff_ne] at tested
  exact ⟨s, reached, tested.1, tested.2⟩

/-- Thread `1` unparks before thread `0` parks, and once more before its swap. -/
def unparkedAwake : List (Nat × FlagLabel) :=
  [(1, .unpark), (0, .park), (1, .next), (1, .unpark), (0, .next)]

/-- In such a run no unpark is lost. -/
theorem not_stuck_unparkedAwake :
    ∃ s : FlagState, s.shared.log.head? = some .parkReturned ∧ ¬Stuck s := by
  obtain ⟨s, reached, tested⟩ := (flagParking .sleepPark).exists_reachesWhen_of_test
    (fun s a => heard s a = true) (fun s => s.shared.log.head? == some .parkReturned)
    unparkedAwake ⟨2, rfl⟩ (by decide)
  exact ⟨s, eq_of_beq tested, not_stuck_of_heard reached⟩

/-! ## `BlockOnParker` -/

/-- A park that returns has taken the `true` that an unpark has stored since the last swap of
`park`. -/
def takesStored (e : FlagEvent) (earlier : List FlagEvent) : Prop :=
  e = .parkReturned → ∃ thread older, earlier = .stored thread :: older

/-- What holds of `BlockOnParker`. -/
structure Kept (s : FlagState) : Prop where
  /-- An unpark that is not heard yet comes to the permit of the parking thread. -/
  answered : Unheard s → ∃ pc ∈ s.threads, pc = .unparkThread
  flag : s.shared.flag = true → ∃ thread older, s.shared.log = .stored thread :: older
  returned : Justified takesStored s.shared.log

/-- **Every step keeps it.** -/
theorem Kept.step {s : FlagState} {i : Nat} {pc pc' : FlagPc} {l : FlagLabel}
    {shared : FlagParker} (inv : Kept s) (found : s.threads[i]? = some pc)
    (step : FlagPc.Step .blockOnParker i s.shared pc l shared pc') :
    Kept ⟨shared, s.threads.set i pc'⟩ := by
  constructor
  · intro missed
    by_cases before : Unheard s
    · obtain ⟨u, member, rfl⟩ := inv.answered before
      obtain ⟨j, foundU⟩ := List.mem_iff_getElem?.mp member
      by_cases same : j = i
      · subst same
        obtain rfl : pc = .unparkThread := Option.some.inj (found.symm.trans foundU)
        cases step
        have permit := (asleep_iff.mp missed.1).2
        rw [FlagParkImpl.thread, FlagParker.setPermit_self] at permit
        cases permit
      · refine ⟨_, List.mem_of_getElem? (i := j) ?_, rfl⟩
        rwa [List.getElem?_set_ne (Ne.symm same)]
    · obtain ⟨rfl, sleeping⟩ := (unheard_step_iff found step before).mp missed
      cases step with
      | unparkSet set => exact absurd ⟨sleeping, set⟩ before
      | unpark => exact ⟨_, List.mem_of_getElem? (Pool.getElem?_set_self _ found), rfl⟩
  · intro set
    cases step with
    | unparkSet | unpark => exact ⟨i, _, rfl⟩
    | returns => cases set
    | sleeps unset =>
        rw [unset] at set
        cases set
    | _ => exact inv.flag set
  · cases step with
    | returns set => exact justified_cons.mpr ⟨fun _ => inv.flag set, inv.returned⟩
    | sleeps | unparkSet | unpark => exact justified_cons.mpr ⟨nofun, inv.returned⟩
    | _ => exact inv.returned

/-- **`MultiThread::block_on`'s parker loses no wake.** The parking thread is never asleep with the
flag set, unless an unpark is on the way to its permit; and a park returns only by taking a `true`
that an unpark has stored. -/
theorem block_on_parker_keeps_unparks {s : FlagState}
    (reached : (flagParking .blockOnParker).Reaches s) :
    ¬Stuck s ∧ ∀ later earlier, s.shared.log = later ++ .parkReturned :: earlier →
      ∃ thread older, earlier = .stored thread :: older := by
  have inv : Kept s := by
    refine reached.invariant ?_ ?_
    · rintro _ ⟨n, rfl⟩
      exact ⟨fun missed => absurd missed (not_unheard_flagParkingWith n), nofun, justified_nil⟩
    · rintro s ⟨i, l⟩ s' - before - taken
      obtain ⟨pc, shared, pc', found, step, rfl⟩ := flagStep_of_taken taken
      exact before.step found step
  constructor
  · rintro ⟨missed, finished⟩
    obtain ⟨pc, member, unparking⟩ := inv.answered missed
    exact finished pc member unparking
  · exact fun later earlier split => inv.returned later _ earlier split rfl

/-- In a run in which thread `0` is unparked while it sleeps, its park returns. -/
theorem block_on_parker_wakes : ∃ s : FlagState, s.shared.log =
    [.parkReturned, .stored 1, .foundFalse] ∧ ¬Stuck s := by
  obtain ⟨s, reached, tested⟩ := (flagParking .blockOnParker).exists_reaches_of_test
    (fun s => s.shared.log == [.parkReturned, .stored 1, .foundFalse])
    (unparkedAsleep ++ [(0, .next), (0, .next)]) ⟨2, rfl⟩ (by decide)
  exact ⟨s, eq_of_beq tested, (block_on_parker_keeps_unparks reached).1⟩

end LoonyRuntime.Runtime
