import LoonyRuntime.Time.Parker

/-!
# Wakers that call the time driver back

`TimeDriver::process` of `park.rs` holds the mutex of the timers from its first look at the heap to
its return, also while it wakes the wakers of the entries it has popped. A waker may run any code:
it may run a task at once whose future calls `schedule`, `next_deadline` or `process` on the same
driver.

Each thread carries the stack of the calls on the driver that it is inside of. A call that is made
by a waker finds the mutex held by its own thread. So the calls of a run never lock a mutex of their
own thread exactly if no waker calls the driver (`processes_along_iff`). Every `process` that comes
to its return has woken the entries that were due.
-/

set_option autoImplicit false

namespace LoonyRuntime.Time

open Concurrent

variable {W : Type}

/-! ## Calls on the driver -/

/-- Where `TimeDriver::next_deadline` is. -/
inductive NextPc where
  | lock
  | peek
  | unlock (deadline : Option Nat)
deriving DecidableEq, Repr

/-- A call of `process` that has locked the timers: its reading of the clock, the entries it has
found in the heap, and those it has woken. -/
structure Visit (W : Type) where
  now : Nat
  found : Multiset (TimerEntry W)
  woken : Multiset (TimerEntry W)

/-- Where `TimeDriver::process` is, after its reading of the clock. -/
inductive ProcessPc (W : Type) where
  | lock (now : Nat)
  | peek (visit : Visit W)
  | pop (visit : Visit W)
  /-- The waker of the entry that was popped is being woken. -/
  | wake (visit : Visit W) (entry : TimerEntry W)
  | unlock (visit : Visit W)

/-- A call in progress. -/
inductive DriverFrame (W : Type) where
  | schedule (pc : SchedulePc W)
  | nextDeadline (pc : NextPc)
  | process (pc : ProcessPc W)

/-- The timers with their mutex, and the condvar of the driver. -/
structure Timed (H : TimerHeap W) where
  driver : TimeDriver H
  mutex : Monitor

/-- A call that code makes on the driver. `process` comes with its reading of the clock. -/
inductive DriverCall (W : Type) where
  | schedule (deadline : Nat) (waker : W)
  | nextDeadline
  | process (now : Nat)

inductive DriverLabel (W : Type) where
  /-- Code of the user, or of a waker that is being woken, makes a call. -/
  | call (c : DriverCall W)
  /-- The next operation. -/
  | next
  /-- `notify_one` wakes this thread, if any waits. -/
  | notify (choice : Nat)
  /-- The waker that was woken returns. -/
  | returned

variable {H : TimerHeap W}

/-- A result of one operation: the timers, and the frames that replace the top one. -/
abbrev DriverOutcome (H : TimerHeap W) := Option (Timed H × List (DriverFrame W))

def DriverCall.frame : DriverCall W → DriverFrame W
  | .schedule deadline waker => .schedule (.lock ⟨deadline, waker⟩)
  | .nextDeadline => .nextDeadline .lock
  | .process now => .process (.lock now)

/-- `TimeDriver::schedule`. Its `notify_one` is a label of its own. -/
def SchedulePc.advance (i : Nat) (s : Timed H) : SchedulePc W → DriverOutcome H
  | .lock entry =>
      (s.mutex.acquire i).map fun m => ({ s with mutex := m }, [.schedule (.push entry)])
  | .push entry =>
      some ({ s with driver := s.driver.schedule entry.deadline entry.waker }, [.schedule .notify])
  | .notify => none
  | .unlock => some ({ s with mutex := s.mutex.release }, [])

/-- `TimeDriver::next_deadline`. -/
def NextPc.advance (i : Nat) (s : Timed H) : NextPc → DriverOutcome H
  | .lock => (s.mutex.acquire i).map fun m => ({ s with mutex := m }, [.nextDeadline .peek])
  | .peek => some (s, [.nextDeadline (.unlock s.driver.nextDeadline)])
  | .unlock _ => some ({ s with mutex := s.mutex.release }, [])

/-- `TimeDriver::process`. The return of a waker is a label of its own, and the panic of `unwrap`
has no step. -/
def ProcessPc.advance (i : Nat) (s : Timed H) : ProcessPc W → DriverOutcome H
  | .lock now =>
      (s.mutex.acquire i).map fun m =>
        ({ s with mutex := m }, [.process (.peek ⟨now, H.items s.driver.timers, 0⟩)])
  | .peek visit =>
      match H.peek s.driver.timers with
      | some entry =>
          if visit.now < entry.deadline then some (s, [.process (.unlock visit)])
          else some (s, [.process (.pop visit)])
      | none => some (s, [.process (.unlock visit)])
  | .pop visit =>
      (H.pop s.driver.timers).map fun popped =>
        ({ s with driver := ⟨popped.2⟩ }, [.process (.wake visit popped.1)])
  | .wake _ _ => none
  | .unlock _ => some ({ s with mutex := s.mutex.release }, [])

def DriverFrame.advance (i : Nat) (s : Timed H) : DriverFrame W → DriverOutcome H
  | .schedule pc => pc.advance i s
  | .nextDeadline pc => pc.advance i s
  | .process pc => pc.advance i s

/-- One step of a thread inside the calls of the stack. -/
def DriverFrame.move (i : Nat) (s : Timed H) :
    List (DriverFrame W) → DriverLabel W → DriverOutcome H
  | [], .call c => some (s, [c.frame])
  | .process (.wake visit entry) :: rest, .call c =>
      some (s, c.frame :: .process (.wake visit entry) :: rest)
  | .process (.wake visit entry) :: rest, .returned =>
      some (s, .process (.peek { visit with woken := entry ::ₘ visit.woken }) :: rest)
  | .schedule .notify :: rest, .notify choice =>
      (s.mutex.notifyOne choice).map fun m => ({ s with mutex := m }, .schedule .unlock :: rest)
  | frame :: rest, .next => (frame.advance i s).map fun r => (r.1, r.2 ++ rest)
  | _, _ => none

abbrev DriverState (H : TimerHeap W) := Pool (Timed H) (List (DriverFrame W))

/-- A driver with any timers, and `n` threads inside no call. -/
def drivenWith (timers : H.Heap) (n : Nat) : DriverState H :=
  ⟨⟨⟨timers⟩, .new⟩, List.replicate n []⟩

/-- The machine of the calls on a driver. -/
def driven (H : TimerHeap W) : Machine (DriverState H) (Nat × DriverLabel W) where
  initial s := ∃ timers n, s = drivenWith timers n
  step := Pool.step DriverFrame.move

/-! ## The mutex -/

namespace DriverFrame

/-- The next operation of the call is to lock the mutex. -/
def locks : DriverFrame W → Bool
  | .schedule (.lock _) | .nextDeadline .lock | .process (.lock _) => true
  | _ => false

/-- The next operation of the thread is to lock the mutex. -/
def locksNext (stack : List (DriverFrame W)) : Bool := stack.head?.any locks

/-- The thread holds the mutex in some call. -/
def holds (stack : List (DriverFrame W)) : Bool := stack.any fun frame => !frame.locks

def blocked (_ : List (DriverFrame W)) : Bool := false

/-- A thread is inside of one call, or a waker that it wakes is to lock the mutex. -/
def Nested : List (DriverFrame W) → Prop
  | [] | [_] => True
  | [frame, .process (.wake _ _)] => frame.locks = true
  | _ => False

end DriverFrame

/-! ## What a call has found -/

/-- What a call of `process` has found is what is left in the heap and what it has woken, all of it
due. -/
def Visit.Fits (visit : Visit W) (items : Multiset (TimerEntry W)) : Prop :=
  visit.found = items + visit.woken ∧ ∀ entry ∈ visit.woken, entry.deadline ≤ visit.now

/-- The entries that were due have been woken. -/
def Visit.WokeDue (visit : Visit W) : Prop :=
  visit.woken = visit.found.filter (·.deadline ≤ visit.now)

/-- What holds of a call, with the timers. -/
def DriverFrame.Fits (timers : H.Heap) : DriverFrame W → Prop
  | .process (.peek visit) => visit.Fits (H.items timers)
  | .process (.pop visit) =>
      visit.Fits (H.items timers) ∧
        ∃ entry, H.peek timers = some entry ∧ entry.deadline ≤ visit.now
  | .process (.wake visit entry) =>
      Visit.Fits { visit with woken := entry ::ₘ visit.woken } (H.items timers)
  | .process (.unlock visit) => visit.WokeDue
  | _ => True

/-- A call that finds no entry due has woken those that were. -/
theorem Visit.Fits.wokeDue {visit : Visit W} {items : Multiset (TimerEntry W)}
    (fits : visit.Fits items) (later : ∀ entry ∈ items, visit.now < entry.deadline) :
    visit.WokeDue := by
  obtain ⟨found, due⟩ := fits
  have none : items.filter (·.deadline ≤ visit.now) = 0 :=
    Multiset.filter_eq_nil.mpr fun entry member => Nat.not_le_of_lt (later entry member)
  rw [Visit.WokeDue, found, Multiset.filter_add, none, zero_add]
  exact (Multiset.filter_eq_self.mpr due).symm

namespace DriverFrame

/-! ## Steps as a relation -/

/-- What one step of a thread does. -/
inductive Step (i : Nat) (s : Timed H) :
    List (DriverFrame W) → DriverLabel W → Timed H → List (DriverFrame W) → Prop where
  | call (c : DriverCall W) : Step i s [] (.call c) s [c.frame]
  | callBack (visit : Visit W) (entry : TimerEntry W) (rest : List (DriverFrame W))
      (c : DriverCall W) :
      Step i s (.process (.wake visit entry) :: rest) (.call c) s
        (c.frame :: .process (.wake visit entry) :: rest)
  | acquire {frame frame' : DriverFrame W} {m : Monitor} (rest : List (DriverFrame W))
      (before : frame.locks = true) (taken : s.mutex.acquire i = some m)
      (inside : frame'.locks = false) (fits : frame'.Fits s.driver.timers) :
      Step i s (frame :: rest) .next { s with mutex := m } (frame' :: rest)
  | inside {frame frame' : DriverFrame W} {l : DriverLabel W} (driver : TimeDriver H)
      (rest : List (DriverFrame W)) (before : frame.locks = false) (after : frame'.locks = false)
      (other : ∀ c, l ≠ .call c)
      (fits : frame.Fits s.driver.timers → frame'.Fits driver.timers) :
      Step i s (frame :: rest) l { s with driver := driver } (frame' :: rest)
  | notify {choice : Nat} {m : Monitor} (rest : List (DriverFrame W))
      (notified : s.mutex.notifyOne choice = some m) :
      Step i s (.schedule .notify :: rest) (.notify choice) { s with mutex := m }
        (.schedule .unlock :: rest)
  | release {frame : DriverFrame W} (rest : List (DriverFrame W)) (before : frame.locks = false) :
      Step i s (frame :: rest) .next { s with mutex := s.mutex.release } rest

variable {i : Nat} {s s' : Timed H}

theorem step_of_advance {frame : DriverFrame W} {frames : List (DriverFrame W)}
    (advanced : frame.advance i s = some (s', frames)) (rest : List (DriverFrame W)) :
    Step i s (frame :: rest) .next s' (frames ++ rest) := by
  cases frame with
  | schedule pc =>
      cases pc with
      | lock entry =>
          obtain ⟨m, taken, same⟩ := Option.map_eq_some_iff.mp advanced
          cases same
          exact .acquire rest rfl taken rfl trivial
      | push entry =>
          cases advanced
          exact .inside _ rest rfl rfl nofun id
      | notify => cases advanced
      | unlock =>
          cases advanced
          exact .release rest rfl
  | nextDeadline pc =>
      cases pc with
      | lock =>
          obtain ⟨m, taken, same⟩ := Option.map_eq_some_iff.mp advanced
          cases same
          exact .acquire rest rfl taken rfl trivial
      | peek =>
          cases advanced
          exact .inside _ rest rfl rfl nofun id
      | unlock deadline =>
          cases advanced
          exact .release rest rfl
  | process pc =>
      cases pc with
      | lock now =>
          obtain ⟨m, taken, same⟩ := Option.map_eq_some_iff.mp advanced
          cases same
          refine .acquire rest rfl taken rfl ⟨?_, ?_⟩
          · exact (add_zero _).symm
          · exact fun entry member => absurd member (Multiset.notMem_zero entry)
      | peek visit =>
          simp only [advance, ProcessPc.advance] at advanced
          split at advanced
          · next entry shown =>
              split at advanced
              · next later =>
                  cases advanced
                  refine .inside _ rest rfl rfl nofun ?_
                  intro fits
                  refine Visit.Fits.wokeDue fits ?_
                  intro other member
                  exact Nat.lt_of_lt_of_le later
                    (TimeDriver.deadline_le_of_peek shown other member)
              · next due =>
                  cases advanced
                  exact .inside _ rest rfl rfl nofun fun fits =>
                    ⟨fits, entry, shown, Nat.le_of_not_lt due⟩
          · next empty =>
              cases advanced
              refine .inside _ rest rfl rfl nofun ?_
              intro fits
              refine Visit.Fits.wokeDue fits ?_
              intro entry member
              rw [H.peek_eq_none.mp empty] at member
              exact absurd member (Multiset.notMem_zero entry)
      | pop visit =>
          obtain ⟨⟨entry, timers⟩, popped, same⟩ := Option.map_eq_some_iff.mp advanced
          cases same
          refine .inside _ rest rfl rfl nofun ?_
          rintro ⟨⟨found, due⟩, entry', shown, first⟩
          -- the entry that is popped is the one that was shown
          rw [H.peek_eq, popped] at shown
          obtain rfl : entry = entry' := Option.some.inj shown
          refine ⟨?_, ?_⟩
          · rw [found, H.items_pop popped, Multiset.cons_add, Multiset.add_cons]
          · intro other member
            rcases Multiset.mem_cons.mp member with rfl | before
            · exact first
            · exact due other before
      | wake visit entry => cases advanced
      | unlock visit =>
          cases advanced
          exact .release rest rfl

theorem step_of_move {stack stack' : List (DriverFrame W)} {l : DriverLabel W}
    (moved : move i s stack l = some (s', stack')) : Step i s stack l s' stack' := by
  unfold move at moved
  split at moved
  · cases moved
    exact .call _
  · cases moved
    exact .callBack _ _ _ _
  · cases moved
    exact .inside _ _ rfl rfl nofun id
  · obtain ⟨m, notified, same⟩ := Option.map_eq_some_iff.mp moved
    cases same
    exact .notify _ notified
  · obtain ⟨⟨s', frames⟩, advanced, same⟩ := Option.map_eq_some_iff.mp moved
    cases same
    exact step_of_advance advanced _
  · cases moved

/-- The thread is to lock the mutex that it holds. -/
def relocks (stack : List (DriverFrame W)) : Bool := locksNext stack && holds stack

/-- A waker that is being woken calls the driver. -/
def callsBack : List (DriverFrame W) → DriverLabel W → Bool
  | .process (.wake _ _) :: _, .call _ => true
  | _, _ => false

@[simp] theorem locks_frame (c : DriverCall W) : c.frame.locks = true := by
  cases c <;> rfl

/-- A thread that holds the mutex is inside of one call, or is to lock the mutex. -/
theorem Nested.rest_eq_nil {frame : DriverFrame W} {rest : List (DriverFrame W)}
    (nested : Nested (frame :: rest)) (held : frame.locks = false) : rest = [] := by
  unfold Nested at nested
  split at nested
  · next same => cases same
  · next same => exact (List.cons.inj same).2
  · next same =>
      cases same
      rw [held] at nested
      cases nested
  · exact nested.elim

/-- A call that a waker makes is to lock the mutex that its thread holds. -/
theorem Nested.holds_of_second {frame second : DriverFrame W} {more : List (DriverFrame W)}
    (nested : Nested (frame :: second :: more)) : holds (frame :: second :: more) = true := by
  unfold Nested at nested
  split at nested
  · next same => cases same
  · next same => cases same
  · next same =>
      cases same
      simp [holds, locks]
  · exact nested.elim

@[simp] theorem relocks_singleton (frame : DriverFrame W) : relocks [frame] = false := by
  simp [relocks, locksNext, holds]

theorem callsBack_eq_false {l : DriverLabel W} (other : ∀ c, l ≠ .call c)
    (stack : List (DriverFrame W)) : callsBack stack l = false := by
  unfold callsBack
  split
  · exact absurd rfl (other _)
  · rfl

theorem callsBack_next (stack : List (DriverFrame W)) : callsBack stack .next = false := by
  apply callsBack_eq_false
  intro c
  nofun

/-- **A step uses the mutex in its order**, keeps the calls nested, and leads to a lock of the mutex
of its own thread exactly if a waker calls the driver. -/
theorem Step.uses {stack stack' : List (DriverFrame W)} {l : DriverLabel W}
    (step : Step i s stack l s' stack') (nested : Nested stack)
    (owner : holds stack = true ↔ s.mutex.owner = some i) :
    Monitor.Uses holds blocked i stack stack' s.mutex s'.mutex ∧ Nested stack' ∧
      relocks stack' = callsBack stack l := by
  cases step with
  | call c => exact ⟨.quiet rfl (by simp [holds]), trivial, relocks_singleton _⟩
  | callBack visit entry rest c =>
      obtain rfl := nested.rest_eq_nil rfl
      have wakes : (DriverFrame.process (.wake visit entry)).locks = false := rfl
      refine ⟨.quiet rfl (by simp [holds]), locks_frame c, ?_⟩
      simp [relocks, locksNext, holds, callsBack, wakes]
  | @acquire frame frame' m rest before taken inside fits =>
      have alone : rest = [] := by
        cases rest with
        | nil => rfl
        | cons second more =>
            -- the mutex would be held by the thread itself
            obtain ⟨free, -⟩ := Monitor.acquire_eq_some taken
            rw [owner.mp nested.holds_of_second] at free
            cases free
      subst alone
      exact ⟨.acquire rfl (by simp [holds, inside]) taken, trivial,
        (relocks_singleton _).trans (callsBack_next _).symm⟩
  | inside driver rest before after other fits =>
      obtain rfl := nested.rest_eq_nil before
      exact ⟨.quiet rfl (by simp [holds, before, after]), trivial,
        (relocks_singleton _).trans (callsBack_eq_false other _).symm⟩
  | notify rest notified =>
      obtain rfl := nested.rest_eq_nil rfl
      exact ⟨.notifyOne rfl rfl notified, trivial, rfl⟩
  | release rest before =>
      obtain rfl := nested.rest_eq_nil before
      exact ⟨.release rfl (by simp [holds, before]) rfl, trivial, (callsBack_next _).symm⟩

theorem fits_frame (timers : H.Heap) (c : DriverCall W) : c.frame.Fits timers := by
  cases c <;> trivial

/-- **The timers change only in the hands of a thread that holds the mutex**, and the calls of the
thread still fit. -/
theorem Step.fits {stack stack' : List (DriverFrame W)} {l : DriverLabel W}
    (step : Step i s stack l s' stack') (nested : Nested stack)
    (fits : ∀ frame ∈ stack, frame.Fits s.driver.timers) :
    (s'.driver = s.driver ∨ holds stack = true) ∧
      ∀ frame ∈ stack', frame.Fits s'.driver.timers := by
  cases step with
  | call c => exact ⟨.inl rfl, List.forall_mem_singleton.mpr (fits_frame _ c)⟩
  | callBack visit entry rest c =>
      exact ⟨.inl rfl, List.forall_mem_cons.mpr ⟨fits_frame _ c, fits⟩⟩
  | acquire rest before taken inside mine =>
      exact ⟨.inl rfl, List.forall_mem_cons.mpr ⟨mine, (List.forall_mem_cons.mp fits).2⟩⟩
  | inside driver rest before after other mine =>
      obtain rfl := nested.rest_eq_nil before
      refine ⟨.inr (by simp [holds, before]), List.forall_mem_singleton.mpr ?_⟩
      exact mine (List.forall_mem_singleton.mp fits)
  | notify rest notified =>
      exact ⟨.inl rfl, List.forall_mem_cons.mpr ⟨trivial, (List.forall_mem_cons.mp fits).2⟩⟩
  | release rest before => exact ⟨.inl rfl, (List.forall_mem_cons.mp fits).2⟩

/-- A call that is to lock the mutex has no operation while another one owns it. -/
theorem advance_eq_none {frame : DriverFrame W} (locks : frame.locks = true)
    (blocked : s.mutex.acquire i = none) : frame.advance i s = none := by
  cases frame with
  | schedule pc =>
      cases pc with
      | lock entry => simp [advance, SchedulePc.advance, blocked]
      | _ => cases locks
  | nextDeadline pc =>
      cases pc with
      | lock => simp [advance, NextPc.advance, blocked]
      | _ => cases locks
  | process pc =>
      cases pc with
      | lock now => simp [advance, ProcessPc.advance, blocked]
      | _ => cases locks

/-- A thread that does not hold the mutex does not look at the timers. -/
theorem fits_of_free {stack : List (DriverFrame W)} (free : holds stack = false)
    (timers : H.Heap) : ∀ frame ∈ stack, frame.Fits timers := by
  intro frame member
  have locks : frame.locks = true := by simpa [holds] using List.any_eq_false.mp free frame member
  cases frame with
  | schedule pc | nextDeadline pc => trivial
  | process pc =>
      cases pc with
      | lock now => trivial
      | _ => cases locks

end DriverFrame

/-! ## Every run -/

/-- What holds of the driver and the threads. -/
structure Driven (s : DriverState H) : Prop where
  keeps : Monitor.Keeps DriverFrame.holds DriverFrame.blocked s.shared.mutex s.threads
  nested : Pool.Each (fun _ stack => DriverFrame.Nested stack) s.threads
  fits : Pool.Each (fun _ stack => ∀ frame ∈ stack, frame.Fits s.shared.driver.timers) s.threads

/-- No thread is to lock the mutex of the timers while it holds it. -/
def NoReentry (s : DriverState H) : Prop :=
  Pool.Each (fun i stack =>
    ¬(DriverFrame.locksNext stack = true ∧ s.shared.mutex.owner = some i)) s.threads

/-- A `process` that is to return has woken the entries that were due in what it has found. -/
def WakesDue (s : DriverState H) : Prop :=
  ∀ stack ∈ s.threads, ∀ visit, .process (.unlock visit) ∈ stack → visit.WokeDue

/-- A waker calls the driver in this step. -/
def callsDriver (s : DriverState H) (a : Nat × DriverLabel W) : Bool :=
  s.threads[a.1]?.any (DriverFrame.callsBack · a.2)

namespace Driven

variable {s s' : DriverState H}

theorem drivenWith (timers : H.Heap) (n : Nat) : Driven (drivenWith timers n) := by
  have idle : ∀ {i : Nat} {stack : List (DriverFrame W)},
      (Time.drivenWith (H := H) timers n).threads[i]? = some stack → stack = [] := fun found =>
    List.eq_of_mem_replicate (List.mem_of_getElem? found)
  refine ⟨.new fun stack member => ?_, fun i stack found => ?_, fun i stack found => ?_⟩
  · rw [List.eq_of_mem_replicate member]
    rfl
  · rw [idle found]
    trivial
  · rw [idle found]
    nofun

/-- **A step keeps it.** -/
theorem step {i : Nat} {stack stack' : List (DriverFrame W)} {l : DriverLabel W}
    {shared : Timed H} (inv : Driven s) (found : s.threads[i]? = some stack)
    (step : DriverFrame.Step i s.shared stack l shared stack') :
    Driven ⟨shared, s.threads.set i stack'⟩ := by
  obtain ⟨uses, nested, -⟩ := step.uses (inv.nested i stack found) (inv.keeps.owner i stack found)
  obtain ⟨changes, fits⟩ := step.fits (inv.nested i stack found) (inv.fits i stack found)
  refine ⟨inv.keeps.uses found uses, Pool.interference_free inv.nested nested fun _ _ _ _ => id,
    Pool.interference_free inv.fits fits ?_⟩
  intro j other differs foundOther before
  rcases changes with same | mine
  · rw [same]
    exact before
  · refine DriverFrame.fits_of_free ?_ _
    rw [Bool.eq_false_iff]
    intro theirs
    exact differs (inv.keeps.exclusive foundOther found theirs mine)

theorem of_reaches (reached : (driven H).Reaches s) : Driven s := by
  refine reached.invariant ?_ ?_
  · rintro _ ⟨timers, n, rfl⟩
    exact drivenWith timers n
  · rintro s ⟨i, l⟩ s' - inv - taken
    replace taken : Pool.step DriverFrame.move s (i, l) = some s' := taken
    obtain ⟨stack, shared, stack', found, moved, rfl⟩ := Pool.step_eq_some taken
    exact inv.step found (DriverFrame.step_of_move moved)

theorem wakesDue (inv : Driven s) : WakesDue s := by
  intro stack member visit inside
  obtain ⟨i, found⟩ := List.mem_iff_getElem?.mp member
  exact inv.fits i stack found _ inside

/-- The thread is to lock the mutex that it holds. -/
theorem relocks_iff (inv : Driven s) {i : Nat} {stack : List (DriverFrame W)}
    (found : s.threads[i]? = some stack) :
    DriverFrame.relocks stack = true ↔
      DriverFrame.locksNext stack = true ∧ s.shared.mutex.owner = some i := by
  have owner : DriverFrame.holds stack = true ↔ s.shared.mutex.owner = some i :=
    inv.keeps.owner i stack found
  rw [DriverFrame.relocks, Bool.and_eq_true, owner]

end Driven

/-- **No `process` of a run locks the mutex that its own thread holds, and each that returns has
woken what was due, exactly if** no waker that is woken calls the driver. -/
theorem processes_along_iff (timers : H.Heap) (n : Nat) (labels : List (Nat × DriverLabel W)) :
    (driven H).Always (fun s => NoReentry s ∧ WakesDue s) (drivenWith timers n) labels ↔
      (driven H).Meets (fun s a => callsDriver s a = false) (drivenWith timers n) labels := by
  have initial := Driven.drivenWith (H := H) timers n
  refine Machine.always_iff_meets ?_ (.start ⟨timers, n, rfl⟩) ⟨?_, initial.wakesDue⟩
  · rintro s ⟨i, l⟩ s' reached ⟨free, -⟩ taken
    have inv := Driven.of_reaches reached
    have inv' : Driven s' := Driven.of_reaches (.step reached trivial taken)
    replace taken : Pool.step DriverFrame.move s (i, l) = some s' := taken
    obtain ⟨stack, shared, stack', found, moved, rfl⟩ := Pool.step_eq_some taken
    obtain ⟨-, -, relocks⟩ := (DriverFrame.step_of_move moved).uses (inv.nested i stack found)
      (inv.keeps.owner i stack found)
    have tells : callsDriver s (i, l) = DriverFrame.relocks stack' := by
      rw [relocks, callsDriver, found, Option.any_some]
    have mine := inv'.relocks_iff (Pool.getElem?_set_self stack' found)
    rw [tells, Bool.eq_false_iff, ne_eq, mine, and_iff_left inv'.wakesDue]
    exact inv.keeps.relock_iff inv'.keeps found free
  · intro i stack found
    rw [List.eq_of_mem_replicate (List.mem_of_getElem? found)]
    simp [DriverFrame.locksNext]

/-- A thread that is to lock the mutex that it holds is stuck. -/
theorem stuck_of_locksNext {s : DriverState H} {i : Nat} {stack : List (DriverFrame W)}
    (found : s.threads[i]? = some stack) (locks : DriverFrame.locksNext stack = true)
    (owner : s.shared.mutex.owner = some i) (l : DriverLabel W) : (driven H).step s (i, l) = none := by
  have blocked : s.shared.mutex.acquire i = none := by simp [Monitor.acquire, owner]
  have stuck : DriverFrame.move i s.shared stack l = none := by
    unfold DriverFrame.move
    split
    · cases locks
    · cases locks
    · cases locks
    · cases locks
    · rw [DriverFrame.advance_eq_none locks blocked]
      rfl
    · rfl
  show Pool.step DriverFrame.move s (i, l) = none
  simp [Pool.step, found, stuck]

/-- `process` wakes an entry that is due, and its waker schedules another timer. -/
def schedulesInWake : List (Nat × DriverLabel Nat) :=
  [(0, .call (.process 5)), (0, .next), (0, .next), (0, .next), (0, .call (.schedule 9 1))]

/-- The thread is to lock the mutex that it holds, and is stuck. -/
theorem process_locks_itself : ∃ s : DriverState
      (Collections.MaxHeap.ofList (TimerEntry Nat) TimerEntry.cmp),
    (driven _).Reaches s ∧ ¬NoReentry s ∧ ∀ l, (driven _).step s (0, l) = none := by
  obtain ⟨s, reached, tested⟩ := (driven (Collections.MaxHeap.ofList (TimerEntry Nat)
      TimerEntry.cmp)).exists_reaches_of_test
    (fun s => s.threads.map DriverFrame.locksNext == [true] && s.shared.mutex.owner == some 0)
    schedulesInWake ⟨[⟨1, 0⟩], 1, rfl⟩ (by decide)
  rw [Bool.and_eq_true, beq_iff_eq, beq_iff_eq] at tested
  obtain ⟨threads, owner⟩ := tested
  obtain ⟨stack, one, locks⟩ := List.map_eq_singleton_iff.mp threads
  have found : s.threads[0]? = some stack := by rw [one]; rfl
  refine ⟨s, reached, ?_, stuck_of_locksNext found locks owner⟩
  intro free
  exact free 0 stack found ⟨locks, owner⟩

end LoonyRuntime.Time
