import LoonyRuntime.Runtime.FlagPark

/-!
# The loop of `MultiThread::block_on`

Thread `0` polls a future, helps with the tasks while the future is pending, and parks when there is
no work. The parker is the `BlockOnParker` of the loop, and any thread may wake the waker of its
context at any time, which unparks it. What `steal_work` and `injector.is_empty()` answer is a
label here; the queues are in `MultiThread.Operational`.

The parker is on the stack of `block_on` and its wakers do not own it. A wake after the return would
read memory that is gone, and has no step.

A wake that comes after a poll has begun leaves the flag of the parker set until the next poll
(`Awake`). So a loop that parks with such a wake polls again in three steps (`woken_polls_again`).
It returns the first output of the future, and does not poll after it (`returns_first_ready`).
-/

set_option autoImplicit false

namespace LoonyRuntime.Runtime.MultiThread.BlockOn

open Concurrent

/-! ## Steps -/

/-- Where `block_on` is. -/
inductive Pc (V : Type) where
  /-- The future is polled next. -/
  | poll
  /-- Code of the user inside the poll. -/
  | polling
  | stealWork
  /-- Code of the user inside `task.run()`. -/
  | run
  | isEmpty
  | park
  | yieldNow
  | returned (output : V)
deriving DecidableEq, Repr

structure State (V : Type) where
  parking : FlagState
  pc : Pc V
  /-- The results of the polls, the latest first. -/
  results : List (Option V)
  /-- The waker was woken since the last poll began. -/
  woken : Bool

variable {V : Type}

/-- `block_on` is called on thread `0`, with `n` other threads. -/
def State.startWith (V : Type) (n : Nat) : State V :=
  ⟨flagParkingWith (n + 1), .poll, [], false⟩

inductive Label (V : Type) where
  /-- An operation of a thread on the parker. -/
  | thread (i : Nat) (l : FlagLabel)
  | poll
  | ready (output : V)
  | pending
  | steal (found : Bool)
  /-- `task.run()` returns. -/
  | ran
  | isEmpty (empty : Bool)
  | yielded

/-- What thread `0` may do with the parker: code of the user wakes, and `park` goes on. -/
def Pc.admits : Pc V → FlagLabel → Bool
  | .polling, .park | .run, .park => false
  | .polling, _ | .run, _ => true
  | .park, .next | .park, .spurious => true
  | _, _ => false

/-- `park` has returned when thread `0` is inside no call. -/
def Pc.parked (pc : Pc V) (parking : FlagState) : Pc V :=
  match pc with
  | .park => if parking.threads[0]? = some .idle then .poll else .park
  | pc => pc

/-- `block_on` has not returned. -/
def Pc.live : Pc V → Bool
  | .returned _ => false
  | _ => true

/-- Thread `i` may do this with the parker. -/
def Pc.allows (pc : Pc V) (i : Nat) (l : FlagLabel) : Bool :=
  if i = 0 then pc.admits l else pc.live

/-- Thread `0` is inside no call of the parker. -/
def State.idle (s : State V) : Bool := s.parking.threads[0]? == some .idle

/-- One step of `block_on`, or of a thread on its parker. -/
def State.step (s : State V) : Label V → Option (State V)
  | .thread i l =>
      if s.pc.allows i l = true then
        ((flagParking .blockOnParker).step s.parking (i, l)).map fun parking =>
          { s with parking, pc := s.pc.parked parking, woken := s.woken || l == .unpark }
      else none
  | .poll =>
      match s.pc with
      | .poll => some { s with pc := .polling, woken := false }
      | _ => none
  | .ready output =>
      match s.pc, s.idle with
      | .polling, true =>
          some { s with pc := .returned output, results := some output :: s.results }
      | _, _ => none
  | .pending =>
      match s.pc, s.idle with
      | .polling, true => some { s with pc := .stealWork, results := none :: s.results }
      | _, _ => none
  | .steal found =>
      match s.pc with
      | .stealWork => some { s with pc := if found then .run else .isEmpty }
      | _ => none
  | .ran =>
      match s.pc, s.idle with
      | .run, true => some { s with pc := .poll }
      | _, _ => none
  | .isEmpty empty =>
      match s.pc with
      | .isEmpty =>
          if empty then
            ((flagParking .blockOnParker).step s.parking (0, .park)).map fun parking =>
              { s with parking, pc := .park }
          else some { s with pc := .yieldNow }
      | _ => none
  | .yielded =>
      match s.pc with
      | .yieldNow => some { s with pc := .poll }
      | _ => none

/-- The machine of one `block_on`. -/
def machine (V : Type) : Machine (State V) (Label V) where
  initial s := ∃ n, s = .startWith V n
  step := State.step

/-! ## What a step can do -/

/-- The outcomes of one step. -/
inductive Step (s : State V) : State V → Prop where
  | thread {i : Nat} {l : FlagLabel} {pc pc' : FlagPc} {shared : FlagParker}
      (found : s.parking.threads[i]? = some pc)
      (step : FlagPc.Step .blockOnParker i s.parking.shared pc l shared pc')
      (allowed : s.pc.allows i l = true) :
      Step s { s with
        parking := ⟨shared, s.parking.threads.set i pc'⟩
        pc := s.pc.parked ⟨shared, s.parking.threads.set i pc'⟩
        woken := s.woken || l == .unpark }
  | poll (here : s.pc = .poll) : Step s { s with pc := .polling, woken := false }
  | ready {output : V} (here : s.pc = .polling) (idle : s.idle = true) :
      Step s { s with pc := .returned output, results := some output :: s.results }
  | pending (here : s.pc = .polling) (idle : s.idle = true) :
      Step s { s with pc := .stealWork, results := none :: s.results }
  | found (here : s.pc = .stealWork) : Step s { s with pc := .run }
  | none (here : s.pc = .stealWork) : Step s { s with pc := .isEmpty }
  | ran (here : s.pc = .run) (idle : s.idle = true) : Step s { s with pc := .poll }
  | parks (here : s.pc = .isEmpty) (idle : s.idle = true) :
      Step s { s with
        parking := ⟨s.parking.shared, s.parking.threads.set 0 .swap⟩
        pc := .park }
  | yields (here : s.pc = .isEmpty) : Step s { s with pc := .yieldNow }
  | yielded (here : s.pc = .yieldNow) : Step s { s with pc := .poll }

/-- **A step has one of the outcomes.** -/
theorem step_of_taken {s s' : State V} {a : Label V} (taken : (machine V).step s a = some s') :
    Step s s' := by
  replace taken : s.step a = some s' := taken
  cases a with
  | thread i l =>
      simp only [State.step] at taken
      split at taken
      · next allowed =>
          obtain ⟨parking, moved, rfl⟩ := Option.map_eq_some_iff.mp taken
          obtain ⟨pc, shared, pc', found, step, rfl⟩ := flagStep_of_taken moved
          exact .thread found step allowed
      · cases taken
  | poll =>
      simp only [State.step] at taken
      split at taken
      · next here =>
          cases taken
          exact .poll here
      · cases taken
  | ready output =>
      simp only [State.step] at taken
      split at taken
      · next here idle =>
          cases taken
          exact .ready here idle
      · cases taken
  | pending =>
      simp only [State.step] at taken
      split at taken
      · next here idle =>
          cases taken
          exact .pending here idle
      · cases taken
  | steal found =>
      simp only [State.step] at taken
      split at taken
      · next here =>
          cases found with
          | true =>
              cases taken
              exact .found here
          | false =>
              cases taken
              exact .none here
      · cases taken
  | ran =>
      simp only [State.step] at taken
      split at taken
      · next here idle =>
          cases taken
          exact .ran here idle
      · cases taken
  | isEmpty empty =>
      simp only [State.step] at taken
      split at taken
      · next here =>
          cases empty with
          | true =>
              obtain ⟨parking, moved, rfl⟩ := Option.map_eq_some_iff.mp taken
              obtain ⟨pc, shared, pc', found, step, rfl⟩ := flagStep_of_taken moved
              cases step with
              | park first => exact .parks here (by simp [State.idle, found])
          | false =>
              cases taken
              exact .yields here
      · cases taken
  | yielded =>
      simp only [State.step] at taken
      split at taken
      · next here =>
          cases taken
          exact .yielded here
      · cases taken

/-! ## Wakes and polls -/

/-- Where the parking thread may be while `block_on` is here. -/
def Pc.fits : Pc V → FlagPc → Bool
  | .park, .swap | .park, .parked => true
  | .polling, .idle | .polling, .unparkThread | .run, .idle | .run, .unparkThread => true
  | .park, _ | .polling, _ | .run, _ => false
  | _, pc => pc == .idle

/-- A wake since the last poll began has left the flag set, or the next poll comes. -/
structure Awake (s : State V) : Prop where
  kept : Kept s.parking
  thread : ∃ pc, s.parking.threads[0]? = some pc ∧ s.pc.fits pc = true
  others : Pool.Each (fun i pc => i ≠ 0 → pc = .idle ∨ pc = .unparkThread) s.parking.threads
  woken : s.woken = true → s.parking.shared.flag = true ∨ s.pc = .poll

/-- The parker steps of thread `0` fit. -/
theorem Pc.fits_parked {pc : Pc V} {s shared : FlagParker} {t t' : FlagPc} {l : FlagLabel}
    {threads : List FlagPc} (fits : pc.fits t = true) (admits : pc.admits l = true)
    (found : threads[0]? = some t) (step : FlagPc.Step .blockOnParker 0 s t l shared t') :
    (pc.parked ⟨shared, threads.set 0 t'⟩).fits t' = true := by
  have here := Pool.getElem?_set_self t' found
  cases pc with
  | park =>
      simp only [Pc.parked, here]
      cases step with
      | returns | sleeps | permitted | spurious => rfl
      | _ => cases fits
  | polling | run =>
      cases step with
      | park => cases admits
      | returns | sleeps | permitted | spurious => cases fits
      | _ => rfl
  | _ => cases admits

/-- A step of another thread leaves `block_on` where it is. -/
theorem Pc.parked_of_other {pc : Pc V} {shared : FlagParker} {t t' : FlagPc} {i : Nat}
    {threads : List FlagPc} (fits : pc.fits t = true) (found : threads[0]? = some t)
    (other : i ≠ 0) :
    pc.parked ⟨shared, threads.set i t'⟩ = pc := by
  have here : (threads.set i t')[0]? = some t := by rwa [List.getElem?_set_ne other]
  cases pc with
  | park =>
      cases t with
      | swap | parked => simp [Pc.parked, here]
      | _ => cases fits
  | _ => rfl

/-- The other threads stay outside of `park`. -/
theorem stays_out {s shared : FlagParker} {t t' : FlagPc} {l : FlagLabel} {i : Nat} (other : i ≠ 0)
    (out : t = .idle ∨ t = .unparkThread)
    (step : FlagPc.Step .blockOnParker i s t l shared t') : t' = .idle ∨ t' = .unparkThread := by
  cases step with
  | park isFirst => exact absurd isFirst other
  | unpark => exact .inr rfl
  | unparkSet | unparkThread | setPermit | takePermit => exact .inl rfl
  | returns | sleeps | permitted | spurious => rcases out with out | out <;> cases out

section Parker

variable {s : State V} {i : Nat} {l : FlagLabel} {pc pc' : FlagPc} {shared : FlagParker}

/-- A wake leaves the flag set. Only the loop itself takes the flag, and it polls next. -/
theorem Awake.answered (inv : Awake s) (found : s.parking.threads[i]? = some pc)
    (step : FlagPc.Step .blockOnParker i s.parking.shared pc l shared pc')
    (now : (s.woken || l == .unpark) = true) :
    shared.flag = true ∨ s.pc.parked ⟨shared, s.parking.threads.set i pc'⟩ = .poll := by
  cases step with
  | unparkSet | unpark => exact .inl rfl
  | returns set =>
      obtain rfl : i = 0 := by
        by_contra other
        rcases inv.others i _ found other with out | out <;> cases out
      obtain ⟨t, first, fits⟩ := inv.thread
      cases found.symm.trans first
      have parks : s.pc = .park := by
        cases here : s.pc <;> rw [here] at fits <;> first | rfl | cases fits
      have back := Pool.getElem?_set_self FlagPc.idle found
      exact .inr (by simp [Pc.parked, parks, back])
  | _ =>
      have before : s.woken = true := by simpa using now
      rcases inv.woken before with flag | polls
      · exact .inl flag
      · exact .inr (by simp [Pc.parked, polls])

/-- A step of a thread on the parker. -/
theorem Awake.parker (inv : Awake s) (found : s.parking.threads[i]? = some pc)
    (step : FlagPc.Step .blockOnParker i s.parking.shared pc l shared pc')
    (allowed : s.pc.allows i l = true) :
    Awake { s with
      parking := ⟨shared, s.parking.threads.set i pc'⟩
      pc := s.pc.parked ⟨shared, s.parking.threads.set i pc'⟩
      woken := s.woken || l == .unpark } := by
  obtain ⟨t, first, fits⟩ := inv.thread
  refine ⟨inv.kept.step found step, ?_, ?_, inv.answered found step⟩
  · by_cases mine : i = 0
    · subst mine
      cases found.symm.trans first
      refine ⟨pc', Pool.getElem?_set_self pc' found, ?_⟩
      exact Pc.fits_parked fits allowed found step
    · refine ⟨t, ?_, ?_⟩
      · rwa [List.getElem?_set_ne mine]
      · rw [Pc.parked_of_other fits first mine]
        exact fits
  · refine Pool.interference_free inv.others ?_ fun _ _ _ _ other => other
    intro other
    exact stays_out other (inv.others i pc found other) step

end Parker

/-- A step that leaves the parker alone, and does not begin a poll. -/
theorem Awake.local {s : State V} (inv : Awake s) (idle : s.idle = true) {pc : Pc V}
    (results : List (Option V)) (fits : pc.fits .idle = true) (later : s.pc ≠ .poll) :
    Awake { s with pc, results } where
  kept := inv.kept
  thread := ⟨.idle, by simpa [State.idle] using idle, fits⟩
  others := inv.others
  woken woken := .inl ((inv.woken woken).resolve_right later)

/-- Outside of the poll, of the run and of `park` thread `0` is inside no call. -/
theorem Awake.idle {s : State V} (inv : Awake s)
    (here : s.pc = .stealWork ∨ s.pc = .isEmpty ∨ s.pc = .yieldNow) : s.idle = true := by
  obtain ⟨pc, first, fits⟩ := inv.thread
  have same : pc = .idle := by
    rcases here with here | here | here <;> rw [here] at fits <;> exact eq_of_beq fits
  simp [State.idle, first, same]

theorem Awake.step {s s' : State V} (inv : Awake s) (step : Step s s') : Awake s' := by
  cases step with
  | thread found step allowed => exact inv.parker found step allowed
  | poll here =>
      obtain ⟨kept, ⟨t, first, fits⟩, others, woken⟩ := inv
      rw [here] at fits
      obtain rfl : t = .idle := eq_of_beq fits
      exact ⟨kept, ⟨.idle, first, rfl⟩, others, nofun⟩
  | ready here idle => exact inv.local idle _ rfl (by simp [here])
  | pending here idle => exact inv.local idle _ rfl (by simp [here])
  | found here => exact inv.local (inv.idle (.inl here)) _ rfl (by simp [here])
  | none here => exact inv.local (inv.idle (.inl here)) _ rfl (by simp [here])
  | ran here idle => exact inv.local idle _ rfl (by simp [here])
  | parks here idle =>
      have found : s.parking.threads[0]? = some .idle := by simpa [State.idle] using idle
      have parks : FlagPc.Step .blockOnParker 0 s.parking.shared .idle .park s.parking.shared
          .swap := .park rfl
      refine ⟨inv.kept.step found parks, ⟨.swap, Pool.getElem?_set_self _ found, rfl⟩, ?_, ?_⟩
      · exact Pool.interference_free inv.others (absurd rfl) fun _ _ _ _ other => other
      · exact fun woken => .inl ((inv.woken woken).resolve_right (by simp [here]))
  | yields here => exact inv.local (inv.idle (.inr (.inl here))) _ rfl (by simp [here])
  | yielded here => exact inv.local (inv.idle (.inr (.inr here))) _ rfl (by simp [here])

theorem awake {s : State V} (reached : (machine V).Reaches s) : Awake s := by
  refine reached.invariant ?_ fun s a s' _ inv _ taken => inv.step (step_of_taken taken)
  rintro _ ⟨n, rfl⟩
  refine ⟨⟨fun missed => absurd missed (not_unheard_flagParkingWith _), nofun, justified_nil⟩,
    ⟨.idle, rfl, rfl⟩, ?_, nofun⟩
  intro i pc found _
  have member : pc ∈ List.replicate (n + 1) FlagPc.idle := List.mem_of_getElem? found
  exact .inl (List.eq_of_mem_replicate member)

/-! ## From a wake to the next poll -/

/-- A thread goes on in a call of the parker. -/
theorem step_next {s : State V} {i : Nat} {t t' : FlagPc} {shared : FlagParker}
    (found : s.parking.threads[i]? = some t)
    (moved : t.move .blockOnParker i s.parking.shared .next = some (shared, t'))
    (allowed : s.pc.allows i .next = true) :
    (machine V).step s (.thread i .next) = some { s with
      parking := ⟨shared, s.parking.threads.set i t'⟩
      pc := s.pc.parked ⟨shared, s.parking.threads.set i t'⟩ } := by
  simp [machine, State.step, allowed, flagParking, Pool.step, found, moved]

/-- Thread `0` is in `park` at this point, with the flag set. -/
structure ParkedAt (t : FlagPc) (s : State V) : Prop where
  here : s.pc = .park
  flag : s.parking.shared.flag = true
  first : s.parking.threads[0]? = some t

/-- From the swap it takes the flag, and the loop polls next. -/
theorem ParkedAt.swap {s : State V} (parked : ParkedAt .swap s) :
    ∃ s', (machine V).step s (.thread 0 .next) = some s' ∧ s'.pc = .poll := by
  obtain ⟨here, flag, first⟩ := parked
  refine ⟨_, step_next first (if_pos flag) (by simp [Pc.allows, here, Pc.admits]), ?_⟩
  simp [Pc.parked, here, Pool.getElem?_set_self _ first]

/-- From `thread::park` it comes back to the swap by its permit. -/
theorem ParkedAt.permitted {s : State V} (parked : ParkedAt .parked s)
    (permit : s.parking.shared.permits 0 = true) :
    ∃ s', (machine V).step s (.thread 0 .next) = some s' ∧ ParkedAt .swap s' := by
  obtain ⟨here, flag, first⟩ := parked
  have swap := Pool.getElem?_set_self FlagPc.swap first
  refine ⟨_, step_next first (if_pos permit) (by simp [Pc.allows, here, Pc.admits]),
    ⟨?_, flag, swap⟩⟩
  simp [Pc.parked, here, swap]

/-- An unpark in progress sets that permit. -/
theorem ParkedAt.unparked {s : State V} (parked : ParkedAt .parked s) {i : Nat}
    (found : s.parking.threads[i]? = some .unparkThread) :
    ∃ s', (machine V).step s (.thread i .next) = some s' ∧ ParkedAt .parked s' ∧
      s'.parking.shared.permits 0 = true := by
  obtain ⟨here, flag, first⟩ := parked
  have other : i ≠ 0 := by
    rintro rfl
    cases found.symm.trans first
  have still : (s.parking.threads.set i .idle)[0]? = some .parked := by
    rwa [List.getElem?_set_ne other]
  refine ⟨_, step_next found rfl (by simp [Pc.allows, other, here, Pc.live]),
    ⟨?_, flag, still⟩, FlagParker.setPermit_self _ 0⟩
  simp [Pc.parked, here, still]

/-- A thread goes on in a call that it is inside of. -/
def goesOn (_ : State V) : Label V → Prop
  | .thread _ .next => True
  | _ => False

/-- The loop comes to its next poll in so many steps of threads that go on in a call. -/
abbrev PollsWithin (k : Nat) (s : State V) : Prop :=
  (machine V).LeadsWithin goesOn (·.pc = .poll) k s

theorem ParkedAt.pollsWithin_one {s : State V} (parked : ParkedAt .swap s) : PollsWithin 1 s := by
  obtain ⟨s', taken, polls⟩ := parked.swap
  exact .step taken trivial (.here polls)

theorem ParkedAt.pollsWithin_two {s : State V} (parked : ParkedAt .parked s)
    (permit : s.parking.shared.permits 0 = true) : PollsWithin 2 s := by
  obtain ⟨s', taken, swap⟩ := parked.permitted permit
  exact .step taken trivial swap.pollsWithin_one

/-- **A wake is followed by a poll.** When the loop is in `park` with a wake that came since the
last poll began, the flag is set, and three steps at most, of threads that go on in the calls they
are inside of, bring the loop to its next poll. -/
theorem woken_polls_again {s : State V} (reached : (machine V).Reaches s) (here : s.pc = .park)
    (woken : s.woken = true) : s.parking.shared.flag = true ∧ PollsWithin 3 s := by
  have inv := awake reached
  have flag := (inv.woken woken).resolve_right (by simp [here])
  refine ⟨flag, ?_⟩
  obtain ⟨t, first, fits⟩ := inv.thread
  rw [here] at fits
  cases t with
  | swap => exact (ParkedAt.pollsWithin_one ⟨here, flag, first⟩).mono (by omega)
  | parked =>
      have parked : ParkedAt .parked s := ⟨here, flag, first⟩
      by_cases permit : s.parking.shared.permits 0 = true
      · exact (parked.pollsWithin_two permit).mono (by omega)
      · have missed : Unheard s.parking :=
          ⟨asleep_iff.mpr ⟨first, Bool.eq_false_of_not_eq_true permit⟩, flag⟩
        obtain ⟨pc, member, rfl⟩ := inv.kept.answered missed
        obtain ⟨i, found⟩ := List.mem_iff_getElem?.mp member
        obtain ⟨s', taken, still, permit⟩ := parked.unparked found
        exact .step taken trivial (still.pollsWithin_two permit)
  | _ => cases fits

/-- The waker is woken from another thread while the loop sleeps. -/
def wokenAsleep : List (Label Unit) :=
  [.poll, .pending, .steal false, .isEmpty true, .thread 0 .next, .thread 1 .unpark]

theorem woken_polls_again_asleep : ∃ s : State Unit, asleep s.parking = true ∧
    s.parking.shared.flag = true ∧ PollsWithin 3 s := by
  obtain ⟨s, reached, tested⟩ := (machine Unit).exists_reaches_of_test
    (fun s => asleep s.parking && s.woken && s.pc == .park) wokenAsleep ⟨1, rfl⟩ (by decide)
  simp only [Bool.and_eq_true, beq_iff_eq] at tested
  obtain ⟨⟨sleeps, woken⟩, here⟩ := tested
  exact ⟨s, sleeps, woken_polls_again reached here woken⟩

/-! ## The output -/

/-- The polls so far were pending, but for the last one once `block_on` has returned. -/
def Sound (s : State V) : Prop :=
  match s.pc with
  | .returned output => ∃ k, s.results = some output :: List.replicate k none
  | _ => ∃ k, s.results = List.replicate k none

theorem sound_of_live {s : State V} (live : s.pc.live = true) :
    Sound s ↔ ∃ k, s.results = List.replicate k none := by
  cases here : s.pc with
  | returned output => simp [here, Pc.live] at live
  | _ => simp [Sound, here]

theorem Pc.live_of_allows {pc : Pc V} {i : Nat} {l : FlagLabel} (allowed : pc.allows i l = true) :
    pc.live = true := by
  cases pc with
  | returned output => simp [Pc.allows, Pc.admits, Pc.live] at allowed
  | _ => rfl

theorem Pc.live_parked (pc : Pc V) (parking : FlagState) : (pc.parked parking).live = pc.live := by
  cases pc with
  | park =>
      simp only [Pc.parked]
      split <;> rfl
  | _ => rfl

theorem Sound.step {s s' : State V} (inv : Sound s) (step : Step s s') : Sound s' := by
  have live : s.pc.live = true := by
    cases step with
    | thread found step allowed => exact Pc.live_of_allows allowed
    | _ => simp [*, Pc.live]
  obtain ⟨k, pending⟩ := (sound_of_live live).mp inv
  cases step with
  | thread found step allowed =>
      exact (sound_of_live ((Pc.live_parked _ _).trans live)).mpr ⟨k, pending⟩
  | ready => exact ⟨k, congrArg _ pending⟩
  | pending => exact ⟨k + 1, congrArg (none :: ·) pending⟩
  | _ => exact ⟨k, pending⟩

/-- **`block_on` returns the first output of the future**, and polls it no more after that. -/
theorem returns_first_ready {s : State V} (reached : (machine V).Reaches s) : Sound s := by
  refine reached.invariant ?_ fun s a s' _ inv _ taken => inv.step (step_of_taken taken)
  rintro _ ⟨n, rfl⟩
  exact ⟨0, rfl⟩

end LoonyRuntime.Runtime.MultiThread.BlockOn
