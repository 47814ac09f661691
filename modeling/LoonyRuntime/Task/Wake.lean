import LoonyRuntime.Task.Operational

/-!
# Wakes of an idle task

Any number of wake calls runs on a task that is idle and not aborted, while other threads clone
and drop wakers of it and set its join waker. No thread runs, completes or aborts the task. Each
call is the retry loop of `advanceWake` on a word that the other threads keep changing.

`alone` is the word that the other operations would have made of the initial one. The word is
`alone` until one exchange succeeds, and from then on it is `alone` with the bit `SCHEDULED`
(`WakeInv`). It is idle before that and not after, so that one exchange succeeds at most, and a
call that returns returns after it (`wakes_schedule_once`).
-/

set_option autoImplicit false

namespace LoonyRuntime.Task

open TaskState Concurrent

variable {T : Type}

/-! ## The other operations on the word -/

/-- An operation on the word other than an exchange. -/
inductive WordOp where
  /-- The `fetch_add` of `clone_waker`. -/
  | clone
  /-- The `fetch_sub` of `drop_waker`. -/
  | drop
  /-- The `fetch_or` of `set_join_waker`. -/
  | setInterest
deriving DecidableEq, Repr

def WordOp.apply : WordOp → Usize → Usize
  | .clone, word => word + refOne
  | .drop, word => word - refOne
  | .setInterest, word => word ||| joinInterest.bits

/-- The word that the operations, latest first, make of a word. -/
def alone (word : Usize) (ops : List WordOp) : Usize := ops.foldr WordOp.apply word

/-! ## Steps -/

/-- A task on which wake calls run. -/
structure Waking (T : Type) extends Cell T where
  /-- The other operations on the word so far, latest first. -/
  others : List WordOp

def Waking.apply (s : Waking T) (op : WordOp) : Waking T :=
  { s with state := op.apply s.state, others := op :: s.others }

/-- Where a thread is that clones and drops wakers and sets the join waker. The result of
`set_join_waker` is read by `JoinHandle::poll` only, and is left out. -/
inductive OtherPc where
  | idle
  | deallocate
  | storeJoinWaker (waker : Nat)
deriving DecidableEq, Repr

/-- A thread: a wake call, in progress or returned, or a thread of the others. -/
inductive WakeParty where
  | wake (impl : WakerImpl) (via : Via) (pc : WakePc impl)
  | returned
  | other (pc : OtherPc)

/-- The thread whose frames are these: a wake call has returned when none is left. -/
def WakeParty.ofFrames : List (Frame T) → WakeParty
  | [.wake impl via pc] => .wake impl via pc
  | _ => .returned

inductive WakeLabel where
  /-- The next operation. -/
  | next
  /-- `compare_exchange_weak` fails although the word is the expected one. -/
  | spurious
  | clone
  | drop
  | setJoinWaker (waker : Nat)
deriving DecidableEq, Repr

/-- One step of a thread. -/
def WakeParty.move (s : Waking T) : WakeParty → WakeLabel → Option (Waking T × WakeParty)
  | .wake impl via pc, .next =>
      (advanceWake impl via s.toCell pc).map fun r => ({ s with toCell := r.1 }, .ofFrames r.2)
  | .wake .waker via (.compareExchange _), .spurious => some (s, .wake .waker via .load)
  | .other .idle, .clone => some (s.apply .clone, .other .idle)
  | .other .idle, .drop =>
      some (s.apply .drop, .other (if lastReference s.state then .deallocate else .idle))
  | .other .deallocate, .next =>
      some ({ s with toCell := Task.deallocate s.toCell }, .other .idle)
  | .other .idle, .setJoinWaker waker =>
      some (s.apply .setInterest, .other (.storeJoinWaker waker))
  | .other (.storeJoinWaker waker), .next =>
      some ({ s with joinWaker := some waker }, .other .idle)
  | _, _ => none

abbrev WakeState (T : Type) := Pool (Waking T) WakeParty

/-- A task, a wake call of each of the given kinds, and `m` other threads. -/
def wakingWith (cell : Cell T) (calls : List (WakerImpl × Via)) (m : Nat) : WakeState T where
  shared := { cell with others := [] }
  threads := calls.map (fun call => .wake call.1 call.2 .load) ++ List.replicate m (.other .idle)

/-- The machine of the wake calls on a task. -/
def waking (cell : Cell T) (calls : List (WakerImpl × Via)) (m : Nat) :
    Machine (WakeState T) (Nat × WakeLabel) where
  initial s := s = wakingWith cell calls m
  step := Pool.step fun _ => WakeParty.move

/-! ## What a step can do -/

namespace WakeParty

/-- The outcomes of one step of a thread. -/
inductive Step (s : Waking T) : WakeParty → Waking T → WakeParty → Prop where
  | breaks {impl : WakerImpl} {via : Via} (stops : impl.proceeds s.state = false) :
      Step s (.wake impl via .load) { s with toCell := s.toCell.wakeReturns via } .returned
  | loads {impl : WakerImpl} {via : Via} (may : impl.proceeds s.state = true) :
      Step s (.wake impl via .load) s (.wake impl via (.compareExchange ⟨s.state, may⟩))
  | exchanges {impl : WakerImpl} {via : Via} {current : { word // impl.proceeds word = true }}
      (same : s.state = current.1) :
      Step s (.wake impl via (.compareExchange current))
        { s with toCell := { s.toCell with state := impl.desired s.state }.record .scheduled }
        (.wake impl via .schedule)
  | retries {impl : WakerImpl} {via : Via} {current : { word // impl.proceeds word = true }} :
      Step s (.wake impl via (.compareExchange current)) s (.wake impl via .load)
  | schedules {impl : WakerImpl} {via : Via} :
      Step s (.wake impl via .schedule)
        { s with toCell := { s.toCell with queue := s.queue + 1 }.wakeReturns via } .returned
  | ranInline {impl : WakerImpl} {via : Via} :
      Step s (.wake impl via .ranInline) { s with toCell := s.toCell.wakeReturns via } .returned
  | applies (op : WordOp) {pc : OtherPc} (last : pc = .deallocate → lastReference s.state = true) :
      Step s (.other .idle) (s.apply op) (.other pc)
  | deallocates : Step s (.other .deallocate) { s with toCell := Task.deallocate s.toCell }
      (.other .idle)
  | stores {waker : Nat} :
      Step s (.other (.storeJoinWaker waker)) { s with joinWaker := some waker } (.other .idle)

variable {s s' : Waking T} {t t' : WakeParty} {l : WakeLabel}

/-- **A step has one of these outcomes.** -/
theorem step_of_move (moved : t.move s l = some (s', t')) : Step s t s' t' := by
  cases t with
  | wake impl via pc =>
      cases l with
      | next =>
          cases pc with
          | load =>
              simp only [move, advanceWake] at moved
              split at moved
              · next may =>
                  cases moved
                  exact .loads may
              · next stops =>
                  cases moved
                  exact .breaks (Bool.eq_false_of_not_eq_true stops)
          | compareExchange current =>
              simp only [move, advanceWake] at moved
              split at moved
              · next same =>
                  rw [← same] at moved
                  obtain ⟨rfl, rfl⟩ := Prod.mk.inj (Option.some.inj moved)
                  exact .exchanges same
              · cases moved
                exact .retries
          | schedule =>
              cases moved
              exact .schedules
          | ranInline =>
              cases moved
              exact .ranInline
      | spurious =>
          cases impl with
          | raw => cases moved
          | waker =>
              cases pc with
              | compareExchange current =>
                  cases moved
                  exact .retries
              | _ => cases moved
      | _ => cases impl <;> cases moved
  | returned => cases l <;> cases moved
  | other pc =>
      cases pc with
      | idle =>
          cases l with
          | clone =>
              obtain ⟨rfl, rfl⟩ := Prod.mk.inj (Option.some.inj moved)
              exact .applies .clone (by intro last; cases last)
          | drop =>
              simp only [move] at moved
              split at moved
              · next last =>
                  obtain ⟨rfl, rfl⟩ := Prod.mk.inj (Option.some.inj moved)
                  exact .applies .drop fun _ => last
              · obtain ⟨rfl, rfl⟩ := Prod.mk.inj (Option.some.inj moved)
                exact .applies .drop (by intro last; cases last)
          | setJoinWaker waker =>
              obtain ⟨rfl, rfl⟩ := Prod.mk.inj (Option.some.inj moved)
              exact .applies .setInterest (by intro last; cases last)
          | next | spurious => cases moved
      | deallocate =>
          cases l with
          | next =>
              cases moved
              exact .deallocates
          | _ => cases moved
      | storeJoinWaker waker =>
          cases l with
          | next =>
              cases moved
              exact .stores
          | _ => cases moved

end WakeParty

/-! ## The word of an idle task -/

/-- Neither masking out the lifecycle nor the mask of `raw.rs` changes an idle word. -/
theorem and_not_stateMask {word : Usize} (idle : Marks.isIdle (marks word) = true) :
    word &&& ~~~stateMask = word := by
  have none : word &&& stateMask = 0#64 := by
    rw [← isIdle_marks] at idle
    exact eq_of_beq idle
  have full : ~~~stateMask ||| stateMask = BitVec.allOnes 64 := by decide
  calc word &&& ~~~stateMask
      = (word &&& ~~~stateMask) ||| (word &&& stateMask) := by rw [none, BitVec.or_zero]
    _ = word &&& (~~~stateMask ||| stateMask) := by
        ext i
        simp only [BitVec.getElem_or, BitVec.getElem_and, Bool.and_or_distrib_left]
    _ = word := by rw [full, BitVec.and_allOnes]

/-- Both wakers exchange an idle word for the word with the bit `SCHEDULED`. -/
theorem desired_eq_or (impl : WakerImpl) {word : Usize}
    (idle : Marks.isIdle (marks word) = true) : impl.desired word = word ||| scheduled.bits := by
  cases impl with
  | raw => rfl
  | waker => rw [WakerImpl.desired, wakeBitsMasked, and_not_stateMask idle]

/-- On an idle word, setting the bit `SCHEDULED` adds it. -/
theorem or_scheduled_eq_add {word : Usize} (idle : Marks.isIdle (marks word) = true) :
    word ||| scheduled.bits = word + scheduled.bits := by
  have none : word &&& scheduled.bits = 0#64 := by
    have apart : ~~~stateMask &&& scheduled.bits = 0#64 := by decide
    rw [← and_not_stateMask idle, BitVec.and_assoc, apart, BitVec.and_zero]
  rw [BitVec.add_eq_or_of_and_eq_zero _ _ none]

namespace WordOp

@[simp] theorem isIdle_apply (op : WordOp) (word : Usize) :
    Marks.isIdle (marks (op.apply word)) = Marks.isIdle (marks word) := by
  cases op with
  | clone => rw [apply, marks_add_refOne]
  | drop => rw [apply, marks_sub_refOne]
  | setInterest =>
      rw [apply, marks_or_joinInterest]
      exact Marks.isIdle_or_joinInterest (marks word)

@[simp] theorem isAborted_apply (op : WordOp) (word : Usize) :
    Marks.isAborted (marks (op.apply word)) = Marks.isAborted (marks word) := by
  cases op with
  | clone => rw [apply, marks_add_refOne]
  | drop => rw [apply, marks_sub_refOne]
  | setInterest =>
      rw [apply, marks_or_joinInterest]
      exact Marks.isAborted_or_joinInterest (marks word)

/-- An operation and the exchange of an idle word commute. -/
theorem apply_or_scheduled (op : WordOp) {word : Usize}
    (idle : Marks.isIdle (marks word) = true) :
    op.apply (word ||| scheduled.bits) = op.apply word ||| scheduled.bits := by
  have after : Marks.isIdle (marks (op.apply word)) = true := by rw [isIdle_apply, idle]
  cases op with
  | clone =>
      rw [or_scheduled_eq_add idle, or_scheduled_eq_add after]
      exact add_right_comm word scheduled.bits refOne
  | drop =>
      rw [or_scheduled_eq_add idle, or_scheduled_eq_add after]
      simp only [apply, BitVec.sub_eq_add_neg]
      exact add_right_comm word scheduled.bits (-refOne)
  | setInterest =>
      simp only [apply, BitVec.or_assoc]
      rw [BitVec.or_comm scheduled.bits]

end WordOp

@[simp] theorem isIdle_alone (word : Usize) (ops : List WordOp) :
    Marks.isIdle (marks (alone word ops)) = Marks.isIdle (marks word) := by
  induction ops with
  | nil => rfl
  | cons op ops ih => exact (op.isIdle_apply _).trans ih

@[simp] theorem isAborted_alone (word : Usize) (ops : List WordOp) :
    Marks.isAborted (marks (alone word ops)) = Marks.isAborted (marks word) := by
  induction ops with
  | nil => rfl
  | cons op ops ih => exact (op.isAborted_apply _).trans ih

/-! ## One exchange succeeds -/

/-- The word when an exchange has succeeded, or when none has. -/
def wokenWord (won : Bool) (word : Usize) : Usize :=
  if won then word ||| scheduled.bits else word

section WokenWord

variable {won : Bool} {word : Usize}

theorem WordOp.apply_wokenWord (op : WordOp) (idle : Marks.isIdle (marks word) = true) :
    op.apply (wokenWord won word) = wokenWord won (op.apply word) := by
  cases won with
  | false => rfl
  | true => exact op.apply_or_scheduled idle

/-- A wake goes on to the exchange as long as no exchange has succeeded. -/
theorem proceeds_wokenWord (impl : WakerImpl) (idle : Marks.isIdle (marks word) = true)
    (live : Marks.isAborted (marks word) = false) :
    impl.proceeds (wokenWord won word) = !won := by
  cases won with
  | false => exact (proceeds_iff impl word).mpr ⟨idle, live⟩
  | true =>
      apply Bool.eq_false_of_not_eq_true
      intro may
      have busy : ∀ m : BitVec 4, Marks.isIdle (m ||| 1#4) = false := by decide
      have marked : marks (word ||| scheduled.bits) = marks word ||| 1#4 := marks_wakeBits word
      have stillIdle := ((proceeds_iff impl _).mp may).1
      rw [wokenWord, if_pos rfl, marked, busy] at stillIdle
      cases stillIdle

/-- A word that is idle or scheduled is not the last reference's to a complete task. -/
theorem lastReference_wokenWord (idle : Marks.isIdle (marks word) = true) :
    lastReference (wokenWord won word) = false := by
  have incomplete : ∀ m : BitVec 4, Marks.isIdle m = true →
      Marks.isComplete m = false ∧ Marks.isComplete (m ||| 1#4) = false := by decide
  cases won with
  | false => simp [lastReference, wokenWord, incomplete _ idle]
  | true =>
      have marked : marks (word ||| scheduled.bits) = marks word ||| 1#4 := marks_wakeBits word
      simp [lastReference, wokenWord, marked, incomplete _ idle]

end WokenWord

namespace WakeParty

/-- The call has exchanged the word and is to call `Task::schedule`. -/
def scheduling : WakeParty → Nat
  | .wake _ _ .schedule => 1
  | _ => 0

/-- The thread is a wake call. -/
def isCall : WakeParty → Nat
  | .other _ => 0
  | _ => 1

/-- The thread is a wake call in progress. -/
def calling : WakeParty → Bool
  | .wake _ _ _ => true
  | _ => false

/-- A call schedules or returns only after an exchange has succeeded, and no drop deallocates. -/
def Fits (won : Bool) : WakeParty → Prop
  | .returned | .wake _ _ .schedule | .wake _ _ .ranInline => won = true
  | .other .deallocate => False
  | _ => True

theorem Fits.mono {t : WakeParty} {won won' : Bool} (later : won = true → won' = true)
    (fits : t.Fits won) : t.Fits won' := by
  cases t with
  | returned => exact later fits
  | wake impl via pc =>
      cases pc with
      | schedule | ranInline => exact later fits
      | _ => trivial
  | other pc =>
      cases pc with
      | deallocate => exact fits
      | _ => trivial

end WakeParty

/-- What holds while wake calls run on the task: `won` says whether an exchange has succeeded. -/
structure WakeInv (cell : Cell T) (calls : Nat) (won : Bool) (s : WakeState T) : Prop where
  word : s.shared.state = wokenWord won (alone cell.state s.shared.others)
  queue : s.shared.queue + total WakeParty.scheduling s.threads = cell.queue + won.toNat
  calls : total WakeParty.isCall s.threads = calls
  parties : ∀ t ∈ s.threads, t.Fits won

@[simp] theorem wakeReturns_state (s : Cell T) (via : Via) :
    (s.wakeReturns via).state = s.state := by
  cases via <;> rfl

@[simp] theorem wakeReturns_queue (s : Cell T) (via : Via) :
    (s.wakeReturns via).queue = s.queue := by
  cases via <;> rfl

namespace WakeInv

section Steps

variable {cell : Cell T} {calls : Nat} {won won' : Bool} {s : WakeState T} {shared : Waking T}
  {i : Nat} {t t' : WakeParty}

/-- The invariant survives a step whose thread keeps its own share of it. -/
theorem moved (inv : WakeInv cell calls won s) (found : s.threads[i]? = some t)
    (later : won = true → won' = true)
    (word : shared.state = wokenWord won' (alone cell.state shared.others))
    (queue : shared.queue + t'.scheduling + won.toNat =
      s.shared.queue + t.scheduling + won'.toNat)
    (kind : t'.isCall = t.isCall) (fits : t'.Fits won') :
    WakeInv cell calls won' ⟨shared, s.threads.set i t'⟩ where
  word := word
  queue := by
    have before := inv.queue
    rw [total_eq_others found] at before
    rw [total_set_others t' found]
    show shared.queue + _ = _
    omega
  calls := by
    have before := inv.calls
    rw [total_eq_others found] at before
    rw [total_set_others t' found]
    omega
  parties := by
    intro u member
    rcases List.mem_or_eq_of_mem_set member with before | rfl
    · exact (inv.parties u before).mono later
    · exact fits

/-- **A step keeps the invariant.** Only the exchange sets `won`, and it finds it unset. -/
theorem step (idle : Marks.isIdle (marks cell.state) = true)
    (live : Marks.isAborted (marks cell.state) = false) (inv : WakeInv cell calls won s)
    (found : s.threads[i]? = some t) (step : WakeParty.Step s.shared t shared t') :
    ∃ won', WakeInv cell calls won' ⟨shared, s.threads.set i t'⟩ := by
  have idleAlone : Marks.isIdle (marks (alone cell.state s.shared.others)) = true := by
    rw [isIdle_alone, idle]
  have liveAlone : Marks.isAborted (marks (alone cell.state s.shared.others)) = false := by
    rw [isAborted_alone, live]
  have proceeds : ∀ impl : WakerImpl, impl.proceeds s.shared.state = !won := by
    intro impl
    rw [inv.word, proceeds_wokenWord impl idleAlone liveAlone]
  have fits := inv.parties t (List.mem_of_getElem? found)
  cases step with
  | breaks stops =>
      rw [proceeds] at stops
      have after : won = true := by simpa using stops
      refine ⟨won, inv.moved found id ?_ ?_ rfl after⟩
      · simp [inv.word]
      · simp [WakeParty.scheduling]
  | loads may => exact ⟨won, inv.moved found id inv.word rfl rfl trivial⟩
  | @exchanges impl via current same =>
      have unwon : won = false := by
        have may := current.2
        rw [← same, proceeds] at may
        simpa using may
      subst unwon
      have word : s.shared.state = alone cell.state s.shared.others := inv.word
      refine ⟨true, inv.moved found (fun _ => rfl) ?_ rfl rfl rfl⟩
      show impl.desired s.shared.state = _
      rw [word]
      exact desired_eq_or impl idleAlone
  | retries => exact ⟨won, inv.moved found id inv.word rfl rfl trivial⟩
  | schedules =>
      refine ⟨won, inv.moved found id ?_ ?_ rfl fits⟩
      · simp [inv.word]
      · simp [WakeParty.scheduling]
  | ranInline =>
      refine ⟨won, inv.moved found id ?_ ?_ rfl fits⟩
      · simp [inv.word]
      · simp [WakeParty.scheduling]
  | @applies op pc last =>
      refine ⟨won, inv.moved found id ?_ rfl rfl ?_⟩
      · show op.apply s.shared.state = wokenWord won (op.apply (alone cell.state s.shared.others))
        rw [inv.word, op.apply_wokenWord idleAlone]
      · cases pc with
        | deallocate =>
            have never : lastReference s.shared.state = false := by
              rw [inv.word]
              exact lastReference_wokenWord idleAlone
            rw [last rfl] at never
            cases never
        | _ => trivial
  | deallocates => exact fits.elim
  | stores => exact ⟨won, inv.moved found id inv.word rfl rfl trivial⟩

end Steps

theorem wakingWith (cell : Cell T) (calls : List (WakerImpl × Via)) (m : Nat) :
    WakeInv cell calls.length false (wakingWith cell calls m) where
  word := rfl
  queue := by
    have none : ∀ t ∈ (Task.wakingWith cell calls m).threads, t.scheduling = 0 := by
      intro t member
      rcases List.mem_append.mp member with call | other
      · obtain ⟨call, -, rfl⟩ := List.mem_map.mp call
        rfl
      · rw [List.eq_of_mem_replicate other]
        rfl
    rw [total_eq_zero _ none]
    rfl
  calls := by
    have others : total WakeParty.isCall (List.replicate m (.other .idle)) = 0 :=
      total_replicate_eq_zero _ rfl
    show total WakeParty.isCall (_ ++ _) = _
    rw [total_append, others, Nat.add_zero]
    simp [total, Function.comp_def, WakeParty.isCall]
  parties := by
    intro t member
    rcases List.mem_append.mp member with call | other
    · obtain ⟨call, -, rfl⟩ := List.mem_map.mp call
      trivial
    · rw [List.eq_of_mem_replicate other]
      trivial

/-- **The invariant holds in every reached state.** -/
theorem of_reaches {cell : Cell T} (idle : Marks.isIdle (marks cell.state) = true)
    (live : Marks.isAborted (marks cell.state) = false) {calls : List (WakerImpl × Via)} {m : Nat}
    {s : WakeState T} (reached : (waking cell calls m).Reaches s) :
    ∃ won, WakeInv cell calls.length won s := by
  refine Machine.ReachesWhen.invariant (I := fun s => ∃ won, WakeInv cell calls.length won s)
    ?_ ?_ reached
  · rintro s rfl
    exact ⟨false, wakingWith cell calls m⟩
  · rintro s ⟨i, l⟩ s' - ⟨won, inv⟩ - taken
    replace taken : Pool.step (fun _ => WakeParty.move) s (i, l) = some s' := taken
    obtain ⟨t, shared, t', found, moved, rfl⟩ := Pool.step_eq_some taken
    exact inv.step idle live found (WakeParty.step_of_move moved)

end WakeInv

/-! ## Exactly one call of `Task::schedule` -/

/-- Setting the bit `SCHEDULED` leaves the flags. -/
theorem flags_or_scheduled (word : Usize) :
    (fromBits (word ||| scheduled.bits)).flags = (fromBits word).flags := by
  have apart : scheduled.bits &&& flagsMask = 0#64 := by decide
  show (word ||| scheduled.bits) &&& flagsMask = word &&& flagsMask
  rw [BitVec.and_or_distrib_right, apart, BitVec.or_zero]

/-- Setting the bit `SCHEDULED` leaves the reference count. -/
theorem refcount_or_scheduled (word : Usize) :
    (fromBits (word ||| scheduled.bits)).refcount = (fromBits word).refcount :=
  refcount_of_refs (refs_wakeBits word)

/-- **Concurrent wakes schedule the task exactly once.** Of any calls on a task that is idle and
not aborted, among any clones, drops and settings of the join waker, one has called
`Task::schedule` when all have returned. The task is then scheduled, with the flags and the
reference count that the other operations alone would have made. -/
theorem wakes_schedule_once {cell : Cell T} {calls : List (WakerImpl × Via)} {m : Nat}
    (idle : (fromBits cell.state).isIdle = true) (live : (fromBits cell.state).isAborted = false)
    (some_call : calls ≠ []) {s : WakeState T} (reached : (waking cell calls m).Reaches s)
    (returned : ∀ t ∈ s.threads, t.calling = false) :
    s.shared.queue = cell.queue + 1 ∧
      (fromBits s.shared.state).isScheduled = true ∧
      (fromBits s.shared.state).flags = (fromBits (alone cell.state s.shared.others)).flags ∧
      (fromBits s.shared.state).refcount =
        (fromBits (alone cell.state s.shared.others)).refcount := by
  rw [isIdle_marks] at idle
  rw [isAborted_marks] at live
  obtain ⟨won, inv⟩ := WakeInv.of_reaches idle live reached
  have scheduling : total WakeParty.scheduling s.threads = 0 := by
    apply total_eq_zero
    intro t member
    have done := returned t member
    cases t with
    | wake impl via pc => cases done
    | returned | other pc => rfl
  have after : won = true := by
    have some_party : 0 < total WakeParty.isCall s.threads := by
      rw [inv.calls]
      exact List.length_pos_iff.mpr some_call
    obtain ⟨t, member, isCall⟩ := exists_of_total_pos some_party
    have fits := inv.parties t member
    have done := returned t member
    cases t with
    | wake impl via pc => cases done
    | returned => exact fits
    | other pc => cases isCall
  subst after
  have word : s.shared.state = alone cell.state s.shared.others ||| scheduled.bits := inv.word
  have queue := inv.queue
  rw [scheduling] at queue
  refine ⟨queue, ?_, ?_, ?_⟩
  · have marked : marks s.shared.state = marks (alone cell.state s.shared.others) ||| 1#4 := by
      rw [word]
      exact marks_wakeBits _
    have finite : ∀ m : BitVec 4, Marks.isIdle m = true →
        Marks.isScheduled (m ||| 1#4) = true := by
      decide
    rw [isScheduled_marks, marked]
    apply finite
    rw [isIdle_alone, idle]
  · rw [word, flags_or_scheduled]
  · rw [word, refcount_or_scheduled]

/-- Threads `0` and `1` load the idle word. The exchange of thread `0` fails because thread `2`
clones a waker, and the one of thread `1` fails spuriously and then succeeds. -/
def wokenByTwo : List (Nat × WakeLabel) :=
  [(0, .next), (1, .next), (2, .clone), (0, .next), (1, .spurious), (1, .next), (1, .next),
    (2, .setJoinWaker 7), (1, .next), (0, .next), (2, .next)]

/-- In such a run one entry of the task is pushed. -/
theorem wakes_schedule_once_wokenByTwo : ∃ s : WakeState Unit, s.shared.joinWaker = some 7 ∧
    s.shared.queue = (Cell.spawned : Cell Unit).queue + 1 ∧
    (fromBits s.shared.state).isScheduled = true := by
  obtain ⟨s, reached, tested⟩ := (waking (Cell.spawned : Cell Unit)
    [(.waker, .byValue), (.waker, .byRef)] 1).exists_reaches_of_test
    (fun s => s.shared.joinWaker == some 7 && s.threads.all fun t => !t.calling) wokenByTwo rfl
    (by decide)
  rw [Bool.and_eq_true, List.all_eq_true] at tested
  obtain ⟨stored, returned⟩ := tested
  obtain ⟨once, scheduled, -, -⟩ := wakes_schedule_once rfl rfl (by simp) reached
    fun t member => by simpa using returned t member
  exact ⟨s, eq_of_beq stored, once, scheduled⟩

end LoonyRuntime.Task
