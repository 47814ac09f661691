import LoonyRuntime.Task.Plain

/-!
# The joiner of a task of `task/mod.rs`

`JoinHandle::poll` takes an output when bit 0 is set, and stores its waker when it is not. A wake
sets bit 0 too, so that the output may be missing, and the word is never `COMPLETE`, not even when
the task is marked (`agrees_along_iff`).

The load of the word and the store of the waker are two steps, and the completing poll may take the
slot in between. `Served` says where the wake of a joiner stands that returned `Pending` or is about
to. It holds as long as no waker is stored after the last take (`served_along_iff`), of a task whose
output fits into its cell: a wider one is written over the waker (`placedMachine`).
-/

set_option autoImplicit false

namespace LoonyRuntime.Task.Plain

open TaskState Concurrent

variable {T : Type}

/-! ## The calls on the join handle -/

namespace Frame

/-- A poll of the join handle. -/
@[simp] def joining : Frame T → Nat
  | .joinPoll _ => 1
  | _ => 0

/-- A poll of the join handle in its complete branch. -/
@[simp] def inComplete : Frame T → Nat
  | .joinPoll .takeOutput => 1
  | _ => 0

/-- A poll of the join handle that has the waker `cx` at hand. -/
@[simp] def polling (cx : Nat) : Frame T → Nat
  | .joinPoll (.load given) => if given = cx then 1 else 0
  | .joinPoll (.storeWaker given) => if given = cx then 1 else 0
  | .joinPoll (.returnPending given) => if given = cx then 1 else 0
  | _ => 0

/-- A poll of the join handle that has stored the waker `cx` and returns `Pending`. -/
@[simp] def returning (cx : Nat) : Frame T → Nat
  | .joinPoll (.returnPending given) => if given = cx then 1 else 0
  | _ => 0

/-- A poll whose future was ready and that is still to take the join waker. -/
@[simp] def toTake : Frame T → Nat
  | .poll (.storeOutput _) => 1
  | .poll .setComplete => 1
  | .poll .takeWaker => 1
  | _ => 0

/-- A poll that has taken the waker and is to wake it. -/
@[simp] def waking (waker : Nat) : Frame T → Nat
  | .poll (.wakeJoin taken) => if taken = waker then 1 else 0
  | _ => 0

theorem inComplete_le_joining (f : Frame T) : f.inComplete ≤ f.joining := by
  cases f with
  | joinPoll pc => cases pc <;> simp
  | _ => exact Nat.zero_le _

theorem polling_le_joining (cx : Nat) (f : Frame T) : f.polling cx ≤ f.joining := by
  cases f with
  | joinPoll pc =>
      cases pc <;> simp only [polling, joining] <;> first | omega | (split <;> omega)
  | _ => exact Nat.zero_le _

theorem returning_le_joining (cx : Nat) (f : Frame T) : f.returning cx ≤ f.joining := by
  cases f with
  | joinPoll pc =>
      cases pc <;> simp only [returning, joining] <;> first | omega | (split <;> omega)
  | _ => exact Nat.zero_le _

/-- A frame beside the completion and the joiner has no part in either. -/
theorem zero_of_quiet {f : Frame T} (quiet : f.quiet = true) :
    f.joining = 0 ∧ f.inComplete = 0 ∧ (∀ cx, f.polling cx = 0) ∧ (∀ cx, f.returning cx = 0) ∧
      f.toTake = 0 ∧ ∀ waker, f.waking waker = 0 := by
  cases f with
  | poll pc =>
      cases pc with
      | future => simp
      | _ => cases quiet
  | wake pc | dropWaker pc => simp
  | joinPoll pc => cases quiet

end Frame

/-- Frames beside the completion and the joiner have no part in either. -/
theorem totals_of_quiet {frames : List (Frame T)} (quiet : frames.all Frame.quiet = true) :
    total Frame.joining frames = 0 ∧ total Frame.inComplete frames = 0 ∧
      (∀ cx, total (Frame.polling cx) frames = 0) ∧
      (∀ cx, total (Frame.returning cx) frames = 0) ∧ total Frame.toTake frames = 0 ∧
      ∀ waker, total (Frame.waking waker) frames = 0 := by
  have each : ∀ f ∈ frames, Frame.quiet f = true := List.all_eq_true.mp quiet
  refine ⟨?_, ?_, fun cx => ?_, fun cx => ?_, ?_, fun waker => ?_⟩
  · exact total_eq_zero _ fun f member => (Frame.zero_of_quiet (each f member)).1
  · exact total_eq_zero _ fun f member => (Frame.zero_of_quiet (each f member)).2.1
  · exact total_eq_zero _ fun f member => (Frame.zero_of_quiet (each f member)).2.2.1 cx
  · exact total_eq_zero _ fun f member => (Frame.zero_of_quiet (each f member)).2.2.2.1 cx
  · exact total_eq_zero _ fun f member => (Frame.zero_of_quiet (each f member)).2.2.2.2.1
  · exact total_eq_zero _ fun f member => (Frame.zero_of_quiet (each f member)).2.2.2.2.2 waker

/-- The operation that a step on a stack executes next. -/
def opFrame : List (Frame T) → Label T → Option (Frame T)
  | frame :: _, .next => some frame
  | _, _ => none

/-- The operation that a step executes. -/
def nextFrame (s : State T) (a : Action T) : Option (Frame T) :=
  s.threads[a.1]?.bind (opFrame · a.2)

/-- A step beside the completion and the joiner executes no operation of either. -/
theorem quiet_of_opFrame {top rest : List (Frame T)} {l : Label T} {frame : Frame T}
    (quiet : top.all Frame.quiet = true) (begun : top = [] → l ≠ .next)
    (op : opFrame (top ++ rest) l = some frame) : frame.quiet = true := by
  cases top with
  | nil =>
      cases l with
      | next => exact absurd rfl (begun rfl)
      | _ => cases rest <;> cases op
  | cons first top =>
      cases l with
      | next =>
          cases op
          exact List.all_eq_true.mp quiet frame List.mem_cons_self
      | _ => cases op

/-! ## One poll of the join handle at a time -/

/-- The polls of the join handle that its state allows. -/
def MarkedCell.busy (s : MarkedCell T) : Nat := if s.handle = .busy then 1 else 0

theorem MarkedCell.busy_of_same {s s' : MarkedCell T} (same : s'.handle = s.handle) :
    s'.busy = s.busy := by
  rw [busy, busy, same]

theorem MarkedCell.busy_of_idle {s : MarkedCell T} (idle : s.handle = .idle) : s.busy = 0 := by
  simp [busy, idle]

theorem MarkedCell.busy_le_one (s : MarkedCell T) : s.busy ≤ 1 := by
  rw [busy]
  split <;> omega

/-- The join handle is polled by one call at a time, and that is the latest poll. -/
structure Polls (s : MarkedCell T) (sum : (Frame T → Nat) → Nat) : Prop where
  single : sum Frame.joining = s.busy
  given : ∀ cx, 0 < sum (Frame.polling cx) →
    ∃ woken, latestJoinPoll s.log = some ⟨cx, none, woken⟩

section Moves

variable {s s' : MarkedCell T} {stack stack' : List (Frame T)} {l : Label T}
  {R : (Frame T → Nat) → Nat}

theorem Moves.lifecycle (moves : Moves s stack l s' stack') (inv : Lifecycle s) :
    Lifecycle s' := by
  cases moves with
  | beside top frames rest leaves before after begun => exact leaves.lifecycle inv
  | setsComplete rest => exact inv.starts (marks_wakeBits s.state) (.inl rfl)
  | storesOutput output rest | takesWaker rest full | unwrapsNone rest empty | storesWaker cx rest =>
      exact inv.of_same rfl rfl rfl Iff.rfl
  | noWaker rest empty | findsComplete cx rest set | registers cx rest unset => exact inv
  | _ => exact inv.of_same rfl rfl rfl (by simp)

/-- The owner's call returns. -/
theorem Polls.returns {frame : Frame T} {s' : MarkedCell T}
    (mono : ∀ f g : Frame T → Nat, (∀ x, f x ≤ g x) → R f ≤ R g)
    (inv : Polls s fun f => f frame + R f) (joins : frame.joining = 1)
    (idle : s'.handle = .idle) : Polls s' R := by
  have single := inv.single
  have bound := s.busy_le_one
  have none : R Frame.joining = 0 := by
    simp only [joins] at single
    omega
  constructor
  · rw [none, MarkedCell.busy_of_idle idle]
  · intro cx polling
    have below := mono _ _ (Frame.polling_le_joining (T := T) cx)
    omega

/-- A step that leaves the join handle and its polls. -/
theorem Polls.of_same {sum sum' : (Frame T → Nat) → Nat} (inv : Polls s sum)
    (handle : s'.handle = s.handle) (joining : sum' Frame.joining = sum Frame.joining)
    (polling : ∀ cx, sum' (Frame.polling cx) ≤ sum (Frame.polling cx))
    (given : ∀ cx woken, latestJoinPoll s.log = some ⟨cx, none, woken⟩ →
      ∃ woken', latestJoinPoll s'.log = some ⟨cx, none, woken'⟩) : Polls s' sum' where
  single := by rw [joining, MarkedCell.busy_of_same handle, inv.single]
  given cx now := by
    have bound := polling cx
    obtain ⟨woken, latest⟩ := inv.given cx (by omega)
    exact given cx woken latest

/-- A step keeps the polls of the join handle apart. -/
theorem Moves.polls (mono : ∀ f g : Frame T → Nat, (∀ x, f x ≤ g x) → R f ≤ R g)
    (moves : Moves s stack l s' stack') (inv : Polls s fun f => total f stack + R f) :
    Polls s' fun f => total f stack' + R f := by
  have monoRest : ∀ rest : List (Frame T), ∀ f g : Frame T → Nat, (∀ x, f x ≤ g x) →
      total f rest + R f ≤ total g rest + R g := fun rest f g bound =>
    Nat.add_le_add (total_le_total bound) (mono f g bound)
  have split : ∀ (frame : Frame T) (rest : List (Frame T)),
      (Polls s fun f => total f (frame :: rest) + R f) →
        Polls s fun f => f frame + (total f rest + R f) := by
    intro frame rest inv
    simpa [Nat.add_assoc] using inv
  cases moves with
  | beside top frames rest leaves before after begun =>
      obtain ⟨joiningT, -, pollingT, -⟩ := totals_of_quiet before
      obtain ⟨joiningF, -, pollingF, -⟩ := totals_of_quiet after
      refine inv.of_same leaves.handle ?_ (fun cx => ?_) fun cx woken latest => ⟨woken, ?_⟩
      · simp only [total_append, joiningT, joiningF]
      · simp only [total_append, pollingT, pollingF, le_refl]
      · rw [leaves.latest, latest]
  | wakesJoin waker rest =>
      refine inv.of_same rfl (by simp) (fun cx => by simp) ?_
      intro cx woken latest
      exact ⟨woken || cx == waker, by simp [latest]⟩
  | @joins cx _ idle =>
      have single := inv.single
      simp only [MarkedCell.busy_of_idle idle] at single
      constructor
      · show total Frame.joining (_ :: stack) + R Frame.joining = 1
        simp only [total_cons, Frame.joining]
        omega
      · intro cx' polling
        have none := monoRest stack _ _ (Frame.polling_le_joining (T := T) cx')
        obtain rfl : cx = cx' := by
          by_contra other
          simp only [total_cons, Frame.polling, if_neg other] at polling
          omega
        exact ⟨false, rfl⟩
  | findsComplete cx rest set | registers cx rest unset | storesWaker cx rest =>
      refine inv.of_same rfl (by simp) ?_ fun cx' woken latest => ⟨woken, latest⟩
      intro cx'
      simp only [total_cons, Frame.polling]
      omega
  | findsAborted cx rest unset | takesOutput rest full | unwrapsNone rest empty
  | returnsPending cx rest =>
      exact (split _ _ inv).returns (monoRest _) rfl rfl
  | readies output rest | storesOutput output rest | setsComplete rest | takesWaker rest full
  | noWaker rest empty =>
      exact inv.of_same rfl (by simp) (fun cx => by simp) fun cx woken latest => ⟨woken, latest⟩

end Moves

/-- A step of the machine, with its outcome. -/
theorem moves_of_taken {s s' : State T} {i : Nat} {l : Label T}
    (taken : (machine T).step s (i, l) = some s') :
    ∃ stack shared stack', s.threads[i]? = some stack ∧ Moves s.shared stack l shared stack' ∧
      s' = ⟨shared, s.threads.set i stack'⟩ := by
  replace taken : Pool.step (fun _ => move) s (i, l) = some s' := taken
  obtain ⟨stack, shared, stack', found, moved, rfl⟩ := Pool.step_eq_some taken
  exact ⟨stack, shared, stack', found, moves_of_move moved, rfl⟩

/-- What holds in every state that is reached. -/
structure Sound (s : State T) : Prop where
  lifecycle : Lifecycle s.shared
  polls : Polls s.shared fun f => total (total f) s.threads

theorem Sound.newWith (n : Nat) : Sound (newWith T n) where
  lifecycle := by
    have idle : Marks.isIdle (marks (0 : Usize)) = true := by decide
    have unset : ¬Marks.isScheduled (marks (0 : Usize)) = true := by decide
    refine ⟨.inl idle, iff_of_false unset ?_⟩
    simp [Plain.newWith, MarkedCell.new]
  polls := by
    refine ⟨total_idle_eq_zero _ n, ?_⟩
    intro cx polling
    simp only [Plain.newWith, total_idle_eq_zero] at polling
    cases polling

theorem Sound.step {s s' : State T} {a : Action T} (inv : Sound s)
    (taken : (machine T).step s a = some s') : Sound s' := by
  obtain ⟨i, l⟩ := a
  obtain ⟨stack, shared, stack', found, moves, rfl⟩ := moves_of_taken taken
  refine ⟨moves.lifecycle inv.lifecycle, ?_⟩
  have polls := inv.polls
  simp only [total_eq_others found] at polls
  simp only [total_set_others stack' found]
  exact moves.polls (fun _ _ bound => others_stacks_le i s.threads bound) polls

/-- Every reached state is so: bit 1 is never set, and bit 0 tells whether a wake or a mark has
come. -/
theorem sound_of_reaches {s : State T} (reached : (machine T).Reaches s) : Sound s := by
  refine reached.invariant ?_ fun s a s' _ inv _ taken => inv.step taken
  rintro s ⟨n, rfl⟩
  exact Sound.newWith n

/-! ## The two readings of the word -/

/-- `JoinHandle::poll` in its complete branch finds the output that `poll_task` has stored, and
`is_complete` says whether `poll_task` has marked the task. -/
structure Agrees (s : State T) : Prop where
  stored : (∃ stack ∈ s.threads, .joinPoll .takeOutput ∈ stack) → s.shared.output ≠ none
  complete : (fromBits s.shared.state).isComplete = true ↔ s.shared.marked = true

/-- `poll_task` marks the task, or `JoinHandle::poll` looks at the word after a wake has exchanged
it and while no output is stored. -/
def Confuses (s : State T) (a : Action T) : Prop :=
  nextFrame s a = some (.poll .setComplete) ∨
    (∃ cx, nextFrame s a = some (.joinPoll (.load cx))) ∧
      .scheduled ∈ s.shared.log ∧ s.shared.output = none

/-- The complete branch in the frames of a pool. -/
theorem inComplete_iff {threads : List (List (Frame T))} :
    (∃ stack ∈ threads, .joinPoll .takeOutput ∈ stack) ↔
      0 < total (total Frame.inComplete) threads := by
  constructor
  · rintro ⟨stack, member, inside⟩
    have inStack := le_total (f := Frame.inComplete) inside
    have inPool := le_total (f := total Frame.inComplete) member
    simp only [Frame.inComplete] at inStack
    omega
  · intro pos
    obtain ⟨stack, member, inStack⟩ := exists_of_total_pos pos
    obtain ⟨frame, inside, counted⟩ := exists_of_total_pos inStack
    refine ⟨stack, member, ?_⟩
    cases frame with
    | joinPoll pc =>
        cases pc with
        | takeOutput => exact inside
        | _ => cases counted
    | _ => cases counted

section Agreement

variable {s s' : MarkedCell T} {stack stack' : List (Frame T)} {l : Label T} {R : Nat}

/-- What the agreement says of a cell and of the polls in their complete branch. -/
structure AgreesAt (s : MarkedCell T) (inComplete : Nat) : Prop where
  stored : 0 < inComplete → s.output ≠ none
  unmarked : s.marked = false

theorem agrees_iff {s : State T} (lifecycle : Lifecycle s.shared) :
    Agrees s ↔ AgreesAt s.shared (total (total Frame.inComplete) s.threads) := by
  have incomplete := lifecycle.not_isComplete
  constructor
  · rintro ⟨stored, complete⟩
    rw [incomplete] at complete
    exact ⟨fun pos => stored (inComplete_iff.mpr pos), by simpa using complete⟩
  · rintro ⟨stored, unmarked⟩
    refine ⟨fun inside => stored (inComplete_iff.mp inside), ?_⟩
    rw [incomplete, unmarked]

/-- The operation confuses the two readings in this state. -/
def confusesAt (s : MarkedCell T) (op : Option (Frame T)) : Prop :=
  op = some (.poll .setComplete) ∨
    (∃ cx, op = some (.joinPoll (.load cx))) ∧ .scheduled ∈ s.log ∧ s.output = none

/-- Other operations do not. -/
theorem not_confusesAt {frame : Frame T} (mark : frame ≠ .poll .setComplete)
    (load : ∀ cx, frame ≠ .joinPoll (.load cx)) : ¬confusesAt s (some frame) := by
  rintro (now | ⟨⟨cx, now⟩, -⟩)
  · exact mark (Option.some.inj now)
  · exact load cx (Option.some.inj now)

/-- A look at the word before a wake has exchanged it does not. -/
theorem not_confusesAt_load {cx : Nat} (unset : Event.scheduled ∉ s.log) :
    ¬confusesAt s (some (.joinPoll (.load cx))) := by
  rintro (now | ⟨-, scheduled, -⟩)
  · cases now
  · exact unset scheduled

/-- **A step keeps the agreement unless it confuses the two readings.** `joining` and `inComplete`
count the polls of the join handle on the other threads. -/
theorem Moves.agrees_iff (moves : Moves s stack l s' stack') (lifecycle : Lifecycle s)
    {joining inComplete : Nat} (single : total Frame.joining stack + joining ≤ 1)
    (bound : inComplete ≤ joining)
    (before : AgreesAt s (total Frame.inComplete stack + inComplete)) :
    AgreesAt s' (total Frame.inComplete stack' + inComplete) ↔
      ¬confusesAt s (opFrame stack l) := by
  obtain ⟨stored, unmarked⟩ := before
  have unstarted : (s.state &&& completeBit != 0) = false → Event.scheduled ∉ s.log := by
    intro unset scheduled
    rw [lifecycle.completeBit_iff.mpr (.inr scheduled)] at unset
    cases unset
  have inStack : ∀ rest : List (Frame T), total Frame.inComplete rest ≤ total Frame.joining rest :=
    fun rest => total_le_total Frame.inComplete_le_joining
  cases moves with
  | beside top frames rest leaves quietT quietF begun =>
      obtain ⟨-, inCompleteT, -⟩ := totals_of_quiet quietT
      obtain ⟨-, inCompleteF, -⟩ := totals_of_quiet quietF
      simp only [total_append, inCompleteT, inCompleteF] at stored ⊢
      refine iff_of_true ⟨?_, leaves.marked.trans unmarked⟩ ?_
      · rw [leaves.output]
        exact stored
      · intro confused
        have quiet : ∀ frame, opFrame (top ++ rest) l = some frame → frame.quiet = true :=
          fun frame op => quiet_of_opFrame quietT begun op
        rcases confused with now | ⟨⟨cx, now⟩, -⟩
        · cases quiet _ now
        · cases quiet _ now
  | setsComplete rest =>
      refine iff_of_false ?_ (not_not_intro (.inl rfl))
      intro after
      cases after.unmarked
  | findsComplete cx rest set =>
      have scheduled : Event.scheduled ∈ s.log := by
        rcases lifecycle.completeBit_iff.mp set with marked | scheduled
        · rw [unmarked] at marked
          cases marked
        · exact scheduled
      constructor
      · rintro after (now | ⟨-, -, empty⟩)
        · cases now
        · refine after.stored ?_ empty
          simp only [total_cons, Frame.inComplete]
          omega
      · intro clear
        refine ⟨fun _ empty => clear (.inr ⟨⟨cx, rfl⟩, scheduled, empty⟩), unmarked⟩
  | findsAborted cx rest unset | registers cx rest unset =>
      refine iff_of_true ⟨?_, unmarked⟩ (not_confusesAt_load (unstarted unset))
      simpa using stored
  | takesOutput rest full | unwrapsNone rest empty =>
      have below := inStack stack'
      simp only [total_cons, Frame.joining] at single
      refine iff_of_true ⟨?_, unmarked⟩ (not_confusesAt (by simp) (by simp))
      intro pos
      omega
  | joins _ idle =>
      refine iff_of_true ⟨?_, unmarked⟩ ?_
      · simpa using stored
      · rintro (now | ⟨⟨cx, now⟩, -⟩) <;> cases stack <;> cases now
  | storesOutput output rest =>
      refine iff_of_true ⟨?_, unmarked⟩ (not_confusesAt (by simp) (by simp))
      intro _
      exact Option.some_ne_none output
  | readies output rest =>
      refine iff_of_true ⟨?_, unmarked⟩ ?_
      · simpa using stored
      · rintro (now | ⟨⟨cx, now⟩, -⟩) <;> cases now
  | takesWaker rest full | noWaker rest empty | wakesJoin waker rest | storesWaker cx rest
  | returnsPending cx rest =>
      refine iff_of_true ⟨?_, unmarked⟩ (not_confusesAt (by simp) (by simp))
      simpa using stored

end Agreement

/-- **The two encodings agree exactly along the runs in which no step confuses them.** In such a
run the join handle never unwraps a missing output, and the task is not marked. -/
theorem agrees_along_iff (n : Nat) (labels : List (Action T)) :
    (machine T).Always Agrees (newWith T n) labels ↔
      (machine T).Meets (fun s a => ¬Confuses s a) (newWith T n) labels := by
  refine Machine.always_iff_meets ?_ (.start ⟨n, rfl⟩) ?_
  · rintro s ⟨i, l⟩ s' reached before taken
    have sound := sound_of_reaches reached
    have after := sound.step taken
    obtain ⟨stack, shared, stack', found, moves, rfl⟩ := moves_of_taken taken
    rw [agrees_iff sound.lifecycle, total_eq_others found] at before
    rw [agrees_iff after.lifecycle]
    have single := sound.polls.single
    have bound := s.shared.busy_le_one
    rw [total_eq_others found] at single
    have step := moves.agrees_iff sound.lifecycle (by omega)
      (others_stacks_le i s.threads Frame.inComplete_le_joining) before
    simp only [total_set_others stack' found, step, Confuses, nextFrame, found, confusesAt,
      Option.bind_some]
  · rw [agrees_iff (Sound.newWith n).lifecycle]
    refine ⟨?_, rfl⟩
    simp [newWith, total_idle_eq_zero]

/-- The first poll returns `Pending`, and a clone of its waker is woken. The join handle is polled
before the run that the wake makes. -/
def joinedAfterWake : List (Action Unit) :=
  [(0, .begin .poll), (0, .begin .clone), (0, .pending), (0, .next), (0, .begin .wake), (0, .next),
    (0, .next), (1, .begin (.joinPoll 7)), (1, .next)]

/-- The first poll returns `Ready` and marks the task. -/
def markedAtOnce : List (Action Unit) :=
  [(0, .begin .poll), (0, .ready ()), (0, .next), (0, .next)]

/-- In the first run the join handle unwraps a missing output. In the second the task is marked
and its word is not complete. -/
theorem encodings_disagree :
    (∃ s, (machine Unit).Reaches s ∧ ¬Agrees s ∧
      (∃ stack ∈ s.threads, .joinPoll .takeOutput ∈ stack) ∧ s.shared.output = none) ∧
    ∃ s, (machine Unit).Reaches s ∧ ¬Agrees s ∧
      s.shared.marked = true ∧ (fromBits s.shared.state).isComplete = false := by
  constructor
  · obtain ⟨s, reached, tested⟩ := (machine Unit).exists_reaches_of_test
      (fun s => decide (0 < total (total Frame.inComplete) s.threads) && s.shared.output.isNone)
      joinedAfterWake ⟨2, rfl⟩ (by decide)
    rw [Bool.and_eq_true, decide_eq_true_eq, Option.isNone_iff_eq_none] at tested
    have inside := inComplete_iff.mpr tested.1
    exact ⟨s, reached, fun agrees => agrees.stored inside tested.2, inside, tested.2⟩
  · obtain ⟨s, reached, tested⟩ := (machine Unit).exists_reaches_of_test
      (fun s => s.shared.marked && !(fromBits s.shared.state).isComplete)
      markedAtOnce ⟨1, rfl⟩ (by decide)
    rw [Bool.and_eq_true, Bool.not_eq_true'] at tested
    refine ⟨s, reached, ?_, tested.1, tested.2⟩
    intro agrees
    rw [agrees.complete.mpr tested.1] at tested
    cases tested.2

/-! ## The wake of the joiner -/

/-- The joiner has returned `Pending` and was not woken since it was given the waker `cx`, or it
has stored that waker and is about to return. -/
def Asleep (s : MarkedCell T) (sum : (Frame T → Nat) → Nat) (cx : Nat) : Prop :=
  latestJoinPoll s.log = some ⟨cx, some .pending, false⟩ ∨
    0 < sum (Frame.returning cx) ∧ latestJoinPoll s.log = some ⟨cx, none, false⟩

/-- A joiner asleep is about to be woken, or its waker is in the slot and every completion is still
to take it. -/
def Served (s : MarkedCell T) (sum : (Frame T → Nat) → Nat) : Prop :=
  ∀ cx, Asleep s sum cx → 0 < sum (Frame.waking cx) ∨
    s.joinWaker = some cx ∧ (s.marked = true → 0 < sum Frame.toTake)

/-- `JoinHandle::poll` does not store its waker when the task is marked and no poll of the future
is to take the waker, unless that waker was woken or is about to be. -/
def storesBeforeTake (s : State T) (a : Action T) : Bool :=
  match nextFrame s a with
  | some (.joinPoll (.storeWaker cx)) =>
      !s.shared.marked || decide (0 < total (total Frame.toTake) s.threads) ||
        decide (0 < total (total (Frame.waking cx)) s.threads) ||
        (latestJoinPoll s.shared.log).any (·.woken)
  | _ => true

/-- `poll_task` has finished with `Ready`, the last poll of the join handle returned `Pending`, and
its waker was not woken since. -/
structure Lost (s : State T) : Prop where
  marked : s.shared.marked = true
  finished : ∀ stack ∈ s.threads, ∀ frame ∈ stack,
    frame.toTake = 0 ∧ ∀ waker, Frame.waking waker frame = 0
  idle : s.shared.handle = .idle
  pending : ∃ cx, latestJoinPoll s.shared.log = some ⟨cx, some .pending, false⟩

section Service

variable {s s' : MarkedCell T} {stack stack' : List (Frame T)} {l : Label T}
  {R sum sum' : (Frame T → Nat) → Nat}

/-- A step after which the joiner is served as before. -/
theorem Served.of_same (served : Served s sum)
    (asleep : ∀ cx, Asleep s' sum' cx → Asleep s sum cx)
    (waking : ∀ waker, sum (Frame.waking waker) ≤ sum' (Frame.waking waker))
    (slot : s'.joinWaker = s.joinWaker) (toTake : sum Frame.toTake ≤ sum' Frame.toTake)
    (marked : s'.marked = true → s.marked = true ∨ 0 < sum' Frame.toTake) : Served s' sum' := by
  intro cx now
  rcases served cx (asleep cx now) with due | ⟨stored, take⟩
  · have := waking cx
    exact .inl (by omega)
  · refine .inr ⟨slot.trans stored, ?_⟩
    intro after
    rcases marked after with before | pos
    · have := take before
      omega
    · exact pos

/-- A joiner that is not asleep is served. -/
theorem Served.of_awake (awake : ∀ cx, ¬Asleep s sum cx) : Served s sum :=
  fun cx now => absurd now (awake cx)

/-- The store of the waker serves the joiner. -/
def ServesStore (s : MarkedCell T) (sum : (Frame T → Nat) → Nat) (cx : Nat) : Prop :=
  (s.marked = true → 0 < sum Frame.toTake) ∨ 0 < sum (Frame.waking cx) ∨
    (latestJoinPoll s.log).any (·.woken) = true

/-- The joiner stores its waker. -/
theorem served_storesWaker_iff {cx : Nat}
    (polls : Polls s fun f => f (.joinPoll (.storeWaker cx)) + R f) :
    (Served { s with joinWaker := some cx } fun f => f (.joinPoll (.returnPending cx)) + R f) ↔
      ServesStore s (fun f => f (.joinPoll (.storeWaker cx)) + R f) cx := by
  obtain ⟨woken, latest⟩ := polls.given cx (by simp)
  simp only [ServesStore, latest, Option.any_some, Frame.toTake, Frame.waking, Nat.zero_add]
  constructor
  · intro served
    cases woken with
    | true => exact .inr (.inr rfl)
    | false =>
        have asleep : Asleep { s with joinWaker := some cx }
            (fun f => f (.joinPoll (.returnPending cx)) + R f) cx := .inr ⟨by simp, latest⟩
        rcases served cx asleep with due | ⟨-, take⟩
        · exact .inr (.inl (by simpa using due))
        · exact .inl (by simpa using take)
  · intro serves cx' asleep
    have same : cx' = cx ∧ woken = false := by
      rcases asleep with now | ⟨-, now⟩
      · simp [latest] at now
      · simp only [latest, Option.some.injEq, JoinPoll.mk.injEq, true_and] at now
        exact ⟨now.1.symm, now.2⟩
    obtain ⟨rfl, rfl⟩ := same
    rcases serves with take | due | woken
    · exact .inr ⟨rfl, by simpa using take⟩
    · exact .inl (by simpa using due)
    · cases woken

/-- The completing poll takes the waker in the slot, or finds none. -/
theorem Served.takes {waker : Option Nat} {frame : Frame T} (slot : s.joinWaker = waker)
    (served : Served s fun f => f (.poll .takeWaker) + R f) (log : s'.log = s.log)
    (frameReturns : ∀ cx, frame.returning cx = 0)
    (frameWakes : ∀ cx, waker = some cx → frame.waking cx = 1) :
    Served s' fun f => f frame + R f := by
  intro cx asleep
  have before : Asleep s (fun f => f (.poll .takeWaker) + R f) cx := by
    simp only [Asleep, frameReturns, log] at asleep
    simpa only [Asleep, Frame.returning] using asleep
  refine .inl ?_
  show 0 < frame.waking cx + R (Frame.waking cx)
  rcases served cx before with due | ⟨stored, -⟩
  · simp only [Frame.waking] at due
    omega
  · have wakes := frameWakes cx (slot.symm.trans stored)
    omega

/-- The completing poll wakes the joiner. -/
theorem Served.wakes {waker : Nat} (served : Served s fun f => f (.poll (.wakeJoin waker)) + R f) :
    Served (s.record (.joinWoken waker)) fun f => f (.dropWaker .fetchSub) + R f := by
  intro cx asleep
  have before : Asleep s (fun f => f (.poll (.wakeJoin waker)) + R f) cx ∧ waker ≠ cx := by
    cases latest : latestJoinPoll s.log with
    | none => simp [Asleep, latest] at asleep
    | some p =>
        obtain ⟨given, result, woken⟩ := p
        simp only [Asleep, MarkedCell.record_log, latestJoinPoll, latest, Option.map_some,
          Option.some.injEq, JoinPoll.mk.injEq, Bool.or_eq_false_iff, beq_eq_false_iff_ne,
          Frame.returning] at asleep ⊢
        rcases asleep with ⟨rfl, pending, asleep, other⟩ | ⟨pos, rfl, returning, asleep, other⟩
        · exact ⟨.inl ⟨rfl, pending, asleep⟩, Ne.symm other⟩
        · exact ⟨.inr ⟨pos, rfl, returning, asleep⟩, Ne.symm other⟩
  obtain ⟨asleep, other⟩ := before
  simpa [other] using served cx asleep

/-- The joiner returns `Pending`. -/
theorem Served.returns {cx : Nat} (polls : Polls s fun f => f (.joinPoll (.returnPending cx)) + R f)
    (served : Served s fun f => f (.joinPoll (.returnPending cx)) + R f) :
    Served ({ s with handle := .idle }.record (.joinReturned .pending)) R := by
  obtain ⟨woken, latest⟩ := polls.given cx (by simp)
  intro cx' asleep
  have same : cx' = cx ∧ woken = false := by
    simp only [Asleep, MarkedCell.record_log, latestJoinPoll, latest, Option.map_some,
      Option.some.injEq, JoinPoll.mk.injEq] at asleep
    rcases asleep with ⟨rfl, -, unwoken⟩ | ⟨-, -, returned, -⟩
    · exact ⟨rfl, unwoken⟩
    · cases returned
  obtain ⟨rfl, rfl⟩ := same
  simpa using served cx' (.inr ⟨by simp, latest⟩)

/-- **A step keeps the joiner served, unless it stores the waker too late.** -/
theorem Moves.served_iff (mono : ∀ f g : Frame T → Nat, (∀ x, f x ≤ g x) → R f ≤ R g)
    (moves : Moves s stack l s' stack') (polls : Polls s fun f => total f stack + R f)
    (served : Served s fun f => total f stack + R f) :
    (Served s' fun f => total f stack' + R f) ↔
      ∀ cx, opFrame stack l = some (.joinPoll (.storeWaker cx)) →
        ServesStore s (fun f => total f stack + R f) cx := by
  have other : ∀ {frame : Frame T}, (∀ cx, frame ≠ .joinPoll (.storeWaker cx)) →
      ∀ cx, some frame = some (.joinPoll (.storeWaker cx)) →
        ServesStore s (fun f => total f stack + R f) cx := by
    intro frame different cx same
    exact absurd (Option.some.inj same) (different cx)
  have split : ∀ (frame : Frame T) (rest : List (Frame T)),
      (fun f => total f (frame :: rest) + R f) = fun f => f frame + (total f rest + R f) := by
    intro frame rest
    funext f
    rw [total_cons, Nat.add_assoc]
  cases moves with
  | beside top frames rest leaves before after begun =>
      obtain ⟨-, -, -, returningT, toTakeT, wakingT⟩ := totals_of_quiet before
      obtain ⟨-, -, -, returningF, toTakeF, wakingF⟩ := totals_of_quiet after
      refine iff_of_true (served.of_same (fun cx asleep => ?_) (fun waker => ?_) leaves.joinWaker
        ?_ fun marked => .inl (leaves.marked.symm.trans marked)) fun cx op => ?_
      · simpa only [Asleep, leaves.latest, total_append, returningT, returningF] using asleep
      · simp only [total_append, wakingT, wakingF, le_refl]
      · simp only [total_append, toTakeT, toTakeF, le_refl]
      · cases quiet_of_opFrame before begun op
  | readies output rest =>
      refine iff_of_true (served.of_same (fun cx asleep => ?_) (fun waker => ?_) rfl ?_
        fun marked => .inl marked) fun cx op => by cases op
      · simpa [Asleep] using asleep
      · simp
      · simp
  | storesOutput output rest =>
      refine iff_of_true (served.of_same (fun cx asleep => ?_) (fun waker => ?_) rfl ?_
        fun marked => .inl marked) (other (by simp))
      · simpa [Asleep] using asleep
      · simp
      · simp
  | setsComplete rest =>
      refine iff_of_true (served.of_same (fun cx asleep => ?_) (fun waker => ?_) rfl ?_
        fun _ => .inr ?_) (other (by simp))
      · simpa [Asleep] using asleep
      · simp
      · simp
      · simp only [total_cons, Frame.toTake]
        omega
  | @takesWaker rest waker full =>
      rw [split] at served ⊢
      refine iff_of_true (served.takes full rfl (fun cx => rfl) fun cx same => ?_)
        (other (by simp))
      cases same
      exact if_pos rfl
  | noWaker rest empty =>
      rw [split] at served ⊢
      exact iff_of_true (served.takes empty rfl (fun cx => rfl) fun cx same => by cases same)
        (other (by simp))
  | wakesJoin waker rest =>
      rw [split] at served ⊢
      exact iff_of_true served.wakes (other (by simp))
  | @joins cx _ idle =>
      have single := polls.single
      simp only [MarkedCell.busy_of_idle idle] at single
      refine iff_of_true (.of_awake ?_) fun cx' op => by cases stack <;> cases op
      intro cx' asleep
      rcases asleep with now | ⟨pos, -⟩
      · simp at now
      · have inStack : total (Frame.returning cx') stack ≤ total Frame.joining stack :=
          total_le_total (Frame.returning_le_joining cx')
        have inOthers := mono _ _ (Frame.returning_le_joining (T := T) cx')
        simp only [total_cons, Frame.returning] at pos
        omega
  | findsComplete cx rest set | registers cx rest unset =>
      refine iff_of_true (served.of_same (fun cx asleep => ?_) (fun waker => ?_) rfl ?_
        fun marked => .inl marked) (other (by simp))
      · simpa [Asleep] using asleep
      · simp
      · simp
  | findsAborted cx rest unset | takesOutput rest full =>
      refine iff_of_true (.of_awake ?_) (other (by simp))
      intro cx' asleep
      cases latest : latestJoinPoll s.log <;> simp [Asleep, latest] at asleep
  | unwrapsNone rest empty =>
      refine iff_of_true (served.of_same (fun cx asleep => ?_) (fun waker => ?_) rfl ?_
        fun marked => .inl marked) (other (by simp))
      · simpa [Asleep] using asleep
      · simp
      · simp
  | storesWaker cx rest =>
      rw [split] at polls ⊢
      rw [split, served_storesWaker_iff polls]
      constructor
      · intro serves cx' op
        cases op
        exact serves
      · exact fun serves => serves cx rfl
  | returnsPending cx rest =>
      rw [split] at polls served
      exact iff_of_true (Served.returns polls served) (other (by simp))

end Service

/-- Where the wake of the joiner stands in a state. -/
abbrev ServedAt (s : State T) : Prop := Served s.shared fun f => total (total f) s.threads

theorem servedAt_newWith (n : Nat) : ServedAt (newWith T n) := by
  apply Served.of_awake
  intro cx asleep
  rcases asleep with now | ⟨-, now⟩ <;> cases now

/-- The condition on the store, as a step sees it. -/
theorem storesBeforeTake_iff {s : State T} {i : Nat} {l : Label T} {stack : List (Frame T)}
    (found : s.threads[i]? = some stack) :
    storesBeforeTake s (i, l) = true ↔
      ∀ cx, opFrame stack l = some (.joinPoll (.storeWaker cx)) →
        ServesStore s.shared (fun f => total (total f) s.threads) cx := by
  have op : nextFrame s (i, l) = opFrame stack l := by simp [nextFrame, found]
  unfold storesBeforeTake
  rw [op]
  split
  · next cx stores =>
      rw [stores]
      constructor
      · intro ok cx' same
        cases same
        cases marked : s.shared.marked <;> simp_all [ServesStore, or_assoc]
      · intro serves
        cases marked : s.shared.marked <;> simp_all [ServesStore, or_assoc]
  · next different => exact iff_of_true rfl fun cx stores => absurd stores (different cx)

theorem servedAt_step_iff {s s' : State T} {a : Action T} (sound : Sound s) (served : ServedAt s)
    (taken : (machine T).step s a = some s') : ServedAt s' ↔ storesBeforeTake s a = true := by
  obtain ⟨i, l⟩ := a
  obtain ⟨stack, shared, stack', found, moves, rfl⟩ := moves_of_taken taken
  have polls := sound.polls
  rw [storesBeforeTake_iff found]
  simp only [ServedAt, total_eq_others found] at polls served ⊢
  simp only [total_set_others stack' found]
  exact moves.served_iff (fun _ _ bound => others_stacks_le i s.threads bound) polls served

/-- **The joiner stays served exactly along the runs that store no waker after the last take.** -/
theorem served_along_iff (n : Nat) (labels : List (Action T)) :
    (machine T).Always ServedAt (newWith T n) labels ↔
      (machine T).Meets (fun s a => storesBeforeTake s a = true) (newWith T n) labels :=
  Machine.always_iff_meets
    (fun _ _ _ reached served taken => servedAt_step_iff (sound_of_reaches reached) served taken)
    (.start ⟨n, rfl⟩) (servedAt_newWith n)

/-! ## The output at its cell -/

/-- The next operation of the call writes an `Option` of the output: the assignment of `poll_task`,
or the `None` that `take` leaves. -/
def Frame.writesOutput : Frame T → Bool
  | .poll (.storeOutput _) => true
  | .joinPoll .takeOutput => true
  | _ => false

/-- One step of a thread inside the calls of the stack. -/
def placedMove {W : Type} (p : Placement W T) (s : MarkedCell T) (stack : List (Frame T))
    (l : Label T) : Outcome T :=
  (move s stack l).map fun r =>
    if stack.head?.any Frame.writesOutput then
      ({ r.1 with toHeader := p.overwrite r.1.toHeader }, r.2)
    else r

/-- The machine of one task of `task/mod.rs` whose output is written at the cell. -/
def placedMachine {W : Type} (p : Placement W T) : Machine (State T) (Action T) where
  initial s := ∃ n, s = newWith T n
  step := Pool.step fun _ => placedMove p

/-- **An output that spares the other fields has a field of its own.** -/
theorem placedMachine_of_spares {W : Type} {p : Placement W T} (spares : p.Spares) :
    placedMachine p = machine T := by
  have same : placedMove p = move := by
    funext s stack l
    simp only [placedMove, Placement.overwrite_of_spares spares, ite_self]
    exact Option.map_id'
  rw [placedMachine, same]
  rfl

/-- **No completion is lost** in a run that stores no waker after the last take, if the writes of
the output spare the waker. -/
theorem not_lost_of_storesBeforeTake {W : Type} {p : Placement W T} (spares : p.Spares)
    {s : State T}
    (reached : (placedMachine p).ReachesWhen (fun s a => storesBeforeTake s a = true) s) :
    ¬Lost s := by
  rw [placedMachine_of_spares spares] at reached
  have inv : Sound s ∧ ServedAt s := by
    refine Machine.ReachesWhen.invariant (I := fun s => Sound s ∧ ServedAt s) ?_ ?_ reached
    · rintro s ⟨n, rfl⟩
      exact ⟨Sound.newWith n, servedAt_newWith n⟩
    · intro s a s' _ inv meets taken
      exact ⟨inv.1.step taken, (servedAt_step_iff inv.1 inv.2 taken).mpr meets⟩
  rintro ⟨marked, finished, -, cx, latest⟩
  have toTake : total (total Frame.toTake) s.threads = 0 := by
    apply total_stacks_eq_zero
    intro stack member frame inside
    exact (finished stack member frame inside).1
  have waking : total (total (Frame.waking cx)) s.threads = 0 := by
    apply total_stacks_eq_zero
    intro stack member frame inside
    exact (finished stack member frame inside).2 cx
  rcases inv.2 cx (.inl latest) with due | ⟨-, take⟩
  · exact absurd waking (Nat.ne_of_gt due)
  · exact absurd toTake (Nat.ne_of_gt (take marked))

/-- A test for a lost completion, of states in which no call is in progress. -/
def lostTest [DecidableEq T] (cx : Nat) (s : State T) : Bool :=
  s.shared.marked && s.threads.all List.isEmpty && s.shared.handle == .idle &&
    latestJoinPoll s.shared.log == some ⟨cx, some .pending, false⟩

theorem lost_of_test [DecidableEq T] {s : State T} {cx : Nat} (tested : lostTest cx s = true) :
    Lost s := by
  simp only [lostTest, Bool.and_eq_true, beq_iff_eq] at tested
  obtain ⟨⟨⟨marked, empty⟩, idle⟩, latest⟩ := tested
  exact ⟨marked, forall_calls_of_idle empty, idle, cx, latest⟩

/-- An `Option<()>`, which takes one byte. -/
def unitPlacement : Placement WakerWords Unit where
  header := packedHeader
  size := 1
  spill header := (header.state, header.joinWaker)

/-- An `Option` of two words takes three: the last two, those of the output, are read as the join
waker. -/
def twoWordPlacement : Placement WakerWords (Usize × Usize) where
  header := packedHeader
  size := 24
  spill header :=
    (header.state, header.output.bind fun (data, vtable) =>
      if vtable = 0 then none else some data.toNat)

/-- The joiner loads the word and stores its waker before the task is marked. -/
def storedBefore (output : T) : List (Action T) :=
  [(0, .begin .poll), (1, .begin (.joinPoll 7)), (1, .next), (1, .next), (1, .next),
    (0, .ready output), (0, .next), (0, .next), (0, .next), (0, .next)]

/-- In such a run the joiner is woken. -/
theorem not_lost_storedBefore : ∃ s : State Unit,
    latestJoinPoll s.shared.log = some ⟨7, some .pending, true⟩ ∧ ¬Lost s := by
  have spares : unitPlacement.Spares := Placement.spares_of_fits (by decide)
  obtain ⟨s, reached, tested⟩ := (placedMachine unitPlacement).exists_reachesWhen_of_test
    (fun s a => storesBeforeTake s a = true)
    (fun s => latestJoinPoll s.shared.log == some ⟨7, some .pending, true⟩)
    (storedBefore () ++ [(0, .next)]) ⟨2, rfl⟩ (by decide)
  exact ⟨s, eq_of_beq tested, not_lost_of_storesBeforeTake spares reached⟩

/-- The task completes between the load and the store of the joiner. -/
def storedAfter : List (Action Unit) :=
  [(0, .begin .poll), (1, .begin (.joinPoll 7)), (1, .next), (0, .ready ()), (0, .next), (0, .next),
    (0, .next), (0, .next), (1, .next), (1, .next)]

/-- The joiner sleeps for ever where its waker is stored too late, and also where it is stored in
time and two words that end in a null are written over it. -/
theorem completion_lost :
    (∃ s : State Unit, (placedMachine unitPlacement).Reaches s ∧ Lost s) ∧
      ∃ s : State (Usize × Usize), (placedMachine twoWordPlacement).ReachesWhen
        (fun s a => storesBeforeTake s a = true) s ∧ Lost s := by
  constructor
  · obtain ⟨s, reached, tested⟩ := (placedMachine unitPlacement).exists_reaches_of_test
      (lostTest 7) storedAfter ⟨2, rfl⟩ (by decide)
    exact ⟨s, reached, lost_of_test tested⟩
  · obtain ⟨s, reached, tested⟩ := (placedMachine twoWordPlacement).exists_reachesWhen_of_test
      (fun s a => storesBeforeTake s a = true) (lostTest 7) (storedBefore (0, 0)) ⟨2, rfl⟩
      (by decide)
    exact ⟨s, reached, lost_of_test tested⟩

end LoonyRuntime.Task.Plain
