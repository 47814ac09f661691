import LoonyRuntime.Task.Output

/-!
# The return of a poll of the join handle

`JoinHandle::poll` calls itself when `set_join_waker` tells it that the task has completed, and
`set_join_waker` tells so of every word that is not idle. A task that was woken stays `SCHEDULED`
until it completes, so that the poll of its join handle goes on calling itself.

The machine of the task is followed by what is known of the poll of the join handle in progress
(`JoinCall`): how often it has called itself, the operations it has made, the word that its latest
`set_join_waker` has read, and whether the task was ever `COMPLETE` or `ABORTED`. `CallStep` says
what a step does to it, whichever thread takes the step. The poll returns (`joinPoll_returns`) when
`set_join_waker` reads no word that is `SCHEDULED` or `RUNNING`, unless the task is `COMPLETE` or
`ABORTED` at the load that comes next (`readDecided`). A poll of which this is not so is bound to
call itself once more (`CallStep.repeats`).
-/

set_option autoImplicit false

namespace LoonyRuntime.Task

open TaskState Concurrent

variable {T : Type}

/-! ## Following the poll in progress -/

/-- The task is neither `COMPLETE` nor `ABORTED`. -/
def Cell.undecided (s : Cell T) : Bool :=
  !(fromBits s.state).isComplete && !(fromBits s.state).isAborted

/-- A poll of the join handle in progress. -/
structure JoinCall where
  thread : Nat
  cx : Nat
  pc : JoinPc
  /-- How often it has called itself. -/
  selfCalls : Nat
  /-- The operations it has made. -/
  operations : Nat
  /-- The word that its latest `set_join_waker` has read. -/
  read : Option Usize
  /-- The task was undecided in every state so far. -/
  undecided : Bool

/-- A poll of the join handle that has returned. -/
structure JoinReturn (T : Type) where
  call : JoinCall
  result : Poll (Except JoinError T)
  /-- The slot of the join waker at the return. -/
  joinWaker : Option Nat

/-- A task, and the poll of its join handle. -/
structure Followed (T : Type) where
  task : State T
  call : Option JoinCall
  /-- The latest poll that has returned. -/
  returned : Option (JoinReturn T)

/-- The operation of `JoinHandle::poll` that a step is. -/
def joinPc (s : State T) (a : Action T) : Option JoinPc :=
  match s.threads[a.1]?, a.2 with
  | some (.joinPoll pc :: _), .next => some pc
  | _, _ => none

/-- The waker that a step begins a poll of the join handle with. -/
def joinBegun : Label T → Option Nat
  | .begin (.joinPoll cx) => some cx
  | _ => none

namespace JoinCall

/-- The state of the task after one more step. -/
def sees (c : JoinCall) (s : Cell T) : JoinCall :=
  { c with undecided := c.undecided && s.undecided }

/-- The call goes on at `next`. After the store of the waker it has called itself. The word that
`set_join_waker` has read decides after the store. -/
def goesTo (c : JoinCall) (next : JoinPc) : JoinCall :=
  { c with
    pc := next
    operations := c.operations + 1
    selfCalls := match c.pc with
      | .storeWaker _ _ => c.selfCalls + 1
      | _ => c.selfCalls
    read := match next with
      | .storeWaker _ prev => some prev
      | _ => c.read }

end JoinCall

namespace Followed

/-- The poll of the join handle after a step of its own. -/
def operates (o : Followed T) (c : JoinCall) (thread : Nat) (task : State T) : Followed T :=
  match joinPc task (thread, .next), task.shared.log with
  | some next, _ => { o with task, call := some ((c.goesTo next).sees task.shared) }
  | none, .joinReturned result :: _ =>
      ⟨task, none, some ⟨c.sees task.shared, result, task.shared.joinWaker⟩⟩
  | none, _ => { o with task }

/-- What is known of the poll after a step to `task`. -/
def follow (o : Followed T) (a : Action T) (task : State T) : Followed T :=
  match joinBegun a.2, joinPc o.task a, o.call with
  | some cx, _, _ =>
      { o with task, call := some ⟨a.1, cx, .load cx, 0, 0, none, task.shared.undecided⟩ }
  | none, some _, some c => o.operates c a.1 task
  | none, _, call => { o with task, call := call.map (·.sees task.shared) }

end Followed

/-- The machine of a task with its join handle followed. -/
def followed (creator : Creator) : Machine (Followed T) (Action T) where
  initial o := ∃ n, o = ⟨spawnedWith T n, none, none⟩
  step o a := ((machine creator).step o.task a).map (o.follow a)

/-! ## What a step does to the poll in progress -/

/-- What a step from `s` to `s'` does to the poll in progress. `op` is the operation of that poll
that the step is, if it is one. -/
inductive CallStep (s s' : Cell T) : Option JoinPc → Option JoinCall → Option (JoinReturn T) →
    Option JoinCall → Option (JoinReturn T) → Prop where
  | begins {last : Option (JoinReturn T)} (thread cx : Nat) (same : s'.state = s.state) :
      CallStep s s' none none last (some ⟨thread, cx, .load cx, 0, 0, none, s'.undecided⟩) last
  | goesOn {c : JoinCall} {next : JoinPc} {last : Option (JoinReturn T)}
      (advanced : advanceJoin s c.pc = some (s', [.joinPoll next])) :
      CallStep s s' (some c.pc) (some c) last (some ((c.goesTo next).sees s')) last
  | returns {c : JoinCall} {result : Poll (Except JoinError T)} {last : Option (JoinReturn T)}
      (advanced : advanceJoin s c.pc = some (s', []))
      (logged : s'.log.head? = some (.joinReturned result)) :
      CallStep s s' (some c.pc) (some c) last none (some ⟨c.sees s', result, s'.joinWaker⟩)
  /-- A step of another call. -/
  | beside {call : Option JoinCall} {last : Option (JoinReturn T)}
      (marked : Marks.isIdle (marks s.state) = false → Marks.isIdle (marks s'.state) = false)
      (completed : Marks.isComplete (marks s.state) = true →
        Marks.isComplete (marks s'.state) = true) :
      CallStep s s' none call last (call.map (·.sees s')) last

section Inversion

variable {s s' : Cell T} {frames : List (Frame T)}

namespace Frame

/-- A poll of the join handle. -/
@[simp] def joinPolls : Frame T → Nat
  | .joinPoll _ => 1
  | _ => 0

theorem joinPolls_le_handleCalls (f : Frame T) : f.joinPolls ≤ f.handleCalls := by
  cases f <;> simp

end Frame

/-- A call other than `JoinHandle::poll` makes none. -/
theorem joinPolls_of_advance {frame : Frame T} (other : frame.joinPolls = 0)
    (advanced : frame.advance s = some (s', frames)) : total Frame.joinPolls frames = 0 := by
  cases frame with
  | poll pc =>
      cases pc with
      | future => cases advanced
      | takeJoinWaker =>
          simp only [Frame.advance, advancePoll] at advanced
          split at advanced <;>
            (cases advanced
             rfl)
      | dropContext =>
          simp only [Frame.advance, advancePoll] at advanced
          cases advanced
          split <;> rfl
      | _ =>
          cases advanced
          rfl
  | wake impl via pc =>
      cases pc with
      | load | compareExchange =>
          simp only [Frame.advance, advanceWake] at advanced
          split at advanced <;>
            (cases advanced
             rfl)
      | _ =>
          cases advanced
          rfl
  | dropWaker pc =>
      cases pc with
      | fetchSub =>
          simp only [Frame.advance, advanceDrop] at advanced
          cases advanced
          split <;> rfl
      | deallocate =>
          cases advanced
          rfl
  | joinPoll pc => cases other
  | abort pc =>
      cases pc with
      | load | takeJoinWaker =>
          simp only [Frame.advance, advanceAbort] at advanced
          split at advanced <;>
            (cases advanced
             rfl)
      | _ =>
          cases advanced
          rfl
  | dropHandle pc =>
      cases pc with
      | load =>
          simp only [Frame.advance, advanceHandleDrop] at advanced
          split at advanced <;>
            (cases advanced
             rfl)
      | _ =>
          cases advanced
          rfl

/-- An operation of `JoinHandle::poll` returns a result, or goes on. -/
theorem advanceJoin_cases {pc : JoinPc} (advanced : advanceJoin s pc = some (s', frames)) :
    (frames = [] ∧ ∃ result, s'.log.head? = some (.joinReturned result)) ∨
      ∃ next, frames = [.joinPoll next] := by
  have returns : ∀ {cell : Cell T} {result : Poll (Except JoinError T)},
      cell.joinReturns result = some (s', frames) →
      frames = [] ∧ ∃ result, s'.log.head? = some (.joinReturned result) := by
    intro cell result returned
    cases returned
    exact ⟨rfl, result, rfl⟩
  cases pc with
  | load cx =>
      simp only [advanceJoin] at advanced
      split at advanced
      · cases advanced
        exact .inr ⟨_, rfl⟩
      · split at advanced
        · exact .inl (returns advanced)
        · cases advanced
          exact .inr ⟨_, rfl⟩
  | tryReadOutput seen =>
      simp only [advanceJoin] at advanced
      split at advanced
      · split at advanced
        · exact .inl (returns advanced)
        · cases advanced
      · split at advanced <;> exact .inl (returns advanced)
  | setInterest cx =>
      cases advanced
      exact .inr ⟨_, rfl⟩
  | storeWaker cx prev =>
      simp only [advanceJoin] at advanced
      split at advanced
      · cases advanced
        exact .inr ⟨_, rfl⟩
      · exact .inl (returns advanced)

/-- A step of a thread, as far as it is about the polls of the join handle. -/
inductive JoinMove (s s' : Cell T) : List (Frame T) → Label T → List (Frame T) → Prop where
  | begins (cx : Nat) (stack : List (Frame T)) (free : s.handle = .idle)
      (same : s'.state = s.state) :
      JoinMove s s' stack (.begin (.joinPoll cx)) (.joinPoll (.load cx) :: stack)
  | operates {new : List (Frame T)} (pc : JoinPc) (rest : List (Frame T))
      (advanced : advanceJoin s pc = some (s', new)) :
      JoinMove s s' (.joinPoll pc :: rest) .next (new ++ rest)
  | beside {stack after : List (Frame T)} {l : Label T} (begun : joinBegun l = none)
      (top : ∀ pc rest, stack ≠ .joinPoll pc :: rest)
      (calls : total Frame.joinPolls after = total Frame.joinPolls stack) :
      JoinMove s s' stack l after

theorem joinMove_of_effect {call : Begin} {inFuture : Bool} {stack : List (Frame T)}
    (top : ∀ pc rest, stack ≠ .joinPoll pc :: rest)
    (effect : Begin.Effect inFuture s call s' frames) :
    JoinMove s s' stack (.begin call) (frames ++ stack) := by
  cases effect with
  | joinPoll cx idle => exact .begins cx stack idle rfl
  | _ => exact .beside rfl top (by simp)

theorem joinMove_of_move {creator : Creator} {stack after : List (Frame T)} {l : Label T}
    (moved : move creator s stack l = some (s', after)) : JoinMove s s' stack l after := by
  cases moves_of_move moved with
  | @call call _ _ effect =>
      have made : JoinMove s s' [] (.begin call) (after ++ []) :=
        joinMove_of_effect (by simp) effect
      rwa [List.append_nil] at made
  | callInFuture rest effect => exact joinMove_of_effect (by simp) effect
  | ready output rest | pending rest | spurious via current rest | runInline impl via rest made =>
      exact .beside rfl (by simp) (by simp)
  | @next frame s' frames rest advanced =>
      cases frame with
      | joinPoll pc => exact .operates pc rest advanced
      | poll pc | wake impl via pc | dropWaker pc | abort pc | dropHandle pc =>
          have none := joinPolls_of_advance rfl advanced
          exact .beside rfl (by simp) (by simp [none])

end Inversion

/-! ## The poll that is followed is the one in progress -/

/-- The owner's poll of the join handle is on top of its thread. -/
structure Tracks (o : Followed T) : Prop where
  sound : SoundAt o.task
  outside : o.call = none → total (total Frame.joinPolls) o.task.threads = 0
  inside : ∀ c ∈ o.call, ∃ rest, o.task.threads[c.thread]? = some (.joinPoll c.pc :: rest)

theorem tracks_spawned (n : Nat) : Tracks (⟨spawnedWith T n, none, none⟩ : Followed T) where
  sound := soundAt_spawned n
  outside _ := total_idle_eq_zero _ n
  inside := by
    intro c inside
    cases inside

/-- The owner is inside one call, and it is on top of the thread. -/
theorem SoundAt.alone {s : State T} (sound : SoundAt s) {i : Nat} {pc : JoinPc}
    {rest : List (Frame T)} (found : s.threads[i]? = some (.joinPoll pc :: rest)) :
    s.shared.handle = .busy ∧ total Frame.joinPolls rest = 0 ∧
      others (total Frame.joinPolls) i s.threads = 0 := by
  have single := sound.single
  rw [total_eq_others found, total_cons, Frame.handleCalls] at single
  have here : total Frame.joinPolls rest ≤ total Frame.handleCalls rest :=
    total_le_total Frame.joinPolls_le_handleCalls
  have elsewhere := others_stacks_le i s.threads (Frame.joinPolls_le_handleCalls (T := T))
  unfold Cell.busy at single
  split at single
  · next busy => exact ⟨busy, by omega, by omega⟩
  · omega

section Tracking

variable {creator : Creator} {o : Followed T} {i : Nat} {l : Label T} {task : State T}

/-- A poll of the join handle that is on top of a thread is the one that is followed. -/
theorem Tracks.found (inv : Tracks o) {pc : JoinPc} {rest : List (Frame T)}
    (found : o.task.threads[i]? = some (.joinPoll pc :: rest)) :
    ∃ c, o.call = some c ∧ c.thread = i ∧ c.pc = pc := by
  cases call : o.call with
  | none =>
      have none := inv.outside call
      rw [total_eq_others found, total_cons, Frame.joinPolls] at none
      omega
  | some c =>
      obtain ⟨below, top⟩ := inv.inside c call
      obtain ⟨-, -, elsewhere⟩ := inv.sound.alone found
      have same : c.thread = i := by
        by_contra other
        have counted := le_others (f := total Frame.joinPolls) other top
        rw [total_cons, Frame.joinPolls] at counted
        omega
      rw [same, found] at top
      cases top
      exact ⟨c, rfl, same, rfl⟩

/-- The poll that is followed has returned. -/
theorem follow_returns {c : JoinCall} {result : Poll (Except JoinError T)}
    (call : o.call = some c) (op : joinPc o.task (c.thread, .next) = some c.pc)
    (left : joinPc task (c.thread, .next) = none)
    (logged : task.shared.log.head? = some (.joinReturned result)) :
    o.follow (c.thread, .next) task =
      ⟨task, none, some ⟨c.sees task.shared, result, task.shared.joinWaker⟩⟩ := by
  obtain ⟨earlier, log⟩ := List.head?_eq_some_iff.mp logged
  simp only [Followed.follow, joinBegun, op, call, Followed.operates, left, log]

/-- The poll that is followed goes on. -/
theorem follow_goesOn {c : JoinCall} {next : JoinPc} (call : o.call = some c)
    (op : joinPc o.task (c.thread, .next) = some c.pc)
    (left : joinPc task (c.thread, .next) = some next) :
    o.follow (c.thread, .next) task =
      { o with task, call := some ((c.goesTo next).sees task.shared) } := by
  simp only [Followed.follow, joinBegun, op, call, Followed.operates, left]

/-- Another call makes a step. -/
theorem follow_beside (begun : joinBegun l = none) (op : joinPc o.task (i, l) = none) :
    o.follow (i, l) task = { o with task, call := o.call.map (·.sees task.shared) } := by
  simp only [Followed.follow, begun, op]

/-- **What a step does to the poll that is followed.** -/
theorem Tracks.step (inv : Tracks o) (taken : (machine creator).step o.task (i, l) = some task) :
    CallStep o.task.shared task.shared (joinPc o.task (i, l)) o.call o.returned
        (o.follow (i, l) task).call (o.follow (i, l) task).returned ∧
      Tracks (o.follow (i, l) task) := by
  have sound : SoundAt task := inv.sound.step taken
  have marked : Marks.isIdle (marks o.task.shared.state) = false →
      Marks.isIdle (marks task.shared.state) = false := (machine_refines_account taken).marked
  have completed : Marks.isComplete (marks o.task.shared.state) = true →
      Marks.isComplete (marks task.shared.state) = true := by
    obtain ⟨top, new, rest, cell, -, -, step, rfl⟩ := outputStep_of_taken taken
    exact step.grows.complete
  replace taken : Pool.step (fun _ => move creator) o.task (i, l) = some task := taken
  obtain ⟨stack, cell, after, found, moved, rfl⟩ := Pool.step_eq_some taken
  have mine : (o.task.threads.set i after)[i]? = some after := Pool.getElem?_set_self after found
  cases joinMove_of_move moved with
  | begins cx stack free same =>
      have outside : o.call = none := by
        cases call : o.call with
        | none => rfl
        | some c =>
            obtain ⟨below, top⟩ := inv.inside c call
            rw [(inv.sound.alone top).1] at free
            cases free
      have op : joinPc o.task (i, .begin (.joinPoll cx)) = none := by simp [joinPc]
      rw [op, outside]
      refine ⟨.begins i cx same, sound, ?_, ?_⟩
      · intro none
        cases none
      · intro c inside
        cases inside
        exact ⟨stack, mine⟩
  | @operates new pc rest advanced =>
      obtain ⟨c, call, rfl, rfl⟩ := inv.found found
      have op : joinPc o.task (c.thread, .next) = some c.pc := by simp [joinPc, found]
      obtain ⟨-, below, elsewhere⟩ := inv.sound.alone found
      rcases advanceJoin_cases advanced with ⟨rfl, result, logged⟩ | ⟨next, rfl⟩
      · have left : joinPc ⟨cell, o.task.threads.set c.thread rest⟩ (c.thread, .next) = none := by
          simp only [joinPc, List.nil_append] at mine ⊢
          rw [mine]
          cases rest with
          | nil => rfl
          | cons frame rest =>
              cases frame with
              | joinPoll pc => simp at below
              | _ => rfl
        rw [List.nil_append] at sound ⊢
        rw [follow_returns call op left logged, op, call]
        refine ⟨.returns advanced logged, sound, ?_, ?_⟩
        · intro _
          simp only [total_set_others _ found, below, elsewhere]
        · intro c inside
          cases inside
      · have left : joinPc ⟨cell, o.task.threads.set c.thread ([.joinPoll next] ++ rest)⟩
            (c.thread, .next) = some next := by
          simp only [joinPc, List.cons_append, List.nil_append] at mine ⊢
          rw [mine]
        rw [follow_goesOn call op left, op, call]
        refine ⟨.goesOn advanced, sound, ?_, ?_⟩
        · intro none
          cases none
        · intro c' inside
          cases inside
          exact ⟨rest, mine⟩
  | beside begun top calls =>
      have op : joinPc o.task (i, l) = none := by
        simp only [joinPc, found]
        split
        · next pc rest same => exact absurd (Option.some.inj same) (top pc rest)
        · rfl
      rw [follow_beside begun op, op]
      refine ⟨.beside marked completed, sound, ?_, ?_⟩
      · intro none
        have before := inv.outside (Option.map_eq_none_iff.mp none)
        rw [total_eq_others found] at before
        simp only [total_set_others after found, calls]
        exact before
      · intro c' inside
        obtain ⟨c, call, rfl⟩ := Option.map_eq_some_iff.mp inside
        obtain ⟨rest, here⟩ := inv.inside c call
        have other : c.thread ≠ i := by
          intro same
          rw [same, found] at here
          exact top _ _ (Option.some.inj here)
        exact ⟨rest, (List.getElem?_set_ne (Ne.symm other)).trans here⟩

end Tracking

/-! ## The poll in progress -/

namespace JoinCall

/-- The operations made so far, by the point the call is at. -/
def placed (c : JoinCall) : Prop :=
  match c.pc with
  | .load cx => cx = c.cx ∧ c.operations = 3 * c.selfCalls
  | .setInterest cx => cx = c.cx ∧ c.operations = 3 * c.selfCalls + 1
  | .storeWaker cx _ => cx = c.cx ∧ c.operations = 3 * c.selfCalls + 2
  | .tryReadOutput _ => c.undecided = false ∧ c.operations = 3 * c.selfCalls + 1

/-- What the call has read, by the point it is at: it has called itself on a word that was not
idle. What was `COMPLETE` then is so still. -/
def hasRead (c : JoinCall) (s : Cell T) : Prop :=
  match c.pc with
  | .load _ => c.selfCalls = 0 ∧ c.read = none ∨
      0 < c.selfCalls ∧ ∃ prev, c.read = some prev ∧ Marks.isIdle (marks prev) = false ∧
        (Marks.isComplete (marks prev) = true → Marks.isComplete (marks s.state) = true)
  | .storeWaker _ prev => c.read = some prev ∧
      (Marks.isComplete (marks prev) = true → Marks.isComplete (marks s.state) = true)
  | .setInterest _ | .tryReadOutput _ => True

/-- What is so of the poll in progress in every run. -/
structure At (c : JoinCall) (s : Cell T) : Prop where
  undecided : c.undecided = true → s.undecided = true
  /-- It has called itself on a word that was not idle, and no word is idle after that. -/
  marked : 0 < c.selfCalls → Marks.isIdle (marks s.state) = false
  stores : ∀ cx prev, c.pc = .storeWaker cx prev →
    (Marks.isIdle (marks prev) = false → Marks.isIdle (marks s.state) = false) ∧
      (0 < c.selfCalls → Marks.isIdle (marks prev) = false)
  placed : c.placed
  hasRead : c.hasRead s

/-- How often the call may have called itself at a point from which it does not do so again. -/
def most (c : JoinCall) : Nat :=
  match c.pc with
  | .load _ | .tryReadOutput _ => 1
  | .setInterest _ | .storeWaker _ _ => 0

end JoinCall

/-- A poll of a task that was undecided throughout returns `Pending`, and its waker is stored. -/
def JoinReturn.Kept (r : JoinReturn T) : Prop :=
  r.call.undecided = true → r.result = .pending ∧ r.joinWaker = some r.call.cx

/-- The word says that the task is `SCHEDULED` or `RUNNING`. -/
def inProgress (word : Usize) : Bool := (fromBits word).isScheduled || (fromBits word).isRunning

/-- When `set_join_waker` has read a word that is `SCHEDULED` or `RUNNING`, the load that comes next
finds the task `COMPLETE` or `ABORTED`. -/
def readDecidedAt (s : Cell T) : Option JoinPc → Option JoinCall → Bool
  | some (.load _), some c => !c.read.any inProgress || !s.undecided
  | _, _ => true

/-- A word that is neither idle nor `COMPLETE` is `SCHEDULED` or `RUNNING`. -/
theorem inProgress_marks {word : Usize} (busy : Marks.isIdle (marks word) = false)
    (running : Marks.isComplete (marks word) = false) : inProgress word = true := by
  have finite : ∀ m : BitVec 4, Marks.isIdle m = false → Marks.isComplete m = false →
      (Marks.isScheduled m || Marks.isRunning m) = true := by decide
  simpa [inProgress] using finite (marks word) busy running

section Calls

variable {s s' : Cell T} {op : Option JoinPc} {call call' : Option JoinCall}
  {last last' : Option (JoinReturn T)}

/-- The operations of `JoinHandle::poll` that go on. -/
theorem goesOn_cases {pc next : JoinPc} (advanced : advanceJoin s pc = some (s', [.joinPoll next])) :
    (∃ cx, pc = .load cx ∧ next = .tryReadOutput s.state ∧ s' = s ∧ s.undecided = false) ∨
    (∃ cx, pc = .load cx ∧ next = .setInterest cx ∧ s' = s ∧ s.undecided = true) ∨
    (∃ cx, pc = .setInterest cx ∧ next = .storeWaker cx s.state ∧
      s' = { s with state := s.state ||| joinInterest.bits }) ∨
    ∃ cx prev, pc = .storeWaker cx prev ∧ next = .load cx ∧ s' = { s with joinWaker := some cx } ∧
      Marks.isIdle (marks prev) = false := by
  have returns : ∀ {cell : Cell T} {result : Poll (Except JoinError T)},
      cell.joinReturns result ≠ some (s', [.joinPoll next]) := by
    intro cell result returned
    cases returned
  cases pc with
  | load cx =>
      simp only [advanceJoin] at advanced
      split at advanced
      · next complete =>
          cases advanced
          exact .inl ⟨cx, rfl, rfl, rfl, by simp [Cell.undecided, complete]⟩
      · next running =>
          split at advanced
          · exact absurd advanced returns
          · next live =>
              cases advanced
              exact .inr (.inl ⟨cx, rfl, rfl, rfl, by simp [Cell.undecided, running, live]⟩)
  | tryReadOutput seen =>
      simp only [advanceJoin] at advanced
      split at advanced
      · split at advanced
        · exact absurd advanced returns
        · cases advanced
      · split at advanced <;> exact absurd advanced returns
  | setInterest cx =>
      cases advanced
      exact .inr (.inr (.inl ⟨cx, rfl, rfl, rfl⟩))
  | storeWaker cx prev =>
      simp only [advanceJoin] at advanced
      split at advanced
      · next busy =>
          cases advanced
          rw [completeMask_marks, Bool.not_eq_true'] at busy
          exact .inr (.inr (.inr ⟨cx, prev, rfl, rfl, rfl, busy⟩))
      · exact absurd advanced returns

theorem JoinCall.hasRead.mono {c : JoinCall} (hasRead : c.hasRead s)
    (completed : Marks.isComplete (marks s.state) = true →
      Marks.isComplete (marks s'.state) = true) : (c.sees s').hasRead s' := by
  unfold JoinCall.hasRead at *
  cases here : c.pc with
  | load cx =>
      simp only [here, JoinCall.sees] at hasRead ⊢
      rcases hasRead with unread | ⟨some, prev, read, busy, was⟩
      · exact .inl unread
      · exact .inr ⟨some, prev, read, busy, fun complete => completed (was complete)⟩
  | storeWaker cx prev =>
      simp only [here, JoinCall.sees] at hasRead ⊢
      exact ⟨hasRead.1, fun complete => completed (hasRead.2 complete)⟩
  | setInterest cx | tryReadOutput seen =>
      simp only [here, JoinCall.sees]

/-- **The poll in progress is where its operations say.** -/
theorem CallStep.at (step : CallStep s s' op call last call' last') (inv : ∀ c ∈ call, c.At s) :
    ∀ c ∈ call', c.At s' := by
  intro c' inside
  cases step with
  | begins thread cx same =>
      cases inside
      exact ⟨id, nofun, nofun, ⟨rfl, rfl⟩, .inl ⟨rfl, rfl⟩⟩
  | returns advanced logged => cases inside
  | beside marked completed =>
      obtain ⟨c, call, rfl⟩ := Option.map_eq_some_iff.mp inside
      obtain ⟨-, before, stores, placed, hasRead⟩ := inv c call
      refine ⟨?_, fun some => marked (before some), ?_, ?_, hasRead.mono completed⟩
      · intro undecided
        exact (Bool.and_eq_true_iff.mp undecided).2
      · intro cx prev here
        obtain ⟨since, again⟩ := stores cx prev here
        exact ⟨fun busy => marked (since busy), again⟩
      · simp only [JoinCall.placed, JoinCall.sees] at placed ⊢
        split at placed <;> simp_all
  | @goesOn c next _ advanced =>
      cases inside
      obtain ⟨-, marked, stores, placed, hasRead⟩ := inv c rfl
      have seen : ((c.goesTo next).sees s').undecided = true → s'.undecided = true := by
        intro undecided
        exact (Bool.and_eq_true_iff.mp undecided).2
      rcases goesOn_cases advanced with ⟨cx, here, rfl, rfl, decided⟩ | ⟨cx, here, rfl, rfl, -⟩ |
        ⟨cx, here, rfl, rfl⟩ | ⟨cx, prev, here, rfl, rfl, busy⟩
      all_goals
        simp only [JoinCall.placed, JoinCall.hasRead, JoinCall.goesTo, JoinCall.sees, here]
          at placed hasRead ⊢
      · refine ⟨seen, marked, nofun, ⟨by simp [decided], ?_⟩, trivial⟩
        change c.operations + 1 = 3 * c.selfCalls + 1
        omega
      · refine ⟨seen, marked, nofun, ⟨placed.1, ?_⟩, trivial⟩
        change c.operations + 1 = 3 * c.selfCalls + 1
        omega
      · have kept : Marks.isIdle (marks (s.state ||| joinInterest.bits)) =
            Marks.isIdle (marks s.state) := by simp
        refine ⟨seen, fun some => kept.trans (marked some), ?_, ⟨placed.1, ?_⟩, rfl, by simp⟩
        · rintro cx prev ⟨⟩
          exact ⟨kept.trans, marked⟩
        · change c.operations + 1 = 3 * c.selfCalls + 2
          omega
      · refine ⟨seen, fun _ => (stores cx prev here).1 busy, nofun, ⟨placed.1, ?_⟩, .inr ?_⟩
        · change c.operations + 1 = 3 * (c.selfCalls + 1)
          omega
        · exact ⟨Nat.succ_pos _, prev, hasRead.1, busy, hasRead.2⟩

/-- The operations of `JoinHandle::poll` that return. -/
theorem returns_cases {pc : JoinPc} (advanced : advanceJoin s pc = some (s', [])) :
    (∃ cx, pc = .load cx ∧ s.undecided = false) ∨ (∃ seen, pc = .tryReadOutput seen) ∨
      ∃ cx prev, pc = .storeWaker cx prev ∧ Marks.isIdle (marks prev) = true ∧
        s'.joinWaker = some cx ∧ s'.log.head? = some (.joinReturned .pending) := by
  cases pc with
  | load cx =>
      simp only [advanceJoin] at advanced
      split at advanced
      · cases advanced
      · split at advanced
        · next aborted => exact .inl ⟨cx, rfl, by simp [Cell.undecided, aborted]⟩
        · cases advanced
  | tryReadOutput seen => exact .inr (.inl ⟨seen, rfl⟩)
  | setInterest cx => cases advanced
  | storeWaker cx prev =>
      simp only [advanceJoin] at advanced
      split at advanced
      · cases advanced
      · next fresh =>
          cases advanced
          rw [completeMask_marks, Bool.not_eq_true', Bool.not_eq_false] at fresh
          exact .inr (.inr ⟨cx, prev, rfl, fresh, rfl, rfl⟩)

/-- **A poll of an undecided task returns `Pending`**, with its waker in the slot. -/
theorem CallStep.kept (step : CallStep s s' op call last call' last') (inv : ∀ c ∈ call, c.At s)
    (kept : ∀ r ∈ last, r.Kept) : ∀ r ∈ last', r.Kept := by
  cases step with
  | begins | goesOn | beside => exact kept
  | @returns c result _ advanced logged =>
      rintro r ⟨⟩ undecided
      obtain ⟨before, -, -, placed, -⟩ := inv c rfl
      obtain ⟨sofar, -⟩ := Bool.and_eq_true_iff.mp undecided
      rcases returns_cases advanced with ⟨cx, here, decided⟩ | ⟨seen, here⟩ |
        ⟨cx, prev, here, -, stored, pending⟩
      · rw [before sofar] at decided
        cases decided
      · simp only [JoinCall.placed, here, sofar] at placed
        cases placed.1
      · simp only [JoinCall.placed, here] at placed
        rw [logged] at pending
        cases pending
        exact ⟨rfl, stored.trans (congrArg some placed.1)⟩

/-- At the load of an undecided task the poll has called itself exactly if the word that
`set_join_waker` has read was `SCHEDULED` or `RUNNING`. -/
theorem JoinCall.At.read_iff {c : JoinCall} {cx : Nat} (inv : c.At s) (here : c.pc = .load cx)
    (undecided : s.undecided = true) : c.selfCalls = 0 ↔ c.read.any inProgress = false := by
  have hasRead := inv.hasRead
  rw [JoinCall.hasRead, here] at hasRead
  rcases hasRead with ⟨none, unread⟩ | ⟨some, prev, read, busy, completed⟩
  · exact iff_of_true none (by rw [unread]; rfl)
  · refine iff_of_false (Nat.pos_iff_ne_zero.mp some) ?_
    have running : Marks.isComplete (marks s.state) = false := by
      simp only [Cell.undecided, isComplete_marks, Bool.and_eq_true, Bool.not_eq_true'] at undecided
      exact undecided.1
    have was : Marks.isComplete (marks prev) = false := by
      rw [← Bool.not_eq_true]
      intro complete
      rw [completed complete] at running
      cases running
    simp [read, inProgress_marks busy was]

/-- **A step lets the poll call itself twice exactly if its load finds the task undecided after
`set_join_waker` has read a word that was `SCHEDULED` or `RUNNING`.** -/
theorem CallStep.most_iff (step : CallStep s s' op call last call' last')
    (inv : ∀ c ∈ call, c.At s) (bounded : ∀ c ∈ call, c.selfCalls ≤ c.most) :
    (∀ c ∈ call', c.selfCalls ≤ c.most) ↔ readDecidedAt s op call = true := by
  cases step with
  | begins thread cx same =>
      refine iff_of_true ?_ rfl
      rintro c ⟨⟩
      exact Nat.zero_le _
  | beside marked completed =>
      refine iff_of_true ?_ rfl
      intro c' inside
      obtain ⟨c, call, rfl⟩ := Option.map_eq_some_iff.mp inside
      exact bounded c call
  | @returns c result _ advanced logged =>
      refine iff_of_true nofun ?_
      rcases returns_cases advanced with ⟨cx, here, decided⟩ | ⟨seen, here⟩ | ⟨cx, prev, here, -⟩
      · simp [readDecidedAt, here, decided]
      · simp [readDecidedAt, here]
      · simp [readDecidedAt, here]
  | @goesOn c next _ advanced =>
      have before := bounded c rfl
      have after : (∀ c' ∈ some ((c.goesTo next).sees s'), c'.selfCalls ≤ c'.most) ↔
          ((c.goesTo next).sees s').selfCalls ≤ ((c.goesTo next).sees s').most := by simp
      rw [after]
      rcases goesOn_cases advanced with ⟨cx, here, rfl, rfl, decided⟩ |
        ⟨cx, here, rfl, rfl, undecided⟩ | ⟨cx, here, rfl, rfl⟩ | ⟨cx, prev, here, rfl, rfl, -⟩
      all_goals
        simp only [JoinCall.most, here] at before
        simp only [JoinCall.goesTo, JoinCall.sees, JoinCall.most, readDecidedAt, here]
      · simp [decided, before]
      · simp [undecided, (inv c rfl).read_iff here undecided]
      · simp [before]
      · simp [before]

/-- **A poll that has called itself and is in `set_join_waker` is bound to call itself again**,
whatever the step is. -/
theorem CallStep.repeats {c : JoinCall} (step : CallStep s s' op (some c) last call' last')
    (inv : c.At s) (again : 0 < c.selfCalls) (inside : c.most = 0) :
    ∃ c', call' = some c' ∧
      (c'.most = 0 ∧ c'.selfCalls = c.selfCalls ∨ c'.selfCalls = c.selfCalls + 1) := by
  cases step with
  | beside marked completed => exact ⟨c.sees s', rfl, .inl ⟨inside, rfl⟩⟩
  | returns advanced logged =>
      rcases returns_cases advanced with ⟨cx, here, -⟩ | ⟨seen, here⟩ | ⟨cx, prev, here, idle, -⟩
      · simp [JoinCall.most, here] at inside
      · simp [JoinCall.most, here] at inside
      · rw [(inv.stores cx prev here).2 again] at idle
        cases idle
  | @goesOn _ next _ advanced =>
      refine ⟨_, rfl, ?_⟩
      rcases goesOn_cases advanced with ⟨cx, here, -⟩ | ⟨cx, here, -⟩ | ⟨cx, here, rfl, -⟩ |
        ⟨cx, prev, here, -⟩
      · simp [JoinCall.most, here] at inside
      · simp [JoinCall.most, here] at inside
      · exact .inl ⟨rfl, by simp [JoinCall.goesTo, JoinCall.sees, here]⟩
      · exact .inr (by simp [JoinCall.goesTo, JoinCall.sees, here])

end Calls

/-! ## Runs -/

/-- What every run keeps of the poll of the join handle. -/
structure Follows (o : Followed T) : Prop where
  tracks : Tracks o
  call : ∀ c ∈ o.call, c.At o.task.shared
  returned : ∀ r ∈ o.returned, r.Kept

/-- When `set_join_waker` has read a word that is `SCHEDULED` or `RUNNING`, the load of the poll
that comes next finds the task `COMPLETE` or `ABORTED`. -/
def readDecided (o : Followed T) (a : Action T) : Bool :=
  readDecidedAt o.task.shared (joinPc o.task a) o.call

section Runs

variable {creator : Creator} {o o' : Followed T} {a : Action T}

theorem Follows.spawned (n : Nat) : Follows (⟨spawnedWith T n, none, none⟩ : Followed T) :=
  ⟨tracks_spawned n, nofun, nofun⟩

/-- A step of the machine is a step of what is known of the poll. -/
theorem Follows.callStep (inv : Follows o) (taken : (followed creator).step o a = some o') :
    CallStep o.task.shared o'.task.shared (joinPc o.task a) o.call o.returned o'.call
      o'.returned ∧ Tracks o' := by
  obtain ⟨task, moved, rfl⟩ := Option.map_eq_some_iff.mp taken
  have same : (o.follow a task).task = task := by
    unfold Followed.follow Followed.operates
    split
    · rfl
    · split <;> rfl
    · rfl
  rw [same]
  exact inv.tracks.step moved

theorem Follows.step (inv : Follows o) (taken : (followed creator).step o a = some o') :
    Follows o' := by
  obtain ⟨step, tracks⟩ := inv.callStep taken
  exact ⟨tracks, step.at inv.call, step.kept inv.call inv.returned⟩

theorem follows {ok : Followed T → Action T → Prop}
    (reached : (followed creator).ReachesWhen ok o) : Follows o := by
  refine reached.invariant ?_ fun o a o' _ inv _ taken => inv.step taken
  rintro _ ⟨n, rfl⟩
  exact .spawned n

/-- **A poll never goes on after the load that follows a self-call exactly along the runs in which**
`set_join_waker` reads no word that is `SCHEDULED` or `RUNNING`, unless the task is `COMPLETE` or
`ABORTED` at the load that comes next. -/
theorem most_along_iff (creator : Creator) (n : Nat) (labels : List (Action T)) :
    (followed creator).Always (fun o => ∀ c ∈ o.call, c.selfCalls ≤ c.most)
        ⟨spawnedWith T n, none, none⟩ labels ↔
      (followed creator).Meets (fun o a => readDecided o a = true)
        ⟨spawnedWith T n, none, none⟩ labels := by
  refine Machine.always_iff_meets ?_ (.start ⟨n, rfl⟩) nofun
  intro o a o' reached bounded taken
  have inv := follows reached
  exact (inv.callStep taken).1.most_iff inv.call bounded

/-- The poll in progress has a next operation. -/
theorem Follows.proceeds (inv : Follows o) {c : JoinCall} (inside : o.call = some c) :
    ((machine creator).step o.task (c.thread, .next)).isSome = true := by
  obtain ⟨rest, found⟩ := inv.tracks.inside c inside
  have relies := inv.tracks.sound.relies c.thread _ found _ List.mem_cons_self
  have advances : (advanceJoin o.task.shared c.pc).isSome = true := by
    cases pc : c.pc with
    | load cx =>
        simp only [advanceJoin]
        split
        · rfl
        · split <;> rfl
    | tryReadOutput seen =>
        rw [pc] at relies
        obtain ⟨output, written⟩ := Option.isSome_iff_exists.mp
          (inv.tracks.sound.sound.written relies.1)
        simp only [advanceJoin, written]
        split
        · rfl
        · split <;> rfl
    | setInterest cx => rfl
    | storeWaker cx prev =>
        simp only [advanceJoin]
        split <;> rfl
  obtain ⟨⟨cell, frames⟩, advanced⟩ := Option.isSome_iff_exists.mp advances
  change (Pool.step (fun _ => move creator) o.task (c.thread, .next)).isSome = true
  simp [Pool.step, found, move, Frame.advance, advanced]

end Runs

end LoonyRuntime.Task
