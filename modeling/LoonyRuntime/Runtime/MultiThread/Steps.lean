import LoonyRuntime.Runtime.MultiThread.Operational

/-!
# What a step of the scheduler can do

`Step` lists the outcomes of one step of a thread, with what the step found, and `step_of_move`
says that the machine has no others. The uses of the three locks are read off from it once, so
that a lock is kept by every run (`Locked`).
-/

set_option autoImplicit false

namespace LoonyRuntime.Runtime.MultiThread

open Concurrent

/-! ## Outcomes -/

/-- The outcomes of one step of thread `i`. -/
inductive Step (n : Nat) (retries : Bool) (i : Nat) (s : Shared) :
    Thread → Shared → Thread → Prop where
  -- `WorkerThread::run`
  | exit {b : List Caller} (shutdown : s.shutdown = true) :
      Step n retries i s ⟨.worker .head, b⟩ { s with exited := i :: s.exited }
        ⟨.worker .exited, b⟩
  | enter {b : List Caller} (running : s.shutdown = false) :
      Step n retries i s ⟨.worker .head, b⟩ s ⟨.worker .popLocal, b⟩
  | popFound {b : List Caller} {e : Nat} {rest : List Nat}
      (queue : s.locals[i]? = some (e :: rest)) :
      Step n retries i s ⟨.worker .popLocal, b⟩ { s with locals := s.locals.set i rest }
        ⟨.hold e, .worker :: b⟩
  | popNone {b : List Caller} :
      Step n retries i s ⟨.worker .popLocal, b⟩ s ⟨.worker .lockStealers, b⟩
  | lockStealers {b : List Caller} {m : Monitor} (taken : s.stealers.acquire i = some m) :
      Step n retries i s ⟨.worker .lockStealers, b⟩ { s with stealers := m } ⟨.worker (.steal 0), b⟩
  | stealFound {b : List Caller} {offset target e : Nat} {rest : List Nat}
      (queue : s.locals[target]? = some (e :: rest)) :
      Step n retries i s ⟨.worker (.steal offset), b⟩ { s with locals := s.locals.set target rest }
        ⟨.worker (.unlockStealers (some e)), b⟩
  | stealNext {b : List Caller} {offset : Nat} :
      Step n retries i s ⟨.worker (.steal offset), b⟩ s ⟨.worker (.steal (offset + 1)), b⟩
  | stealNone {b : List Caller} {offset : Nat} :
      Step n retries i s ⟨.worker (.steal offset), b⟩ s ⟨.worker (.unlockStealers none), b⟩
  | unlockFound {b : List Caller} {e : Nat} :
      Step n retries i s ⟨.worker (.unlockStealers (some e)), b⟩
        { s with stealers := s.stealers.release } ⟨.hold e, .worker :: b⟩
  | unlockNone {b : List Caller} :
      Step n retries i s ⟨.worker (.unlockStealers none), b⟩
        { s with stealers := s.stealers.release } ⟨.worker .stealInjector, b⟩
  | injectorFound {b : List Caller} {e : Nat} {rest : List Nat} (queue : s.injector = e :: rest) :
      Step n retries i s ⟨.worker .stealInjector, b⟩ { s with injector := rest }
        ⟨.hold e, .worker :: b⟩
  | injectorNone {b : List Caller} :
      Step n retries i s ⟨.worker .stealInjector, b⟩ s ⟨.worker .lockSleep, b⟩
  | lockSleep {b : List Caller} {m : Monitor} (taken : s.mutex.acquire i = some m) :
      Step n retries i s ⟨.worker .lockSleep, b⟩ { s with mutex := m } ⟨.worker .decActive, b⟩
  | decActive {b : List Caller} :
      Step n retries i s ⟨.worker .decActive, b⟩ { s with active := s.active - 1 }
        ⟨.worker .checkPop, b⟩
  | checkPopFound {b : List Caller} {e : Nat} {rest : List Nat}
      (queue : s.locals[i]? = some (e :: rest)) :
      Step n retries i s ⟨.worker .checkPop, b⟩ { s with locals := s.locals.set i rest }
        ⟨.worker .incActive, b⟩
  | checkPopNone {b : List Caller} (none : s.pop i = none) :
      Step n retries i s ⟨.worker .checkPop, b⟩ s ⟨.worker .checkSteal, b⟩
  | checkStealFound {b : List Caller} {e : Nat} {rest : List Nat} (queue : s.injector = e :: rest) :
      Step n retries i s ⟨.worker .checkSteal, b⟩ { s with injector := rest }
        ⟨.worker .incActive, b⟩
  | checkStealNone {b : List Caller} (empty : retries = true ∨ s.injector = []) :
      Step n retries i s ⟨.worker .checkSteal, b⟩ s ⟨.worker .whileHead, b⟩
  | whileShutdown {b : List Caller} (shutdown : s.shutdown = true) :
      Step n retries i s ⟨.worker .whileHead, b⟩ s ⟨.worker .incActive, b⟩
  | whileRunning {b : List Caller} (running : s.shutdown = false) :
      Step n retries i s ⟨.worker .whileHead, b⟩ s ⟨.worker .wait, b⟩
  | wait {b : List Caller} :
      Step n retries i s ⟨.worker .wait, b⟩ { s with mutex := s.mutex.wait i }
        ⟨.worker .waiting, b⟩
  | wake {b : List Caller} :
      Step n retries i s ⟨.worker .waiting, b⟩ { s with mutex := s.mutex.leave i }
        ⟨.worker .reacquire, b⟩
  | reacquire {b : List Caller} {m : Monitor} (taken : s.mutex.acquire i = some m) :
      Step n retries i s ⟨.worker .reacquire, b⟩ { s with mutex := m } ⟨.worker .wakePop, b⟩
  | wakePopFound {b : List Caller} {e : Nat} {rest : List Nat}
      (queue : s.locals[i]? = some (e :: rest)) :
      Step n retries i s ⟨.worker .wakePop, b⟩ { s with locals := s.locals.set i rest }
        ⟨.worker .incActive, b⟩
  | wakePopNone {b : List Caller} (none : s.pop i = none) :
      Step n retries i s ⟨.worker .wakePop, b⟩ s ⟨.worker .wakeSteal, b⟩
  | wakeStealFound {b : List Caller} {e : Nat} {rest : List Nat} (queue : s.injector = e :: rest) :
      Step n retries i s ⟨.worker .wakeSteal, b⟩ { s with injector := rest }
        ⟨.worker .incActive, b⟩
  | wakeStealNone {b : List Caller} (empty : retries = true ∨ s.injector = []) :
      Step n retries i s ⟨.worker .wakeSteal, b⟩ s ⟨.worker .whileHead, b⟩
  | incActive {b : List Caller} :
      Step n retries i s ⟨.worker .incActive, b⟩ { s with active := s.active + 1 }
        ⟨.worker .unlockSleep, b⟩
  | unlockSleep {b : List Caller} :
      Step n retries i s ⟨.worker .unlockSleep, b⟩ { s with mutex := s.mutex.release }
        ⟨.worker .head, b⟩
  -- `Task::run`
  | run {b : List Caller} {e : Nat} :
      Step n retries i s ⟨.hold e, b⟩ { s with ran := e :: s.ran } ⟨.run e, b⟩
  | finish {b : List Caller} {e : Nat} : Step n retries i s ⟨.run e, b⟩ s (.resume b)
  -- `Shared::notify_worker`
  | notifyLock {b : List Caller} {m : Monitor} (taken : s.mutex.acquire i = some m) :
      Step n retries i s ⟨.notifyWorker .lockMutex, b⟩ { s with mutex := m }
        ⟨.notifyWorker .notify, b⟩
  | notify {b : List Caller} {m : Monitor} {choice : Nat}
      (notified : s.mutex.notifyOne choice = some m) :
      Step n retries i s ⟨.notifyWorker .notify, b⟩ { s with mutex := m }
        ⟨.notifyWorker .unlockMutex, b⟩
  | notifyUnlock {b : List Caller} :
      Step n retries i s ⟨.notifyWorker .unlockMutex, b⟩ { s with mutex := s.mutex.release }
        ⟨.notifyWorker .lockUnparkers, b⟩
  | notifyLockUnparkers {b : List Caller} {m : Monitor} (taken : s.unparkers.acquire i = some m) :
      Step n retries i s ⟨.notifyWorker .lockUnparkers, b⟩ { s with unparkers := m }
        ⟨.notifyWorker .unpark, b⟩
  | notifyUnpark {b : List Caller} :
      Step n retries i s ⟨.notifyWorker .unpark, b⟩ s ⟨.notifyWorker .unlockUnparkers, b⟩
  | notifyReturn {b : List Caller} :
      Step n retries i s ⟨.notifyWorker .unlockUnparkers, b⟩
        { s with unparkers := s.unparkers.release } (.resume b)
  -- `MultiThread::steal_work`
  | helpLock {b : List Caller} {m : Monitor} (taken : s.stealers.acquire i = some m) :
      Step n retries i s ⟨.stealWork .lockStealers, b⟩ { s with stealers := m }
        ⟨.stealWork (.steal 0), b⟩
  | helpFound {b : List Caller} {target e : Nat} {rest : List Nat}
      (queue : s.locals[target]? = some (e :: rest)) :
      Step n retries i s ⟨.stealWork (.steal target), b⟩
        { s with locals := s.locals.set target rest } ⟨.stealWork (.unlockStealers (some e)), b⟩
  | helpNext {b : List Caller} {target : Nat} :
      Step n retries i s ⟨.stealWork (.steal target), b⟩ s ⟨.stealWork (.steal (target + 1)), b⟩
  | helpNone {b : List Caller} {target : Nat} :
      Step n retries i s ⟨.stealWork (.steal target), b⟩ s ⟨.stealWork .stealInjector, b⟩
  | helpInjectorFound {b : List Caller} {e : Nat} {rest : List Nat}
      (queue : s.injector = e :: rest) :
      Step n retries i s ⟨.stealWork .stealInjector, b⟩ { s with injector := rest }
        ⟨.stealWork (.unlockStealers (some e)), b⟩
  | helpInjectorNone {b : List Caller} :
      Step n retries i s ⟨.stealWork .stealInjector, b⟩ s ⟨.stealWork (.unlockStealers none), b⟩
  | helpUnlockFound {b : List Caller} {e : Nat} :
      Step n retries i s ⟨.stealWork (.unlockStealers (some e)), b⟩
        { s with stealers := s.stealers.release } ⟨.hold e, b⟩
  | helpUnlockNone {b : List Caller} :
      Step n retries i s ⟨.stealWork (.unlockStealers none), b⟩
        { s with stealers := s.stealers.release } (.resume b)
  -- `Handle::process_some_tasks`
  | processFound {b : List Caller} {left e : Nat} {rest : List Nat}
      (queue : s.injector = e :: rest) :
      Step n retries i s ⟨.processSomeTasks (left + 1), b⟩ { s with injector := rest }
        ⟨.hold e, .processSomeTasks left :: b⟩
  | processReturn {b : List Caller} {left : Nat} :
      Step n retries i s ⟨.processSomeTasks left, b⟩ s (.resume b)
  -- `MultiThread::shutdown`
  | shutdownLock {b : List Caller} {m : Monitor} (taken : s.mutex.acquire i = some m) :
      Step n retries i s ⟨.shutdown .lockMutex, b⟩ { s with mutex := m } ⟨.shutdown .notifyAll, b⟩
  | notifyAll {b : List Caller} :
      Step n retries i s ⟨.shutdown .notifyAll, b⟩ { s with mutex := s.mutex.notifyAll }
        ⟨.shutdown .unlockMutex, b⟩
  | shutdownUnlock {b : List Caller} :
      Step n retries i s ⟨.shutdown .unlockMutex, b⟩ { s with mutex := s.mutex.release }
        ⟨.shutdown .lockUnparkers, b⟩
  | shutdownLockUnparkers {b : List Caller} {m : Monitor} (taken : s.unparkers.acquire i = some m) :
      Step n retries i s ⟨.shutdown .lockUnparkers, b⟩ { s with unparkers := m }
        ⟨.shutdown .unparkAll, b⟩
  | unparkAll {b : List Caller} :
      Step n retries i s ⟨.shutdown .unparkAll, b⟩ s ⟨.shutdown (.join 0), b⟩
  | join {b : List Caller} {worker : Nat} (ended : worker ∈ s.exited) :
      Step n retries i s ⟨.shutdown (.join worker), b⟩ s ⟨.shutdown (.join (worker + 1)), b⟩
  | joined {b : List Caller} {worker : Nat} (all : n ≤ worker) :
      Step n retries i s ⟨.shutdown (.join worker), b⟩ s ⟨.shutdown .unlockUnparkers, b⟩
  | shutdownReturn {b : List Caller} :
      Step n retries i s ⟨.shutdown .unlockUnparkers, b⟩
        { s with unparkers := s.unparkers.release } (.resume b)
  -- code of the user
  | spawn {b : List Caller} :
      Step n retries i s ⟨.user, b⟩ s.push ⟨.notifyWorker .lockMutex, b⟩
  | spawnInRun {b : List Caller} {e : Nat} :
      Step n retries i s ⟨.run e, b⟩ s.push ⟨.notifyWorker .lockMutex, .run e :: b⟩
  | help {b : List Caller} : Step n retries i s ⟨.user, b⟩ s ⟨.stealWork .lockStealers, b⟩
  | helpInRun {b : List Caller} {e : Nat} :
      Step n retries i s ⟨.run e, b⟩ s ⟨.stealWork .lockStealers, .run e :: b⟩
  | process {b : List Caller} : Step n retries i s ⟨.user, b⟩ s ⟨.processSomeTasks 10, b⟩
  | processInRun {b : List Caller} {e : Nat} :
      Step n retries i s ⟨.run e, b⟩ s ⟨.processSomeTasks 10, .run e :: b⟩
  | shutdown {b : List Caller} (running : s.shutdown = false) :
      Step n retries i s ⟨.user, b⟩ { s with shutdown := true } ⟨.shutdown .lockMutex, b⟩
  | shutdownInRun {b : List Caller} {e : Nat} (running : s.shutdown = false) :
      Step n retries i s ⟨.run e, b⟩ { s with shutdown := true }
        ⟨.shutdown .lockMutex, .run e :: b⟩

section Inversion

variable {n : Nat} {retry retries : Bool} {i : Nat} {s s' : Shared} {t' : Thread}
  {below : List Caller}

theorem step_of_advanceWorker (allowed : retry = true → retries = true) {pc : WorkerPc}
    (moved : advanceWorker n retry i s below pc = some (s', t')) :
    Step n retries i s ⟨.worker pc, below⟩ s' t' := by
  have empty : s.stealInjector retry = none → retries = true ∨ s.injector = [] := by
    intro none
    cases retry with
    | true => exact .inl (allowed rfl)
    | false => exact .inr (Shared.injector_eq_nil none)
  cases pc with
  | head =>
      simp only [advanceWorker] at moved
      split at moved
      · next shutdown =>
          cases moved
          exact .exit shutdown
      · next running =>
          cases moved
          exact .enter (Bool.eq_false_of_not_eq_true running)
  | popLocal =>
      simp only [advanceWorker] at moved
      split at moved
      · next popped =>
          cases moved
          obtain ⟨rest, queue, rfl⟩ := Shared.pop_eq_some popped
          exact .popFound queue
      · cases moved
        exact .popNone
  | lockStealers =>
      obtain ⟨m, taken, same⟩ := Option.map_eq_some_iff.mp moved
      cases same
      exact .lockStealers taken
  | steal offset =>
      simp only [advanceWorker] at moved
      split at moved
      · split at moved
        · next stolen =>
            cases moved
            obtain ⟨rest, queue, rfl⟩ := Shared.steal_eq_some stolen
            exact .stealFound queue
        · cases moved
          exact .stealNext
      · cases moved
        exact .stealNone
  | unlockStealers found =>
      cases found with
      | some entry =>
          cases moved
          exact .unlockFound
      | none =>
          cases moved
          exact .unlockNone
  | stealInjector =>
      simp only [advanceWorker] at moved
      split at moved
      · next stolen =>
          cases moved
          obtain ⟨rest, queue, rfl⟩ := Shared.stealInjector_eq_some stolen
          exact .injectorFound queue
      · cases moved
        exact .injectorNone
  | lockSleep =>
      obtain ⟨m, taken, same⟩ := Option.map_eq_some_iff.mp moved
      cases same
      exact .lockSleep taken
  | decActive =>
      cases moved
      exact .decActive
  | checkPop =>
      simp only [advanceWorker] at moved
      split at moved
      · next popped =>
          cases moved
          obtain ⟨rest, queue, rfl⟩ := Shared.pop_eq_some popped
          exact .checkPopFound queue
      · next none =>
          cases moved
          exact .checkPopNone none
  | checkSteal =>
      simp only [advanceWorker] at moved
      split at moved
      · next stolen =>
          cases moved
          obtain ⟨rest, queue, rfl⟩ := Shared.stealInjector_eq_some stolen
          exact .checkStealFound queue
      · next none =>
          cases moved
          exact .checkStealNone (empty none)
  | whileHead =>
      cases shutdown : s.shutdown with
      | true =>
          simp only [advanceWorker, shutdown, if_true] at moved
          cases moved
          exact .whileShutdown shutdown
      | false =>
          simp only [advanceWorker, shutdown, Bool.false_eq_true, if_false] at moved
          cases moved
          exact .whileRunning shutdown
  | wait =>
      cases moved
      exact .wait
  | reacquire =>
      obtain ⟨m, taken, same⟩ := Option.map_eq_some_iff.mp moved
      cases same
      exact .reacquire taken
  | wakePop =>
      simp only [advanceWorker] at moved
      split at moved
      · next popped =>
          cases moved
          obtain ⟨rest, queue, rfl⟩ := Shared.pop_eq_some popped
          exact .wakePopFound queue
      · next none =>
          cases moved
          exact .wakePopNone none
  | wakeSteal =>
      simp only [advanceWorker] at moved
      split at moved
      · next stolen =>
          cases moved
          obtain ⟨rest, queue, rfl⟩ := Shared.stealInjector_eq_some stolen
          exact .wakeStealFound queue
      · next none =>
          cases moved
          exact .wakeStealNone (empty none)
  | incActive =>
      cases moved
      exact .incActive
  | unlockSleep =>
      cases moved
      exact .unlockSleep
  | waiting | exited => cases moved

theorem step_of_advanceNotify {pc : NotifyPc}
    (moved : advanceNotify i s below pc = some (s', t')) :
    Step n retries i s ⟨.notifyWorker pc, below⟩ s' t' := by
  cases pc with
  | lockMutex =>
      obtain ⟨m, taken, same⟩ := Option.map_eq_some_iff.mp moved
      cases same
      exact .notifyLock taken
  | notify => cases moved
  | unlockMutex =>
      cases moved
      exact .notifyUnlock
  | lockUnparkers =>
      obtain ⟨m, taken, same⟩ := Option.map_eq_some_iff.mp moved
      cases same
      exact .notifyLockUnparkers taken
  | unpark =>
      cases moved
      exact .notifyUnpark
  | unlockUnparkers =>
      cases moved
      exact .notifyReturn

theorem step_of_advanceSteal {pc : StealPc}
    (moved : advanceSteal n retry i s below pc = some (s', t')) :
    Step n retries i s ⟨.stealWork pc, below⟩ s' t' := by
  cases pc with
  | lockStealers =>
      obtain ⟨m, taken, same⟩ := Option.map_eq_some_iff.mp moved
      cases same
      exact .helpLock taken
  | steal target =>
      simp only [advanceSteal] at moved
      split at moved
      · split at moved
        · next stolen =>
            cases moved
            obtain ⟨rest, queue, rfl⟩ := Shared.steal_eq_some stolen
            exact .helpFound queue
        · cases moved
          exact .helpNext
      · cases moved
        exact .helpNone
  | stealInjector =>
      simp only [advanceSteal] at moved
      split at moved
      · next stolen =>
          cases moved
          obtain ⟨rest, queue, rfl⟩ := Shared.stealInjector_eq_some stolen
          exact .helpInjectorFound queue
      · cases moved
        exact .helpInjectorNone
  | unlockStealers found =>
      cases found with
      | some entry =>
          cases moved
          exact .helpUnlockFound
      | none =>
          cases moved
          exact .helpUnlockNone

theorem step_of_advanceProcess {left : Nat}
    (moved : advanceProcess retry s below left = some (s', t')) :
    Step n retries i s ⟨.processSomeTasks left, below⟩ s' t' := by
  cases left with
  | zero =>
      cases moved
      exact .processReturn
  | succ left =>
      simp only [advanceProcess] at moved
      split at moved
      · next stolen =>
          cases moved
          obtain ⟨rest, queue, rfl⟩ := Shared.stealInjector_eq_some stolen
          exact .processFound queue
      · cases moved
        exact .processReturn

theorem step_of_advanceShutdown {pc : ShutdownPc}
    (moved : advanceShutdown n i s below pc = some (s', t')) :
    Step n retries i s ⟨.shutdown pc, below⟩ s' t' := by
  cases pc with
  | lockMutex =>
      obtain ⟨m, taken, same⟩ := Option.map_eq_some_iff.mp moved
      cases same
      exact .shutdownLock taken
  | notifyAll =>
      cases moved
      exact .notifyAll
  | unlockMutex =>
      cases moved
      exact .shutdownUnlock
  | lockUnparkers =>
      obtain ⟨m, taken, same⟩ := Option.map_eq_some_iff.mp moved
      cases same
      exact .shutdownLockUnparkers taken
  | unparkAll =>
      cases moved
      exact .unparkAll
  | join worker =>
      simp only [advanceShutdown] at moved
      split at moved
      · split at moved
        · next ended =>
            cases moved
            exact .join ended
        · cases moved
      · next all =>
          cases moved
          exact .joined (Nat.le_of_not_lt all)
  | unlockUnparkers =>
      cases moved
      exact .shutdownReturn

/-- The next operation of a thread has one of the outcomes. -/
theorem step_of_advance {t : Thread} (allowed : retry = true → retries = true)
    (moved : advance n retry i s t = some (s', t')) : Step n retries i s t s' t' := by
  obtain ⟨point, below⟩ := t
  cases point with
  | user | run _ => cases moved
  | hold entry =>
      cases moved
      exact .run
  | worker pc => exact step_of_advanceWorker allowed moved
  | notifyWorker pc => exact step_of_advanceNotify moved
  | stealWork pc => exact step_of_advanceSteal moved
  | processSomeTasks left => exact step_of_advanceProcess moved
  | shutdown pc => exact step_of_advanceShutdown moved

/-- **A step has one of the outcomes.** -/
theorem step_of_move {t : Thread} {l : Label} (moved : move n retries i s t l = some (s', t')) :
    Step n retries i s t s' t' := by
  obtain ⟨point, below⟩ := t
  cases l with
  | begin call =>
      simp only [move] at moved
      split at moved
      · cases call with
        | shutdown =>
            simp only [begins] at moved
            split at moved
            · cases moved
            · next running =>
                cases moved
                exact .shutdown (Bool.eq_false_of_not_eq_true running)
        | spawn =>
            cases moved
            exact .spawn
        | stealWork =>
            cases moved
            exact .help
        | processSomeTasks =>
            cases moved
            exact .process
      · cases call with
        | shutdown =>
            simp only [begins] at moved
            split at moved
            · cases moved
            · next running =>
                cases moved
                exact .shutdownInRun (Bool.eq_false_of_not_eq_true running)
        | spawn =>
            cases moved
            exact .spawnInRun
        | stealWork =>
            cases moved
            exact .helpInRun
        | processSomeTasks =>
            cases moved
            exact .processInRun
      · cases moved
  | next retry =>
      simp only [move] at moved
      split at moved
      · cases moved
      · next allowed =>
          refine step_of_advance ?_ moved
          intro retried
          by_contra never
          exact allowed ⟨retried, Bool.eq_false_of_not_eq_true never⟩
  | wake =>
      simp only [move] at moved
      split at moved
      · next here =>
          cases here
          cases moved
          exact .wake
      · cases moved
  | notify choice =>
      simp only [move] at moved
      split at moved
      · next here =>
          cases here
          obtain ⟨m, notified, same⟩ := Option.map_eq_some_iff.mp moved
          cases same
          exact .notify notified
      · cases moved
  | finish =>
      simp only [move] at moved
      split at moved
      · cases moved
        exact .finish
      · cases moved

end Inversion

/-! ## Locks -/

namespace Thread

/-- The points at which a thread holds `shared.mutex`. -/
def holdsMutex (t : Thread) : Bool :=
  match t.point with
  | .worker .decActive | .worker .checkPop | .worker .checkSteal | .worker .whileHead
  | .worker .wait | .worker .wakePop | .worker .wakeSteal | .worker .incActive
  | .worker .unlockSleep => true
  | .notifyWorker .notify | .notifyWorker .unlockMutex => true
  | .shutdown .notifyAll | .shutdown .unlockMutex => true
  | _ => false

/-- The point of waiting on the condvar. -/
def waits (t : Thread) : Bool :=
  match t.point with
  | .worker .waiting => true
  | _ => false

/-- The points at which a thread holds the guard of the unparkers. -/
def holdsUnparkers (t : Thread) : Bool :=
  match t.point with
  | .notifyWorker .unpark | .notifyWorker .unlockUnparkers => true
  | .shutdown .unparkAll | .shutdown (.join _) | .shutdown .unlockUnparkers => true
  | _ => false

/-- The points at which a thread holds the guard of the stealers. -/
def holdsStealers (t : Thread) : Bool :=
  match t.point with
  | .worker (.steal _) | .worker (.unlockStealers _) => true
  | .stealWork (.steal _) | .stealWork .stealInjector | .stealWork (.unlockStealers _) => true
  | _ => false

/-- On a mutex alone nobody waits. -/
def never (_ : Thread) : Bool := false

/-- A thread that returns holds no lock. -/
theorem resume_free (b : List Caller) : (resume b).holdsMutex = false ∧
    (resume b).holdsUnparkers = false ∧ (resume b).holdsStealers = false := by
  cases b with
  | nil => exact ⟨rfl, rfl, rfl⟩
  | cons caller rest => cases caller <;> exact ⟨rfl, rfl, rfl⟩

theorem resume_waits (b : List Caller) : (resume b).waits = false := by
  cases b with
  | nil => rfl
  | cons caller rest => cases caller <;> rfl

end Thread

section Uses

variable {n : Nat} {retries : Bool} {i : Nat} {s s' : Shared} {t t' : Thread}

/-- The flag is never cleared. -/
theorem Step.flag (step : Step n retries i s t s' t') (flag : s.shutdown = true) :
    s'.shutdown = true := by
  cases step with
  | shutdown | shutdownInRun => rfl
  | _ => exact flag

/-- **What a step does with `shared.mutex` and its condvar.** -/
theorem Step.usesMutex (step : Step n retries i s t s' t') :
    Monitor.Uses Thread.holdsMutex Thread.waits i t t' s.mutex s'.mutex := by
  cases step with
  | lockSleep taken => exact .acquire rfl rfl taken
  | reacquire taken => exact .acquire rfl rfl taken
  | notifyLock taken => exact .acquire rfl rfl taken
  | shutdownLock taken => exact .acquire rfl rfl taken
  | unlockSleep | notifyUnlock | shutdownUnlock => exact .release rfl rfl rfl
  | wait => exact .wait rfl rfl rfl
  | wake => exact .leave rfl
  | notify notified => exact .notifyOne rfl rfl notified
  | notifyAll => exact .notifyAll rfl
  | finish | notifyReturn | helpUnlockNone | processReturn | shutdownReturn =>
      exact .quiet rfl (Thread.resume_free _).1
  | _ => exact .quiet rfl rfl

/-- A thread comes to be waiting from the wait. -/
theorem Step.waits (step : Step n retries i s t s' t') (waits : t'.waits = true) :
    t.point = .worker .wait := by
  cases step with
  | wait => rfl
  | finish | notifyReturn | helpUnlockNone | processReturn | shutdownReturn =>
      rw [Thread.resume_waits] at waits
      cases waits
  | _ => cases waits

/-- **What a step does with the unparkers.** -/
theorem Step.usesUnparkers (step : Step n retries i s t s' t') :
    Monitor.Uses Thread.holdsUnparkers Thread.never i t t' s.unparkers s'.unparkers := by
  cases step with
  | notifyLockUnparkers taken => exact .acquire rfl rfl taken
  | shutdownLockUnparkers taken => exact .acquire rfl rfl taken
  | notifyReturn | shutdownReturn => exact .release rfl rfl (Thread.resume_free _).2.1
  | finish | helpUnlockNone | processReturn => exact .quiet rfl (Thread.resume_free _).2.1
  | _ => exact .quiet rfl rfl

/-- **What a step does with the stealers.** -/
theorem Step.usesStealers (step : Step n retries i s t s' t') :
    Monitor.Uses Thread.holdsStealers Thread.never i t t' s.stealers s'.stealers := by
  cases step with
  | lockStealers taken => exact .acquire rfl rfl taken
  | helpLock taken => exact .acquire rfl rfl taken
  | unlockFound | unlockNone | helpUnlockFound => exact .release rfl rfl rfl
  | helpUnlockNone => exact .release rfl rfl (Thread.resume_free _).2.2
  | finish | notifyReturn | processReturn | shutdownReturn =>
      exact .quiet rfl (Thread.resume_free _).2.2
  | _ => exact .quiet rfl rfl

end Uses

/-- Each lock is owned by the thread at a point that holds it. -/
structure Locked (s : State) : Prop where
  mutex : Monitor.Keeps Thread.holdsMutex Thread.waits s.shared.mutex s.threads
  unparkers : Monitor.Keeps Thread.holdsUnparkers Thread.never s.shared.unparkers s.threads
  stealers : Monitor.Keeps Thread.holdsStealers Thread.never s.shared.stealers s.threads

/-- A thread of the start is a worker at the head of its loop, or in code of the user. -/
theorem startWith_cases {n others i : Nat} {t : Thread}
    (found : (startWith n others).threads[i]? = some t) :
    i < n ∧ t = ⟨.worker .head, []⟩ ∨ n ≤ i ∧ t = ⟨.user, []⟩ := by
  simp only [startWith, List.getElem?_append, List.length_replicate,
    List.getElem?_replicate] at found
  split at found
  · next within => exact .inl ⟨within, (Option.some.inj found).symm⟩
  · next beyond =>
      split at found
      · exact .inr ⟨Nat.le_of_not_lt beyond, (Option.some.inj found).symm⟩
      · cases found

theorem locked_startWith (n others : Nat) : Locked (startWith n others) := by
  have quiet : ∀ t ∈ (startWith n others).threads, t.holdsMutex = false ∧
      t.holdsUnparkers = false ∧ t.holdsStealers = false := by
    intro t member
    obtain ⟨i, found⟩ := List.mem_iff_getElem?.mp member
    rcases startWith_cases found with ⟨-, rfl⟩ | ⟨-, rfl⟩ <;> exact ⟨rfl, rfl, rfl⟩
  exact ⟨.new fun t member => (quiet t member).1, .new fun t member => (quiet t member).2.1,
    .new fun t member => (quiet t member).2.2⟩

/-- A step of the machine moves one thread by an outcome. -/
theorem step_of_taken {n : Nat} {retries : Bool} {s s' : State} {i : Nat} {l : Label}
    (taken : (machine n retries).step s (i, l) = some s') :
    ∃ t shared t', s.threads[i]? = some t ∧ Step n retries i s.shared t shared t' ∧
      move n retries i s.shared t l = some (shared, t') ∧
      s' = ⟨shared, s.threads.set i t'⟩ := by
  replace taken : Pool.step (move n retries) s (i, l) = some s' := taken
  obtain ⟨t, shared, t', found, moved, same⟩ := Pool.step_eq_some taken
  exact ⟨t, shared, t', found, step_of_move moved, moved, same⟩

/-- **Every run keeps the locks.** -/
theorem locked {n : Nat} {retries : Bool} {ok : State → Nat × Label → Prop} {s : State}
    (reached : (machine n retries).ReachesWhen ok s) : Locked s := by
  refine reached.invariant ?_ ?_
  · rintro _ ⟨others, rfl⟩
    exact locked_startWith n others
  · rintro s ⟨i, l⟩ s' - inv - taken
    obtain ⟨t, shared, t', found, step, -, rfl⟩ := step_of_taken taken
    exact ⟨inv.mutex.uses found step.usesMutex, inv.unparkers.uses found step.usesUnparkers,
      inv.stealers.uses found step.usesStealers⟩

end LoonyRuntime.Runtime.MultiThread
