/-
# The thread pool

`src/thread/ThreadPool.cpp` as a guarded transition system.  Each thread of the
program (the workers, the manager, any number of callers of `addTask`, the
thread that runs the destructor) is a control point, and each access to a
variable that threads share is one step: every acquisition and release of
`taskMutex_`, every load and store of `running_` and `killThread`, every
evaluation of a disjunct of the wait predicate, the release-and-block of
`taskCondition_.wait`, each wake-up, each push and pop, and each notification.
Logging is left out.

A label carries the choices the program leaves open: which blocked worker a
`notify_one` wakes, whether a `compare_exchange_weak` fails spuriously, whether
a task throws.  The control tables `workerMove`, `managerMove`, `producerMove`
and `destructorMove` have one row for each label of a thread.
-/
import RedisStateManager.TransitionSystem
import Mathlib.Data.Int.Notation

namespace ThreadPool

variable {Task : Type}

/-- `ThreadPool::WorkerTask`: a callable and the bytes of the payload it is called
with. -/
structure WorkerTask (Task : Type) where
  task : Task
  payload : List UInt8
  deriving DecidableEq, Repr

/-- An element of `taskQueue_`.  `ticket` numbers the pushes from `0`; it only
names the element, no step reads it. -/
structure Entry (Task : Type) where
  ticket : ℕ
  work : WorkerTask Task
  deriving DecidableEq, Repr

/-- The threads that take `taskMutex_`. -/
inductive Thread
  | worker (w : ℕ)
  | producer (p : ℕ)
  | manager
  deriving DecidableEq, Repr

/-! ## Control points -/

/-- The control points of `workerFunction`. -/
inductive WorkerPc (Task : Type)
  | start
  /-- in `wait`, mutex held: the three disjuncts of the predicate -/
  | testQueue
  | testRunning
  | testKill
  /-- the predicate was false; about to release the mutex and block -/
  | block
  | blocked
  /-- notified, or woken spuriously; the mutex must be taken again -/
  | woken
  | loadKill
  | casKill (killCount : ℕ)
  | exitRunning
  | exitQueue
  | finishing
  | leaving
  | exited
  | testEmpty
  | popped (e : Entry Task)
  | holding (e : Entry Task)
  | running (e : Entry Task)
  | emptyQueue
  deriving DecidableEq, Repr

/-- The control points of `managerFunction`; the index is the position of the
iterator in `workerPool`. -/
inductive ManagerPc
  | testRunning
  | sleep
  | lockSize
  | readSize
  | unlockSize
  | scaleUp
  | spawn
  | scaleDown
  | loadKill
  | casKill
  | notify
  | pause
  | reap (i : ℕ)
  | join (i : ℕ)
  | finalNotify
  | drain
  | drainReap (i : ℕ)
  | drainJoin (i : ℕ)
  | returned
  deriving DecidableEq, Repr

/-- The control points of a caller of `addTask`. -/
inductive ProducerPc (Task : Type)
  | idle
  | lock (t : WorkerTask Task)
  | push (t : WorkerTask Task)
  | unlock
  | notify
  deriving DecidableEq, Repr

/-- The control points of `shutdown`, called by the destructor. -/
inductive DestructorPc
  | idle
  | storeRunning
  | notifyAll
  | join
  | returned
  deriving DecidableEq, Repr

/-- The worker's `finished` flag: it is stored once, just before `break`. -/
def WorkerPc.finished : WorkerPc Task → Bool
  | .leaving | .exited => true
  | _ => false

/-- The control points at which a worker owns `taskMutex_`. -/
def WorkerPc.holdsMutex : WorkerPc Task → Bool
  | .testQueue | .testRunning | .testKill | .block | .loadKill | .casKill _ | .exitRunning
  | .exitQueue | .finishing | .leaving | .testEmpty | .popped _ | .emptyQueue => true
  | _ => false

def ManagerPc.holdsMutex : ManagerPc → Bool
  | .readSize | .unlockSize => true
  | _ => false

def ProducerPc.holdsMutex : ProducerPc Task → Bool
  | .push _ | .unlock => true
  | _ => false

/-! ## The state -/

/-- The pool, the control points of its threads, and `managerFunction`'s
locals.  `workers` lists every worker ever spawned, `workerPool` the ones the
manager has not joined. -/
structure State (Task : Type) where
  running : Bool
  taskMutex : Option Thread
  taskQueue : List (Entry Task)
  killThread : ℕ
  scaleUp : UInt32 → UInt32 → Bool
  scaleDown : UInt32 → UInt32 → Bool
  queueSize : UInt32
  workerCount : ℤ
  workerPool : List ℕ
  workers : List (WorkerPc Task)
  manager : ManagerPc
  producers : ℕ → ProducerPc Task
  destructor : DestructorPc
  pushCount : ℕ

/-- The default `scaleUp`. -/
def defaultScaleUp (queueSize workerCount : UInt32) : Bool :=
  queueSize > 10 * workerCount && workerCount < 10

/-- The default `scaleDown`. -/
def defaultScaleDown (queueSize workerCount : UInt32) : Bool :=
  queueSize < 3 * workerCount && workerCount > 1

/-- The pool once its constructor has returned: `start` has set `running_` and
created the management thread, and there is no worker. -/
def initial (scaleUp scaleDown : UInt32 → UInt32 → Bool) : State Task where
  running := true
  taskMutex := none
  taskQueue := []
  killThread := 0
  scaleUp := scaleUp
  scaleDown := scaleDown
  queueSize := 0
  workerCount := 0
  workerPool := []
  workers := []
  manager := .testRunning
  producers := fun _ => .idle
  destructor := .idle
  pushCount := 0

namespace State

/-- `taskQueue_.size()` stored into an `int` and passed on as a `uint`. -/
def size (s : State Task) : UInt32 := .ofNat s.taskQueue.length

/-- `workerCount` passed as a `uint`. -/
def count (s : State Task) : UInt32 := .ofInt s.workerCount

def setWorker (s : State Task) (w : ℕ) (pc : WorkerPc Task) : State Task :=
  { s with workers := s.workers.set w pc }

/-- The outcomes open to `notify_one`: it wakes one of the workers blocked at
this instant, and nobody if there is none. -/
def Notifies (s : State Task) : Option ℕ → Prop
  | some w => s.workers[w]? = some .blocked
  | none => .blocked ∉ s.workers

/-- The workers after a `notify_one`. -/
def notifyOne (s : State Task) : Option ℕ → State Task
  | some w => s.setWorker w .woken
  | none => s

/-- A worker after a `notify_all`. -/
def wakeUp : WorkerPc Task → WorkerPc Task
  | .blocked => .woken
  | pc => pc

def notifyAll (s : State Task) : State Task :=
  { s with workers := s.workers.map wakeUp }

/-- `finished->load()` for entry `i` of `workerPool`. -/
def finishedAt (s : State Task) (i : ℕ) : Bool :=
  ((s.workerPool[i]?).bind (s.workers[·]?)).any WorkerPc.finished

/-- The thread of entry `i` of `workerPool` has ended, so that `join` returns. -/
def exitedAt (s : State Task) (i : ℕ) : Prop :=
  (s.workerPool[i]?).bind (s.workers[·]?) = some .exited

/-- One `join` and `erase` of entry `i` of `workerPool`. -/
def joinAt (s : State Task) (i : ℕ) : State Task :=
  { s with workerPool := s.workerPool.eraseIdx i, workerCount := s.workerCount - 1 }

/-- One `emplace_back` of a worker thread. -/
def spawnWorker (s : State Task) : State Task :=
  { s with
    workers := s.workers ++ [.start]
    workerPool := s.workerPool ++ [s.workers.length]
    workerCount := s.workerCount + 1 }

end State

/-! ## The control tables -/

/-- The steps of a worker. -/
inductive WorkerAct (Task : Type)
  | lock
  | testQueue
  | testRunning
  | testKill
  | block
  | wake
  | relock
  | loadKill
  | casKill (killCount : ℕ) (spurious : Bool)
  | exitRunning
  | exitQueue
  | finish
  | leave
  | pop (e : Entry Task)
  | seeEmpty
  | unlock (e : Entry Task)
  | invoke (e : Entry Task)
  | complete (e : Entry Task) (threw : Bool)
  | skip
  deriving DecidableEq, Repr

/-- `workerFunction`. -/
def workerMove (w : ℕ) : WorkerAct Task → State Task → Move (WorkerPc Task) (State Task)
  | .lock, s =>
    ⟨.start, s.taskMutex = none, .testQueue, { s with taskMutex := some (.worker w) }⟩
  -- `wait(lock, pred)` is `while (!pred()) wait(lock)`
  | .testQueue, s => ⟨.testQueue, True, if s.taskQueue = [] then .testRunning else .loadKill, s⟩
  | .testRunning, s => ⟨.testRunning, True, if s.running then .testKill else .loadKill, s⟩
  | .testKill, s => ⟨.testKill, True, if s.killThread = 0 then .block else .loadKill, s⟩
  | .block, s => ⟨.block, True, .blocked, { s with taskMutex := none }⟩
  -- a spurious wake-up
  | .wake, s => ⟨.blocked, True, .woken, s⟩
  | .relock, s =>
    ⟨.woken, s.taskMutex = none, .testQueue, { s with taskMutex := some (.worker w) }⟩
  | .loadKill, s =>
    ⟨.loadKill, True, if s.killThread = 0 then .exitRunning else .casKill s.killThread, s⟩
  | .casKill k spurious, s =>
    ⟨.casKill k, True,
      if spurious = false ∧ s.killThread = k then .finishing else .exitRunning,
      if spurious = false ∧ s.killThread = k then { s with killThread := k - 1 } else s⟩
  | .exitRunning, s => ⟨.exitRunning, True, if s.running then .testEmpty else .exitQueue, s⟩
  | .exitQueue, s => ⟨.exitQueue, True, if s.taskQueue = [] then .finishing else .testEmpty, s⟩
  | .finish, s => ⟨.finishing, True, .leaving, s⟩
  -- the lock is released when `break` leaves its scope
  | .leave, s => ⟨.leaving, True, .exited, { s with taskMutex := none }⟩
  | .pop e, s =>
    ⟨.testEmpty, s.taskQueue.head? = some e, .popped e, { s with taskQueue := s.taskQueue.tail }⟩
  | .seeEmpty, s => ⟨.testEmpty, s.taskQueue = [], .emptyQueue, s⟩
  | .unlock e, s => ⟨.popped e, True, .holding e, { s with taskMutex := none }⟩
  | .invoke e, s => ⟨.holding e, True, .running e, s⟩
  -- a `std::exception` is caught, so both outcomes go on with the loop
  | .complete e _, s => ⟨.running e, True, .start, s⟩
  | .skip, s => ⟨.emptyQueue, True, .start, { s with taskMutex := none }⟩

/-- The steps of the manager. -/
inductive ManagerAct
  | testRunning
  | sleep
  | lock
  | readSize
  | unlock
  | testScaleUp
  | spawn
  | testScaleDown
  | loadKill
  | casKill (spurious : Bool)
  | notify (woken : Option ℕ)
  | pause
  | reap (i : ℕ)
  | join (i : ℕ)
  | finalNotify
  | testCount
  | drainReap (i : ℕ)
  | drainJoin (i : ℕ)
  deriving DecidableEq, Repr

/-- `managerFunction`.  A spawn and a join each count in the same step as they
change `workerPool`. -/
def managerMove : ManagerAct → State Task → Move ManagerPc (State Task)
  | .testRunning, s => ⟨.testRunning, True, if s.running then .sleep else .finalNotify, s⟩
  | .sleep, s => ⟨.sleep, True, .lockSize, s⟩
  | .lock, s =>
    ⟨.lockSize, s.taskMutex = none, .readSize, { s with taskMutex := some .manager }⟩
  | .readSize, s => ⟨.readSize, True, .unlockSize, { s with queueSize := s.size }⟩
  | .unlock, s => ⟨.unlockSize, True, .scaleUp, { s with taskMutex := none }⟩
  | .testScaleUp, s =>
    ⟨.scaleUp, True, if s.scaleUp s.queueSize s.count then .spawn else .scaleDown, s⟩
  | .spawn, s => ⟨.spawn, True, .testRunning, s.spawnWorker⟩
  | .testScaleDown, s =>
    ⟨.scaleDown, True, if s.scaleDown s.queueSize s.count then .loadKill else .testRunning, s⟩
  | .loadKill, s => ⟨.loadKill, True, if s.killThread = 0 then .casKill else .reap 0, s⟩
  | .casKill spurious, s =>
    ⟨.casKill, True, .notify,
      if spurious = false ∧ s.killThread = 0 then { s with killThread := 1 } else s⟩
  | .notify woken, s => ⟨.notify, s.Notifies woken, .pause, s.notifyOne woken⟩
  | .pause, s => ⟨.pause, True, .reap 0, s⟩
  | .reap i, s =>
    ⟨.reap i, True,
      if i < s.workerPool.length then (if s.finishedAt i then .join i else .reap (i + 1))
      else .testRunning, s⟩
  | .join i, s => ⟨.join i, s.exitedAt i, .reap i, s.joinAt i⟩
  | .finalNotify, s => ⟨.finalNotify, True, .drain, s.notifyAll⟩
  | .testCount, s => ⟨.drain, True, if s.workerCount = 0 then .returned else .drainReap 0, s⟩
  | .drainReap i, s =>
    ⟨.drainReap i, True,
      if i < s.workerPool.length then (if s.finishedAt i then .drainJoin i else .drainReap (i + 1))
      else .drain, s⟩
  | .drainJoin i, s => ⟨.drainJoin i, s.exitedAt i, .drainReap i, s.joinAt i⟩

/-- The steps of a caller of `addTask`. -/
inductive ProducerAct (Task : Type)
  | call (t : WorkerTask Task)
  | lock (t : WorkerTask Task)
  | push (e : Entry Task)
  | unlock
  | notify (woken : Option ℕ)
  deriving DecidableEq, Repr

/-- `addTask`; the call returns with its `notify_one`. -/
def producerMove (p : ℕ) :
    ProducerAct Task → State Task → Move (ProducerPc Task) (State Task)
  | .call t, s => ⟨.idle, True, .lock t, s⟩
  | .lock t, s =>
    ⟨.lock t, s.taskMutex = none, .push t, { s with taskMutex := some (.producer p) }⟩
  | .push e, s =>
    ⟨.push e.work, e.ticket = s.pushCount, .unlock,
      { s with taskQueue := s.taskQueue ++ [e], pushCount := s.pushCount + 1 }⟩
  | .unlock, s => ⟨.unlock, True, .notify, { s with taskMutex := none }⟩
  | .notify woken, s => ⟨.notify, s.Notifies woken, .idle, s.notifyOne woken⟩

/-- The steps of the destructor. -/
inductive DestructorAct
  | call
  | storeRunning
  | notifyAll
  | join
  deriving DecidableEq, Repr

/-- `shutdown`. -/
def destructorMove : DestructorAct → State Task → Move DestructorPc (State Task)
  | .call, s => ⟨.idle, True, .storeRunning, s⟩
  | .storeRunning, s => ⟨.storeRunning, True, .notifyAll, { s with running := false }⟩
  | .notifyAll, s => ⟨.notifyAll, True, .join, s.notifyAll⟩
  | .join, s => ⟨.join, s.manager = .returned, .returned, s⟩

/-! ## The transition system -/

inductive Label (Task : Type)
  | worker (w : ℕ) (a : WorkerAct Task)
  | manager (a : ManagerAct)
  | producer (p : ℕ) (a : ProducerAct Task)
  | destructor (a : DestructorAct)
  | setScaleUp (func : UInt32 → UInt32 → Bool)
  | setScaleDown (func : UInt32 → UInt32 → Bool)

def Enabled : Label Task → State Task → Prop
  | .worker w a, s => s.workers[w]? = some (workerMove w a s).source ∧ (workerMove w a s).guard
  | .manager a, s => s.manager = (managerMove a s).source ∧ (managerMove a s).guard
  | .producer p a, s => s.producers p = (producerMove p a s).source ∧ (producerMove p a s).guard
  | .destructor a, s => s.destructor = (destructorMove a s).source ∧ (destructorMove a s).guard
  -- one assignment under the mutex
  | .setScaleUp _, s => s.taskMutex = none
  | .setScaleDown _, s => s.taskMutex = none

def next : Label Task → State Task → State Task
  | .worker w a, s => (workerMove w a s).effect.setWorker w (workerMove w a s).target
  | .manager a, s => { (managerMove a s).effect with manager := (managerMove a s).target }
  | .producer p a, s =>
    { (producerMove p a s).effect with
      producers := Function.update s.producers p (producerMove p a s).target }
  | .destructor a, s =>
    { (destructorMove a s).effect with destructor := (destructorMove a s).target }
  | .setScaleUp func, s => { s with scaleUp := func }
  | .setScaleDown func, s => { s with scaleDown := func }

/-- The thread pool. -/
def pool (Task : Type) : TransitionSystem (State Task) (Label Task) where
  Enabled := Enabled
  next := next

end ThreadPool
