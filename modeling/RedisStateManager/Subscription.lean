/-
# From a message to the user's callback

`subscribe` and `unsubscribe` of `src/core/StateManager.cpp` over the channel and
its thread pool.  `subscribe` clones the template and hands the channel a closure;
the consumer thread passes the closure and a message to the pool; a worker that
executes it parses the message, clones the template once more, reads the JSON value
into the clone and passes this to the user's callback.  The steps of the channel and
of the pool are those of `RedisChannel` and `ThreadPool`, here with the objects on a
heap, since all closures of a channel share one template.  A clone is a copy of the
object's value.
-/
import RedisStateManager.StateManager
import RedisStateManager.ChannelCallbacks
import RedisStateManager.ThreadPoolQueue

namespace Subscription

open Redis (Bytes)
open StateManager (Json JsonLibrary StateObj)

/-! ## Closures, objects and tasks -/

/-- What `wrapped_callback` captures: `this`, the user's callback, the channel and
the shared pointer to the template. -/
structure Wrapped where
  manager : ℕ
  callback : ℕ
  channel : Bytes
  template_ptr : ℕ
  deriving DecidableEq, Repr

/-- Who may write to an object: the user's code, nobody (the template of a closure),
or the worker that executes a closure. -/
inductive Owner
  | user
  | closure
  | task (w : ℕ)
  deriving DecidableEq, Repr

structure Cell (T : Type) where
  owner : Owner
  value : T
  deriving DecidableEq, Repr

/-- The control points of a worker inside `wrapped_callback`. -/
inductive TaskPc
  | parse
  | clone (json_value : Json)
  | fromJson (json_value : Json) (state_obj : ℕ)
  | callback (state_obj : ℕ)
  | inCallback
  /-- returned, or left by a `std::exception` -/
  | ended (threw : Bool)

/-- The channel, its pool, the heap, the closures in execution, by their workers,
and the state managers that have been destroyed. -/
structure State (T : Type) where
  channel : RedisChannel.State Wrapped
  pool : ThreadPool.State Wrapped
  heap : List (Cell T)
  tasks : ℕ → Option TaskPc
  destroyed : List ℕ

/-- The channel as its constructor leaves it, with its scaling policies. -/
def initial (T : Type) (scaleUp scaleDown : UInt32 → UInt32 → Bool) : State T where
  channel := RedisChannel.initial
  pool := ThreadPool.initial scaleUp scaleDown
  heap := []
  tasks := fun _ => none
  destroyed := []

/-- The policy `RedisChannel` sets, with its `UP_THRESHOLD` and `MAX_WORKER_COUNT`. -/
def scaleUp (queueSize workerCount : UInt32) : Bool :=
  queueSize > 10 * workerCount && workerCount < 5

/-- The policy `RedisChannel` sets, with its `DOWN_THRESHOLD`. -/
def scaleDown (queueSize workerCount : UInt32) : Bool :=
  queueSize < 3 * workerCount && workerCount > 1

/-! ## Labels -/

/-- The steps of `wrapped_callback`. -/
inductive TaskAct (T : Type)
  | parse
  | clone
  | fromJson
  /-- the user's callback is invoked with the object `x` -/
  | callback (x : T)
  /-- the user's callback returns, or a `std::exception` leaves it -/
  | finish (threw : Bool)
  deriving DecidableEq, Repr

inductive Label (T : Type)
  /-- `StateManager::subscribe` with the closure `f`, by caller `i`, up to the call of
  `RedisChannel::subscribe`; the template is the user's object `r`, with value `v` -/
  | subscribe (i : ℕ) (f : Wrapped) (r : ℕ) (v : T)
  /-- the other steps of the channel -/
  | channel (a : RedisChannel.Label Wrapped)
  /-- consumer thread `w`, which has found the callback `f` of message `m`, copies it
  into the arguments of `addTask` -/
  | dispatch (w : ℕ) (m : RedisChannel.Message) (f : Wrapped)
  /-- the other steps of the pool -/
  | pool (a : ThreadPool.Label Wrapped)
  /-- worker `w` executes the closure of the queue element `e` -/
  | task (w : ℕ) (e : ThreadPool.Entry Wrapped) (a : TaskAct T)
  /-- the user's code makes an object, or writes to one of its own -/
  | create (v : T)
  | write (r : ℕ) (v : T)
  /-- a `StateManager` is destroyed -/
  | destroy (m : ℕ)

/-- `it->second` and `msg`, as they are passed to `addTask`. -/
def handOver (f : Wrapped) (m : RedisChannel.Message) : ThreadPool.WorkerTask Wrapped :=
  ⟨f, m.payload⟩

variable {T : Type}

/-- The part of the channel in a step. -/
def Label.channel? : Label T → Option (RedisChannel.Label Wrapped)
  | subscribe i f _ _ => some (.call i (.subscribe f.channel f))
  | channel a => some a
  | dispatch w m f => some (.consumer w (.copy f m))
  | _ => none

/-- The part of the pool in a step. -/
def Label.pool? : Label T → Option (ThreadPool.Label Wrapped)
  | dispatch w m f => some (.producer w (.call (handOver f m)))
  | pool a => some a
  | _ => none

/-! ## The steps -/

section Steps

variable (lib : JsonLibrary) (cls : StateObj T)

/-- What `wrapped_callback` makes of a message, with a template of value `v`: the
object for the user's callback, if there is one. -/
def expected (v : T) (message : Bytes) : Option T :=
  (lib.parse message).bind fun json_value => (cls.from_json v json_value).toOption

/-- When a worker that executes the closure of `e` can make a step. -/
def Fits (heap : List (Cell T)) (e : ThreadPool.Entry Wrapped) :
    TaskAct T → Option TaskPc → Prop
  | .parse, some .parse => True
  | .clone, some (.clone _) => (heap[e.work.task.template_ptr]?).isSome = true
  | .fromJson, some (.fromJson _ state_obj) => (heap[state_obj]?).isSome = true
  | .callback x, some (.callback state_obj) => (heap[state_obj]?).map Cell.value = some x
  | .finish _, some .inCallback => True
  | _, _ => False

/-- The closure has ended in this way. -/
def TaskPc.ends (threw : Bool) : TaskPc → Bool
  | .ended b => b == threw
  | _ => false

/-- One step of `wrapped_callback`: the heap, and where the worker stands. -/
def takeStep (heap : List (Cell T)) (w : ℕ) (e : ThreadPool.Entry Wrapped) :
    TaskAct T → Option TaskPc → List (Cell T) × Option TaskPc
  | .parse, _ =>
    match lib.parse e.work.payload with
    | some json_value => (heap, some (.clone json_value))
    | none => (heap, some (.ended true))
  | .clone, some (.clone json_value) =>
    match heap[e.work.task.template_ptr]? with
    | some template =>
      (heap ++ [⟨.task w, template.value⟩], some (.fromJson json_value heap.length))
    | none => (heap, none)
  | .fromJson, some (.fromJson json_value state_obj) =>
    match heap[state_obj]? with
    | some cell =>
      match cls.from_json cell.value json_value with
      | .ok x => (heap.set state_obj ⟨.task w, x⟩, some (.callback state_obj))
      | .error _ => (heap, some (.ended true))
    | none => (heap, none)
  -- the unique pointer is moved into the callback
  | .callback x, some (.callback state_obj) => (heap.set state_obj ⟨.user, x⟩, some .inCallback)
  | .finish threw, _ => (heap, some (.ended threw))
  | _, pc => (heap, pc)

/-- When a label may happen, apart from what the channel and the pool say. -/
def Ready : Label T → State T → Prop
  | .subscribe _ f r v, s =>
    f.manager ∉ s.destroyed ∧ s.heap[r]? = some ⟨.user, v⟩ ∧ f.template_ptr = s.heap.length
  | .channel (.call _ (.subscribe ..)), _ | .channel (.consumer _ (.copy ..)), _ => False
  -- `addTask` has returned
  | .channel (.consumer w (.handOver ..)), s => s.pool.producers w = .idle
  | .channel _, _ => True
  | .dispatch .., _ => True
  | .pool (.producer _ (.call _)), _ => False
  | .pool (.worker w (.complete _ threw)), s => (s.tasks w).any (TaskPc.ends threw) = true
  | .pool _, _ => True
  | .task w e a, s =>
    s.pool.workers[w]? = some (.running e) ∧ Fits s.heap e a (s.tasks w)
  | .create _, _ => True
  | .write r _, s => (s.heap[r]?).map Cell.owner = some .user
  | .destroy m, s => m ∉ s.destroyed

def nextHeap : Label T → State T → List (Cell T)
  | .subscribe _ _ _ v, s => s.heap ++ [⟨.closure, v⟩]
  | .task w e a, s => (takeStep lib cls s.heap w e a (s.tasks w)).1
  | .create v, s => s.heap ++ [⟨.user, v⟩]
  | .write r v, s => s.heap.set r ⟨.user, v⟩
  | _, s => s.heap

def nextTasks : Label T → State T → ℕ → Option TaskPc
  | .pool (.worker w (.invoke _)), s => Function.update s.tasks w (some .parse)
  | .pool (.worker w (.complete _ _)), s => Function.update s.tasks w none
  | .task w e a, s => Function.update s.tasks w (takeStep lib cls s.heap w e a (s.tasks w)).2
  | _, s => s.tasks

def nextDestroyed : Label T → State T → List ℕ
  | .destroy m, s => m :: s.destroyed
  | _, s => s.destroyed

/-- State managers, the channel they share, its consumer thread and its workers. -/
def system : TransitionSystem (State T) (Label T) where
  Enabled a s := RedisChannel.channel.EnabledOn a.channel? s.channel ∧
    (ThreadPool.pool Wrapped).EnabledOn a.pool? s.pool ∧ Ready a s
  next a s :=
    { channel := RedisChannel.channel.nextOn a.channel? s.channel
      pool := (ThreadPool.pool Wrapped).nextOn a.pool? s.pool
      heap := nextHeap lib cls a s
      tasks := nextTasks lib cls a s
      destroyed := nextDestroyed a s }

end Steps

instance [DecidableEq T] (heap : List (Cell T)) (e : ThreadPool.Entry Wrapped) :
    ∀ a pc, Decidable (Fits heap e a pc)
  | .parse, some .parse | .finish _, some .inCallback => isTrue trivial
  | .clone, some (.clone _) | .fromJson, some (.fromJson _ _) =>
    inferInstanceAs (Decidable (_ = true))
  | .callback _, some (.callback _) => inferInstanceAs (Decidable (_ = _))
  | .parse, none | .clone, none | .fromJson, none | .callback _, none | .finish _, none
  | .clone, some .parse | .fromJson, some .parse | .callback _, some .parse
  | .finish _, some .parse | .parse, some (.clone _) | .fromJson, some (.clone _)
  | .callback _, some (.clone _) | .finish _, some (.clone _) | .parse, some (.fromJson _ _)
  | .clone, some (.fromJson _ _) | .callback _, some (.fromJson _ _)
  | .finish _, some (.fromJson _ _) | .parse, some (.callback _) | .clone, some (.callback _)
  | .fromJson, some (.callback _) | .finish _, some (.callback _) | .parse, some .inCallback
  | .clone, some .inCallback | .fromJson, some .inCallback | .callback _, some .inCallback
  | .parse, some (.ended _) | .clone, some (.ended _) | .fromJson, some (.ended _)
  | .callback _, some (.ended _) | .finish _, some (.ended _) => isFalse id

instance [DecidableEq T] : ∀ (a : Label T) (s : State T), Decidable (Ready a s)
  | .subscribe .., _ => inferInstanceAs (Decidable (_ ∧ _ ∧ _))
  | .channel (.call _ (.subscribe ..)), _ | .channel (.consumer _ (.copy ..)), _ => isFalse id
  | .channel (.consumer w (.handOver ..)), s =>
    inferInstanceAs (Decidable (s.pool.producers w = .idle))
  | .channel (.call _ (.unsubscribe _)), _ | .channel (.call _ (.publish ..)), _
  | .channel (.call _ (.storage _)), _ | .channel (.act ..), _ | .channel (.ret ..), _
  | .channel (.publish ..), _ | .channel (.consumer _ .testRunning), _
  | .channel (.consumer _ .lockInstance), _ | .channel (.consumer _ .lockRedis), _
  | .channel (.consumer _ .unlockInstance), _ | .channel (.consumer _ (.receive _)), _
  | .channel (.consumer _ .timeout), _ | .channel (.consumer _ .fail), _
  | .channel (.consumer _ .storeRunning), _ | .channel (.consumer _ (.lockCallbacks _)), _
  | .channel (.consumer _ (.find _)), _ | .channel (.consumer _ .unlockCallbacks), _
  | .channel (.consumer _ .unlockRedis), _ | .dispatch .., _ => isTrue trivial
  | .pool (.producer _ (.call _)), _ => isFalse id
  | .pool (.worker _ (.complete ..)), _ => inferInstanceAs (Decidable (_ = true))
  | .pool (.producer _ (.lock _)), _ | .pool (.producer _ (.push _)), _
  | .pool (.producer _ .unlock), _ | .pool (.producer _ (.notify _)), _ | .pool (.manager _), _
  | .pool (.destructor _), _ | .pool (.setScaleUp _), _ | .pool (.setScaleDown _), _
  | .pool (.worker _ .lock), _ | .pool (.worker _ .testQueue), _
  | .pool (.worker _ .testRunning), _ | .pool (.worker _ .testKill), _
  | .pool (.worker _ .block), _ | .pool (.worker _ .wake), _ | .pool (.worker _ .relock), _
  | .pool (.worker _ .loadKill), _ | .pool (.worker _ (.casKill ..)), _
  | .pool (.worker _ .exitRunning), _ | .pool (.worker _ .exitQueue), _
  | .pool (.worker _ .finish), _ | .pool (.worker _ .leave), _ | .pool (.worker _ (.pop _)), _
  | .pool (.worker _ .seeEmpty), _ | .pool (.worker _ (.unlock _)), _
  | .pool (.worker _ (.invoke _)), _ | .pool (.worker _ .skip), _ => isTrue trivial
  | .task .., _ => inferInstanceAs (Decidable (_ ∧ _))
  | .create _, _ => isTrue trivial
  | .write .., _ => inferInstanceAs (Decidable (_ = _))
  | .destroy m, s => inferInstanceAs (Decidable (m ∉ s.destroyed))

instance {lib : JsonLibrary} {cls : StateObj T} [DecidableEq T] (a : Label T) (s : State T) :
    Decidable ((system lib cls).Enabled a s) :=
  inferInstanceAs (Decidable (_ ∧ _ ∧ _))

/-! ## The channel and the pool along a run -/

/-- The labels of the channel. -/
def channelPart (tr : List (Label T)) : List (RedisChannel.Label Wrapped) :=
  tr.filterMap Label.channel?

/-- The labels of the pool. -/
def poolPart (tr : List (Label T)) : List (ThreadPool.Label Wrapped) := tr.filterMap Label.pool?

section Parts

variable {lib : JsonLibrary} {cls : StateObj T} {up down : UInt32 → UInt32 → Bool}
  {tr : List (Label T)} {s₀ s : State T}

theorem channelPart_run (h : (system lib cls).Run s₀ tr s) :
    RedisChannel.channel.Run s₀.channel (channelPart tr) s.channel := by
  have hstep : ∀ a (s : State T), (system lib cls).Enabled a s →
      RedisChannel.channel.EnabledOn a.channel? s.channel ∧
        ((system lib cls).next a s).channel = RedisChannel.channel.nextOn a.channel? s.channel :=
    fun _ _ ha => ⟨ha.1, rfl⟩
  exact h.component hstep

theorem channel_run (h : (system lib cls).Run (initial T up down) tr s) :
    RedisChannel.channel.Run RedisChannel.initial (channelPart tr) s.channel :=
  channelPart_run h

theorem pool_run (h : (system lib cls).Run (initial T up down) tr s) :
    (ThreadPool.pool Wrapped).Run (ThreadPool.initial up down) (poolPart tr) s.pool := by
  have hstep : ∀ a (s : State T), (system lib cls).Enabled a s →
      (ThreadPool.pool Wrapped).EnabledOn a.pool? s.pool ∧
        ((system lib cls).next a s).pool = (ThreadPool.pool Wrapped).nextOn a.pool? s.pool :=
    fun _ _ ha => ⟨ha.2.1, rfl⟩
  exact h.component hstep

end Parts

end Subscription
