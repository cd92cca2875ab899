/-
# The channel

`src/client/RedisChannel.cpp`, with `getClient` and `lockClient` of
`src/client/RedisClient.cpp`: the API calls are programs that issue one action
for each access to a mutex, an atomic flag, the callback map, the subscriber or
the server; the consumer thread is a control table.  A command that throws is
answered by `false`, and the locks that unwinding releases are released one by
one as on the normal path; logging is left out.  `channel` runs any number of
callers and consumer threads together.
-/
import Mathlib.Data.List.AList
import Mathlib.Data.Finset.Basic
import RedisStateManager.RedisStorage

namespace RedisChannel

open Redis

variable {Callback : Type}

/-! ## Mutexes, threads and actions -/

/-- `callbacks_mutex_` of the channel, `instance_mutex_` and `redis_mutex_` of the client. -/
inductive Mutex
  | callbacksMutex
  | instanceMutex
  | redisMutex
  deriving DecidableEq, Repr

inductive Thread
  | caller (i : ℕ)
  | consumer (w : ℕ)
  deriving DecidableEq, Repr

/-- What a call issues. -/
inductive Action (Callback : Type)
  | lock (m : Mutex)
  | unlock (m : Mutex)
  /-- `running_.load()` -/
  | loadRunning
  | storeRunning (b : Bool)
  /-- `running_.compare_exchange_strong(expected, true)` with `expected == false` -/
  | compareExchange
  /-- `callbacks_[channel] = callback` -/
  | setCallback (channel : Bytes) (callback : Callback)
  /-- `callbacks_.find(channel) != callbacks_.end()` -/
  | findCallback (channel : Bytes)
  | eraseCallback (channel : Bytes)
  | clearCallbacks
  | callbacksEmpty
  /-- the keys of `callbacks_`, in the order in which a loop visits them -/
  | callbackKeys
  | ping
  /-- the retry loop of `connect` -/
  | connect
  /-- `*instance_->redis_` -/
  | redis
  /-- `subscriber_ = make_unique<Subscriber>(client.subscriber())` -/
  | createSubscriber (client : ℕ)
  /-- the registration of the consumer's callback; nothing is subscribed before it -/
  | onMessage
  | resetSubscriber
  | subscribe (channel : Bytes)
  | unsubscribe (channel : Bytes)
  | publish (redis : ℕ) (channel message : Bytes)
  /-- `subscriptionThread_ && subscriptionThread_->joinable()` -/
  | joinable
  /-- `subscriptionThread_->join()` and `subscriptionThread_.reset()` -/
  | join
  /-- `subscriptionThread_ = make_unique<thread>(..)` -/
  | startThread
  /-- a command of the storage -/
  | storage (redis : ℕ) (c : Command)
  deriving DecidableEq, Repr

/-- The answer to an action; for a command, `false` means that it threw. -/
@[reducible] def Answer : Action Callback → Type
  | .loadRunning | .compareExchange | .findCallback _ | .callbacksEmpty | .joinable => Bool
  | .ping | .createSubscriber _ | .onMessage | .subscribe _ | .unsubscribe _ | .publish .. => Bool
  | .callbackKeys => List Bytes
  | .redis => ℕ
  | .storage .. => Reply
  | _ => Unit

abbrev Procedure (Callback : Type) := Program (Action Callback) Answer

/-- An action as a program. -/
def issue (a : Action Callback) : Procedure Callback (Answer a) := .act a .ret

/-! ## `RedisClient` -/

def isConnected : Procedure Callback Bool := do
  issue (.lock .redisMutex)
  let alive ← issue .ping
  issue (.unlock .redisMutex)
  return alive

def connect : Procedure Callback Unit := do
  issue (.lock .redisMutex)
  issue .connect
  issue (.unlock .redisMutex)

def getClient : Procedure Callback ℕ := do
  issue (.lock .instanceMutex)
  if !(← isConnected) then connect
  let redis ← issue .redis
  issue (.unlock .instanceMutex)
  return redis

def lockClient : Procedure Callback Unit := do
  issue (.lock .instanceMutex)
  issue (.lock .redisMutex)
  issue (.unlock .instanceMutex)

/-- A command between `lockClient` and the end of `redisLock`, which is released
whether or not the command throws. -/
def underLock (command : Procedure Callback Bool) : Procedure Callback Bool := do
  lockClient
  let ok ← command
  issue (.unlock .redisMutex)
  return ok

/-! ## `RedisChannel` -/

/-- The body of a loop over `callbacks_`, up to the first command that throws. -/
def forEach (command : Bytes → Procedure Callback Bool) : List Bytes → Procedure Callback Bool
  | [] => return true
  | key :: keys => do
    if ← underLock (command key) then forEach command keys else return false

def startConsumeThread : Procedure Callback Unit := do
  if ← issue .joinable then issue .join
  issue (.storeRunning true)
  issue .startThread

/-- The end of `initializeSubscriber`: `none` is an exception that escapes, for
the loop stands outside the `try` blocks. -/
def subscribeAll : Procedure Callback (Option Bool) := do
  issue (.lock .callbacksMutex)
  let subscribed ← forEach (fun key => issue (.subscribe key)) (← issue .callbackKeys)
  issue (.unlock .callbacksMutex)
  if subscribed then
    startConsumeThread
    return some true
  else return none

def initializeSubscriber : Procedure Callback (Option Bool) := do
  let client ← getClient
  if ← underLock (issue (.createSubscriber client)) then
    if ← underLock (issue .onMessage) then subscribeAll
    else
      issue .resetSubscriber
      return some false
  else return some false

/-- What a call ends with. -/
inductive Outcome
  | returned (r : RedisStorage.Result)
  | threw
  deriving DecidableEq, Repr

/-- The end of a `void` function. -/
abbrev done : Outcome := .returned .unit

/-- `!running_.load() && running_.compare_exchange_strong(expected, true)`. -/
def claimRunning : Procedure Callback Bool := do
  if ← issue .loadRunning then return false else issue .compareExchange

/-- The branch of `subscribe` for a channel that is running. -/
def subscribeRunning (channel : Bytes) : Procedure Callback Outcome := do
  if ← issue .loadRunning then
    if ← underLock (issue (.subscribe channel)) then return done
    else
      issue (.storeRunning false)
      return done
  else return done

def subscribe (channel : Bytes) (callback : Callback) : Procedure Callback Outcome := do
  issue (.lock .callbacksMutex)
  issue (.setCallback channel callback)
  issue (.unlock .callbacksMutex)
  if ← claimRunning then
    match ← initializeSubscriber with
    | some true => return done
    | some false =>
      issue (.storeRunning false)
      return done
    | none => return .threw
  else subscribeRunning channel

/-- The branch of `unsubscribe` for all channels; an exception of its loop is
caught and logged. -/
def unsubscribeAll : Procedure Callback Outcome := do
  issue (.storeRunning false)
  issue (.lock .callbacksMutex)
  let _ ← forEach (fun key => issue (.unsubscribe key)) (← issue .callbackKeys)
  issue (.unlock .callbacksMutex)
  issue .clearCallbacks
  return done

/-- `if (callbacks_.empty()) running_.store(false)`. -/
def stopIfEmpty : Procedure Callback Outcome := do
  if ← issue .callbacksEmpty then
    issue (.storeRunning false)
    return done
  else return done

/-- `UNSUBSCRIBE` if the channel is running; `false` if it throws. -/
def unsubscribeRunning (channel : Bytes) : Procedure Callback Bool := do
  if ← issue .loadRunning then underLock (issue (.unsubscribe channel)) else return true

/-- The branch of `unsubscribe` for one channel. -/
def unsubscribeOne (channel : Bytes) : Procedure Callback Outcome := do
  if ← issue (.findCallback channel) then
    if ← unsubscribeRunning channel then
      issue (.eraseCallback channel)
      stopIfEmpty
    else return .threw
  else stopIfEmpty

def unsubscribe (channel : Bytes) : Procedure Callback Outcome := do
  if channel.isEmpty then
    if ← issue .loadRunning then unsubscribeAll else unsubscribeOne channel
  else unsubscribeOne channel

def publish (channel message : Bytes) : Procedure Callback Outcome := do
  let redis ← getClient
  let ok ← underLock (issue (.publish redis channel message))
  return .returned (.bool ok)

/-- An operation of the storage, whose `getClient` takes the client's mutexes. -/
def ofStorage {α : Type} : RedisStorage.Procedure α → Procedure Callback α
  | .ret x => .ret x
  | .act .getClient k => do
    let redis ← getClient
    ofStorage (k redis)
  | .act (.command redis c) k => .act (.storage redis c) fun r => ofStorage (k r)

inductive Operation (Callback : Type)
  | subscribe (channel : Bytes) (callback : Callback)
  | unsubscribe (channel : Bytes)
  | publish (channel message : Bytes)
  | storage (op : RedisStorage.Operation)
  deriving DecidableEq, Repr

def Operation.procedure : Operation Callback → Procedure Callback Outcome
  | subscribe c cb => RedisChannel.subscribe c cb
  | unsubscribe c => RedisChannel.unsubscribe c
  | publish c m => RedisChannel.publish c m
  | storage op => Outcome.returned <$> ofStorage op.procedure

/-- An operation of the channel itself. -/
def Operation.isChannel : Operation Callback → Bool
  | storage _ => false
  | _ => true

/-! ## The state -/

/-- A published message; `id` numbers the publications. -/
structure Message where
  id : ℕ
  channel : Bytes
  payload : Bytes
  deriving DecidableEq, Repr

/-- A subscriber: the channels it has subscribed to, the messages its connection
has received and `consume` has not returned, and whether the connection broke. -/
structure Subscriber where
  channels : Finset Bytes
  buffer : List Message
  broken : Bool
  deriving DecidableEq

/-- The control points of the consumer thread; `on_message` runs inside `consume`. -/
inductive ConsumerPc (Callback : Type)
  | testRunning
  | lockInstance
  | lockRedis
  | unlockInstance
  | consume
  | lockCallbacks (m : Message)
  | find (m : Message)
  /-- `callbacks_.find` has found an entry, which `it->second` is about to read -/
  | copy (m : Message)
  | handOver (callback : Callback) (m : Message)
  | unlockCallbacks
  | unlockRedis
  /-- `consume` has thrown and its lock is released; `running_` is about to be cleared -/
  | failed
  | exited
  deriving DecidableEq, Repr

/-- What the threads share.  `consumers` lists every consumer thread ever
started, `subscriptionThread` the one that has not been joined; `redis` numbers
the connections of the client, `published` counts the publications and `tasks`
lists what was handed to the pool. -/
structure Shared (Callback : Type) where
  running : Bool
  callbacks : AList fun _ : Bytes => Callback
  subscriber : Option Subscriber
  subscriptionThread : Option ℕ
  consumers : List (ConsumerPc Callback)
  owner : Mutex → Option Thread
  redis : ℕ
  published : ℕ
  tasks : List (Callback × Message)

/-- A call in progress. -/
structure Call (Callback : Type) where
  operation : Operation Callback
  rest : Procedure Callback Outcome

structure State (Callback : Type) where
  shared : Shared Callback
  callers : ℕ → Option (Call Callback)

/-- The channel as its constructor leaves it. -/
def initial : State Callback where
  shared :=
    { running := false
      callbacks := ∅
      subscriber := none
      subscriptionThread := none
      consumers := []
      owner := fun _ => none
      redis := 0
      published := 0
      tasks := [] }
  callers := fun _ => none

namespace Subscriber

/-- The subscriber once `SUBSCRIBE channel` has been sent. -/
def subscribe (u : Subscriber) (channel : Bytes) : Subscriber :=
  { u with channels := insert channel u.channels }

def unsubscribe (u : Subscriber) (channel : Bytes) : Subscriber :=
  { u with channels := u.channels.erase channel }

/-- A connection receives the messages of the channels it is subscribed to. -/
def receive (u : Subscriber) (m : Message) : Subscriber :=
  if u.broken = false ∧ m.channel ∈ u.channels then { u with buffer := u.buffer ++ [m] } else u

end Subscriber

namespace Shared

def acquire (s : Shared Callback) (m : Mutex) (t : Thread) : Shared Callback :=
  { s with owner := Function.update s.owner m (some t) }

def release (s : Shared Callback) (m : Mutex) : Shared Callback :=
  { s with owner := Function.update s.owner m none }

/-- The keys of `callbacks_`. -/
def keys (s : Shared Callback) : Finset Bytes := s.callbacks.keys.toFinset

theorem mem_keys {s : Shared Callback} {c : Bytes} : c ∈ s.keys ↔ c ∈ s.callbacks := by
  rw [keys, List.mem_toFinset, AList.mem_keys]

/-- A publication at the server. -/
def publish (s : Shared Callback) (channel payload : Bytes) : Shared Callback :=
  { s with
    published := s.published + 1
    subscriber := s.subscriber.map (·.receive ⟨s.published, channel, payload⟩) }

/-- The connection of the subscriber broke. -/
def broken (s : Shared Callback) : Bool := s.subscriber.any (·.broken)

/-- The message that `consume` returns next. -/
def nextMessage (s : Shared Callback) : Option Message :=
  s.subscriber.bind fun u => if u.broken then none else u.buffer.head?

end Shared

/-! ## The consumer thread -/

inductive ConsumerAct (Callback : Type)
  | testRunning
  | lockInstance
  | lockRedis
  | unlockInstance
  /-- `consume` returns message `m` and calls the function given to `on_message` -/
  | receive (m : Message)
  /-- `consume` throws a `TimeoutError`, or returns on the reply to a (un)subscription -/
  | timeout
  /-- the connection breaks and `consume` throws, which releases `redis_mutex_` -/
  | fail
  /-- the handler of the error clears `running_`, and the thread ends -/
  | storeRunning
  | lockCallbacks (m : Message)
  /-- `callbacks_.find(chan)` -/
  | find (m : Message)
  /-- the copy of `it->second` -/
  | copy (callback : Callback) (m : Message)
  /-- `pool_.addTask` -/
  | handOver (callback : Callback) (m : Message)
  | unlockCallbacks
  | unlockRedis
  deriving DecidableEq, Repr

/-- The control table of consumer thread `w`.  Once its entry is erased, the
iterator of `on_message` dangles and reading it is undefined behaviour; nothing
is added under the key before the thread releases `callbacks_mutex_`. -/
def consumerMove (w : ℕ) (s : Shared Callback) :
    ConsumerAct Callback → Move (ConsumerPc Callback) (Shared Callback)
  | .testRunning => ⟨.testRunning, True, if s.running then .lockInstance else .exited, s⟩
  | .lockInstance =>
    ⟨.lockInstance, s.owner .instanceMutex = none, .lockRedis,
      s.acquire .instanceMutex (.consumer w)⟩
  | .lockRedis =>
    ⟨.lockRedis, s.owner .redisMutex = none, .unlockInstance, s.acquire .redisMutex (.consumer w)⟩
  | .unlockInstance =>
    ⟨.unlockInstance, s.owner .instanceMutex = some (.consumer w), .consume,
      s.release .instanceMutex⟩
  | .receive m =>
    ⟨.consume, s.nextMessage = some m, .lockCallbacks m,
      { s with subscriber := s.subscriber.map fun u => { u with buffer := u.buffer.tail } }⟩
  | .timeout => ⟨.consume, s.subscriber.isSome = true ∧ s.broken = false, .unlockRedis, s⟩
  | .fail =>
    ⟨.consume, s.subscriber.isSome = true ∧ s.owner .redisMutex = some (.consumer w), .failed,
      { s.release .redisMutex with
        subscriber := s.subscriber.map fun u => { u with broken := true } }⟩
  | .storeRunning => ⟨.failed, True, .exited, { s with running := false }⟩
  | .lockCallbacks m =>
    ⟨.lockCallbacks m, s.owner .callbacksMutex = none, .find m,
      s.acquire .callbacksMutex (.consumer w)⟩
  | .find m =>
    ⟨.find m, True, if (s.callbacks.lookup m.channel).isSome then .copy m else .unlockCallbacks, s⟩
  | .copy cb m => ⟨.copy m, s.callbacks.lookup m.channel = some cb, .handOver cb m, s⟩
  | .handOver cb m =>
    ⟨.handOver cb m, True, .unlockCallbacks, { s with tasks := s.tasks ++ [(cb, m)] }⟩
  | .unlockCallbacks =>
    ⟨.unlockCallbacks, s.owner .callbacksMutex = some (.consumer w), .unlockRedis,
      s.release .callbacksMutex⟩
  | .unlockRedis =>
    ⟨.unlockRedis, s.owner .redisMutex = some (.consumer w), .testRunning, s.release .redisMutex⟩

/-- A step of consumer thread `w`. -/
def Shared.consumer (s : Shared Callback) (w : ℕ) (a : ConsumerAct Callback) : Shared Callback :=
  { (consumerMove w s a).effect with consumers := s.consumers.set w (consumerMove w s a).target }

/-! ## The actions of a call -/

/-- What the program leaves open about an action: whether a command throws, the
order of a loop over `callbacks_`, and the reply to a storage command. -/
inductive Choice
  | ok
  | threw
  | order (keys : List Bytes)
  | reply (r : Reply)
  deriving DecidableEq, Repr

/-- When caller `i` can make an action, and how it may turn out.  A command
through a null `subscriber_` is undefined behaviour; one on a broken connection
throws. -/
def Possible (i : ℕ) (s : Shared Callback) (choice : Choice) : Action Callback → Prop
  | .lock m => choice = .ok ∧ s.owner m = none
  | .unlock m => choice = .ok ∧ s.owner m = some (.caller i)
  | .callbackKeys =>
    match choice with
    | .order keys => keys.Perm s.callbacks.keys
    | _ => False
  | .ping | .connect | .createSubscriber _ | .publish .. => choice = .ok ∨ choice = .threw
  | .onMessage => s.subscriber.isSome = true ∧ (choice = .ok ∨ choice = .threw)
  | .subscribe _ | .unsubscribe _ =>
    s.subscriber.isSome = true ∧ (choice = .ok ∧ s.broken = false ∨ choice = .threw)
  | .join =>
    choice = .ok ∧ s.subscriptionThread.bind (s.consumers[·]?) = some .exited
  | .startThread => choice = .ok ∧ s.subscriptionThread = none
  | .storage .. =>
    match choice with
    | .reply _ => True
    | _ => False
  | _ => choice = .ok

/-- The answers of the shared state. -/
def answer (s : Shared Callback) (choice : Choice) : ∀ a : Action Callback, Answer a
  | .loadRunning => s.running
  | .compareExchange => !s.running
  | .findCallback c => (s.callbacks.lookup c).isSome
  | .callbacksEmpty => s.callbacks.keys.isEmpty
  | .joinable => s.subscriptionThread.isSome
  | .callbackKeys =>
    match choice with
    | .order keys => keys
    | _ => []
  | .redis => s.redis
  | .storage .. =>
    match choice with
    | .reply r => r
    | _ => .error
  | .ping | .createSubscriber _ | .onMessage | .subscribe _ | .unsubscribe _ | .publish .. =>
    decide (choice ≠ .threw)
  | .lock _ | .unlock _ | .storeRunning _ | .setCallback .. | .eraseCallback _
  | .clearCallbacks => ()
  | .connect | .resetSubscriber | .join | .startThread => ()

/-- What an action that does not throw does to the shared state. -/
def effect (i : ℕ) (s : Shared Callback) : Action Callback → Shared Callback
  | .lock m => s.acquire m (.caller i)
  | .unlock m => s.release m
  | .storeRunning b => { s with running := b }
  | .compareExchange => { s with running := true }
  | .setCallback c cb => { s with callbacks := s.callbacks.insert c cb }
  | .eraseCallback c => { s with callbacks := s.callbacks.erase c }
  | .clearCallbacks => { s with callbacks := ∅ }
  | .connect => { s with redis := s.redis + 1 }
  | .createSubscriber _ => { s with subscriber := some ⟨∅, [], false⟩ }
  | .resetSubscriber => { s with subscriber := none }
  | .subscribe c => { s with subscriber := s.subscriber.map (·.subscribe c) }
  | .unsubscribe c => { s with subscriber := s.subscriber.map (·.unsubscribe c) }
  | .publish _ c m => s.publish c m
  | .join => { s with subscriptionThread := none }
  | .startThread =>
    { s with
      consumers := s.consumers ++ [.testRunning]
      subscriptionThread := some s.consumers.length }
  | .loadRunning | .findCallback _ | .callbacksEmpty | .callbackKeys | .ping | .redis => s
  | .onMessage | .joinable | .storage .. => s

/-- An action of caller `i`; a command that throws has no effect. -/
def Shared.perform (s : Shared Callback) (i : ℕ) (a : Action Callback) (choice : Choice) :
    Shared Callback :=
  if choice = .threw then s else effect i s a

/-! ## Runs -/

inductive Label (Callback : Type)
  | call (i : ℕ) (op : Operation Callback)
  | act (i : ℕ) (a : Action Callback) (choice : Choice)
  | ret (i : ℕ) (op : Operation Callback) (outcome : Outcome)
  | consumer (w : ℕ) (a : ConsumerAct Callback)
  /-- somebody else publishes -/
  | publish (channel payload : Bytes)
  deriving DecidableEq, Repr

/-- The action caller `i` is about to issue. -/
def State.head? (s : State Callback) (i : ℕ) : Option (Action Callback) :=
  (s.callers i).bind (·.rest.head?)

/-- The operation and outcome of caller `i`, if its call has come to its end. -/
def State.result? (s : State Callback) (i : ℕ) : Option (Operation Callback × Outcome) :=
  (s.callers i).bind fun call => call.rest.result?.map (call.operation, ·)

def State.setCaller (s : State Callback) (i : ℕ) (call : Option (Call Callback)) :
    State Callback :=
  { s with callers := Function.update s.callers i call }

def Enabled : Label Callback → State Callback → Prop
  | .call i _, s => s.callers i = none
  | .act i a choice, s => s.head? i = some a ∧ Possible i s.shared choice a
  | .ret i op outcome, s => s.result? i = some (op, outcome)
  | .consumer w a, s =>
    s.shared.consumers[w]? = some (consumerMove w s.shared a).source ∧
      (consumerMove w s.shared a).guard
  | .publish _ _, _ => True

def next : Label Callback → State Callback → State Callback
  | .call i op, s => s.setCaller i (some ⟨op, op.procedure⟩)
  | .act i a choice, s =>
    { shared := s.shared.perform i a choice
      callers := Function.update s.callers i ((s.callers i).map fun call =>
        { call with rest := call.rest.step (answer s.shared choice) }) }
  | .ret i _ _, s => s.setCaller i none
  | .consumer w a, s => { s with shared := s.shared.consumer w a }
  | .publish c payload, s => { s with shared := s.shared.publish c payload }

/-- Any number of callers, the consumer threads, and other publishers. -/
def channel : TransitionSystem (State Callback) (Label Callback) where
  Enabled := Enabled
  next := next

instance [DecidableEq Callback] (i : ℕ) (s : Shared Callback) (choice : Choice) :
    ∀ a, Decidable (Possible i s choice a)
  | .lock m => inferInstanceAs (Decidable (choice = .ok ∧ s.owner m = none))
  | .unlock m => inferInstanceAs (Decidable (choice = .ok ∧ s.owner m = some (.caller i)))
  | .callbackKeys =>
    match choice with
    | .order keys => inferInstanceAs (Decidable (keys.Perm s.callbacks.keys))
    | .ok | .threw | .reply _ => isFalse id
  | .ping | .connect | .createSubscriber _ | .publish .. =>
    inferInstanceAs (Decidable (choice = .ok ∨ choice = .threw))
  | .onMessage =>
    inferInstanceAs (Decidable (s.subscriber.isSome = true ∧ (choice = .ok ∨ choice = .threw)))
  | .subscribe _ | .unsubscribe _ =>
    inferInstanceAs (Decidable (s.subscriber.isSome = true ∧
      (choice = .ok ∧ s.broken = false ∨ choice = .threw)))
  | .join =>
    inferInstanceAs (Decidable (choice = .ok ∧
      s.subscriptionThread.bind (s.consumers[·]?) = some .exited))
  | .startThread => inferInstanceAs (Decidable (choice = .ok ∧ s.subscriptionThread = none))
  | .storage .. =>
    match choice with
    | .reply _ => isTrue trivial
    | .ok | .threw | .order _ => isFalse id
  | .loadRunning | .storeRunning _ | .compareExchange | .setCallback .. | .findCallback _
  | .eraseCallback _ | .clearCallbacks | .callbacksEmpty | .redis | .resetSubscriber
  | .joinable => inferInstanceAs (Decidable (choice = .ok))

instance [DecidableEq Callback] (w : ℕ) (s : Shared Callback) :
    ∀ a, Decidable (consumerMove w s a).guard
  | .testRunning | .storeRunning | .find _ | .handOver .. => inferInstanceAs (Decidable True)
  | .copy cb m => inferInstanceAs (Decidable (s.callbacks.lookup m.channel = some cb))
  | .lockInstance => inferInstanceAs (Decidable (s.owner .instanceMutex = none))
  | .lockRedis => inferInstanceAs (Decidable (s.owner .redisMutex = none))
  | .unlockInstance => inferInstanceAs (Decidable (s.owner .instanceMutex = some (.consumer w)))
  | .receive m => inferInstanceAs (Decidable (s.nextMessage = some m))
  | .timeout => inferInstanceAs (Decidable (s.subscriber.isSome = true ∧ s.broken = false))
  | .fail =>
    inferInstanceAs (Decidable (s.subscriber.isSome = true ∧
      s.owner .redisMutex = some (.consumer w)))
  | .lockCallbacks _ => inferInstanceAs (Decidable (s.owner .callbacksMutex = none))
  | .unlockCallbacks => inferInstanceAs (Decidable (s.owner .callbacksMutex = some (.consumer w)))
  | .unlockRedis => inferInstanceAs (Decidable (s.owner .redisMutex = some (.consumer w)))

instance [DecidableEq Callback] :
    ∀ (a : Label Callback) (s : State Callback), Decidable (channel.Enabled a s)
  | .call i _, s =>
    decidable_of_iff ((s.callers i).isNone = true) Option.isNone_iff_eq_none
  | .act i a choice, s =>
    inferInstanceAs (Decidable (s.head? i = some a ∧ Possible i s.shared choice a))
  | .ret i op outcome, s => inferInstanceAs (Decidable (s.result? i = some (op, outcome)))
  | .consumer w a, s =>
    inferInstanceAs (Decidable (s.shared.consumers[w]? = some (consumerMove w s.shared a).source ∧
      (consumerMove w s.shared a).guard))
  | .publish _ _, _ => isTrue trivial

/-! ## What happens to one caller -/

/-- The caller a label moves. -/
def Label.caller? : Label Callback → Option ℕ
  | .call i _ | .act i _ _ | .ret i _ _ => some i
  | .consumer _ _ | .publish _ _ => none

/-- The other callers' calls are left alone. -/
theorem callers_next_of_ne {a : Label Callback} {j : ℕ} (h : a.caller? ≠ some j)
    (s : State Callback) : (next a s).callers j = s.callers j := by
  cases a with
  | consumer w c => rfl
  | publish c payload => rfl
  | _ =>
    have hne : j ≠ _ := fun hj => h (congrArg some hj.symm)
    exact Function.update_of_ne hne _ _

/-- An action gives its answer to the program of its call. -/
theorem callers_act {s : State Callback} {i : ℕ} {call : Call Callback}
    (h : s.callers i = some call) (b : Action Callback) (choice : Choice) :
    (next (.act i b choice) s).callers i =
      some { call with rest := call.rest.step (answer s.shared choice) } := by
  show Function.update s.callers i _ i = _
  rw [Function.update_self, h]
  rfl

/-- A caller that a run does not move has no call in progress. -/
theorem callers_of_run {tr : List (Label Callback)} {s : State Callback}
    (h : channel.Run initial tr s) {j : ℕ} (hj : ∀ a ∈ tr, a.caller? ≠ some j) :
    s.callers j = none := by
  induction h with
  | nil => rfl
  | snoc _ _ ih =>
    rw [← ih fun a ha => hj a (List.mem_append_left _ ha)]
    exact callers_next_of_ne (hj _ (List.mem_append_right _ (List.mem_singleton_self _))) _

theorem State.exists_call_of_head? {s : State Callback} {i : ℕ} {a : Action Callback}
    (h : s.head? i = some a) : ∃ call, s.callers i = some call ∧ call.rest.head? = some a :=
  Option.bind_eq_some_iff.mp h

theorem State.exists_call_of_result? {s : State Callback} {i : ℕ} {op : Operation Callback}
    {outcome : Outcome} (h : s.result? i = some (op, outcome)) :
    ∃ call, s.callers i = some call ∧ call.operation = op ∧ call.rest.result? = some outcome := by
  obtain ⟨call, hcall, hr⟩ := Option.bind_eq_some_iff.mp h
  obtain ⟨r, hr', heq⟩ := Option.map_eq_some_iff.mp hr
  obtain ⟨rfl, rfl⟩ := Prod.mk.inj heq
  exact ⟨call, hcall, rfl, hr'⟩

/-- **Where a call in progress comes from**: it was there, it has just begun, or
its program has been given an answer. -/
theorem call_next {a : Label Callback} {s : State Callback} (h : Enabled a s) {i : ℕ}
    {call : Call Callback} (hcall : (next a s).callers i = some call) :
    (a.caller? ≠ some i ∧ s.callers i = some call) ∨
    (∃ op, a = .call i op ∧ s.callers i = none ∧ call = ⟨op, op.procedure⟩) ∨
    (∃ call' b choice, a = .act i b choice ∧ s.callers i = some call' ∧
      call'.rest.head? = some b ∧ Possible i s.shared choice b ∧
      call = { call' with rest := call'.rest.step (answer s.shared choice) }) := by
  by_cases ha : a.caller? = some i
  · right
    cases a with
    | call j op =>
      obtain rfl : j = i := Option.some.inj ha
      have hnew : (next (.call j op) s).callers j = some ⟨op, op.procedure⟩ :=
        Function.update_self ..
      exact Or.inl ⟨op, rfl, h, Option.some.inj (hcall.symm.trans hnew)⟩
    | act j b choice =>
      obtain rfl : j = i := Option.some.inj ha
      obtain ⟨call', hcall', hhead⟩ := State.exists_call_of_head? h.1
      simp only [next, Function.update_self, hcall', Option.map_some, Option.some_inj] at hcall
      exact Or.inr ⟨call', b, choice, rfl, hcall', hhead, h.2, hcall.symm⟩
    | ret j op outcome =>
      obtain rfl : j = i := Option.some.inj ha
      have hnone : (next (.ret j op outcome) s).callers j = none := Function.update_self ..
      rw [hnone] at hcall
      exact absurd hcall (by simp)
    | consumer w c => exact absurd ha (by simp [Label.caller?])
    | publish c payload => exact absurd ha (by simp [Label.caller?])
  · rw [callers_next_of_ne ha] at hcall
    exact Or.inl ⟨ha, hcall⟩

/-- A caller without a call had none, or has just returned. -/
theorem idle_next {a : Label Callback} {s : State Callback} (h : Enabled a s) {i : ℕ}
    (hidle : (next a s).callers i = none) :
    (a.caller? ≠ some i ∧ s.callers i = none) ∨
      ∃ call outcome, a = .ret i call.operation outcome ∧ s.callers i = some call ∧
        call.rest.result? = some outcome := by
  by_cases ha : a.caller? = some i
  · right
    cases a with
    | call j op =>
      obtain rfl : j = i := Option.some.inj ha
      have hnew : (next (.call j op) s).callers j = some ⟨op, op.procedure⟩ :=
        Function.update_self ..
      rw [hnew] at hidle
      exact absurd hidle (by simp)
    | act j b choice =>
      obtain rfl : j = i := Option.some.inj ha
      obtain ⟨call, hcall, -⟩ := State.exists_call_of_head? h.1
      simp [next, hcall] at hidle
    | ret j op outcome =>
      obtain rfl : j = i := Option.some.inj ha
      obtain ⟨call, hcall, rfl, hres⟩ := State.exists_call_of_result? h
      exact ⟨call, outcome, rfl, hcall, hres⟩
    | consumer w c => exact absurd ha (by simp [Label.caller?])
    | publish c payload => exact absurd ha (by simp [Label.caller?])
  · rw [callers_next_of_ne ha] at hidle
    exact Or.inl ⟨ha, hidle⟩

end RedisChannel
