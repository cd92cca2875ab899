/-
# The client

`src/client/RedisClient.cpp`: the singleton that owns the connection.  Its
functions are programs that issue one action for each access to a mutex, to
`instance_`, to `redis_` or to the server; whether the constructor of
`sw::redis::Redis`, a `PING` or a command throws is left open.  The `Redis`
objects are numbered as they are constructed, a new one takes the place of the
old one, and a reference is the number of the object it refers to.  The storage
operations of `RedisStorage` run over the client's `getClient` (`ofStorage`).
`lockClient`, which only the channel calls, is modelled there; logging and the
delays between two attempts to connect are left out.
-/
import RedisStateManager.Callers
import RedisStateManager.RedisStorage

namespace RedisClient

open Redis Program

/-! ## Configuration -/

/-- `include/client/RedisConfig.h`. -/
structure RedisConfig where
  host : Bytes := ascii ['l', 'o', 'c', 'a', 'l', 'h', 'o', 's', 't']
  port : Int := 6379
  password : Bytes := []
  database : Int := 0
  timeoutMs : Int := 1000
  deriving DecidableEq, Repr

/-- The fields of `sw::redis::ConnectionOptions` that the client sets. -/
structure ConnectionOptions where
  host : Bytes
  port : Int
  password : Bytes := []
  db : Int
  socketTimeout : Int
  deriving DecidableEq, Repr

def toConnectionOptions (config : RedisConfig) : ConnectionOptions :=
  let options : ConnectionOptions :=
    { host := config.host, port := config.port, db := config.database
      socketTimeout := config.timeoutMs }
  if config.password.isEmpty then options else { options with password := config.password }

/-! ## Actions -/

inductive Mutex
  | instanceMutex
  | redisMutex
  deriving DecidableEq, Repr

/-- What a call issues. -/
inductive Action
  | lock (m : Mutex)
  /-- the end of a `lock_guard` -/
  | unlock (m : Mutex)
  /-- `if (instance_ == nullptr) instance_ = shared_ptr<RedisClient>(new RedisClient())` -/
  | createInstance
  /-- `instance_->config_ = toConnectionOptions(config)` -/
  | storeConfig (config : RedisConfig)
  /-- `redis_ != nullptr` -/
  | testRedis
  | ping
  /-- `redis_ = make_unique<Redis>(config_)` -/
  | construct (attempt : ℕ)
  /-- `*instance_->redis_` -/
  | redis
  /-- a command of the storage on the object `redis` refers to -/
  | command (redis : ℕ) (c : Command)
  deriving DecidableEq, Repr

/-- The answer to an action; `false` means that the action threw. -/
@[reducible] def Answer : Action → Type
  | .testRedis | .ping | .construct _ => Bool
  | .redis => ℕ
  | .command .. => Reply
  | .lock _ | .unlock _ | .createInstance | .storeConfig _ => Unit

abbrev Procedure := Program Action Answer

def issue (a : Action) : Procedure (Answer a) := .act a .ret

/-! ## The functions of the client -/

def isConnected : Procedure Bool := do
  issue (.lock .redisMutex)
  if ← issue .testRedis then
    let alive ← issue .ping
    issue (.unlock .redisMutex)
    return alive
  else
    issue (.unlock .redisMutex)
    return false

/-- `max_retries`. -/
def maxRetries : ℕ := 5

/-- The loop of `connect` with `left` iterations left, up to the first that succeeds. -/
def attempts : ℕ → Procedure Unit
  | 0 => return ()
  | left + 1 => do
    if ← issue (.construct (maxRetries - left)) then return () else attempts left

def connect : Procedure Unit := do
  issue (.lock .redisMutex)
  attempts maxRetries
  issue (.unlock .redisMutex)

def setConfig (config : RedisConfig) : Procedure Unit := do
  issue (.lock .instanceMutex)
  issue .createInstance
  issue (.storeConfig config)
  connect
  issue (.unlock .instanceMutex)

def getClient : Procedure ℕ := do
  issue (.lock .instanceMutex)
  issue .createInstance
  if !(← isConnected) then connect
  -- a null pointer is logged, and dereferenced all the same
  let _ ← issue .testRedis
  let redis ← issue .redis
  issue (.unlock .instanceMutex)
  return redis

/-- An operation of the storage. -/
def ofStorage {α : Type} : RedisStorage.Procedure α → Procedure α
  | .ret x => .ret x
  | .act .getClient k => do
    let redis ← getClient
    ofStorage (k redis)
  | .act (.command redis c) k => .act (.command redis c) fun r => ofStorage (k r)

inductive Operation
  | setConfig (config : RedisConfig)
  | getClient
  | storage (op : RedisStorage.Operation)
  deriving DecidableEq, Repr

inductive Outcome
  | done
  | redis (redis : ℕ)
  | result (r : RedisStorage.Result)
  deriving DecidableEq, Repr

def Operation.procedure : Operation → Procedure Outcome
  | setConfig config => (fun _ => Outcome.done) <$> RedisClient.setConfig config
  | getClient => Outcome.redis <$> RedisClient.getClient
  | storage op => Outcome.result <$> ofStorage op.procedure

/-! ## The state -/

/-- A `sw::redis::Redis` object. -/
structure Client where
  generation : ℕ
  options : ConnectionOptions
  deriving DecidableEq, Repr

/-- A `RedisClient`: its `redis_` and `config_`. -/
structure Instance where
  redis : Option Client
  config : ConnectionOptions
  deriving DecidableEq, Repr

/-- What the threads share; `made` counts the `Redis` objects constructed so far. -/
structure Shared where
  instance_ : Option Instance
  owner : Mutex → Option ℕ
  made : ℕ

/-- The constructor of `RedisClient`. -/
def newInstance : Instance := ⟨none, toConnectionOptions {}⟩

namespace Shared

/-- `instance_->redis_`. -/
def redis? (s : Shared) : Option Client := s.instance_.bind (·.redis)

/-- `redis_` has been reassigned, and the object it owned destroyed. -/
def construct (s : Shared) : Shared :=
  { s with
    instance_ := s.instance_.map fun self => { self with redis := some ⟨s.made + 1, self.config⟩ }
    made := s.made + 1 }

end Shared

/-- How an action may turn out: a command is answered, the others are done or throw. -/
inductive Choice
  | ok
  | threw
  | reply (r : Reply)
  deriving DecidableEq, Repr

/-- When thread `i` can make an action, and how it may turn out.  An access through a
null pointer is undefined behaviour, after which the model has no step. -/
def Possible (_ : ℕ) (s : Shared) (choice : Choice) : Action → Prop
  | .lock m => choice = .ok ∧ s.owner m = none
  | .unlock _ | .createInstance => choice = .ok
  | .storeConfig _ | .testRedis => choice = .ok ∧ s.instance_.isSome = true
  | .ping => (choice = .ok ∨ choice = .threw) ∧ s.redis?.isSome = true
  | .construct _ => (choice = .ok ∨ choice = .threw) ∧ s.instance_.isSome = true
  | .redis => choice = .ok ∧ s.redis?.isSome = true
  | .command .. =>
    match choice with
    | .reply _ => True
    | .ok | .threw => False

/-- The answers of the shared state. -/
def answer (s : Shared) (choice : Choice) : ∀ a, Answer a
  | .testRedis => s.redis?.isSome
  | .ping | .construct _ => decide (choice ≠ .threw)
  | .redis => (s.redis?.map (·.generation)).getD 0
  | .command .. =>
    match choice with
    | .reply r => r
    | .ok | .threw => .error
  | .lock _ | .unlock _ | .createInstance | .storeConfig _ => ()

/-- What an action of thread `i` does to the shared state. -/
def perform (i : ℕ) (s : Shared) (choice : Choice) : Action → Shared
  | .lock m => { s with owner := Function.update s.owner m (some i) }
  | .unlock m => { s with owner := Function.update s.owner m none }
  | .createInstance => { s with instance_ := some (s.instance_.getD newInstance) }
  | .storeConfig config =>
    { s with
      instance_ := s.instance_.map fun self =>
        { self with config := toConnectionOptions config } }
  | .construct _ => if choice = .threw then s else s.construct
  | .testRedis | .ping | .redis | .command .. => s

@[simp] theorem owner_construct (i : ℕ) (s : Shared) (choice : Choice) (attempt : ℕ) :
    (perform i s choice (.construct attempt)).owner = s.owner := by
  show (if choice = .threw then s else s.construct).owner = s.owner
  split <;> rfl

/-- Any number of threads configure the client, obtain it and use the storage. -/
def clients : Service Action Answer Shared Choice Operation Outcome where
  procedure := Operation.procedure
  Possible := Possible
  answer := answer
  perform := perform

abbrev State := clients.State

abbrev Label := clients.Label

def initial : State := clients.start ⟨none, fun _ => none, 0⟩

instance (i : ℕ) (s : Shared) (choice : Choice) : ∀ a, Decidable (clients.Possible i s choice a)
  | .lock m => inferInstanceAs (Decidable (choice = .ok ∧ s.owner m = none))
  | .unlock _ | .createInstance => inferInstanceAs (Decidable (choice = .ok))
  | .storeConfig _ | .testRedis =>
    inferInstanceAs (Decidable (choice = .ok ∧ s.instance_.isSome = true))
  | .ping =>
    inferInstanceAs (Decidable ((choice = .ok ∨ choice = .threw) ∧ s.redis?.isSome = true))
  | .construct _ =>
    inferInstanceAs (Decidable ((choice = .ok ∨ choice = .threw) ∧ s.instance_.isSome = true))
  | .redis => inferInstanceAs (Decidable (choice = .ok ∧ s.redis?.isSome = true))
  | .command .. =>
    match choice with
    | .reply _ => isTrue trivial
    | .ok | .threw => isFalse id

end RedisClient
