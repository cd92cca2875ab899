/-
# The storage

`src/client/RedisStorage.cpp`: each operation is a program that asks
`RedisClient::getClient` for the client object and issues Redis commands through
it.  A command that throws is answered by `none` and caught by the operation as
in the source; logging is left out.  `storage` runs the operations of any number
of clients against one server: a command is one step, and its label says whether
it threw, and if so whether it took effect before it did.
-/
import RedisStateManager.TransitionSystem
import RedisStateManager.Program
import RedisStateManager.RedisServer

namespace RedisStorage

open Redis

/-! ## The operations -/

/-- What an operation issues; `redis` is the client object it holds a reference to. -/
inductive Action
  | getClient
  | command (redis : ℕ) (c : Command)
  deriving DecidableEq, Repr

/-- `getClient` answers with a client object, a command with a reply. -/
def Answer : Action → Type
  | .getClient => ℕ
  | .command _ _ => Reply

abbrev Procedure := Program Action Answer

/-- `RedisClient::getClient`. -/
def getClient : Procedure ℕ := .act .getClient fun redis => .ret redis

/-- `redis.setnx`; `none` if it throws. -/
def setnx (redis : ℕ) (key value : Bytes) : Procedure (Option Bool) :=
  .act (.command redis (.setnx key value)) fun
    | .integer n => .ret (some (n ≠ 0))
    | _ => .ret none

/-- `redis.set`. -/
def set (redis : ℕ) (key value : Bytes) : Procedure (Option Unit) :=
  .act (.command redis (.set key value)) fun
    | .status => .ret (some ())
    | _ => .ret none

/-- `redis.get`. -/
def get (redis : ℕ) (key : Bytes) : Procedure (Option (Option Bytes)) :=
  .act (.command redis (.get key)) fun
    | .bulk value => .ret (some value)
    | _ => .ret none

/-- `redis.del`: the number of keys deleted. -/
def del (redis : ℕ) (key : Bytes) : Procedure (Option ℕ) :=
  .act (.command redis (.del key)) fun
    | .integer n => .ret (some n)
    | _ => .ret none

/-- `redis.exists`. -/
def keyExists (redis : ℕ) (key : Bytes) : Procedure (Option Bool) :=
  .act (.command redis (.keyExists key)) fun
    | .integer n => .ret (some (n ≠ 0))
    | _ => .ret none

def lockPrefix : Bytes := ascii ['l', 'o', 'c', 'k', ':']

/-- `"lock:" + key`. -/
def lockKey (key : Bytes) : Bytes := lockPrefix ++ key

def locked : Bytes := ascii ['l', 'o', 'c', 'k', 'e', 'd']

def tryLock (key : Bytes) : Procedure Bool := do
  let redis ← getClient
  match ← setnx redis (lockKey key) locked with
  | some acquired => return acquired
  | none => return false

/-- A `DEL` that throws is logged and forgotten. -/
def unlock (key : Bytes) : Procedure Unit := do
  let redis ← getClient
  let _ ← del redis (lockKey key)
  return ()

def isLocked (key : Bytes) : Procedure Bool := do
  let redis ← getClient
  match ← keyExists redis (lockKey key) with
  | some found => return found
  | none => return false

/-- The body of `write` and `update`, which differ in their log messages only. -/
def setUnderLock (key value : Bytes) : Procedure Bool := do
  if !(← tryLock key) then return false
  let redis ← getClient
  match ← set redis key value with
  | some _ =>
    unlock key
    return true
  | none =>
    unlock key
    return false

def write (key value : Bytes) : Procedure Bool := setUnderLock key value

def read (key : Bytes) : Procedure Bytes := do
  let redis ← getClient
  match ← get redis key with
  | some (some value) => return value
  | some none => return []
  | none => return []

def erase (key : Bytes) : Procedure Bool := do
  if !(← tryLock key) then return false
  let redis ← getClient
  match ← del redis key with
  | some deleted =>
    unlock key
    if deleted > 0 then return true else return false
  | none =>
    unlock key
    return false

def update (key newValue : Bytes) : Procedure Bool := setUnderLock key newValue

/-! ## Calls -/

inductive Operation
  | write (key value : Bytes)
  | erase (key : Bytes)
  | update (key newValue : Bytes)
  | read (key : Bytes)
  | tryLock (key : Bytes)
  | unlock (key : Bytes)
  | isLocked (key : Bytes)
  deriving DecidableEq, Repr

inductive Result
  | bool (b : Bool)
  | text (value : Bytes)
  | unit
  deriving DecidableEq, Repr

namespace Operation

def key : Operation → Bytes
  | write k _ | erase k | update k _ | read k | tryLock k | unlock k | isLocked k => k

def procedure : Operation → Procedure Result
  | write k v => Result.bool <$> RedisStorage.write k v
  | erase k => Result.bool <$> RedisStorage.erase k
  | update k v => Result.bool <$> RedisStorage.update k v
  | read k => Result.text <$> RedisStorage.read k
  | tryLock k => Result.bool <$> RedisStorage.tryLock k
  | unlock k => (fun _ => Result.unit) <$> RedisStorage.unlock k
  | isLocked k => Result.bool <$> RedisStorage.isLocked k

end Operation

/-- A call in progress.  `exchanges` are the commands it has issued so far, with
their replies; no step reads them. -/
structure Call where
  operation : Operation
  exchanges : List (Command × Reply)
  rest : Procedure Result

/-! ## Clients and server -/

/-- The server's store, the object `*redis_` of `RedisClient`, numbered by the
connections made so far, and the call each client has in progress. -/
structure State where
  store : Store
  redis : ℕ
  clients : ℕ → Option Call

def initial (store : Store) : State where
  store := store
  redis := 0
  clients := fun _ => none

inductive Label
  | call (i : ℕ) (op : Operation)
  /-- `getClient` finds the connection alive, or makes a new one. -/
  | getClient (i : ℕ) (reconnected : Bool)
  /-- a command with its reply; `took` says whether it took effect -/
  | command (i redis : ℕ) (c : Command) (r : Reply) (took : Bool)
  | ret (i : ℕ) (op : Operation) (r : Result)
  /-- `RedisClient::setConfig` -/
  | setConfig
  deriving DecidableEq, Repr

/-- The action client `i` is about to issue. -/
def State.head? (s : State) (i : ℕ) : Option Action :=
  (s.clients i).bind (·.rest.head?)

/-- The operation and result of client `i`, if its call has come to its end. -/
def State.result? (s : State) (i : ℕ) : Option (Operation × Result) :=
  (s.clients i).bind fun call => call.rest.result?.map (call.operation, ·)

/-- The answer to an action, given the current client object and the server's reply. -/
def answer (redis : ℕ) (r : Reply) : ∀ a, Answer a
  | .getClient => redis
  | .command _ _ => r

def Enabled : Label → State → Prop
  | .call i _, s => s.clients i = none
  | .getClient i _, s => s.head? i = some .getClient
  | .command i redis c r took, s =>
    s.head? i = some (.command redis c) ∧ (r = .error ∨ r = c.reply s.store ∧ took = true)
  | .ret i op r, s => s.result? i = some (op, r)
  | .setConfig, _ => True

def State.setClient (s : State) (i : ℕ) (call : Option Call) : State :=
  { s with clients := Function.update s.clients i call }

def next : Label → State → State
  | .call i op, s => s.setClient i (some ⟨op, [], op.procedure⟩)
  | .getClient i reconnected, s =>
    let redis := if reconnected then s.redis + 1 else s.redis
    let clients := (s.clients i).map fun call =>
      { call with rest := call.rest.step (answer redis .error) }
    { s.setClient i clients with redis := redis }
  | .command i _ c r took, s =>
    let clients := (s.clients i).map fun call =>
      { call with
        exchanges := call.exchanges ++ [(c, r)]
        rest := call.rest.step (answer s.redis r) }
    { s.setClient i clients with store := if took then c.effect s.store else s.store }
  | .ret i _ _, s => s.setClient i none
  | .setConfig, s => { s with redis := s.redis + 1 }

/-- Any number of clients of one server. -/
def storage : TransitionSystem State Label where
  Enabled := Enabled
  next := next

instance : ∀ (a : Label) (s : State), Decidable (storage.Enabled a s)
  | .call i _, s =>
    decidable_of_iff ((s.clients i).isNone = true) Option.isNone_iff_eq_none
  | .getClient i _, s => inferInstanceAs (Decidable (s.head? i = _))
  | .command i _ c r took, s =>
    inferInstanceAs (Decidable (s.head? i = _ ∧ (r = .error ∨ r = c.reply s.store ∧ took = true)))
  | .ret i op r, s => inferInstanceAs (Decidable (s.result? i = some (op, r)))
  | .setConfig, _ => isTrue trivial

/-! ## What happens to one client -/

/-- The client a label moves. -/
def Label.client? : Label → Option ℕ
  | .call i _ | .getClient i _ | .command i _ _ _ _ | .ret i _ _ => some i
  | .setConfig => none

/-- The other clients' calls are left alone. -/
theorem clients_next_of_ne {a : Label} {j : ℕ} (h : a.client? ≠ some j) (s : State) :
    (next a s).clients j = s.clients j := by
  cases a with
  | setConfig => rfl
  | _ =>
    have hne : j ≠ _ := fun hj => h (congrArg some hj.symm)
    exact Function.update_of_ne hne _ _

/-- Only a command changes the store. -/
theorem store_next {a : Label} {s : State} :
    (next a s).store = s.store ∨ ∃ i g c r, a = .command i g c r true ∧
      (next a s).store = c.effect s.store := by
  cases a with
  | command i g c r took =>
    cases took with
    | true => exact Or.inr ⟨i, g, c, r, rfl, rfl⟩
    | false => exact Or.inl rfl
  | _ => exact Or.inl rfl

/-- A client about to issue an action has a call in progress. -/
theorem State.exists_call_of_head? {s : State} {i : ℕ} {a : Action} (h : s.head? i = some a) :
    ∃ call, s.clients i = some call ∧ call.rest.head? = some a :=
  Option.bind_eq_some_iff.mp h

/-- A client that can return has a call in progress that has ended. -/
theorem State.exists_call_of_result? {s : State} {i : ℕ} {op : Operation} {r : Result}
    (h : s.result? i = some (op, r)) :
    ∃ call, s.clients i = some call ∧ call.operation = op ∧ call.rest.result? = some r := by
  obtain ⟨call, hcall, hr⟩ := Option.bind_eq_some_iff.mp h
  obtain ⟨r', hr', heq⟩ := Option.map_eq_some_iff.mp hr
  obtain ⟨rfl, rfl⟩ := Prod.mk.inj heq
  exact ⟨call, hcall, rfl, hr'⟩

/-- **Where a call in progress comes from**: it was there, it has just begun, or
its program has been given an answer. -/
theorem call_next {a : Label} {s : State} (h : Enabled a s) {i : ℕ} {call : Call}
    (hcall : (next a s).clients i = some call) :
    (a.client? ≠ some i ∧ s.clients i = some call) ∨
    (∃ op, a = .call i op ∧ s.clients i = none ∧ call = ⟨op, [], op.procedure⟩) ∨
    (∃ call' reconnected redis, a = .getClient i reconnected ∧ s.clients i = some call' ∧
      call'.rest.head? = some .getClient ∧
      call = { call' with rest := call'.rest.step (answer redis .error) }) ∨
    (∃ call' redis c r took, a = .command i redis c r took ∧ s.clients i = some call' ∧
      call'.rest.head? = some (.command redis c) ∧
      call = { call' with
        exchanges := call'.exchanges ++ [(c, r)]
        rest := call'.rest.step (answer s.redis r) }) := by
  by_cases ha : a.client? = some i
  · right
    cases a with
    | call j op =>
      obtain rfl : j = i := Option.some.inj ha
      have hnew : (next (.call j op) s).clients j = some ⟨op, [], op.procedure⟩ :=
        Function.update_self ..
      exact Or.inl ⟨op, rfl, h, Option.some.inj (hcall.symm.trans hnew)⟩
    | getClient j reconnected =>
      obtain rfl : j = i := Option.some.inj ha
      obtain ⟨call', hcall', hhead⟩ := State.exists_call_of_head? h
      simp only [next, State.setClient, Function.update_self, hcall', Option.map_some,
        Option.some_inj] at hcall
      exact Or.inr (Or.inl ⟨call', reconnected, _, rfl, hcall', hhead, hcall.symm⟩)
    | command j g c r took =>
      obtain rfl : j = i := Option.some.inj ha
      obtain ⟨call', hcall', hhead⟩ := State.exists_call_of_head? h.1
      simp only [next, State.setClient, Function.update_self, hcall', Option.map_some,
        Option.some_inj] at hcall
      exact Or.inr (Or.inr ⟨call', g, c, r, took, rfl, hcall', hhead, hcall.symm⟩)
    | ret j op r =>
      obtain rfl : j = i := Option.some.inj ha
      have hnone : (next (.ret j op r) s).clients j = none := Function.update_self ..
      rw [hnone] at hcall
      exact absurd hcall (by simp)
    | setConfig => exact absurd ha (by simp [Label.client?])
  · rw [clients_next_of_ne ha] at hcall
    exact Or.inl ⟨ha, hcall⟩

/-- A client without a call had none, or has just returned. -/
theorem idle_next {a : Label} {s : State} (h : Enabled a s) {i : ℕ}
    (hidle : (next a s).clients i = none) :
    (a.client? ≠ some i ∧ s.clients i = none) ∨
      ∃ call r, a = .ret i call.operation r ∧ s.clients i = some call ∧
        call.rest.result? = some r := by
  by_cases ha : a.client? = some i
  · right
    cases a with
    | call j op =>
      obtain rfl : j = i := Option.some.inj ha
      have hnew : (next (.call j op) s).clients j = some ⟨op, [], op.procedure⟩ :=
        Function.update_self ..
      rw [hnew] at hidle
      exact absurd hidle (by simp)
    | getClient j reconnected =>
      obtain rfl : j = i := Option.some.inj ha
      obtain ⟨call, hcall, -⟩ := State.exists_call_of_head? h
      simp [next, State.setClient, hcall] at hidle
    | command j g c r took =>
      obtain rfl : j = i := Option.some.inj ha
      obtain ⟨call, hcall, -⟩ := State.exists_call_of_head? h.1
      simp [next, State.setClient, hcall] at hidle
    | ret j op r =>
      obtain rfl : j = i := Option.some.inj ha
      obtain ⟨call, hcall, rfl, hres⟩ := State.exists_call_of_result? h
      exact ⟨call, r, rfl, hcall, hres⟩
    | setConfig => exact absurd ha (by simp [Label.client?])
  · rw [clients_next_of_ne ha] at hidle
    exact Or.inl ⟨ha, hidle⟩

/-- A call in progress was in progress before, or has just begun. -/
theorem operation_next {a : Label} {s : State} (h : Enabled a s) {i : ℕ} {call : Call}
    (hcall : (next a s).clients i = some call) :
    (∃ call', s.clients i = some call' ∧ call'.operation = call.operation) ∨
      a = .call i call.operation := by
  rcases call_next h hcall with ⟨-, hcall'⟩ | ⟨op, rfl, -, rfl⟩ |
    ⟨call', rec, g, rfl, hcall', -, rfl⟩ | ⟨call', g, c, r, took, rfl, hcall', -, rfl⟩
  · exact Or.inl ⟨call, hcall', rfl⟩
  · exact Or.inr rfl
  · exact Or.inl ⟨call', hcall', rfl⟩
  · exact Or.inl ⟨call', hcall', rfl⟩

/-! ## Operations that run alone -/

/-- The server answers a command without failing. -/
def serve : (a : Action) → Store → Answer a × Store
  | .getClient, st => ((0 : ℕ), st)
  | .command _ c, st => (c.reply st, c.effect st)

theorem lockKey_ne (key : Bytes) : lockKey key ≠ key := by
  intro h
  have hlen := congrArg List.length h
  rw [lockKey, List.length_append, show lockPrefix.length = 5 from rfl] at hlen
  omega

theorem tryLock_run (key : Bytes) (st : Store) :
    (tryLock key).run serve st =
      if (st (lockKey key)).isSome then (false, st)
      else (true, Function.update st (lockKey key) (some locked)) := by
  by_cases h : (st (lockKey key)).isSome = true
  · rw [if_pos h]
    simp [tryLock, getClient, setnx, serve, Command.reply, Command.effect, h]
  · rw [if_neg h]
    simp [tryLock, getClient, setnx, serve, Command.reply, Command.effect, h]

theorem unlock_run (key : Bytes) (st : Store) :
    (unlock key).run serve st = ((), Function.update st (lockKey key) none) := by
  simp [unlock, getClient, del, serve, Command.effect, Command.reply]

/-- A `write` or `update` that runs alone stores the value if the lock is free. -/
theorem setUnderLock_run (key value : Bytes) (st : Store) :
    (setUnderLock key value).run serve st =
      if (st (lockKey key)).isSome then (false, st)
      else (true, Function.update st key (some value)) := by
  rw [setUnderLock, Program.run_bind, tryLock_run]
  by_cases h : (st (lockKey key)).isSome = true
  · rw [if_pos h, if_pos h]
    rfl
  · have hnone : st (lockKey key) = none := by simpa using h
    rw [if_neg h, if_neg h]
    simp only [Bool.not_true, Bool.false_eq_true, if_false, getClient, set, Program.act_bind,
      Program.ret_bind, Program.run_act, Program.run_bind, serve, Command.reply, Command.effect,
      unlock_run, Program.pure_eq, Program.run_ret]
    refine Prod.ext rfl ?_
    -- the lock key is back to what it was
    show Function.update _ _ _ = _
    rw [Function.update_comm (lockKey_ne key), Function.update_idem,
      Function.update_eq_self_iff, Function.update_of_ne (lockKey_ne key), hnone]

theorem read_run (key : Bytes) (st : Store) :
    (read key).run serve st = ((st key).getD [], st) := by
  cases h : st key <;> simp [read, getClient, get, serve, Command.reply, Command.effect, h]

theorem isLocked_run (key : Bytes) (st : Store) :
    (isLocked key).run serve st = ((st (lockKey key)).isSome, st) := by
  cases h : st (lockKey key) <;>
    simp [isLocked, getClient, keyExists, serve, Command.reply, Command.effect, h]

/-- An `erase` that runs alone deletes the entry if the lock is free. -/
theorem erase_run (key : Bytes) (st : Store) :
    (erase key).run serve st =
      if (st (lockKey key)).isSome then (false, st)
      else ((st key).isSome, Function.update st key none) := by
  rw [erase, Program.run_bind, tryLock_run]
  by_cases h : (st (lockKey key)).isSome = true
  · rw [if_pos h, if_pos h]
    rfl
  · have hnone : st (lockKey key) = none := by simpa using h
    have hdata : Function.update st (lockKey key) (some locked) key = st key :=
      Function.update_of_ne (lockKey_ne key).symm _ _
    -- the lock key is back to what it was
    have hback : Function.update (Function.update (Function.update st (lockKey key)
        (some locked)) key none) (lockKey key) none = Function.update st key none := by
      rw [Function.update_comm (lockKey_ne key), Function.update_idem,
        Function.update_eq_self_iff, Function.update_of_ne (lockKey_ne key), hnone]
    rw [if_neg h, if_neg h]
    cases hk : st key <;>
      simp [getClient, del, serve, Command.reply, Command.effect, unlock_run, hdata, hk, hback]

end RedisStorage
