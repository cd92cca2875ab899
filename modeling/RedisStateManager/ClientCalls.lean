/-
# The phases of a call to the client

`Phase` says where a call stands between `instance_mutex_`, the dereference of
`redis_` and the use of the reference, `Allowed` what it may issue there, and
`discipline` that the program of every operation keeps to it; for the storage
operations this rests on `references`: each command goes through the reference of
the `getClient` right before it.  `Locks` is the part of an assertion that all
proofs share: inside `instance_mutex_` a thread owns it, so nobody else touches
the instance (`Locks.frame`).
-/
import RedisStateManager.RedisClient

/-! ## References in a storage operation -/

namespace RedisStorage

open Redis Program

/-- The reference the operation holds and has not used. -/
def references : Protocol Action Answer (Option ℕ) where
  Allowed t a :=
    match t with
    | none => a = .getClient
    | some redis => ∃ c, a = .command redis c
  Possible _ _ _ := True
  after _
    | .getClient, (redis : ℕ) => some redis
    | .command _ _, _ => none

section References

variable {key value : Bytes}

theorem tryLock_references {post : Bool → Option ℕ → Prop} (h : ∀ b, post b none) :
    (tryLock key).Obeys references post none := by
  refine ⟨rfl, fun redis _ => ⟨⟨_, rfl⟩, fun r _ => ?_⟩⟩
  cases r <;> exact h _

theorem unlock_references {post : Unit → Option ℕ → Prop} (h : post () none) :
    (unlock key).Obeys references post none := by
  refine ⟨rfl, fun redis _ => ⟨⟨_, rfl⟩, fun r _ => ?_⟩⟩
  cases r <;> exact h

/-- Giving the lock back and returning. -/
theorem unlock_ret_references {post : Bool → Option ℕ → Prop} {b : Bool} (h : post b none) :
    (unlock key >>= fun _ => ret b).Obeys references post none :=
  obeys_bind.mpr (unlock_references h)

theorem isLocked_references {post : Bool → Option ℕ → Prop} (h : ∀ b, post b none) :
    (isLocked key).Obeys references post none := by
  refine ⟨rfl, fun redis _ => ⟨⟨_, rfl⟩, fun r _ => ?_⟩⟩
  cases r <;> exact h _

theorem read_references {post : Bytes → Option ℕ → Prop} (h : ∀ v, post v none) :
    (read key).Obeys references post none := by
  refine ⟨rfl, fun redis _ => ⟨⟨_, rfl⟩, fun r _ => ?_⟩⟩
  cases r with
  | bulk v => cases v <;> exact h _
  | _ => exact h _

theorem setUnderLock_references {post : Bool → Option ℕ → Prop} (h : ∀ b, post b none) :
    (setUnderLock key value).Obeys references post none := by
  refine obeys_bind.mpr (tryLock_references fun b => ?_)
  cases b with
  | false => exact h false
  | true =>
    refine ⟨rfl, fun redis _ => ⟨⟨_, rfl⟩, fun r _ => ?_⟩⟩
    cases r <;> exact unlock_ret_references (h _)

theorem erase_references {post : Bool → Option ℕ → Prop} (h : ∀ b, post b none) :
    (erase key).Obeys references post none := by
  refine obeys_bind.mpr (tryLock_references fun b => ?_)
  cases b with
  | false => exact h false
  | true =>
    refine ⟨rfl, fun redis _ => ⟨⟨_, rfl⟩, fun r _ => ?_⟩⟩
    cases r with
    | integer n =>
      show (unlock key >>= fun _ => if n > 0 then ret true else ret false).Obeys _ _ _
      refine obeys_bind.mpr (unlock_references ?_)
      split <;> exact h _
    | _ => exact unlock_ret_references (h _)

end References

/-- **Each command of an operation uses the reference obtained right before it.** -/
theorem Operation.references (op : Operation) :
    op.procedure.Obeys RedisStorage.references (fun _ held => held = none) none := by
  cases op with
  | write k v => exact obeys_bind.mpr (setUnderLock_references fun _ => rfl)
  | erase k => exact obeys_bind.mpr (erase_references fun _ => rfl)
  | update k v => exact obeys_bind.mpr (setUnderLock_references fun _ => rfl)
  | read k => exact obeys_bind.mpr (read_references fun _ => rfl)
  | tryLock k => exact obeys_bind.mpr (tryLock_references fun _ => rfl)
  | unlock k => exact obeys_bind.mpr (unlock_references rfl)
  | isLocked k => exact obeys_bind.mpr (isLocked_references fun _ => rfl)

end RedisStorage

namespace RedisClient

open Redis Program Service

/-! ## Phases -/

/-- Where a call stands. -/
inductive Phase
  | outside
  /-- inside `instance_mutex_` -/
  | locked
  /-- inside, with nothing left but the dereference of `redis_` -/
  | ready
  /-- inside, with the reference it will return -/
  | leaving (redis : ℕ)
  /-- outside, with a reference it has not used -/
  | referring (redis : ℕ)
  deriving DecidableEq, Repr

/-- `setConfig` connects in any case and dereferences nothing. -/
def Operation.reconfigures : Operation → Bool
  | setConfig _ => true
  | getClient | storage _ => false

/-- What a call of `op` may issue. -/
inductive Allowed (op : Operation) : Phase → Action → Prop
  | enter : Allowed op .outside (.lock .instanceMutex)
  | createInstance : Allowed op .locked .createInstance
  | storeConfig (config : RedisConfig) (h : op.reconfigures = true) :
      Allowed op .locked (.storeConfig config)
  | lockRedis : Allowed op .locked (.lock .redisMutex)
  | unlockRedis : Allowed op .locked (.unlock .redisMutex)
  | testRedis : Allowed op .locked .testRedis
  | ping (h : op.reconfigures = false) : Allowed op .locked .ping
  | construct (attempt : ℕ) : Allowed op .locked (.construct attempt)
  | exit (h : op.reconfigures = true) : Allowed op .locked (.unlock .instanceMutex)
  | readyUnlock : Allowed op .ready (.unlock .redisMutex)
  | readyTest : Allowed op .ready .testRedis
  | redis : Allowed op .ready .redis
  | leave (redis : ℕ) : Allowed op (.leaving redis) (.unlock .instanceMutex)
  | command (redis : ℕ) (c : Command) (h : op ≠ .getClient) :
      Allowed op (.referring redis) (.command redis c)

/-- A `getClient` is ready after a ping that succeeds, a constructor that succeeds,
and the last one of the constructors that fail. -/
def phases (op : Operation) : Protocol Action Answer Phase where
  Allowed := Allowed op
  Possible _ _ _ := True
  after
    | .outside, .lock .instanceMutex, _ => .locked
    | .locked, .ping, alive => if alive then .ready else .locked
    | .locked, .construct attempt, ok =>
      if op.reconfigures then .locked
      else if ok || attempt = maxRetries then .ready else .locked
    | .locked, .unlock .instanceMutex, _ => .outside
    | .ready, .redis, redis => .leaving redis
    | .leaving redis, .unlock .instanceMutex, _ => .referring redis
    | .referring _, .command .., _ => .outside
    | t, _, _ => t

/-- Where the call of `op` stands when it returns. -/
def Post : Operation → Outcome → Phase → Prop
  | .getClient, _, t => ∃ redis, t = .referring redis
  | .setConfig _, _, t | .storage _, _, t => t = .outside

section Phases

variable {op : Operation}

theorem after_construct (hop : op.reconfigures = false) (attempt : ℕ) (ok : Bool) :
    (phases op).after .locked (.construct attempt) ok =
      if ok || attempt = maxRetries then .ready else .locked := by
  simp [phases, hop]

theorem after_construct_of_reconfigures (hop : op.reconfigures = true) (attempt : ℕ) (ok : Bool) :
    (phases op).after .locked (.construct attempt) ok = .locked := by
  simp [phases, hop]

/-- The loop of `connect` in a `getClient` ends ready. -/
theorem attempts_obeys (hop : op.reconfigures = false) {post : Unit → Phase → Prop}
    (h : post () .ready) {left : ℕ} (hleft : left < maxRetries) :
    (attempts (left + 1)).Obeys (phases op) post .locked := by
  induction left with
  | zero =>
    refine ⟨.construct _, fun ok _ => ?_⟩
    rw [after_construct hop]
    cases ok <;> exact h
  | succ left ih =>
    refine ⟨.construct _, fun ok _ => ?_⟩
    rw [after_construct hop]
    cases ok with
    | true => exact h
    | false =>
      have hlast : maxRetries - (left + 1) ≠ maxRetries := by omega
      rw [if_neg (by simpa using hlast)]
      exact ih (by omega)

/-- The loop of `connect` in a `setConfig`. -/
theorem attempts_obeys_of_reconfigures (hop : op.reconfigures = true) {post : Unit → Phase → Prop}
    (h : post () .locked) (left : ℕ) : (attempts left).Obeys (phases op) post .locked := by
  induction left with
  | zero => exact h
  | succ left ih =>
    refine ⟨.construct _, fun ok _ => ?_⟩
    rw [after_construct_of_reconfigures hop]
    cases ok with
    | true => exact h
    | false => exact ih

/-- `isConnected` in a `getClient`: a ping that succeeds makes the call ready. -/
theorem isConnected_obeys (hop : op.reconfigures = false) {post : Bool → Phase → Prop}
    (htrue : post true .ready) (hfalse : post false .locked) :
    isConnected.Obeys (phases op) post .locked := by
  refine ⟨.lockRedis, fun _ _ => ⟨.testRedis, fun found _ => ?_⟩⟩
  cases found with
  | false => exact ⟨.unlockRedis, fun _ _ => hfalse⟩
  | true =>
    refine ⟨.ping hop, fun alive _ => ?_⟩
    cases alive with
    | true => exact ⟨.readyUnlock, fun _ _ => htrue⟩
    | false => exact ⟨.unlockRedis, fun _ _ => hfalse⟩

theorem connect_obeys (hop : op.reconfigures = false) {post : Unit → Phase → Prop}
    (h : post () .ready) : connect.Obeys (phases op) post .locked := by
  have hloop : (attempts maxRetries).Obeys (phases op)
      (fun _ t => (issue (.unlock .redisMutex)).Obeys (phases op) post t) .locked :=
    attempts_obeys hop ⟨.readyUnlock, fun _ _ => h⟩ (by decide)
  exact obeys_act_ret_bind.mpr ⟨.lockRedis, fun _ _ => obeys_bind.mpr hloop⟩

theorem getClient_obeys (hop : op.reconfigures = false) {post : ℕ → Phase → Prop}
    (h : ∀ redis, post redis (.referring redis)) :
    getClient.Obeys (phases op) post .outside := by
  -- the end of `getClient`, once nothing is left but the dereference
  have hready : (do
      let _ ← issue .testRedis
      let redis ← issue .redis
      issue (.unlock .instanceMutex)
      return redis : Procedure ℕ).Obeys (phases op) post .ready :=
    ⟨.readyTest, fun _ _ => ⟨.redis, fun redis _ => ⟨.leave redis, fun _ _ => h redis⟩⟩⟩
  refine obeys_act_ret_bind.mpr ⟨.enter, fun _ _ => ?_⟩
  refine obeys_act_ret_bind.mpr ⟨.createInstance, fun _ _ => ?_⟩
  refine obeys_bind.mpr (isConnected_obeys hop hready ?_)
  exact obeys_bind.mpr (connect_obeys hop hready)

theorem setConfig_obeys {config : RedisConfig} (hop : op.reconfigures = true)
    {post : Unit → Phase → Prop} (h : post () .outside) :
    (setConfig config).Obeys (phases op) post .outside := by
  refine obeys_act_ret_bind.mpr ⟨.enter, fun _ _ => ?_⟩
  refine obeys_act_ret_bind.mpr ⟨.createInstance, fun _ _ => ?_⟩
  refine obeys_act_ret_bind.mpr ⟨.storeConfig _ hop, fun _ _ => ?_⟩
  refine obeys_bind.mpr (obeys_act_ret_bind.mpr ⟨.lockRedis, fun _ _ => obeys_bind.mpr ?_⟩)
  refine attempts_obeys_of_reconfigures hop ?_ maxRetries
  exact ⟨.unlockRedis, fun _ _ => ⟨.exit hop, fun _ _ => h⟩⟩

/-- A storage operation's reference as a phase of its call. -/
def ofReference : Option ℕ → Phase
  | none => .outside
  | some redis => .referring redis

theorem ofStorage_obeys (hop : op.reconfigures = false) (hget : op ≠ .getClient) {α : Type}
    {p : RedisStorage.Procedure α} {held : Option ℕ}
    (h : p.Obeys RedisStorage.references (fun _ held => held = none) held) :
    (ofStorage p).Obeys (phases op) (fun _ t => t = .outside) (ofReference held) := by
  induction p generalizing held with
  | ret x =>
    obtain rfl : held = none := h
    exact rfl
  | act a k ih =>
    cases a with
    | getClient =>
      cases held with
      | none => exact obeys_bind.mpr (getClient_obeys hop fun redis => ih redis (h.2 redis trivial))
      | some redis => exact absurd h.1 (by simp [RedisStorage.references])
    | command redis c =>
      cases held with
      | none => exact absurd h.1 (by simp [RedisStorage.references])
      | some redis' =>
        obtain ⟨c', hc⟩ := h.1
        obtain ⟨rfl, rfl⟩ := RedisStorage.Action.command.inj hc
        exact ⟨.command redis c hget, fun r _ => ih r (h.2 r trivial)⟩

end Phases

/-- **Every call goes through the phases.** -/
def discipline : clients.Discipline Phase where
  protocol := phases
  start := .outside
  Post := Post
  obeys
    | .setConfig _ => obeys_bind.mpr (setConfig_obeys rfl rfl)
    | .getClient => obeys_bind.mpr (getClient_obeys rfl fun redis => ⟨redis, rfl⟩)
    | .storage op => obeys_bind.mpr (ofStorage_obeys rfl (by simp) op.references)

/-! ## Inside `instance_mutex_` -/

def Phase.inside : Phase → Bool
  | locked | ready | leaving _ => true
  | outside | referring _ => false

/-- Inside `instance_mutex_` thread `i` owns it. -/
def Locks (i : ℕ) (t : Phase) (s : Shared) : Prop :=
  t.inside = true → s.owner .instanceMutex = some i

section Locks

variable {op : Operation} {i j : ℕ} {t u : Phase} {s : Shared} {b : Action} {choice : Choice}

/-- The thread's own actions take and release the mutex as its phases say. -/
theorem Locks.own (h : Locks i t s) (hb : Allowed op t b) :
    Locks i ((phases op).after t b (answer s choice b)) (perform i s choice b) := by
  cases hb with
  | enter =>
    intro _
    show Function.update s.owner .instanceMutex (some i) .instanceMutex = some i
    exact Function.update_self ..
  | exit => exact fun hin => absurd hin Bool.false_ne_true
  | leave redis => exact fun hin => absurd hin Bool.false_ne_true
  | command redis c => exact fun hin => absurd hin Bool.false_ne_true
  | construct attempt =>
    intro _
    rw [owner_construct]
    exact h rfl
  | _ => exact fun _ => h rfl

/-- **Frame**: while thread `i` owns the mutex, the others leave the instance alone. -/
theorem Locks.frame (hij : i ≠ j) (hi : s.owner .instanceMutex = some i) (hj : Locks j u s)
    (hb : Allowed op u b) (hposs : Possible j s choice b) :
    (perform j s choice b).owner .instanceMutex = some i ∧
      (perform j s choice b).instance_ = s.instance_ := by
  have houtside : u.inside = false := by
    by_contra hin
    have hown := hj (by simpa using hin)
    exact hij (Option.some.inj (hi.symm.trans hown))
  cases hb with
  | enter => exact absurd (hi.symm.trans hposs.2) (by simp)
  | command redis c => exact ⟨hi, rfl⟩
  | _ => exact absurd houtside.symm Bool.false_ne_true

end Locks

end RedisClient
