/-
# The client's calls end

The calls of `RedisClient` under its two mutexes: every access to `instance_`,
`config_` and `redis_` is made inside `instance_mutex_`, every attempt to connect
inside `redis_mutex_` as well (`guards`), and the mutexes are taken in this order.
With it no two threads are ever about to touch the client's fields at once
(`accesses_exclusive`), whatever a `setConfig` and other threads' `getClient` do.
`pointers` is what a call has found out about the two pointers, so that
`calls_end` can say that the calls in progress all return after a bounded number
of steps, unless a thread comes to dereference a null `redis_`.
-/
import RedisStateManager.Mutexes
import RedisStateManager.CallBounds
import RedisStateManager.ClientConfig

/-! ## The length of a storage operation -/

namespace RedisStorage

open Redis Program

section Bounds

variable {key value : Bytes}

theorem tryLock_within : (tryLock key).Within 2 := by
  refine within_act fun redis => within_act fun r => ?_
  cases r <;> exact within_ret _ 0

theorem unlock_within : (unlock key).Within 2 := by
  refine within_act fun redis => within_act fun r => ?_
  cases r <;> exact within_ret _ 0

theorem unlock_ret_within (b : Bool) : (unlock key >>= fun _ => ret b).Within 2 :=
  unlock_within.map fun _ => b

theorem read_within : (read key).Within 2 := by
  refine within_act fun redis => within_act fun r => ?_
  cases r with
  | bulk v => cases v <;> exact within_ret _ 0
  | _ => exact within_ret _ 0

theorem isLocked_within : (isLocked key).Within 2 := by
  refine within_act fun redis => within_act fun r => ?_
  cases r <;> exact within_ret _ 0

theorem setUnderLock_within : (setUnderLock key value).Within 6 := by
  refine Within.bind (m := 4) tryLock_within fun acquired => ?_
  cases acquired with
  | false => exact within_ret _ 4
  | true =>
    refine within_act fun redis => within_act fun r => ?_
    cases r <;> exact unlock_ret_within _

theorem erase_within : (erase key).Within 6 := by
  refine Within.bind (m := 4) tryLock_within fun acquired => ?_
  cases acquired with
  | false => exact within_ret _ 4
  | true =>
    refine within_act fun redis => within_act fun r => ?_
    cases r with
    | integer n =>
      show (unlock key >>= fun _ => if n > 0 then ret true else ret false).Within 2
      refine Within.bind (m := 0) unlock_within fun _ => ?_
      split <;> exact within_ret _ 0
    | _ => exact unlock_ret_within _

end Bounds

/-- An operation makes at most three calls of `getClient`, with a command after each. -/
theorem Operation.within (op : Operation) : op.procedure.Within 6 := by
  cases op with
  | write k v => exact setUnderLock_within.map _
  | update k v => exact setUnderLock_within.map _
  | erase k => exact erase_within.map _
  | read k => exact (read_within.mono (by decide)).map _
  | tryLock k => exact (tryLock_within.mono (by decide)).map _
  | unlock k => exact (unlock_within.mono (by decide)).map _
  | isLocked k => exact (isLocked_within.mono (by decide)).map _

end RedisStorage

namespace RedisClient

open Redis Program Service

/-! ## The mutexes of the client -/

def lockAct : Action → LockAct Mutex
  | .lock m => .lock m
  | .unlock m => .unlock m
  | _ => .other

/-- The mutexes an access to the client's fields is made under. -/
def guards : Action → Mutex → Prop
  | .createInstance, m | .storeConfig _, m | .testRedis, m | .redis, m => m = .instanceMutex
  | .ping, _ | .construct _, _ => True
  | .lock _, _ | .unlock _, _ | .command .., _ => False

def Mutex.rank : Mutex → ℕ
  | instanceMutex => 0
  | redisMutex => 1

def mutexes : clients.Mutexes Mutex where
  owner := Shared.owner
  kind := lockAct
  guards := guards
  rank := Mutex.rank
  bound := 1
  rank_le m := by cases m <;> decide
  free := by
    intro i s choice a m hposs hkind
    cases a with
    | lock n =>
      obtain rfl : n = m := LockAct.lock.inj hkind
      exact hposs.2
    | _ => exact absurd hkind (by simp [lockAct])
  owner_lock := by
    intro i s choice a m hkind
    cases a with
    | lock n =>
      obtain rfl : n = m := LockAct.lock.inj hkind
      rfl
    | _ => exact absurd hkind (by simp [lockAct])
  owner_unlock := by
    intro i s choice a m hkind
    cases a with
    | unlock n =>
      obtain rfl : n = m := LockAct.unlock.inj hkind
      rfl
    | _ => exact absurd hkind (by simp [lockAct])
  owner_other := by
    intro i s choice a hkind
    cases a with
    | lock n => exact absurd hkind (by simp [lockAct])
    | unlock n => exact absurd hkind (by simp [lockAct])
    | construct attempt => exact owner_construct i s choice attempt
    | _ => rfl

/-- The mutexes of a thread inside `instance_mutex_`. -/
def inside : Mutex → Bool := Function.update Mutexes.nothing .instanceMutex true

/-- The mutexes of a thread inside both. -/
def innermost : Mutex → Bool := Function.update inside .redisMutex true

theorem unlock_innermost : Function.update innermost .redisMutex false = inside := by
  funext m
  cases m <;> rfl

theorem unlock_inside : Function.update inside .instanceMutex false = Mutexes.nothing := by
  funext m
  cases m <;> rfl

section Programs

theorem enter_allowed : mutexes.protocol.Allowed Mutexes.nothing (.lock .instanceMutex) :=
  ⟨fun _ h => absurd h Bool.false_ne_true, fun _ h => h.elim⟩

theorem lockRedis_allowed : mutexes.protocol.Allowed inside (.lock .redisMutex) := by
  refine ⟨fun m h => ?_, fun _ h => h.elim⟩
  cases m with
  | instanceMutex => decide
  | redisMutex => exact absurd h (by decide)

/-- An access under `instance_mutex_`. -/
theorem access_allowed {a : Action} (hkind : lockAct a = .other)
    (h : ∀ m, guards a m → m = .instanceMutex) : mutexes.protocol.Allowed inside a := by
  refine ⟨?_, fun m hm => ?_⟩
  · show mutexes.AllowedAct inside (lockAct a)
    rw [hkind]
    trivial
  · rw [h m hm]
    rfl

/-- Leaving `redis_mutex_`. -/
theorem unlockRedis_mutexes {post : Unit → (Mutex → Bool) → Prop} (h : post () inside) :
    (issue (.unlock .redisMutex)).Obeys mutexes.protocol post innermost := by
  refine ⟨⟨rfl, fun _ h => h.elim⟩, fun _ _ => ?_⟩
  show post () (Function.update innermost .redisMutex false)
  rw [unlock_innermost]
  exact h

/-- Leaving `instance_mutex_`. -/
theorem unlockInstance_mutexes {post : Unit → (Mutex → Bool) → Prop}
    (h : post () Mutexes.nothing) :
    (issue (.unlock .instanceMutex)).Obeys mutexes.protocol post inside := by
  refine ⟨⟨rfl, fun _ h => h.elim⟩, fun _ _ => ?_⟩
  show post () (Function.update inside .instanceMutex false)
  rw [unlock_inside]
  exact h

theorem isConnected_mutexes {post : Bool → (Mutex → Bool) → Prop} (h : ∀ b, post b inside) :
    isConnected.Obeys mutexes.protocol post inside := by
  have hunlock (b : Bool) : (issue (.unlock .redisMutex) >>= fun _ => ret b).Obeys
      mutexes.protocol post innermost :=
    obeys_bind.mpr (unlockRedis_mutexes (h b))
  refine ⟨lockRedis_allowed, fun _ _ => ⟨⟨trivial, fun _ h => h ▸ rfl⟩, fun found _ => ?_⟩⟩
  cases found with
  | true => exact ⟨⟨trivial, fun m _ => by cases m <;> rfl⟩, fun alive _ => hunlock alive⟩
  | false => exact hunlock false

theorem attempts_mutexes {post : Unit → (Mutex → Bool) → Prop} (h : post () innermost)
    (left : ℕ) : (attempts left).Obeys mutexes.protocol post innermost := by
  induction left with
  | zero => exact h
  | succ left ih =>
    refine ⟨⟨trivial, fun m _ => by cases m <;> rfl⟩, fun ok _ => ?_⟩
    cases ok with
    | true => exact h
    | false => exact ih

theorem connect_mutexes {post : Unit → (Mutex → Bool) → Prop} (h : post () inside) :
    connect.Obeys mutexes.protocol post inside := by
  refine obeys_act_ret_bind.mpr ⟨lockRedis_allowed, fun _ _ => obeys_bind.mpr ?_⟩
  exact attempts_mutexes (unlockRedis_mutexes h) maxRetries

theorem setConfig_mutexes {config : RedisConfig} {post : Unit → (Mutex → Bool) → Prop}
    (h : post () Mutexes.nothing) :
    (setConfig config).Obeys mutexes.protocol post Mutexes.nothing := by
  refine obeys_act_ret_bind.mpr ⟨enter_allowed, fun _ _ => ?_⟩
  refine obeys_act_ret_bind.mpr ⟨access_allowed rfl (fun _ h => h), fun _ _ => ?_⟩
  refine obeys_act_ret_bind.mpr ⟨access_allowed rfl (fun _ h => h), fun _ _ => ?_⟩
  exact obeys_bind.mpr (connect_mutexes (unlockInstance_mutexes h))

theorem getClient_mutexes {post : ℕ → (Mutex → Bool) → Prop}
    (h : ∀ redis, post redis Mutexes.nothing) :
    getClient.Obeys mutexes.protocol post Mutexes.nothing := by
  have hready : (do
      let _ ← issue .testRedis
      let redis ← issue .redis
      issue (.unlock .instanceMutex)
      return redis : Procedure ℕ).Obeys mutexes.protocol post inside :=
    ⟨access_allowed rfl (fun _ h => h), fun _ _ => ⟨access_allowed rfl (fun _ h => h),
      fun redis _ => obeys_bind.mpr (unlockInstance_mutexes (h redis))⟩⟩
  refine obeys_act_ret_bind.mpr ⟨enter_allowed, fun _ _ => ?_⟩
  refine obeys_act_ret_bind.mpr ⟨access_allowed rfl (fun _ h => h), fun _ _ => ?_⟩
  refine obeys_bind.mpr (isConnected_mutexes fun alive => ?_)
  cases alive with
  | true => exact hready
  | false => exact obeys_bind.mpr (connect_mutexes hready)

theorem ofStorage_mutexes {α : Type} (p : RedisStorage.Procedure α) :
    (ofStorage p).Obeys mutexes.protocol (fun _ t => t = Mutexes.nothing) Mutexes.nothing := by
  induction p with
  | ret x => exact rfl
  | act a k ih =>
    cases a with
    | getClient => exact obeys_bind.mpr (getClient_mutexes fun redis => ih redis)
    | command redis c => exact ⟨⟨trivial, fun _ h => h.elim⟩, fun r _ => ih r⟩

end Programs

theorem mutexes_disciplined : mutexes.Disciplined := by
  intro op
  cases op with
  | setConfig config => exact obeys_bind.mpr (setConfig_mutexes rfl)
  | getClient => exact obeys_bind.mpr (getClient_mutexes fun _ => rfl)
  | storage op => exact obeys_bind.mpr (ofStorage_mutexes op.procedure)

theorem mutexes_holding {tr : List Label} {s : State} (h : clients.system.Run initial tr s) :
    mutexes.Holding s :=
  Mutexes.holding mutexes_disciplined (fun _ => rfl) h

/-- **The client's fields are never touched by two threads at once**: a thread about to
access `instance_`, `config_` or `redis_` owns `instance_mutex_`, one about to ping or to
construct an object owns `redis_mutex_` too, and there is no other thread about to make such
an access. -/
theorem accesses_exclusive {tr : List Label} {s : State}
    (h : clients.system.Run initial tr s) {i : ℕ} {a : Action} (ha : s.head? i = some a)
    {m : Mutex} (hm : guards a m) :
    s.shared.owner m = some i ∧ ∀ j b, s.head? j = some b → guards b m → j = i :=
  ⟨(mutexes_holding h).owner_of_guards ha hm,
    fun _ _ hb hmb => (mutexes_holding h).exclusive hb ha hmb hm⟩

/-! ## What a call knows of the pointers -/

/-- The pointers a call has seen not to be null; neither becomes null again. -/
structure Known where
  created : Bool
  found : Bool

/-- A call goes through `instance_` once it has created the instance if there was none, and
pings an object it has found. -/
def pointers : Protocol Action Answer Known where
  Allowed t
    | .storeConfig _ | .testRedis | .construct _ | .redis => t.created = true
    | .ping => t.found = true
    | _ => True
  Possible _ _ _ := True
  after t
    | .createInstance, _ => { t with created := true }
    | .testRedis, (found : Bool) => { t with found := found }
    | _, _ => t

section Pointers

variable {t : Known}

theorem isConnected_pointers (ht : t.created = true) :
    isConnected.Obeys pointers (fun _ t' => t'.created = true) t := by
  refine ⟨trivial, fun _ _ => ⟨ht, fun found _ => ?_⟩⟩
  cases found with
  | true => exact ⟨rfl, fun alive _ => ⟨trivial, fun _ _ => ht⟩⟩
  | false => exact ⟨trivial, fun _ _ => ht⟩

theorem attempts_pointers (ht : t.created = true) (left : ℕ) :
    (attempts left).Obeys pointers (fun _ t' => t'.created = true) t := by
  induction left with
  | zero => exact ht
  | succ left ih =>
    refine ⟨ht, fun ok _ => ?_⟩
    cases ok with
    | true => exact ht
    | false => exact ih

theorem connect_pointers (ht : t.created = true) :
    connect.Obeys pointers (fun _ t' => t'.created = true) t := by
  refine obeys_act_ret_bind.mpr ⟨trivial, fun _ _ => obeys_bind.mpr ?_⟩
  exact (attempts_pointers ht maxRetries).mono fun _ _ ht' => ⟨trivial, fun _ _ => ht'⟩

theorem setConfig_pointers {post : Unit → Known → Prop} (h : ∀ t', post () t')
    (config : RedisConfig) : (setConfig config).Obeys pointers post t := by
  refine obeys_act_ret_bind.mpr ⟨trivial, fun _ _ => ?_⟩
  refine obeys_act_ret_bind.mpr ⟨trivial, fun _ _ => ?_⟩
  refine obeys_act_ret_bind.mpr ⟨rfl, fun _ _ => obeys_bind.mpr ?_⟩
  exact (connect_pointers rfl).mono fun _ _ _ => ⟨trivial, fun _ _ => h _⟩

theorem getClient_pointers {post : ℕ → Known → Prop} (h : ∀ redis t', post redis t') :
    getClient.Obeys pointers post t := by
  have hready (t' : Known) (ht' : t'.created = true) : (do
      let _ ← issue .testRedis
      let redis ← issue .redis
      issue (.unlock .instanceMutex)
      return redis : Procedure ℕ).Obeys pointers post t' :=
    ⟨ht', fun _ _ => ⟨ht', fun redis _ => ⟨trivial, fun _ _ => h redis _⟩⟩⟩
  refine obeys_act_ret_bind.mpr ⟨trivial, fun _ _ => ?_⟩
  refine obeys_act_ret_bind.mpr ⟨trivial, fun _ _ => obeys_bind.mpr ?_⟩
  refine (isConnected_pointers rfl).mono fun alive t' ht' => ?_
  cases alive with
  | true => exact hready t' ht'
  | false => exact obeys_bind.mpr ((connect_pointers ht').mono fun _ => hready)

theorem ofStorage_pointers {α : Type} (p : RedisStorage.Procedure α) :
    (ofStorage p).Obeys pointers (fun _ _ => True) t := by
  induction p generalizing t with
  | ret x => trivial
  | act a k ih =>
    cases a with
    | getClient => exact obeys_bind.mpr (getClient_pointers fun redis _ => ih redis)
    | command redis c => exact ⟨trivial, fun r _ => ih r⟩

end Pointers

def pointerDiscipline : clients.Discipline Known where
  protocol _ := pointers
  start := ⟨false, false⟩
  Post _ _ _ := True
  obeys op := by
    cases op with
    | setConfig config => exact obeys_bind.mpr (setConfig_pointers (fun _ => trivial) config)
    | getClient => exact obeys_bind.mpr (getClient_pointers fun _ _ => trivial)
    | storage op => exact obeys_bind.mpr (ofStorage_pointers op.procedure)

/-- What the call knows is so. -/
def Knows (_ : Operation) (_ : ℕ) (t : Known) (s : Shared) : Prop :=
  (t.created = true → s.instance_.isSome = true) ∧ (t.found = true → s.redis?.isSome = true)

/-- Neither pointer becomes null. -/
theorem isSome_perform (i : ℕ) (s : Shared) (choice : Choice) (a : Action) :
    (s.instance_.isSome = true → (perform i s choice a).instance_.isSome = true) ∧
      (s.redis?.isSome = true → (perform i s choice a).redis?.isSome = true) := by
  cases a with
  | createInstance =>
    refine ⟨fun _ => rfl, fun h => ?_⟩
    cases hinst : s.instance_ with
    | none => simp [Shared.redis?, hinst] at h
    | some self => simpa [perform, Shared.redis?, hinst] using h
  | storeConfig config =>
    refine ⟨fun h => ?_, fun h => ?_⟩
    · simpa [perform] using h
    · cases hinst : s.instance_ with
      | none => simp [Shared.redis?, hinst] at h
      | some self => simpa [perform, Shared.redis?, hinst] using h
  | construct attempt =>
    simp only [perform]
    split
    · exact ⟨id, id⟩
    · refine ⟨fun h => ?_, fun h => ?_⟩
      · simpa [Shared.construct] using h
      · cases hinst : s.instance_ with
        | none => simp [Shared.redis?, hinst] at h
        | some self => simp [Shared.construct, Shared.redis?, hinst]
  | _ => exact ⟨id, id⟩

/-- The client stays connected once it has been. -/
theorem isSome_of_run {s s' : State} {tr : List Label} (h : clients.system.Run s tr s')
    (hs : s.shared.redis?.isSome = true) : s'.shared.redis?.isSome = true := by
  refine h.invariant (I := fun s => s.shared.redis?.isSome = true) hs ?_
  intro a s hs _
  cases a with
  | act i b choice => exact (isSome_perform i s.shared choice b).2 hs
  | _ => exact hs

theorem knows_keeps : pointerDiscipline.Keeps Knows fun _ _ => True where
  start _ _ _ := ⟨fun h => absurd h Bool.false_ne_true, fun h => absurd h Bool.false_ne_true⟩
  own s i call t b choice _ _ ht _ _ _ := by
    refine ⟨trivial, ?_⟩
    have hkept := isSome_perform i s.shared choice b
    cases b with
    | createInstance => exact ⟨fun _ => rfl, fun h => hkept.2 (ht.2 h)⟩
    | testRedis => exact ⟨ht.1, fun h => h⟩
    | _ => exact ⟨fun h => hkept.1 (ht.1 h), fun h => hkept.2 (ht.2 h)⟩
  other s i j call call' t u b choice _ _ _ ht _ _ _ _ _ :=
    ⟨fun h => (isSome_perform j s.shared choice b).1 (ht.1 h),
      fun h => (isSome_perform j s.shared choice b).2 (ht.2 h)⟩

/-! ## The calls end -/

/-- The next action of a call can be made, unless it waits for a mutex or is about to
dereference a null pointer. -/
theorem possible_of_allowed {i : ℕ} {s : Shared} {t : Known} {a : Action} {op : Operation}
    (ht : Knows op i t s) (ha : pointers.Allowed t a)
    (hlock : ∀ m, a = .lock m → s.owner m = none)
    (hredis : a = .redis → s.redis?.isSome = true) : ∃ choice, Possible i s choice a := by
  cases a with
  | lock m => exact ⟨.ok, rfl, hlock m rfl⟩
  | unlock m => exact ⟨.ok, rfl⟩
  | createInstance => exact ⟨.ok, rfl⟩
  | storeConfig config => exact ⟨.ok, rfl, ht.1 ha⟩
  | testRedis => exact ⟨.ok, rfl, ht.1 ha⟩
  | ping => exact ⟨.ok, Or.inl rfl, ht.2 ha⟩
  | construct attempt => exact ⟨.ok, Or.inl rfl, ht.1 ha⟩
  | redis => exact ⟨.ok, rfl, hredis rfl⟩
  | command redis c => exact ⟨.reply .error, trivial⟩

section Bounds

theorem isConnected_within : isConnected.Within 4 := by
  refine within_act fun _ => within_act fun found => ?_
  cases found with
  | true => exact within_act fun alive => within_act fun _ => within_ret _ 0
  | false => exact within_act fun _ => within_ret _ 1

theorem attempts_within (left : ℕ) : (attempts left).Within left := by
  induction left with
  | zero => exact within_ret () 0
  | succ left ih =>
    refine within_act fun ok => ?_
    cases ok with
    | true => exact within_ret () left
    | false => exact ih

theorem connect_within : connect.Within 7 :=
  within_act_ret_bind fun _ => Within.bind (m := 1) (attempts_within maxRetries) fun _ =>
    within_act fun _ => within_ret _ 0

theorem setConfig_within (config : RedisConfig) : (setConfig config).Within 11 :=
  within_act_ret_bind fun _ => within_act_ret_bind fun _ => within_act_ret_bind fun _ =>
    Within.bind (m := 1) connect_within fun _ => within_act fun _ => within_ret _ 0

theorem getClient_within : getClient.Within 16 := by
  have hready : (do
      let _ ← issue .testRedis
      let redis ← issue .redis
      issue (.unlock .instanceMutex)
      return redis : Procedure ℕ).Within 3 :=
    within_act fun _ => within_act fun _ => within_act fun _ => within_ret _ 0
  refine within_act_ret_bind fun _ => within_act_ret_bind fun _ => ?_
  refine Within.bind (m := 10) isConnected_within fun alive => ?_
  cases alive with
  | true => exact hready.mono (by decide)
  | false => exact Within.bind (m := 3) connect_within fun _ => hready

/-- Sixteen actions for each `getClient`, one for each command. -/
theorem ofStorage_within {α : Type} {p : RedisStorage.Procedure α} {n : ℕ} (h : p.Within n) :
    (ofStorage p).Within (16 * n) := by
  induction p generalizing n with
  | ret x => trivial
  | act a k ih =>
    obtain ⟨n, rfl⟩ : ∃ m, n = m + 1 := ⟨n - 1, by have hpos := h.1; omega⟩
    cases a with
    | getClient =>
      have hbind := Within.bind getClient_within fun redis => ih redis (h.2 redis)
      exact hbind.mono (by omega)
    | command redis c =>
      have hact : (ofStorage (.act (.command redis c) k)).Within (16 * n + 1) :=
        within_act fun r => ih r (h.2 r)
      exact hact.mono (by omega)

end Bounds

/-- The most actions a call of the operation issues. -/
def Operation.bound : Operation → ℕ
  | setConfig _ => 11
  | getClient => 16
  | storage _ => 96

theorem procedure_within (op : Operation) : op.procedure.Within op.bound := by
  cases op with
  | setConfig config => exact (setConfig_within config).map _
  | getClient => exact getClient_within.map _
  | storage op => exact (ofStorage_within op.within).map _

/-- **Progress**: while a call is in progress some call can go on or return, unless a thread
is about to dereference a null `redis_`. -/
theorem progress {tr : List Label} {s : State} (h : clients.system.Run initial tr s) {i : ℕ}
    {call : clients.Call} (hcall : s.callers i = some call) :
    (∃ a : Label, clients.system.Enabled a s ∧ a.isCall = false) ∨
      ∃ j, s.head? j = some .redis ∧ s.shared.redis? = none := by
  obtain ⟨j, ⟨op, rest⟩, hj, hfree⟩ := (mutexes_holding h).exists_unblocked hcall
  cases rest with
  | ret r =>
    refine Or.inl ⟨.ret j op r, ?_, rfl⟩
    show s.result? j = some (op, r)
    rw [State.result?, hj]
    rfl
  | act a k =>
    have hhead : s.head? j = some a := by
      rw [State.head?, hj]
      rfl
    have hby := h.runBy_of_forall (C := fun _ _ _ => True) fun _ _ _ _ => trivial
    obtain ⟨t, hat, ht⟩ := knows_keeps.holds hby j _ hj
    by_cases hnull : a = .redis ∧ s.shared.redis? = none
    · obtain ⟨rfl, hnull⟩ := hnull
      exact Or.inr ⟨j, hhead, hnull⟩
    · obtain ⟨choice, hposs⟩ := possible_of_allowed ht (hat.allowed rfl)
        (fun m hm => hfree m ⟨a, hhead, by rw [hm]; rfl⟩)
        (fun hredis => Option.isSome_iff_ne_none.mpr fun hnone => hnull ⟨hredis, hnone⟩)
      exact Or.inl ⟨.act j a choice, ⟨hhead, hposs⟩, rfl⟩

/-- **The calls end.**  From every reachable state the calls in progress make a bounded
number of steps, whatever throws and however they interleave; where they can make no more,
all have returned, or a thread is about to dereference a null `redis_`. -/
theorem calls_end {tr : List Label} {s : State} (h : clients.system.Run initial tr s) :
    ∃ bound, ∀ tr' s', clients.system.Run s tr' s' → (∀ a ∈ tr', a.isCall = false) →
      tr'.length ≤ bound ∧
      ((∀ a : Label, a.isCall = false → ¬ clients.system.Enabled a s') →
        (∀ i, s'.callers i = none) ∨ ∃ i, s'.head? i = some .redis ∧ s'.shared.redis? = none) := by
  obtain ⟨S, b, hb⟩ := exists_budget procedure_within h
  refine ⟨∑ i ∈ S, b i, fun tr' s' h' hcalls => ⟨length_le hb h' hcalls, fun hstuck => ?_⟩⟩
  by_cases hidle : ∀ i, s'.callers i = none
  · exact Or.inl hidle
  · obtain ⟨i, hi⟩ := not_forall.mp hidle
    obtain ⟨call, hcall⟩ := Option.ne_none_iff_exists'.mp hi
    rcases progress (h.append h') hcall with ⟨a, ha, hact⟩ | hnull
    · exact absurd ha (hstuck a hact)
    · exact Or.inr hnull

/-! ## A ping and a configuration -/

/-- Thread 0 has configured the client and is about to ping it; thread 1 is about to
configure it. -/
def pingingRun : List Label :=
  setConfigRun 0 server [(1, .ok)] ++ [.call 0 .getClient] ++
    issues 0 [.lock .instanceMutex, .createInstance, .lock .redisMutex, .testRedis] ++
    [.call 1 (.setConfig otherServer)]

theorem accesses_exclusive_pingingRun :
    (clients.system.after pingingRun initial).shared.owner .redisMutex = some 0 ∧
      ∀ j b, (clients.system.after pingingRun initial).head? j = some b → guards b .redisMutex →
        j = 0 := by
  have hlegal : clients.system.Legal pingingRun initial := by decide
  exact accesses_exclusive (TransitionSystem.run_of_legal hlegal) (a := .ping) (by decide) trivial

theorem calls_end_pingingRun :
    ∃ bound, ∀ tr' s', clients.system.Run (clients.system.after pingingRun initial) tr' s' →
      (∀ a ∈ tr', a.isCall = false) → tr'.length ≤ bound ∧
        ((∀ a : Label, a.isCall = false → ¬ clients.system.Enabled a s') →
          ∀ i, s'.callers i = none) := by
  have hlegal : clients.system.Legal pingingRun initial := by decide
  obtain ⟨bound, hbound⟩ := calls_end (TransitionSystem.run_of_legal hlegal)
  refine ⟨bound, fun tr' s' h' hcalls => ⟨(hbound tr' s' h' hcalls).1, fun hstuck => ?_⟩⟩
  refine ((hbound tr' s' h' hcalls).2 hstuck).resolve_right ?_
  rintro ⟨i, -, hnull⟩
  have hconnected : s'.shared.redis?.isSome = true := isSome_of_run h' (by decide)
  rw [hnull] at hconnected
  exact absurd hconnected Bool.false_ne_true

end RedisClient
