/-
# The client and its configuration

A client returned by `getClient` ought to be connected to the server that the
most recent `setConfig` named.  `configured` reads that configuration off the
history and `Matches` states the property at the point where `getClient`
dereferences `redis_`.  It holds in the runs in which no ping of an object of an
earlier configuration succeeds and no `getClient` is left without an object of
the current one by the last attempt of `connect` (`Recovers`).  Outside these
runs the code goes on to the dereference all the same: `reaches_redis` lets the
thread run there alone.
-/
import RedisStateManager.ClientCalls

namespace RedisClient

open Redis Program Service

/-! ## The configuration in force -/

def stored? : Label → Option RedisConfig
  | .act _ (.storeConfig config) _ => some config
  | _ => none

/-- The configuration of the most recent `setConfig`, or the default one. -/
def configured (tr : List Label) : RedisConfig := (tr.filterMap stored?).getLast?.getD {}

theorem configured_snoc (tr : List Label) (a : Label) :
    configured (tr ++ [a]) = (stored? a).getD (configured tr) := by
  cases h : stored? a <;> simp [configured, h]

/-- The `config_` of the instance, which a `getClient` creates if there is none. -/
def Shared.config (s : Shared) : ConnectionOptions := (s.instance_.getD newInstance).config

theorem config_storeConfig {i : ℕ} {s : Shared} {choice : Choice} {config : RedisConfig}
    (hposs : Possible i s choice (.storeConfig config)) :
    (perform i s choice (.storeConfig config)).config = toConnectionOptions config := by
  obtain ⟨self, hself⟩ := Option.isSome_iff_exists.mp hposs.2
  simp [perform, Shared.config, hself]

/-- A new object changes `redis_`, not `config_`. -/
theorem config_construct (s : Shared) : s.construct.config = s.config := by
  cases h : s.instance_ <;> simp [Shared.construct, Shared.config, h]

theorem config_perform {b : Action} (hb : ∀ config, b ≠ .storeConfig config) (i : ℕ) (s : Shared)
    (choice : Choice) : (perform i s choice b).config = s.config := by
  cases b with
  | storeConfig config => exact absurd rfl (hb config)
  | construct attempt =>
    show (if choice = .threw then s else s.construct).config = s.config
    split
    · rfl
    · exact config_construct s
  | _ => rfl

/-- **`config_` is the configuration in force**, whatever failed on the way. -/
theorem config_eq {tr : List Label} {s : State} (h : clients.system.Run initial tr s) :
    s.shared.config = toConnectionOptions (configured tr) := by
  refine h.induct (P := fun tr s => s.shared.config = toConnectionOptions (configured tr)) rfl ?_
  intro tr s a _ hs ha
  rw [configured_snoc]
  cases a with
  | act i b choice =>
    cases b with
    | storeConfig config => exact config_storeConfig (i := i) ha.2
    | _ => exact (config_perform (by simp) i s.shared choice).trans hs
  | _ => exact hs

/-- `redis_` owns an object constructed from `config_`. -/
def Shared.Synced (s : Shared) : Prop :=
  ∃ client ∈ s.redis?, client.options = s.config

instance (s : Shared) : Decidable s.Synced :=
  inferInstanceAs (Decidable (∃ client ∈ s.redis?, client.options = s.config))

theorem synced_congr {s s' : Shared} (h : s'.instance_ = s.instance_) :
    s'.Synced ↔ s.Synced := by
  unfold Shared.Synced Shared.redis? Shared.config
  rw [h]

theorem synced_construct {s : Shared} (h : s.instance_.isSome = true) : s.construct.Synced := by
  obtain ⟨self, hself⟩ := Option.isSome_iff_exists.mp h
  exact ⟨⟨s.made + 1, self.config⟩, by simp [Shared.construct, Shared.redis?, hself],
    by simp [Shared.construct, Shared.config, hself]⟩

/-! ## The property, and when it holds -/

/-- **The client matches the configuration**: a `getClient` that is about to dereference
`redis_` finds an object there, constructed from the configuration in force. -/
def Matches (tr : List Label) (s : State) : Prop :=
  ∀ i, s.head? i = some .redis → ∃ client, s.shared.redis? = some client ∧
    client.options = toConnectionOptions (configured tr)

/-- A ping that succeeds, and the last attempt of a `connect` in `getClient` that fails,
find an object constructed from `config_`. -/
def Recovers (s : State) : Label → Prop
  | .act _ .ping .ok => s.shared.Synced
  | .act i (.construct attempt) .threw =>
    attempt = maxRetries → (∀ op ∈ s.operation? i, op.reconfigures = false) → s.shared.Synced
  | _ => True

instance (s : State) : ∀ a, Decidable (Recovers s a)
  | .act _ .ping .ok => inferInstanceAs (Decidable s.shared.Synced)
  | .act i (.construct attempt) .threw =>
    inferInstanceAs (Decidable (attempt = maxRetries →
      (∀ op ∈ s.operation? i, op.reconfigures = false) → s.shared.Synced))
  | .act _ .ping .threw | .act _ .ping (.reply _) => isTrue trivial
  | .act _ (.construct _) .ok | .act _ (.construct _) (.reply _) => isTrue trivial
  | .act _ (.lock _) _ | .act _ (.unlock _) _ | .act _ .createInstance _ => isTrue trivial
  | .act _ (.storeConfig _) _ | .act _ .testRedis _ | .act _ .redis _ => isTrue trivial
  | .act _ (.command ..) _ | .call .. | .ret .. => isTrue trivial

/-- Inside `instance_mutex_`, and with an object of `config_` once the call is ready. -/
def Prepared (_ : Operation) (i : ℕ) (t : Phase) (s : Shared) : Prop :=
  Locks i t s ∧ (t = .ready → s.Synced)

section Prepared

variable {i : ℕ} {s : State} {call : clients.Call} {t : Phase} {b : Action} {choice : Choice}

/-- The call's own actions: `ready` is reached with an object of `config_`. -/
theorem prepared_own (hcall : s.callers i = some call)
    (hp : Prepared call.operation i t s.shared) (hb : Allowed call.operation t b)
    (hposs : Possible i s.shared choice b) (hC : Recovers s (.act i b choice)) :
    Prepared call.operation i ((phases call.operation).after t b (answer s.shared choice b))
      (perform i s.shared choice b) := by
  refine ⟨hp.1.own hb, fun hready => ?_⟩
  cases hb with
  | ping hop =>
    obtain rfl | rfl := hposs.1
    · exact hC
    · exact absurd hready (by simp [phases, answer])
  | construct attempt =>
    obtain rfl | rfl := hposs.1
    · exact synced_construct hposs.2
    · cases hop : call.operation.reconfigures with
      | true =>
        rw [after_construct_of_reconfigures hop] at hready
        exact absurd hready (by simp)
      | false =>
        have hlast : attempt = maxRetries := by
          rw [after_construct hop] at hready
          simpa [answer] using hready
        refine hC hlast fun op hop' => ?_
        obtain rfl : call.operation = op :=
          Option.some.inj ((State.operation?_of_callers hcall).symm.trans hop')
        exact hop
  | readyUnlock => exact (synced_congr rfl).mpr (hp.2 rfl)
  | readyTest => exact hp.2 rfl
  | _ => exact absurd hready (by simp [phases])

theorem prepared_keeps : discipline.Keeps Prepared Recovers where
  start _ _ _ :=
    ⟨fun hin => absurd hin Bool.false_ne_true, fun h => absurd h (by simp [discipline])⟩
  own s i call t b choice hcall _ hp hb hposs hC :=
    ⟨trivial, prepared_own hcall hp hb hposs hC⟩
  other s i j call call' t u b choice hij _ _ hp _ hp' hb hposs _ := by
    refine ⟨fun hin => (Locks.frame hij (hp.1 hin) hp'.1 hb hposs).1, fun hready => ?_⟩
    subst hready
    exact (synced_congr (Locks.frame hij (hp.1 rfl) hp'.1 hb hposs).2).mpr (hp.2 rfl)

end Prepared

/-- The client matches the configuration in the runs that recover. -/
theorem matches_of_recovers {tr : List Label} {s : State}
    (h : clients.system.RunBy (fun _ => Recovers) initial tr s) : Matches tr s := by
  intro i hi
  obtain ⟨call, hcall, hhead⟩ := State.head?_eq_some.mp hi
  obtain ⟨t, hat, hp⟩ := prepared_keeps.holds h i call hcall
  have hready : t = .ready := by
    cases hat.allowed hhead
    rfl
  obtain ⟨client, hclient, hoptions⟩ := hp.2 hready
  exact ⟨client, hclient, hoptions.trans (config_eq h.run)⟩

/-! ## Where the property fails -/

/-- In any run the calls go through the phases. -/
theorem phases_run {tr : List Label} {s : State} (h : clients.system.Run initial tr s) :
    discipline.Holds (fun _ _ _ _ => True) s :=
  Discipline.holds_of_run (fun _ _ _ _ => trivial) h

theorem not_post_ready (op : Operation) (r : Outcome) : ¬ Post op r .ready := by
  cases op <;> simp [Post]

/-- **A ready call dereferences `redis_`**, if its thread runs on alone, and finds the
instance as it was. -/
theorem reaches_redis {i : ℕ} {op : Operation} {p : Procedure Outcome} {s : State}
    (hp : p.Obeys (phases op) (Post op) .ready) (hcall : s.callers i = some ⟨op, p⟩)
    (hsome : s.shared.instance_.isSome = true) :
    ∃ tr s', clients.system.Run s tr s' ∧ s'.head? i = some .redis ∧
      s'.shared.instance_ = s.shared.instance_ := by
  induction p generalizing s with
  | ret r => exact absurd hp (not_post_ready op r)
  | act b k ih =>
    have hhead : s.head? i = some b := State.head?_of_callers hcall
    -- an action that leaves the call ready and the instance alone, and then the rest
    have hstep : (phases op).after .ready b (answer s.shared .ok b) = .ready →
        Possible i s.shared .ok b → (perform i s.shared .ok b).instance_ = s.shared.instance_ →
        ∃ tr s', clients.system.Run s tr s' ∧ s'.head? i = some .redis ∧
          s'.shared.instance_ = s.shared.instance_ := by
      intro hready hposs hinst
      have hrest := hp.2 (answer s.shared .ok b) trivial
      rw [hready] at hrest
      obtain ⟨tr, s', hrun, hredis, hinst'⟩ :=
        ih _ hrest (callers_act hcall b .ok) (by rw [← hsome, ← hinst]; rfl)
      exact ⟨.act i b .ok :: tr, s', hrun.cons ⟨hhead, hposs⟩, hredis, hinst'.trans hinst⟩
    cases hp.1 with
    | readyUnlock => exact hstep rfl rfl rfl
    | readyTest => exact hstep rfl ⟨rfl, hsome⟩ rfl
    | redis => exact ⟨[], s, .nil, hhead, rfl⟩

/-- A step that does not recover leaves its call ready, without an object of `config_`. -/
theorem ready_of_not_recovers {s : State} (hs : discipline.Holds (fun _ _ _ _ => True) s)
    {a : Label} (ha : clients.system.Enabled a s) (hC : ¬ Recovers s a) :
    ∃ i call, (next a s).callers i = some call ∧ discipline.At call .ready ∧
      (next a s).shared = s.shared ∧ s.shared.instance_.isSome = true ∧ ¬ s.shared.Synced := by
  unfold Recovers at hC
  split at hC
  -- a ping that succeeds
  · next i =>
    obtain ⟨call, hcall, hhead⟩ := State.head?_eq_some.mp ha.1
    obtain ⟨t, hat, -⟩ := hs i call hcall
    obtain ⟨client, hclient⟩ := Option.isSome_iff_exists.mp ha.2.2
    obtain ⟨self, hself, -⟩ := Option.bind_eq_some_iff.mp hclient
    refine ⟨i, _, callers_act hcall .ping .ok, ?_, rfl, by rw [hself]; rfl, hC⟩
    cases hat.allowed hhead
    exact Obeys.step hat hhead trivial
  -- the last attempt
  · next i attempt =>
    obtain ⟨hlast, hrest⟩ := Classical.not_imp.mp hC
    obtain ⟨hop, hsynced⟩ := Classical.not_imp.mp hrest
    subst hlast
    obtain ⟨call, hcall, hhead⟩ := State.head?_eq_some.mp ha.1
    obtain ⟨t, hat, -⟩ := hs i call hcall
    have hkind := hop _ (State.operation?_of_callers hcall)
    refine ⟨i, _, callers_act hcall (.construct maxRetries) .threw, ?_, rfl, ha.2.2, hsynced⟩
    cases hat.allowed hhead
    have hready : (phases call.operation).after .locked (.construct maxRetries) false = .ready := by
      rw [after_construct hkind]
      simp
    have hgo := Obeys.step (f := answer s.shared .threw) hat hhead trivial
    exact hready ▸ hgo
  · exact absurd trivial hC

/-- **When the client matches the configuration.**  It does in every run that recovers.
In any run, a step that does not recover lets its thread go on, alone, to a dereference
of `redis_` that finds no object of the configuration in force. -/
theorem matches_when {tr : List Label} {s : State} (h : clients.system.Run initial tr s) :
    (clients.system.RunBy (fun _ => Recovers) initial tr s → Matches tr s) ∧
    ∀ a, clients.system.Enabled a s → ¬ Recovers s a → ∃ tr' s',
      clients.system.Run (next a s) tr' s' ∧ ¬ Matches (tr ++ a :: tr') s' := by
  refine ⟨matches_of_recovers, fun a ha hC => ?_⟩
  obtain ⟨i, ⟨op, p⟩, hcall, hat, hshared, hsome, hsynced⟩ :=
    ready_of_not_recovers (phases_run h) ha hC
  obtain ⟨tr', s', hrun, hredis, hinst⟩ := reaches_redis hat hcall (by rw [hshared]; exact hsome)
  refine ⟨tr', s', hrun, fun hmatch => hsynced ?_⟩
  have hall : clients.system.Run initial (tr ++ a :: tr') s' := h.append (hrun.cons ha)
  obtain ⟨client, hclient, hoptions⟩ := hmatch i hredis
  rw [← hshared, ← synced_congr hinst]
  exact ⟨client, hclient, hoptions.trans (config_eq hall).symm⟩

/-! ## A null pointer, a server left behind, and a recovery -/

/-- Thread `i` issues `actions`, none of which throws. -/
def issues (i : ℕ) (actions : List Action) : List Label := actions.map (.act i · .ok)

/-- `connect` in thread `i`, where `outcomes` says how the attempts turn out. -/
def connectRun (i : ℕ) (outcomes : List (ℕ × Choice)) : List Label :=
  issues i [.lock .redisMutex] ++ outcomes.map (fun o => .act i (.construct o.1) o.2) ++
    issues i [.unlock .redisMutex]

def allThrow : List (ℕ × Choice) :=
  [(1, .threw), (2, .threw), (3, .threw), (4, .threw), (5, .threw)]

def setConfigRun (i : ℕ) (config : RedisConfig) (outcomes : List (ℕ × Choice)) : List Label :=
  [.call i (.setConfig config)] ++
    issues i [.lock .instanceMutex, .createInstance, .storeConfig config] ++
    connectRun i outcomes ++ issues i [.unlock .instanceMutex] ++ [.ret i (.setConfig config) .done]

/-- The `getClient` at the beginning of `op` with no connection, up to the dereference. -/
def getClientRun (i : ℕ) (op : Operation) (outcomes : List (ℕ × Choice)) : List Label :=
  [.call i op] ++
    issues i [.lock .instanceMutex, .createInstance, .lock .redisMutex, .testRedis,
      .unlock .redisMutex] ++
    connectRun i outcomes ++ issues i [.testRedis]

/-- The beginning of `getClient` with a connection that answers, up to the dereference. -/
def pingRun (i : ℕ) : List Label :=
  issues i [.lock .instanceMutex, .createInstance, .lock .redisMutex, .testRedis, .ping,
    .unlock .redisMutex, .testRedis]

def server : RedisConfig := { host := ascii ['a'] }

def otherServer : RedisConfig := { host := ascii ['b'] }

/-- The first `getClient` finds no server: `redis_` is null when it is dereferenced. -/
def nullRun : List Label := getClientRun 0 .getClient allThrow

/-- A `setConfig` that cannot connect leaves the previous object in place, whose ping
succeeds. -/
def staleRun : List Label :=
  setConfigRun 0 server [(1, .ok)] ++ setConfigRun 0 otherServer allThrow ++
    [.call 0 .getClient] ++ pingRun 0

theorem not_matches_staleRun :
    (¬ ∀ (tr : List Label) (s : State), clients.system.Run initial tr s →
      ∀ i, s.head? i = some .redis → s.shared.redis?.isSome = true) ∧
    ¬ ∀ (tr : List Label) (s : State), clients.system.Run initial tr s →
      ∀ i client, s.head? i = some .redis → s.shared.redis? = some client →
        client.options = toConnectionOptions (configured tr) := by
  have hnull : clients.system.Legal nullRun initial := by decide
  have hstale : clients.system.Legal staleRun initial := by decide
  constructor
  · intro hall
    have hsome := hall _ _ (TransitionSystem.run_of_legal hnull) 0 (by decide)
    exact absurd hsome (by decide)
  · intro hall
    have heq := hall _ _ (TransitionSystem.run_of_legal hstale) 0 ⟨1, toConnectionOptions server⟩
      (by decide) (by decide)
    exact absurd heq (by decide)

/-- After a `setConfig` that cannot connect, `getClient` connects at its second attempt. -/
def recoveredRun : List Label :=
  setConfigRun 0 server allThrow ++ getClientRun 1 .getClient [(1, .threw), (2, .ok)]

/-- The run that recovers, and the last attempt of the first `getClient` in `nullRun`. -/
theorem matches_when_recoveredRun :
    Matches recoveredRun (clients.system.after recoveredRun initial) ∧
      ∃ tr' s', clients.system.Run
          (next (.act 0 (.construct 5) .threw) (clients.system.after (nullRun.take 11) initial))
          tr' s' ∧
        ¬ Matches (nullRun.take 11 ++ .act 0 (.construct 5) .threw :: tr') s' := by
  have hlegal : (clients.system.restrict Recovers).Legal recoveredRun initial := by decide
  have hby := TransitionSystem.runBy_of_legal (C := fun _ => Recovers) (fun _ _ _ h => h) hlegal
  have hnull : clients.system.Legal (nullRun.take 11) initial := by decide
  exact ⟨(matches_when hby.run).1 hby,
    (matches_when (TransitionSystem.run_of_legal hnull)).2 _ (by decide) (by decide)⟩

end RedisClient
