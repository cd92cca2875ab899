/-
# The client and its server refine the storage

`served` runs the client of `RedisClient` against one database of one server, the
one that every configuration names: a command that does not throw gets the reply of
the store and takes effect there.  `storage` has one step for a whole `getClient`,
with its two mutexes, its ping and its attempts to connect; `see` says which steps
of `served` a run of `storage` has, and `refines_storage` that every run of `served`
is seen as a run of `storage` over the same store.  What holds of the storage's
runs then holds of the client's (`holds_unique`).
-/
import RedisStateManager.Refinement
import RedisStateManager.ClientGeneration
import RedisStateManager.StorageLock

namespace RedisClient

open Redis Program Service

/-! ## The client with its server -/

/-- What the threads share. -/
structure Served where
  client : Shared
  store : Store

/-- How an action turns out; `took` says whether a command took effect. -/
structure Turn where
  choice : Choice
  took : Bool
  deriving DecidableEq, Repr

/-- A command that does not throw gets the server's reply and takes effect.  So does one
on an object that has been replaced since `getClient` returned it, which is undefined
behaviour (`ClientGeneration`). -/
def Responds (store : Store) (turn : Turn) : Action → Prop
  | .command _ c =>
    turn.choice = .reply .error ∨ turn.choice = .reply (c.reply store) ∧ turn.took = true
  | _ => True

/-- The store after an action. -/
def storeAfter (store : Store) (took : Bool) : Action → Store
  | .command _ c => if took then c.effect store else store
  | _ => store

/-- Any number of threads that use the client, and the server.  There is one store, for
all configurations lead to the same database. -/
def served : Service Action Answer Served Turn Operation Outcome where
  procedure := Operation.procedure
  Possible i s turn a := Possible i s.client turn.choice a ∧ Responds s.store turn a
  answer s turn := answer s.client turn.choice
  perform i s turn a := ⟨perform i s.client turn.choice a, storeAfter s.store turn.took a⟩

/-- No client has been made, and the server holds `store`. -/
def servedInitial (store : Store) : served.State := served.start ⟨⟨none, fun _ => none, 0⟩, store⟩

instance (store : Store) (turn : Turn) : ∀ a, Decidable (Responds store turn a)
  | .command _ c => inferInstanceAs (Decidable (_ ∨ turn.choice = .reply (c.reply store) ∧ _))
  | .lock _ | .unlock _ | .createInstance | .storeConfig _ | .testRedis | .ping | .construct _
  | .redis => isTrue trivial

instance (i : ℕ) (s : Served) (turn : Turn) (a : Action) :
    Decidable (served.Possible i s turn a) :=
  inferInstanceAs (Decidable (clients.Possible i s.client turn.choice a ∧ Responds s.store turn a))

/-! ## What the storage sees of the client -/

def Operation.storing : Operation → Bool
  | storage _ => true
  | setConfig _ | getClient => false

/-- A dereference of `redis_` is the whole `getClient` of a storage operation. -/
def view (storing : Bool) : View Action Answer RedisStorage.Action RedisStorage.Answer
  | .redis, (redis : ℕ) => if storing then some ⟨.getClient, redis⟩ else none
  | .command redis c, (r : Reply) => some ⟨.command redis c, r⟩
  | .lock _, _ | .unlock _, _ | .createInstance, _ | .storeConfig _, _ | .testRedis, _ | .ping, _
  | .construct _, _ => none

section Programs

variable {storing : Bool}

theorem silent_issue {a : Action} (h : ∀ r, view storing a r = none) :
    Silent (view storing) (issue a) :=
  silent_act h fun _ => silent_ret _

theorem silent_isConnected : Silent (view storing) isConnected := by
  refine (silent_issue fun _ => rfl).bind fun _ => (silent_issue fun _ => rfl).bind fun found => ?_
  have hunlock (b : Bool) :
      Silent (view storing) (issue (.unlock .redisMutex) >>= fun _ => ret b) :=
    (silent_issue fun _ => rfl).bind fun _ => silent_ret b
  cases found with
  | true => exact (silent_issue fun _ => rfl).bind fun alive => hunlock alive
  | false => exact hunlock false

theorem silent_attempts (left : ℕ) : Silent (view storing) (attempts left) := by
  induction left with
  | zero => exact silent_ret ()
  | succ left ih =>
    refine (silent_issue fun _ => rfl).bind fun ok => ?_
    cases ok with
    | true => exact silent_ret ()
    | false => exact ih

theorem silent_connect : Silent (view storing) connect :=
  (silent_issue fun _ => rfl).bind fun _ =>
    (silent_attempts maxRetries).bind fun _ => silent_issue fun _ => rfl

theorem silent_setConfig (config : RedisConfig) : Silent (view storing) (setConfig config) :=
  (silent_issue fun _ => rfl).bind fun _ => (silent_issue fun _ => rfl).bind fun _ =>
    (silent_issue fun _ => rfl).bind fun _ => silent_connect.bind fun _ =>
      silent_issue fun _ => rfl

/-- **`getClient`** up to its dereference is not seen. -/
theorem getClient_refines {β : Type} {out : ℕ → β → Prop} {q : RedisStorage.Procedure β}
    (h : (do
      let redis ← issue .redis
      issue (.unlock .instanceMutex)
      return redis : Procedure ℕ).Refines (view storing) out q) :
    getClient.Refines (view storing) out q := by
  have hready : (do
      let _ ← issue .testRedis
      let redis ← issue .redis
      issue (.unlock .instanceMutex)
      return redis : Procedure ℕ).Refines (view storing) out q :=
    (silent_issue fun _ => rfl).bind_refines fun _ => h
  refine (silent_issue fun _ => rfl).bind_refines fun _ => ?_
  refine (silent_issue fun _ => rfl).bind_refines fun _ => ?_
  refine silent_isConnected.bind_refines fun alive => ?_
  cases alive with
  | true => exact hready
  | false => exact silent_connect.bind_refines fun _ => hready

theorem getClient_refines_getClient :
    getClient.Refines (view true) Eq RedisStorage.getClient := by
  refine getClient_refines (refines_act_seen (f := id) (fun _ => rfl) fun redis => ?_)
  exact (silent_issue fun _ => rfl).bind_refines fun _ => refines_ret rfl

theorem silent_getClient : Silent (view false) getClient := by
  have hend : Silent (view false)
      (issue .redis >>= fun redis => issue (.unlock .instanceMutex) >>= fun _ => ret redis) :=
    (silent_issue fun _ => rfl).bind fun redis =>
      (silent_issue fun _ => rfl).bind fun _ => silent_ret redis
  exact getClient_refines hend

/-- **An operation of the storage over the client is that operation.** -/
theorem ofStorage_refines {α : Type} (p : RedisStorage.Procedure α) :
    (ofStorage p).Refines (view true) Eq p := by
  induction p with
  | ret x => exact refines_ret rfl
  | act a k ih =>
    cases a with
    | getClient =>
      refine getClient_refines_getClient.bind (g := k) ?_
      rintro redis _ rfl
      exact ih redis
    | command redis c => exact refines_act_seen (f := id) (fun _ => rfl) ih

end Programs

def Choice.reply? : Choice → Option Reply
  | reply r => some r
  | ok | threw => none

/-- The step of the storage that an action of thread `i` is. -/
def seeAction (i : ℕ) (storing : Bool) (turn : Turn) : Action → Option RedisStorage.Label
  | .redis => if storing then some (.getClient i false) else none
  | .command redis c => turn.choice.reply?.map fun r => .command i redis c r turn.took
  | .construct _ => if turn.choice = .ok then some .setConfig else none
  | _ => none

/-- The step of the storage that a step of the client is. -/
def see (s : served.State) : served.Label → Option RedisStorage.Label
  | .call i (.storage op) => some (.call i op)
  | .act i a turn => seeAction i ((s.operation? i).any Operation.storing) turn a
  | .ret i (.storage op) (.result r) => some (.ret i op r)
  | _ => none

/-! ## The simulation -/

/-- A call of the client's, and the call of the storage that it is. -/
inductive Corresponds : Option served.Call → Option RedisStorage.Call → Prop
  | idle : Corresponds none none
  | storage {op : RedisStorage.Operation} {rest : Procedure Outcome}
      {exchanges : List (Command × Reply)} {rest' : RedisStorage.Procedure RedisStorage.Result}
      (h : rest.Refines (view true) (fun o r => o = .result r) rest') :
      Corresponds (some ⟨.storage op, rest⟩) (some ⟨op, exchanges, rest'⟩)
  | other {op : Operation} {rest : Procedure Outcome} (hop : op.storing = false)
      (h : Silent (view false) rest) : Corresponds (some ⟨op, rest⟩) none

/-- `redis_` owns the object constructed last. -/
def Shared.Latest (s : Shared) : Prop := ∀ redis ∈ s.generation?, redis = s.made

/-- A state of the client with its server, and the state of the storage that it is. -/
structure Abstracts (s : served.State) (u : RedisStorage.State) : Prop where
  store : u.store = s.shared.store
  redis : u.redis = s.shared.client.made
  latest : s.shared.client.Latest
  calls : ∀ i, Corresponds (s.callers i) (u.clients i)

theorem made_perform_of_threw {b : Action} {choice : Choice}
    (h : ∀ attempt, b = .construct attempt → choice = .threw) (i : ℕ) (s : Shared) :
    (perform i s choice b).made = s.made := by
  cases b with
  | construct attempt =>
    obtain rfl := h attempt rfl
    rfl
  | _ => rfl

theorem Shared.Latest.perform {s : Shared} (hs : s.Latest) {i : ℕ} {choice : Choice} {b : Action}
    (h : Possible i s choice b) : (RedisClient.perform i s choice b).Latest := by
  intro redis hredis
  by_cases hb : ∀ attempt, b = .construct attempt → choice = .threw
  · rw [generation?_perform hb] at hredis
    rw [made_perform_of_threw hb]
    exact hs redis hredis
  · obtain ⟨attempt, hb⟩ := not_forall.mp hb
    obtain ⟨rfl, hchoice⟩ := Classical.not_imp.mp hb
    obtain rfl : choice = .ok := h.1.resolve_right hchoice
    have hnew := generation?_construct h.2
    exact (Option.some.inj (hnew.symm.trans hredis)).symm

/-- The answer to a dereference is the object constructed last. -/
theorem Shared.Latest.answer {s : Shared} (hs : s.Latest) {i : ℕ} {choice : Choice}
    (h : Possible i s choice .redis) : RedisClient.answer s choice .redis = s.made := by
  obtain ⟨client, hclient⟩ := Option.isSome_iff_exists.mp h.2
  have hgen : s.generation? = some client.generation := by simp [Shared.generation?, hclient]
  have hanswer : RedisClient.answer s choice .redis = client.generation := by
    simp [RedisClient.answer, hclient]
  rw [hanswer]
  exact hs _ hgen

/-- The calls after a step of thread `i`. -/
theorem corresponds_update {f : ℕ → Option served.Call} {g : ℕ → Option RedisStorage.Call}
    (h : ∀ j, Corresponds (f j) (g j)) (i : ℕ) {c : Option served.Call}
    {d : Option RedisStorage.Call} (hi : Corresponds c d) :
    ∀ j, Corresponds (Function.update f i c j) (Function.update g i d j) := by
  intro j
  by_cases hj : j = i
  · subst hj
    rw [Function.update_self, Function.update_self]
    exact hi
  · rw [Function.update_of_ne hj, Function.update_of_ne hj]
    exact h j

/-- The calls after a step of thread `i` that the storage does not see. -/
theorem corresponds_update_left {f : ℕ → Option served.Call} {g : ℕ → Option RedisStorage.Call}
    (h : ∀ j, Corresponds (f j) (g j)) (i : ℕ) {c : Option served.Call} (hi : Corresponds c (g i)) :
    ∀ j, Corresponds (Function.update f i c j) (g j) := by
  have hall := corresponds_update h i hi
  rwa [Function.update_eq_self] at hall

/-- The program of an operation, as the storage sees it. -/
theorem corresponds_procedure (op : RedisStorage.Operation) :
    Corresponds (some ⟨.storage op, served.procedure (.storage op)⟩)
      (some ⟨op, [], op.procedure⟩) := by
  refine .storage ((ofStorage_refines op.procedure).map ?_)
  rintro r _ rfl
  rfl

theorem corresponds_procedure_of_not_storing {op : Operation} (hop : op.storing = false) :
    Corresponds (some ⟨op, served.procedure op⟩) none := by
  refine .other hop ?_
  cases op with
  | setConfig config => exact (silent_setConfig config).bind fun _ => silent_ret _
  | getClient => exact silent_getClient.bind fun redis => silent_ret _
  | storage op => exact absurd hop (by simp [Operation.storing])

section Step

variable {s : served.State} {u : RedisStorage.State}

theorem Abstracts.call (h : Abstracts s u) {i : ℕ} (hidle : s.callers i = none) (op : Operation) :
    RedisStorage.storage.EnabledOn (see s (.call i op)) u ∧
      Abstracts (next (.call i op) s) (RedisStorage.storage.nextOn (see s (.call i op)) u) := by
  have hnone : u.clients i = none := by
    have hi := h.calls i
    rw [hidle] at hi
    generalize u.clients i = d at hi
    cases hi
    rfl
  cases op with
  | storage op =>
    refine ⟨TransitionSystem.enabledOn_some.mpr hnone, h.store, h.redis, h.latest, ?_⟩
    exact corresponds_update h.calls i (corresponds_procedure op)
  | setConfig config =>
    refine ⟨TransitionSystem.enabledOn_none, h.store, h.redis, h.latest, ?_⟩
    refine corresponds_update_left h.calls i ?_
    rw [hnone]
    exact corresponds_procedure_of_not_storing rfl
  | getClient =>
    refine ⟨TransitionSystem.enabledOn_none, h.store, h.redis, h.latest, ?_⟩
    refine corresponds_update_left h.calls i ?_
    rw [hnone]
    exact corresponds_procedure_of_not_storing rfl

/-- A thread returns what the storage's client returns. -/
theorem Abstracts.ret (h : Abstracts s u) {i : ℕ} {op : Operation} {o : Outcome}
    (hres : s.result? i = some (op, o)) :
    RedisStorage.storage.EnabledOn (see s (.ret i op o)) u ∧
      Abstracts (next (.ret i op o) s) (RedisStorage.storage.nextOn (see s (.ret i op o)) u) := by
  obtain ⟨call, hcall, hmap⟩ := Option.bind_eq_some_iff.mp hres
  obtain ⟨o', ho', heq⟩ := Option.map_eq_some_iff.mp hmap
  obtain ⟨rfl, rfl⟩ := Prod.mk.inj heq
  have hi := h.calls i
  rw [hcall] at hi
  generalize hd : u.clients i = d at hi
  cases hi with
  | @storage op rest exchanges rest' hrest =>
    obtain ⟨r, hr, rfl⟩ := hrest.result ho'
    refine ⟨TransitionSystem.enabledOn_some.mpr ?_, h.store, h.redis, h.latest, ?_⟩
    · show u.result? i = some (op, r)
      simp [RedisStorage.State.result?, hd, hr]
    · exact corresponds_update h.calls i .idle
  | @other op rest hop hrest =>
    have hsee : see s (.ret i op o') = none := by
      cases op with
      | storage op => exact absurd hop (by simp [Operation.storing])
      | _ => rfl
    rw [hsee]
    refine ⟨TransitionSystem.enabledOn_none, h.store, h.redis, h.latest, ?_⟩
    refine corresponds_update_left h.calls i ?_
    rw [hd]
    exact .idle

/-- The calls after an action of thread `i`. -/
theorem Abstracts.calls_act (h : Abstracts s u) {i : ℕ} {call : served.Call}
    (hcall : s.callers i = some call) {a : Action} {turn : Turn} {u' : RedisStorage.State}
    (hi : Corresponds (some { call with rest := call.rest.step (served.answer s.shared turn) })
      (u'.clients i))
    (hframe : ∀ j, j ≠ i → u'.clients j = u.clients j) (j : ℕ) :
    Corresponds ((next (.act i a turn) s).callers j) (u'.clients j) := by
  by_cases hj : j = i
  · subst hj
    rw [callers_act hcall]
    exact hi
  · rw [callers_next_of_ne hj, hframe j hj]
    exact h.calls j

/-- An action that no call of the storage takes part in: the storage sees at most that
another object has been constructed. -/
theorem Abstracts.act_quiet (h : Abstracts s u) {i : ℕ} {a : Action} {turn : Turn}
    (hposs : served.Possible i s.shared turn a) (hcommand : ∀ redis c, a ≠ .command redis c)
    {storing : Bool} (hredis : a = .redis → storing = false)
    (hcalls : ∀ j, Corresponds ((next (.act i a turn) s).callers j) (u.clients j)) :
    RedisStorage.storage.EnabledOn (seeAction i storing turn a) u ∧
      Abstracts (next (.act i a turn) s)
        (RedisStorage.storage.nextOn (seeAction i storing turn a) u) := by
  have hlatest : (perform i s.shared.client turn.choice a).Latest := h.latest.perform hposs.1
  cases a with
  | command redis c => exact absurd rfl (hcommand redis c)
  | redis =>
    obtain rfl := hredis rfl
    exact ⟨TransitionSystem.enabledOn_none, h.store, h.redis, hlatest, hcalls⟩
  | construct attempt =>
    by_cases hok : turn.choice = .ok
    · have hsee : seeAction i storing turn (.construct attempt) = some .setConfig := if_pos hok
      rw [hsee]
      refine ⟨TransitionSystem.enabledOn_some.mpr trivial, h.store, ?_, hlatest, hcalls⟩
      show u.redis + 1 = (if turn.choice = Choice.threw then _ else _ : Shared).made
      rw [if_neg (by rw [hok]; decide), h.redis]
      rfl
    · have hsee : seeAction i storing turn (.construct attempt) = none := if_neg hok
      have hthrew : turn.choice = .threw := hposs.1.1.resolve_left hok
      rw [hsee]
      refine ⟨TransitionSystem.enabledOn_none, h.store, ?_, hlatest, hcalls⟩
      show u.redis = (if turn.choice = Choice.threw then _ else _ : Shared).made
      rw [if_pos hthrew, h.redis]
  | _ => exact ⟨TransitionSystem.enabledOn_none, h.store, h.redis, hlatest, hcalls⟩

section Storing

variable {i : ℕ} {op : RedisStorage.Operation} {rest : Procedure Outcome}
  {exchanges : List (Command × Reply)} {rest' : RedisStorage.Procedure RedisStorage.Result}
  {turn : Turn}

/-- A dereference of `redis_` is the `getClient` of the storage. -/
theorem Abstracts.act_redis (h : Abstracts s u)
    (hcall : s.callers i = some ⟨.storage op, rest⟩)
    (hclient : u.clients i = some ⟨op, exchanges, rest'⟩)
    (hrest : rest.Refines (view true) (fun o r => o = .result r) rest')
    (hhead : rest.head? = some .redis) (hposs : served.Possible i s.shared turn .redis) :
    RedisStorage.storage.Enabled (.getClient i false) u ∧
      Abstracts (next (.act i .redis turn) s) (RedisStorage.next (.getClient i false) u) := by
  obtain ⟨q', hq', hstep⟩ := hrest.step hhead (served.answer s.shared turn)
  have hlast : (RedisStorage.answer u.redis .error .getClient : ℕ) =
      served.answer s.shared turn .redis := h.redis.trans (h.latest.answer hposs.1).symm
  obtain rfl := hq'.eq_step (f := RedisStorage.answer u.redis .error) hlast
  refine ⟨?_, h.store, h.redis, h.latest.perform hposs.1, ?_⟩
  · show u.head? i = some .getClient
    rw [RedisStorage.State.head?, hclient]
    exact hq'.head?
  · have hnew : (RedisStorage.next (.getClient i false) u).clients i = _ :=
      Function.update_self ..
    rw [hclient] at hnew
    refine h.calls_act hcall (hnew ▸ .storage hstep) fun j hj => ?_
    have hother : (RedisStorage.Label.getClient i false).client? ≠ some j :=
      fun hb => hj (Option.some.inj hb).symm
    exact RedisStorage.clients_next_of_ne hother u

/-- A command of the client's is a command of the storage's. -/
theorem Abstracts.act_command (h : Abstracts s u)
    (hcall : s.callers i = some ⟨.storage op, rest⟩)
    (hclient : u.clients i = some ⟨op, exchanges, rest'⟩)
    (hrest : rest.Refines (view true) (fun o r => o = .result r) rest') {redis : ℕ} {c : Command}
    (hhead : rest.head? = some (.command redis c))
    (hposs : served.Possible i s.shared turn (.command redis c)) :
    ∃ r, turn.choice = .reply r ∧
      RedisStorage.storage.Enabled (.command i redis c r turn.took) u ∧
      Abstracts (next (.act i (.command redis c) turn) s)
        (RedisStorage.next (.command i redis c r turn.took) u) := by
  obtain ⟨q', hq', hstep⟩ := hrest.step hhead (served.answer s.shared turn)
  obtain ⟨choice, took⟩ := turn
  obtain ⟨r, rfl, hr⟩ : ∃ r, choice = .reply r ∧
      (r = .error ∨ r = c.reply s.shared.store ∧ took = true) := by
    rcases hposs.2 with hr | ⟨hr, htook⟩
    · exact ⟨_, hr, Or.inl rfl⟩
    · exact ⟨_, hr, Or.inr ⟨rfl, htook⟩⟩
  obtain rfl := hq'.eq_step (f := RedisStorage.answer u.redis r) rfl
  refine ⟨r, rfl, ⟨?_, h.store ▸ hr⟩, ?_, h.redis, h.latest.perform hposs.1, ?_⟩
  · rw [RedisStorage.State.head?, hclient]
    exact hq'.head?
  · show (if took then c.effect u.store else u.store) = _
    rw [h.store]
    rfl
  · have hnew : (RedisStorage.next (.command i redis c r took) u).clients i = _ :=
      Function.update_self ..
    rw [hclient] at hnew
    refine h.calls_act hcall (hnew ▸ .storage hstep) fun j hj => ?_
    have hother : (RedisStorage.Label.command i redis c r took).client? ≠ some j :=
      fun hb => hj (Option.some.inj hb).symm
    exact RedisStorage.clients_next_of_ne hother u

/-- **An action of a storage operation** is seen as the step its program takes above. -/
theorem Abstracts.act_storing (h : Abstracts s u)
    (hcall : s.callers i = some ⟨.storage op, rest⟩)
    (hclient : u.clients i = some ⟨op, exchanges, rest'⟩)
    (hrest : rest.Refines (view true) (fun o r => o = .result r) rest') {a : Action}
    (hhead : rest.head? = some a) (hposs : served.Possible i s.shared turn a) :
    RedisStorage.storage.EnabledOn (seeAction i true turn a) u ∧
      Abstracts (next (.act i a turn) s)
        (RedisStorage.storage.nextOn (seeAction i true turn a) u) := by
  -- an action that is not seen leaves the call above where it is
  have hquiet (hview : view true a (served.answer s.shared turn a) = none) (j : ℕ) :
      Corresponds ((next (.act i a turn) s).callers j) (u.clients j) := by
    obtain ⟨q', hq', hstep⟩ := hrest.step hhead (served.answer s.shared turn)
    rw [hview] at hq'
    obtain rfl := hq'.eq_of_silent
    refine h.calls_act hcall ?_ (fun _ _ => rfl) j
    rw [hclient]
    exact .storage hstep
  cases a with
  | redis =>
    obtain ⟨henabled, hnext⟩ := h.act_redis hcall hclient hrest hhead hposs
    exact ⟨TransitionSystem.enabledOn_some.mpr henabled, hnext⟩
  | command redis c =>
    obtain ⟨r, hr, henabled, hnext⟩ := h.act_command hcall hclient hrest hhead hposs
    have hsee : seeAction i true turn (.command redis c) =
        some (.command i redis c r turn.took) := by
      simp [seeAction, hr, Choice.reply?]
    rw [hsee]
    exact ⟨TransitionSystem.enabledOn_some.mpr henabled, hnext⟩
  | _ => exact h.act_quiet hposs (by simp) (by simp) (hquiet rfl)

end Storing

/-- An action of a call that is not the storage's. -/
theorem Abstracts.act_other (h : Abstracts s u) {i : ℕ} {op : Operation}
    (hop : op.storing = false) {rest : Procedure Outcome} (hcall : s.callers i = some ⟨op, rest⟩)
    (hclient : u.clients i = none) (hrest : Silent (view false) rest) {a : Action} {turn : Turn}
    (hhead : rest.head? = some a) (hposs : served.Possible i s.shared turn a) :
    RedisStorage.storage.EnabledOn (seeAction i false turn a) u ∧
      Abstracts (next (.act i a turn) s)
        (RedisStorage.storage.nextOn (seeAction i false turn a) u) := by
  obtain ⟨q', hq', hstep⟩ := hrest.step hhead (served.answer s.shared turn)
  have hcommand (redis : ℕ) (c : Command) : a ≠ .command redis c := by
    rintro rfl
    have hnone := hq'.head?
    exact absurd hnone (by simp [Program.head?])
  refine h.act_quiet hposs hcommand (fun _ => rfl) fun j => ?_
  have hview : view false a (served.answer s.shared turn a) = none := by
    cases a with
    | command redis c => exact absurd rfl (hcommand redis c)
    | _ => rfl
  rw [hview] at hq'
  obtain rfl := hq'.eq_of_silent
  refine h.calls_act hcall ?_ (fun _ _ => rfl) j
  rw [hclient]
  exact .other hop hstep

/-- **One step of the client** is seen as one step of the storage, or as none. -/
theorem Abstracts.next (h : Abstracts s u) {a : served.Label} (ha : served.system.Enabled a s) :
    RedisStorage.storage.EnabledOn (see s a) u ∧
      Abstracts (served.system.next a s) (RedisStorage.storage.nextOn (see s a) u) := by
  cases a with
  | call i op => exact h.call ha op
  | ret i op o => exact h.ret ha
  | act i a turn =>
    obtain ⟨⟨op, rest⟩, hcall, hhead⟩ := State.head?_eq_some.mp ha.1
    have hop : s.operation? i = some op := State.operation?_of_callers hcall
    have hsee : see s (.act i a turn) = seeAction i op.storing turn a := by
      simp [see, hop]
    have hi := h.calls i
    rw [hcall] at hi
    rw [hsee]
    generalize hd : u.clients i = d at hi
    cases hi with
    | storage hrest => exact h.act_storing hcall hd hrest hhead ha.2
    | other hop hrest =>
      rw [hop]
      exact h.act_other hop hcall hd hrest hhead ha.2

end Step

theorem abstracts_initial (store : Store) :
    Abstracts (servedInitial store) (RedisStorage.initial store) where
  store := rfl
  redis := rfl
  latest _ hredis :=
    absurd hredis (by simp [servedInitial, start, Shared.generation?, Shared.redis?])
  calls _ := .idle

/-- The storage's steps in a run of the client. -/
def seen (store : Store) (tr : List served.Label) : List RedisStorage.Label :=
  served.system.observe see tr (servedInitial store)

/-- **The client and its server refine the storage**: any number of threads, however their
calls, pings, failed constructors and reconnections interleave, run the storage's
operations as `storage` does, with the same calls, commands, replies and results, over
the same store. -/
theorem refines_storage {store : Store} {tr : List served.Label} {s : served.State}
    (h : served.system.Run (servedInitial store) tr s) :
    ∃ u, RedisStorage.storage.Run (RedisStorage.initial store) (seen store tr) u ∧
      u.store = s.shared.store ∧ ∀ i, Corresponds (s.callers i) (u.clients i) := by
  have hby := h.runBy_of_forall (C := fun _ _ _ => True) fun _ _ _ _ => trivial
  obtain ⟨u, hu, habs⟩ := hby.simulate (D := fun _ _ _ => True) (abstracts_initial store)
    fun _ _ _ _ hrel ha _ => ⟨(hrel.next ha).1, (hrel.next ha).2, fun _ _ => trivial⟩
  exact ⟨u, hu.run, habs.store, habs.calls⟩

/-- Each thread unlocks once for each `tryLock` that returned true, and uses no key that
begins with the lock prefix. -/
def UnlocksOwn (store : Store) (tr : List served.Label) (_ : served.State) :
    served.Label → Prop
  | .call i (.storage op) =>
    ¬ RedisStorage.lockPrefix <+: op.key ∧
      ∀ k, op = .unlock k → RedisStorage.lockKey k ∈ RedisStorage.acquired i (seen store tr)
  | _ => True

theorem UnlocksOwn.see {store : Store} {tr : List served.Label} {s : served.State}
    {u : RedisStorage.State} {a : served.Label} (h : UnlocksOwn store tr s a)
    {b : RedisStorage.Label} (hb : see s a = some b) :
    RedisStorage.UnlocksOwn (seen store tr) u b := by
  cases b with
  | call i op =>
    unfold RedisClient.see at hb
    split at hb
    · obtain ⟨rfl, rfl⟩ := RedisStorage.Label.call.inj (Option.some.inj hb)
      exact h
    · unfold seeAction at hb
      split at hb <;> simp at hb
    · simp at hb
    · simp at hb
  | _ => trivial

/-- **Mutual exclusion over the client**: no two threads are between a `SETNX` that took the
lock of a key and their `DEL` of it, and the lock's entry is in the store meanwhile, whatever
the connections do. -/
theorem holds_unique {store : Store} {tr : List served.Label} {s : served.State}
    (h : served.system.RunBy (UnlocksOwn store) (servedInitial store) tr s) (key : Bytes) :
    (∀ i j, RedisStorage.Holds (seen store tr) i key → RedisStorage.Holds (seen store tr) j key →
      i = j) ∧
    ∀ i, RedisStorage.Holds (seen store tr) i key →
      (s.shared.store (RedisStorage.lockKey key)).isSome := by
  obtain ⟨u, hu, habs⟩ := h.simulate (D := RedisStorage.UnlocksOwn) (abstracts_initial store)
    fun _ _ _ _ hrel ha hC => ⟨(hrel.next ha).1, (hrel.next ha).2, fun _ hb => hC.see hb⟩
  have hdisc := RedisStorage.disciplined hu
  refine ⟨fun i j hi hj => hdisc.unique i j _ hi hj, fun i hi => ?_⟩
  rw [← habs.store]
  exact hdisc.kept i _ hi

/-! ## A write and a contender -/

/-- The commands of a run take effect. -/
def withServer : Label → served.Label
  | .call i op => .call i op
  | .act i a choice => .act i a ⟨choice, true⟩
  | .ret i op o => .ret i op o

def lockCommand : Command := .setnx (RedisStorage.lockKey [1]) RedisStorage.locked

/-- Thread 0 connects with its second attempt, writes, and has taken the lock when thread 1
tries to. -/
def contendedSteps : List Label :=
  setConfigRun 0 server [(1, .threw), (2, .ok)] ++ [.call 0 (.storage (.write [1] [2]))] ++
    commandRun lockCommand (.integer 1) ++ [.call 1 (.storage (.tryLock [1]))] ++ pingRun 1 ++
    issues 1 [.redis, .unlock .instanceMutex] ++
    [.act 1 (.command 1 lockCommand) (.reply (.integer 0))]

def contendedRun : List served.Label := contendedSteps.map withServer

def emptyStore : Store := fun _ => none

theorem contendedRun_seen :
    seen emptyStore contendedRun =
      [.setConfig, .call 0 (.write [1] [2]), .getClient 0 false,
        .command 0 1 lockCommand (.integer 1) true, .call 1 (.tryLock [1]), .getClient 1 false,
        .command 1 1 lockCommand (.integer 0) true] := by
  decide

theorem refines_storage_contendedRun :
    ∃ u, RedisStorage.storage.Run (RedisStorage.initial emptyStore)
        (seen emptyStore contendedRun) u ∧
      (u.store (RedisStorage.lockKey [1])).isSome = true := by
  have hlegal : served.system.Legal contendedRun (servedInitial emptyStore) := by decide
  obtain ⟨u, hu, hstore, -⟩ := refines_storage (TransitionSystem.run_of_legal hlegal)
  refine ⟨u, hu, ?_⟩
  rw [hstore]
  decide

/-- A call that needs no lock, of a key that does not begin with the lock prefix. -/
def plainCall : served.Label → Bool
  | .call i (.storage op) => (RedisStorage.Label.call i op).plainCall
  | _ => true

theorem unlocksOwn_of_plainCall {store : Store} {tr : List served.Label} {s : served.State}
    {a : served.Label} (h : plainCall a = true) : UnlocksOwn store tr s a := by
  unfold UnlocksOwn
  split
  · next i op => exact RedisStorage.Label.plainCall_unlocksOwn (s := ⟨store, 0, fun _ => none⟩) h
  · trivial

theorem holds_unique_contendedRun :
    RedisStorage.Holds (seen emptyStore contendedRun) 0 [1] ∧
      ∀ j, RedisStorage.Holds (seen emptyStore contendedRun) j [1] → j = 0 := by
  have hlegal : (served.system.restrict fun _ a => plainCall a = true).Legal contendedRun
      (servedInitial emptyStore) := by decide
  have hby := TransitionSystem.runBy_of_legal (C := UnlocksOwn emptyStore)
    (fun _ _ _ => unlocksOwn_of_plainCall) hlegal
  have hholds : RedisStorage.Holds (seen emptyStore contendedRun) 0 [1] := by
    unfold RedisStorage.Holds
    rw [contendedRun_seen]
    decide
  exact ⟨hholds, fun j hj => (holds_unique hby [1]).1 j 0 hj hholds⟩

end RedisClient
