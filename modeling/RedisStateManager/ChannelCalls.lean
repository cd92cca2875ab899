/-
# Calls in progress

A call in progress is the rest of its program, and what it may still do follows
from the protocol its program keeps to.  `Tracks` relates the local state of the
protocol to the state of the channel, for every call in progress at once, and
`Tracks.next` says what has to be shown of a step.  A protocol takes no notice of
most actions (`Ignores`), so what has to be shown of an operation is left to the
functions that issue the others.  `keeping` bounds what a call sets and subscribes
to, `claiming` says which calls are going to start a consumer thread.
-/
import RedisStateManager.ChannelState

namespace RedisChannel

open Redis Program

variable {Callback : Type} {α τ : Type}

/-! ## Local states -/

/-- Every call in progress keeps to the protocol, from a local state that `I`
relates to the state. -/
def Tracks (P : Protocol (Action Callback) Answer τ)
    (post : Operation Callback → Outcome → τ → Prop)
    (I : ℕ → τ → State Callback → Prop) (s : State Callback) : Prop :=
  ∀ i call, s.callers i = some call → ∃ t, call.rest.Obeys P (post call.operation) t ∧ I i t s

section Tracks

variable {P : Protocol (Action Callback) Answer τ} {post : Operation Callback → Outcome → τ → Prop}
  {I : ℕ → τ → State Callback → Prop} {s : State Callback} {a : Label Callback}

/-- **A step keeps the calls on their tracks** if a call begins on them, its own
actions follow the protocol, and the others leave its local state right. -/
theorem Tracks.next (h : Enabled a s) (hs : Tracks P post I s)
    (hcall : ∀ i op, a = .call i op → ∃ t, op.procedure.Obeys P (post op) t ∧ I i t (next a s))
    (hact : ∀ i b choice t, a = .act i b choice → I i t s → P.Allowed t b →
      Possible i s.shared choice b → P.Possible t b (answer s.shared choice b) ∧
        I i (P.after t b (answer s.shared choice b)) (next a s))
    (hother : ∀ i t call, s.callers i = some call → a.caller? ≠ some i → I i t s →
      I i t (next a s)) :
    Tracks P post I (next a s) := by
  intro i call hi
  rcases call_next h hi with ⟨ha, hold⟩ | ⟨op, rfl, -, rfl⟩ |
    ⟨call', b, choice, rfl, hold, hhead, hpossible, rfl⟩
  · obtain ⟨t, hobeys, hI⟩ := hs i call hold
    exact ⟨t, hobeys, hother i t call hold ha hI⟩
  · exact hcall i op rfl
  · obtain ⟨t, hobeys, hI⟩ := hs i call' hold
    obtain ⟨hreply, hI'⟩ := hact i b choice t rfl hI (hobeys.allowed hhead) hpossible
    exact ⟨_, hobeys.step hhead hreply, hI'⟩

/-- The action a tracked call is about to issue is allowed. -/
theorem Tracks.allowed (hs : Tracks P post I s) {i : ℕ} {b : Action Callback}
    (hb : s.head? i = some b) : ∃ t, P.Allowed t b ∧ I i t s := by
  obtain ⟨call, hcall, hhead⟩ := State.exists_call_of_head? hb
  obtain ⟨t, hobeys, hI⟩ := hs i call hcall
  exact ⟨t, hobeys.allowed hhead, hI⟩

end Tracks

/-! ## One call at a time -/

/-- In a sequence of calls nobody else has a call in progress. -/
theorem alone {C : ℕ → Shared Callback → Action Callback → Choice → Prop}
    {tr : List (Label Callback)} {s : State Callback}
    (h : channel.RunBy (Sequenced C) initial tr s) {i : ℕ} {call : Call Callback}
    (hcall : s.callers i = some call) : ∀ j, j ≠ i → s.callers j = none := by
  refine h.induct (P := fun _ s => ∀ i call, s.callers i = some call → ∀ j, j ≠ i →
    s.callers j = none) (fun _ _ hnone => by cases hnone) ?_ i call hcall
  clear hcall call i
  intro tr s a hr hs ha hC i call hcall j hj
  rcases call_next ha hcall with ⟨-, hold⟩ | ⟨op, rfl, -, -⟩ | ⟨call', b, choice, rfl, hold, -⟩
  · by_cases hcaller : a.caller? = some j
    · obtain ⟨op, rfl⟩ := not_enabled_of_idle (hs i call hold j hj) hcaller ha
      exact absurd ((hC.1 i).symm.trans hold) nofun
    · exact (callers_next_of_ne hcaller s).trans (hs i call hold j hj)
  · exact (Function.update_of_ne hj _ _).trans (hC.1 j)
  · exact (Function.update_of_ne hj _ _).trans (hs i call' hold j hj)

/-- The assertion of a call in progress, along the steps up to its return. -/
theorem Inside.run {C : ℕ → Shared Callback → Action Callback → Choice → Prop} {i : ℕ}
    {op : Operation Callback} {post : Outcome → View Callback → Prop} {f : Bool}
    {pre tr : List (Label Callback)} {u s : State Callback} (hu : channel.Run initial pre u)
    (hin : Inside C i op post f u) (h : channel.RunBy (Sequenced C) u tr s)
    (hret : ∀ outcome, Label.ret i op outcome ∉ tr) : ∃ f', Inside C i op post f' s := by
  induction h with
  | nil => exact ⟨f, hin⟩
  | @snoc tr s a hr ha hc ih =>
    obtain ⟨f', hs⟩ := ih fun outcome hmem => hret outcome (List.mem_append_left _ hmem)
    rcases hs.next (oneConsumer (hu.append hr.run)) ha hc with ⟨outcome, rfl, -⟩ | hnext
    · exact absurd (List.mem_append_right _ (List.mem_singleton_self _)) (hret outcome)
    · exact ⟨_, hnext⟩

/-! ## What a protocol takes no notice of -/

/-- An action that is always allowed and leaves the local state alone. -/
def Ignores (P : Protocol (Action Callback) Answer τ) (a : Action Callback) : Prop :=
  ∀ t, P.Allowed t a ∧ ∀ r, P.after t a r = t

/-- What `RedisClient` issues. -/
def Action.ofClient : Action Callback → Bool
  | .lock _ | .unlock _ | .ping | .connect | .redis => true
  | _ => false

/-- What `subscribe` alone issues. -/
def Action.ofSubscribe : Action Callback → Bool
  | .compareExchange | .setCallback .. | .storeRunning true | .createSubscriber _ | .onMessage
  | .resetSubscriber | .subscribe _ | .joinable | .join | .startThread => true
  | _ => false

/-- A protocol for the channel itself. -/
def IgnoresClient (P : Protocol (Action Callback) Answer τ) : Prop :=
  ∀ a : Action Callback, a.ofClient = true → Ignores P a

/-- A protocol for `subscribe`. -/
def IgnoresOthers (P : Protocol (Action Callback) Answer τ) : Prop :=
  ∀ a : Action Callback, a.ofSubscribe = false → Ignores P a

section Ignored

variable {P : Protocol (Action Callback) Answer τ} {t : τ}

theorem IgnoresOthers.client (hP : IgnoresOthers P) : IgnoresClient P := by
  intro a ha
  refine hP a ?_
  cases a with
  | lock m => rfl
  | unlock m => rfl
  | ping => rfl
  | connect => rfl
  | redis => rfl
  | _ => exact absurd ha (by simp [Action.ofClient])

theorem issue_ignored {a : Action Callback} {post : Answer a → τ → Prop} (ha : Ignores P a)
    (h : ∀ r, post r t) : (issue a).Obeys P post t := by
  refine ⟨(ha t).1, fun r _ => ?_⟩
  rw [(ha t).2 r]
  exact h r

theorem issue_bind_ignored {a : Action Callback} {f : Answer a → Procedure Callback α}
    {post : α → τ → Prop} (ha : Ignores P a) (h : ∀ r, (f r).Obeys P post t) :
    (issue a >>= f).Obeys P post t :=
  obeys_bind.mpr (issue_ignored ha h)

theorem getClient_ignored (hP : IgnoresClient P) {post : ℕ → τ → Prop} (h : ∀ g, post g t) :
    (getClient : Procedure Callback ℕ).Obeys P post t := by
  have hend : ((issue .redis : Procedure Callback ℕ) >>= fun redis =>
      issue (.unlock .instanceMutex) >>= fun _ => pure redis).Obeys P post t :=
    issue_bind_ignored (hP _ rfl) fun g => issue_bind_ignored (hP _ rfl) fun _ => h g
  refine issue_bind_ignored (hP _ rfl) fun _ => obeys_bind.mpr ?_
  refine issue_bind_ignored (hP _ rfl) fun _ => issue_bind_ignored (hP _ rfl) fun alive => ?_
  refine issue_bind_ignored (hP _ rfl) fun _ => ?_
  cases alive with
  | true => exact hend
  | false =>
    refine obeys_bind.mpr (issue_bind_ignored (hP _ rfl) fun _ => ?_)
    exact issue_bind_ignored (hP _ rfl) fun _ => issue_ignored (hP _ rfl) fun _ => hend

/-- Of a command under the client's lock only the command matters. -/
theorem underLock_ignored (hP : IgnoresClient P) {command : Procedure Callback Bool}
    {post : Bool → τ → Prop} (h : command.Obeys P post t) : (underLock command).Obeys P post t := by
  refine obeys_bind.mpr (issue_bind_ignored (hP _ rfl) fun _ => ?_)
  refine issue_bind_ignored (hP _ rfl) fun _ => issue_ignored (hP _ rfl) fun _ => ?_
  refine obeys_bind.mpr (h.mono fun ok t' hpost => ?_)
  exact issue_bind_ignored (hP _ rfl) fun _ => hpost

/-- A loop: `I keys` holds of the local state while `keys` are left. -/
theorem forEach_ignored (hP : IgnoresClient P) {command : Bytes → Procedure Callback Bool}
    {post : Bool → τ → Prop} {I : List Bytes → τ → Prop} (hok : ∀ t, I [] t → post true t)
    (hcommand : ∀ key keys t, I (key :: keys) t → (command key).Obeys P
      (fun ok t' => if ok = true then I keys t' else post false t') t)
    (keys : List Bytes) {t : τ} (ht : I keys t) : (forEach command keys).Obeys P post t := by
  induction keys generalizing t with
  | nil => exact hok t ht
  | cons key keys ih =>
    refine obeys_bind.mpr (underLock_ignored hP ((hcommand key keys t ht).mono ?_))
    rintro (_ | _) t' ht'
    · exact ht'
    · exact ih ht'

theorem unsubscribeAll_ignored (hP : IgnoresOthers P) {post : Outcome → τ → Prop}
    (h : ∀ outcome, post outcome t) :
    (unsubscribeAll : Procedure Callback Outcome).Obeys P post t := by
  have hend : ((issue (.unlock .callbacksMutex) : Procedure Callback Unit) >>= fun _ =>
      issue .clearCallbacks >>= fun _ => pure done).Obeys P post t :=
    issue_bind_ignored (hP _ rfl) fun _ => issue_bind_ignored (hP _ rfl) fun _ => h _
  refine issue_bind_ignored (hP _ rfl) fun _ => issue_bind_ignored (hP _ rfl) fun _ => ?_
  refine issue_bind_ignored (hP _ rfl) fun keys => obeys_bind.mpr ?_
  refine forEach_ignored hP.client (I := fun _ t' => t' = t) ?_ ?_ keys rfl
  · rintro _ rfl
    exact hend
  · rintro key keys _ rfl
    refine issue_ignored (hP _ rfl) fun ok => ?_
    cases ok with
    | true => exact rfl
    | false => exact hend

theorem stopIfEmpty_ignored (hP : IgnoresOthers P) {post : Outcome → τ → Prop}
    (h : ∀ outcome, post outcome t) :
    (stopIfEmpty : Procedure Callback Outcome).Obeys P post t := by
  refine issue_bind_ignored (hP _ rfl) fun empty => ?_
  cases empty with
  | false => exact h _
  | true => exact issue_bind_ignored (hP _ rfl) fun _ => h _

theorem unsubscribeOne_ignored (hP : IgnoresOthers P) {post : Outcome → τ → Prop}
    (h : ∀ outcome, post outcome t) (c : Bytes) :
    (unsubscribeOne c : Procedure Callback Outcome).Obeys P post t := by
  refine issue_bind_ignored (hP _ rfl) fun found => ?_
  cases found with
  | false => exact stopIfEmpty_ignored hP h
  | true =>
    -- erased, unless the `UNSUBSCRIBE` throws
    have hend : ∀ ok : Bool, (if ok = true then
        ((issue (.eraseCallback c) : Procedure Callback Unit) >>= fun _ => stopIfEmpty)
        else pure .threw).Obeys P post t := by
      rintro (_ | _)
      · exact h _
      · exact issue_bind_ignored (hP _ rfl) fun _ => stopIfEmpty_ignored hP h
    refine obeys_bind.mpr (issue_bind_ignored (hP _ rfl) fun running => ?_)
    cases running with
    | false => exact hend true
    | true => exact underLock_ignored hP.client (issue_ignored (hP _ rfl) hend)

theorem unsubscribe_ignored (hP : IgnoresOthers P) {post : Outcome → τ → Prop}
    (h : ∀ outcome, post outcome t) (c : Bytes) :
    (unsubscribe c : Procedure Callback Outcome).Obeys P post t := by
  cases c with
  | cons b bs => exact unsubscribeOne_ignored hP h _
  | nil =>
    refine issue_bind_ignored (hP _ rfl) fun running => ?_
    cases running with
    | false => exact unsubscribeOne_ignored hP h _
    | true => exact unsubscribeAll_ignored hP h

theorem publish_ignored (hP : IgnoresOthers P) {post : Outcome → τ → Prop}
    (h : ∀ outcome, post outcome t) (c payload : Bytes) :
    (publish c payload : Procedure Callback Outcome).Obeys P post t := by
  refine obeys_bind.mpr (getClient_ignored hP.client fun client => obeys_bind.mpr ?_)
  exact underLock_ignored hP.client (issue_ignored (hP _ rfl) fun _ => h _)

theorem ofStorage_ignored (hP : IgnoresOthers P) (p : RedisStorage.Procedure α) :
    (ofStorage p : Procedure Callback α).Obeys P (fun _ t' => t' = t) t := by
  induction p with
  | ret x => exact rfl
  | act a k ih =>
    cases a with
    | getClient => exact obeys_bind.mpr (getClient_ignored hP.client fun redis => ih redis)
    | command redis cmd => exact issue_bind_ignored (hP (.storage redis cmd) rfl) fun r => ih r

/-- The operation is a call of `subscribe`. -/
def Operation.subscribes : Operation Callback → Bool
  | .subscribe .. => true
  | _ => false

theorem Operation.ignored (hP : IgnoresOthers P) {op : Operation Callback}
    (hop : op.subscribes = false) {post : Outcome → τ → Prop} (h : ∀ outcome, post outcome t) :
    op.procedure.Obeys P post t := by
  cases op with
  | subscribe c cb => exact absurd hop (by simp [subscribes])
  | unsubscribe c => exact unsubscribe_ignored hP h c
  | publish c payload => exact publish_ignored hP h c payload
  | storage op =>
    refine obeys_bind.mpr ((ofStorage_ignored hP op.procedure).mono ?_)
    rintro r _ rfl
    exact h _

end Ignored

/-! ## What a call sets and subscribes to -/

/-- A call that sets only callbacks in `set`, and subscribes only to channels in `K`
as long as the keys it goes through are in `K`. -/
def keeping (set : Bytes → Callback → Prop) (K : Bytes → Prop) :
    Protocol (Action Callback) Answer Unit where
  Allowed _
    | .setCallback c cb => set c cb
    | .subscribe c => K c
    | _ => True
  Possible _
    | .callbackKeys, keys => ∀ c ∈ keys, K c
    | _, _ => True
  after _ _ _ := ()

section Keeping

variable {set : Bytes → Callback → Prop} {K : Bytes → Prop}

/-- Only two kinds of actions name a channel to subscribe to. -/
theorem ignores_keeping {a : Action Callback} (hset : ∀ c cb, a ≠ .setCallback c cb)
    (hsubscribe : ∀ c, a ≠ .subscribe c) : Ignores (keeping set K) a := by
  refine fun _ => ⟨?_, fun _ => rfl⟩
  cases a with
  | setCallback c cb => exact absurd rfl (hset c cb)
  | subscribe c => exact absurd rfl (hsubscribe c)
  | _ => trivial

theorem ignoresOthers_keeping :
    IgnoresOthers (keeping set K : Protocol (Action Callback) Answer Unit) := by
  refine fun a ha => ignores_keeping ?_ ?_
  · rintro c cb rfl
    exact absurd ha (by simp [Action.ofSubscribe])
  · rintro c rfl
    exact absurd ha (by simp [Action.ofSubscribe])

theorem subscribe_issue_keeping {c : Bytes} (hc : K c) {post : Bool → Unit → Prop}
    (h : ∀ ok, post ok ()) :
    (issue (.subscribe c) : Procedure Callback Bool).Obeys (keeping set K) post () :=
  ⟨hc, fun ok _ => h ok⟩

theorem startConsumeThread_keeping {post : Unit → Unit → Prop} (h : post () ()) :
    (startConsumeThread : Procedure Callback Unit).Obeys (keeping set K) post () := by
  have hstart : ((issue (.storeRunning true) : Procedure Callback Unit) >>= fun _ =>
      issue .startThread).Obeys (keeping set K) post () :=
    issue_bind_ignored (ignores_keeping nofun nofun) fun _ =>
      issue_ignored (ignores_keeping nofun nofun) fun _ => h
  refine issue_bind_ignored (ignores_keeping nofun nofun) fun started => ?_
  cases started with
  | true => exact issue_bind_ignored (ignores_keeping nofun nofun) fun _ => hstart
  | false => exact hstart

/-- The loop subscribes to the keys it has found. -/
theorem subscribeAll_keeping {post : Option Bool → Unit → Prop} (h : ∀ ok, post ok ()) :
    (subscribeAll : Procedure Callback (Option Bool)).Obeys (keeping set K) post () := by
  refine issue_bind_ignored (ignores_keeping nofun nofun) fun _ => ?_
  refine obeys_act_ret_bind.mpr ⟨trivial, fun keys (hkeys : ∀ c ∈ keys, K c) => obeys_bind.mpr ?_⟩
  have hend : ∀ subscribed : Bool,
      ((issue (.unlock .callbacksMutex) : Procedure Callback Unit) >>= fun _ =>
        if subscribed = true then startConsumeThread >>= fun _ => pure (some true)
        else pure none).Obeys (keeping set K) post () := by
    refine fun subscribed => issue_bind_ignored (ignores_keeping nofun nofun) fun _ => ?_
    cases subscribed with
    | false => exact h _
    | true => exact obeys_bind.mpr (startConsumeThread_keeping (h _))
  refine forEach_ignored ignoresOthers_keeping.client (I := fun keys _ => ∀ c ∈ keys, K c)
    (fun _ _ => hend true) (fun key keys _ hkeys => ?_) keys hkeys
  refine subscribe_issue_keeping (hkeys key List.mem_cons_self) fun ok => ?_
  cases ok with
  | true => exact fun c hc => hkeys c (List.mem_cons_of_mem _ hc)
  | false => exact hend false

theorem initializeSubscriber_keeping {post : Option Bool → Unit → Prop} (h : ∀ ok, post ok ()) :
    (initializeSubscriber : Procedure Callback (Option Bool)).Obeys (keeping set K) post () := by
  have hclient : IgnoresClient (keeping set K : Protocol (Action Callback) Answer Unit) :=
    ignoresOthers_keeping.client
  refine obeys_bind.mpr (getClient_ignored hclient fun client => obeys_bind.mpr ?_)
  refine underLock_ignored hclient (issue_ignored (ignores_keeping nofun nofun) fun created => ?_)
  cases created with
  | false => exact h _
  | true =>
    refine obeys_bind.mpr (underLock_ignored hclient ?_)
    refine issue_ignored (ignores_keeping nofun nofun) fun ok => ?_
    cases ok with
    | false => exact issue_bind_ignored (ignores_keeping nofun nofun) fun _ => h _
    | true => exact subscribeAll_keeping h

theorem subscribe_keeping {c : Bytes} {cb : Callback} (hset : set c cb) (hc : K c)
    {post : Outcome → Unit → Prop} (h : ∀ outcome, post outcome ()) :
    (subscribe c cb).Obeys (keeping set K) post () := by
  have hreset : ((issue (.storeRunning false) : Procedure Callback Unit) >>= fun _ =>
      pure done).Obeys (keeping set K) post () :=
    issue_bind_ignored (ignores_keeping nofun nofun) fun _ => h _
  have hrunning :
      (subscribeRunning c : Procedure Callback Outcome).Obeys (keeping set K) post () := by
    refine issue_bind_ignored (ignores_keeping nofun nofun) fun running => ?_
    cases running with
    | false => exact h _
    | true =>
      refine obeys_bind.mpr (underLock_ignored ignoresOthers_keeping.client ?_)
      refine subscribe_issue_keeping hc fun ok => ?_
      cases ok with
      | true => exact h _
      | false => exact hreset
  refine issue_bind_ignored (ignores_keeping nofun nofun) fun _ => ?_
  refine obeys_act_ret_bind.mpr ⟨hset, fun _ _ => ?_⟩
  refine issue_bind_ignored (ignores_keeping nofun nofun) fun _ => obeys_bind.mpr ?_
  refine issue_bind_ignored (ignores_keeping nofun nofun) fun running => ?_
  cases running with
  | true => exact hrunning
  | false =>
    refine issue_ignored (ignores_keeping nofun nofun) fun first => ?_
    cases first with
    | false => exact hrunning
    | true =>
      show (initializeSubscriber >>= _ : Procedure Callback Outcome).Obeys (keeping set K) post ()
      refine obeys_bind.mpr (initializeSubscriber_keeping fun ok => ?_)
      rcases ok with _ | _ | _
      · exact h _
      · exact hreset
      · exact h _

/-- What the operation sets and subscribes to. -/
theorem Operation.keeping {op : Operation Callback}
    (h : ∀ c cb, op = .subscribe c cb → set c cb ∧ K c) :
    op.procedure.Obeys (RedisChannel.keeping set K) (fun _ _ => True) () := by
  cases op with
  | subscribe c cb =>
    obtain ⟨hset, hc⟩ := h c cb rfl
    exact subscribe_keeping hset hc fun _ => trivial
  | _ => exact Operation.ignored ignoresOthers_keeping rfl fun _ => trivial

end Keeping

/-! ## Calls that claim `running_` -/

/-- The local state says whether the call has set `running_` and has still to
start the consumer thread; a command that throws ends that.  Only then is a
subscriber created, an old thread joined, and `running_` set once more. -/
def claiming : Protocol (Action Callback) Answer Bool where
  Allowed claimed
    | .compareExchange => claimed = false
    | .createSubscriber _ | .storeRunning true | .join | .startThread => claimed = true
    | _ => True
  Possible _ _ _ := True
  after claimed
    | .compareExchange, first => first
    | .startThread, _ => false
    | .createSubscriber _, ok | .onMessage, ok | .subscribe _, ok => claimed && ok
    | _, _ => claimed

section Claiming

theorem ignoresOthers_claiming :
    IgnoresOthers (claiming : Protocol (Action Callback) Answer Bool) := by
  intro a ha t
  cases a with
  | storeRunning b =>
    cases b with
    | true => exact absurd ha (by simp [Action.ofSubscribe])
    | false => exact ⟨trivial, fun _ => rfl⟩
  | compareExchange | setCallback | createSubscriber | onMessage | resetSubscriber | subscribe
  | joinable | join | startThread => exact absurd ha (by simp [Action.ofSubscribe])
  | _ => exact ⟨trivial, fun _ => rfl⟩

theorem startConsumeThread_claiming {post : Unit → Bool → Prop} (h : post () false) :
    (startConsumeThread : Procedure Callback Unit).Obeys claiming post true := by
  have hstart : ((issue (.storeRunning true) : Procedure Callback Unit) >>= fun _ =>
      issue .startThread).Obeys claiming post true :=
    obeys_act_ret_bind.mpr ⟨rfl, fun _ _ => ⟨rfl, fun _ _ => h⟩⟩
  refine obeys_act_ret_bind.mpr ⟨trivial, fun started _ => ?_⟩
  cases started with
  | true => exact obeys_act_ret_bind.mpr ⟨rfl, fun _ _ => hstart⟩
  | false => exact hstart

/-- The consumer thread is started unless a `SUBSCRIBE` throws. -/
theorem subscribeAll_claiming {post : Option Bool → Bool → Prop} (h : ∀ ok, post ok false) :
    (subscribeAll : Procedure Callback (Option Bool)).Obeys claiming post true := by
  have hend : ∀ subscribed : Bool,
      ((issue (.unlock .callbacksMutex) : Procedure Callback Unit) >>= fun _ =>
        if subscribed = true then startConsumeThread >>= fun _ => pure (some true)
        else pure none).Obeys claiming post subscribed := by
    refine fun subscribed => issue_bind_ignored (ignoresOthers_claiming _ rfl) fun _ => ?_
    cases subscribed with
    | false => exact h _
    | true => exact obeys_bind.mpr (startConsumeThread_claiming (h _))
  refine issue_bind_ignored (ignoresOthers_claiming _ rfl) fun _ => ?_
  refine issue_bind_ignored (ignoresOthers_claiming _ rfl) fun keys => obeys_bind.mpr ?_
  refine forEach_ignored ignoresOthers_claiming.client (I := fun _ t => t = true) ?_ ?_ keys rfl
  · rintro _ rfl
    exact hend true
  · rintro key keys _ rfl
    refine ⟨trivial, fun ok _ => ?_⟩
    cases ok with
    | true => exact rfl
    | false => exact hend false

theorem initializeSubscriber_claiming {post : Option Bool → Bool → Prop} (h : ∀ ok, post ok false) :
    (initializeSubscriber : Procedure Callback (Option Bool)).Obeys claiming post true := by
  have hclient : IgnoresClient (claiming : Protocol (Action Callback) Answer Bool) :=
    ignoresOthers_claiming.client
  refine obeys_bind.mpr (getClient_ignored hclient fun client => obeys_bind.mpr ?_)
  refine underLock_ignored hclient ⟨rfl, fun created _ => ?_⟩
  cases created with
  | false => exact h _
  | true =>
    refine obeys_bind.mpr (underLock_ignored hclient ⟨trivial, fun ok _ => ?_⟩)
    cases ok with
    | false => exact obeys_act_ret_bind.mpr ⟨trivial, fun _ _ => h _⟩
    | true => exact subscribeAll_claiming h

theorem subscribe_claiming (c : Bytes) (cb : Callback) {post : Outcome → Bool → Prop}
    (h : ∀ outcome, post outcome false) : (subscribe c cb).Obeys claiming post false := by
  have hreset : ((issue (.storeRunning false) : Procedure Callback Unit) >>= fun _ =>
      pure done).Obeys claiming post false :=
    issue_bind_ignored (ignoresOthers_claiming _ rfl) fun _ => h _
  have hrunning : (subscribeRunning c : Procedure Callback Outcome).Obeys claiming post false := by
    refine issue_bind_ignored (ignoresOthers_claiming _ rfl) fun running => ?_
    cases running with
    | false => exact h _
    | true =>
      refine obeys_bind.mpr (underLock_ignored ignoresOthers_claiming.client
        ⟨trivial, fun ok _ => ?_⟩)
      cases ok with
      | true => exact h _
      | false => exact hreset
  refine issue_bind_ignored (ignoresOthers_claiming _ rfl) fun _ => ?_
  refine obeys_act_ret_bind.mpr ⟨trivial, fun _ _ => ?_⟩
  refine issue_bind_ignored (ignoresOthers_claiming _ rfl) fun _ => obeys_bind.mpr ?_
  refine issue_bind_ignored (ignoresOthers_claiming _ rfl) fun running => ?_
  cases running with
  | true => exact hrunning
  | false =>
    refine ⟨rfl, fun first _ => ?_⟩
    cases first with
    | false => exact hrunning
    | true =>
      show (initializeSubscriber >>= _ : Procedure Callback Outcome).Obeys claiming post true
      refine obeys_bind.mpr (initializeSubscriber_claiming fun ok => ?_)
      rcases ok with _ | _ | _
      · exact h _
      · exact hreset
      · exact h _

theorem Operation.claiming (op : Operation Callback) {post : Outcome → Bool → Prop}
    (h : ∀ outcome, post outcome false) : op.procedure.Obeys RedisChannel.claiming post false := by
  cases op with
  | subscribe c cb => exact subscribe_claiming c cb h
  | _ => exact Operation.ignored ignoresOthers_claiming rfl h

end Claiming

end RedisChannel
