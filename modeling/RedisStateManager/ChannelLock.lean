/-
# The order of the mutexes

A caller takes `callbacks_mutex_`, `instance_mutex_` and `redis_mutex_` in this
order (`lockProtocol`, `Operation.obeys`); the consumer takes `redis_mutex_` and
then, in `on_message`, `callbacks_mutex_`.  So a message that arrives while a
loop over `callbacks_` still has to lock the client closes a cycle, and no other
step does (`noDeadlock_of_ordered`, `deadlocks_unsubscribeRun`).
-/
import RedisStateManager.OwnedLock
import RedisStateManager.RedisChannel

namespace RedisChannel

open Redis Program

variable {Callback : Type} {α : Type}

/-! ## What a thread holds -/

/-- Which of the three mutexes a thread holds. -/
structure Held where
  callbacks : Bool
  inst : Bool
  redis : Bool
  deriving DecidableEq

namespace Held

def nothing : Held := ⟨false, false, false⟩

def has (t : Held) : Mutex → Bool
  | .callbacksMutex => t.callbacks
  | .instanceMutex => t.inst
  | .redisMutex => t.redis

def set (t : Held) (b : Bool) : Mutex → Held
  | .callbacksMutex => { t with callbacks := b }
  | .instanceMutex => { t with inst := b }
  | .redisMutex => { t with redis := b }

end Held

/-- What thread `t` holds according to the owner fields. -/
def heldBy (owner : Mutex → Option Thread) (t : Thread) : Held :=
  ⟨owner .callbacksMutex = some t, owner .instanceMutex = some t, owner .redisMutex = some t⟩

theorem heldBy_has {owner : Mutex → Option Thread} {t : Thread} {m : Mutex} :
    (heldBy owner t).has m = true ↔ owner m = some t := by
  cases m <;> exact decide_eq_true_iff

theorem heldBy_update_self (owner : Mutex → Option Thread) (t : Thread) (m : Mutex)
    (o : Option Thread) :
    heldBy (Function.update owner m o) t = (heldBy owner t).set (o = some t) m := by
  cases m <;> rfl

/-- Taking a free mutex, or releasing one's own, is nothing to the other threads. -/
theorem heldBy_update_of_ne {owner : Mutex → Option Thread} {u : Thread} {m : Mutex}
    {o : Option Thread} (hm : owner m ≠ some u) (ho : o ≠ some u) :
    heldBy (Function.update owner m o) u = heldBy owner u := by
  cases m <;> simp [heldBy, hm, ho]

theorem heldBy_acquire {owner : Mutex → Option Thread} {m : Mutex} (hm : owner m = none)
    (u t : Thread) :
    heldBy (Function.update owner m (some u)) t =
      if t = u then (heldBy owner u).set true m else heldBy owner t := by
  split
  · subst t
    rw [heldBy_update_self, decide_eq_true rfl]
  · rename_i hne
    exact heldBy_update_of_ne (by simp [hm]) fun heq => hne (Option.some.inj heq).symm

theorem heldBy_release {owner : Mutex → Option Thread} {m : Mutex} {u : Thread}
    (hm : owner m = some u) (t : Thread) :
    heldBy (Function.update owner m none) t =
      if t = u then (heldBy owner u).set false m else heldBy owner t := by
  split
  · subst t
    rw [heldBy_update_self, decide_eq_false nofun]
  · rename_i hne
    exact heldBy_update_of_ne (fun heq => hne (Option.some.inj (heq.symm.trans hm))) (by simp)

/-! ## What a call does with the mutexes -/

def Mutex.rank : Mutex → ℕ
  | .callbacksMutex => 0
  | .instanceMutex => 1
  | .redisMutex => 2

/-- A call takes the mutexes in the order of their ranks, releases what it holds,
and adds to `callbacks_` under `callbacks_mutex_`. -/
def lockProtocol : Protocol (Action Callback) Answer Held where
  Allowed t
    | .lock .callbacksMutex => t = .nothing
    | .lock .instanceMutex => t.inst = false ∧ t.redis = false
    | .lock .redisMutex => t.redis = false
    | .unlock m => t.has m = true
    | .setCallback _ _ => t.callbacks = true
    | _ => True
  Possible _ _ _ := True
  after t
    | .lock m, _ => t.set true m
    | .unlock m, _ => t.set false m
    | _, _ => t

theorem rank_lt_of_allowed {t : Held} {m m' : Mutex} (hm : t.has m = true)
    (h : (lockProtocol : Protocol (Action Callback) Answer Held).Allowed t (.lock m')) :
    m.rank < m'.rank := by
  cases m' with
  | callbacksMutex =>
    have hnothing : t = .nothing := h
    subst hnothing
    cases m <;> exact absurd hm (by decide)
  | instanceMutex =>
    obtain ⟨hinst, hredis⟩ : t.inst = false ∧ t.redis = false := h
    cases m with
    | callbacksMutex => decide
    | instanceMutex => exact absurd (hinst.symm.trans hm) (by decide)
    | redisMutex => exact absurd (hredis.symm.trans hm) (by decide)
  | redisMutex =>
    have hredis : t.redis = false := h
    cases m with
    | redisMutex => exact absurd (hredis.symm.trans hm) (by decide)
    | _ => decide

section Calls

variable {c : Bool} {β : Type}

/-- An action that is no step of a mutex. -/
theorem issue_obeys {a : Action Callback} {post : Answer a → Held → Prop} {t : Held}
    (ha : lockProtocol.Allowed t a) (h : ∀ r, post r (lockProtocol.after t a r)) :
    (issue a).Obeys lockProtocol post t :=
  ⟨ha, fun r _ => h r⟩

theorem getClient_obeys {post : ℕ → Held → Prop} (h : ∀ g, post g ⟨c, false, false⟩) :
    (getClient : Procedure Callback ℕ).Obeys lockProtocol post ⟨c, false, false⟩ := by
  refine ⟨⟨rfl, rfl⟩, fun _ _ => ⟨rfl, fun _ _ => ⟨trivial, fun alive _ => ⟨rfl, fun _ _ => ?_⟩⟩⟩⟩
  cases alive with
  | true => exact ⟨trivial, fun g _ => ⟨rfl, fun _ _ => h g⟩⟩
  | false =>
    exact ⟨rfl, fun _ _ => ⟨trivial, fun _ _ => ⟨rfl, fun _ _ =>
      ⟨trivial, fun g _ => ⟨rfl, fun _ _ => h g⟩⟩⟩⟩⟩

theorem underLock_obeys {command : Procedure Callback Bool} {post : Bool → Held → Prop}
    (hcommand : ∀ t, command.Obeys lockProtocol (fun _ t' => t' = t) t)
    (h : ∀ ok, post ok ⟨c, false, false⟩) :
    (underLock command).Obeys lockProtocol post ⟨c, false, false⟩ := by
  refine obeys_bind.mpr ⟨⟨rfl, rfl⟩, fun _ _ => ⟨rfl, fun _ _ => ⟨rfl, fun _ _ => ?_⟩⟩⟩
  refine obeys_bind.mpr ((hcommand ⟨c, false, true⟩).mono fun ok t' ht' => ?_)
  subst ht'
  exact ⟨rfl, fun _ _ => h ok⟩

theorem forEach_obeys {command : Bytes → Procedure Callback Bool} {post : Bool → Held → Prop}
    (hcommand : ∀ key t, (command key).Obeys lockProtocol (fun _ t' => t' = t) t)
    (h : ∀ ok, post ok ⟨c, false, false⟩) (keys : List Bytes) :
    (forEach command keys).Obeys lockProtocol post ⟨c, false, false⟩ := by
  induction keys with
  | nil => exact h true
  | cons key keys ih =>
    refine obeys_bind.mpr (underLock_obeys (hcommand key) fun ok => ?_)
    cases ok with
    | true => exact ih
    | false => exact h false

theorem startConsumeThread_obeys {post : Unit → Held → Prop} (h : post () .nothing) :
    (startConsumeThread : Procedure Callback Unit).Obeys lockProtocol post .nothing := by
  refine ⟨trivial, fun started _ => ?_⟩
  cases started with
  | true => exact ⟨trivial, fun _ _ => ⟨trivial, fun _ _ => ⟨trivial, fun _ _ => h⟩⟩⟩
  | false => exact ⟨trivial, fun _ _ => ⟨trivial, fun _ _ => h⟩⟩

theorem subscribeAll_obeys {post : Option Bool → Held → Prop} (h : ∀ ok, post ok .nothing) :
    (subscribeAll : Procedure Callback (Option Bool)).Obeys lockProtocol post .nothing := by
  refine obeys_act_ret_bind.mpr ⟨rfl, fun _ _ => obeys_act_ret_bind.mpr ⟨trivial, fun keys _ => ?_⟩⟩
  refine obeys_bind.mpr (forEach_obeys ?_ (fun subscribed => ?_) keys)
  · exact fun key t => issue_obeys trivial fun _ => rfl
  · refine obeys_act_ret_bind.mpr ⟨rfl, fun _ _ => ?_⟩
    cases subscribed with
    | false => exact h _
    | true => exact obeys_bind.mpr (startConsumeThread_obeys (h _))

theorem initializeSubscriber_obeys {post : Option Bool → Held → Prop}
    (h : ∀ ok, post ok .nothing) :
    (initializeSubscriber : Procedure Callback (Option Bool)).Obeys lockProtocol post .nothing := by
  refine obeys_bind.mpr (getClient_obeys fun client => ?_)
  refine obeys_bind.mpr (underLock_obeys (fun _ => ⟨trivial, fun _ _ => rfl⟩) fun created => ?_)
  cases created with
  | false => exact h _
  | true =>
    refine obeys_bind.mpr (underLock_obeys (fun _ => ⟨trivial, fun _ _ => rfl⟩) fun ok => ?_)
    cases ok with
    | false => exact ⟨trivial, fun _ _ => h _⟩
    | true => exact subscribeAll_obeys h

/-- What every call leaves: its thread holds no mutex. -/
def endsFree (_ : Outcome) (t : Held) : Prop := t = .nothing

theorem claimRunning_obeys {post : Bool → Held → Prop} (h : ∀ first, post first .nothing) :
    (claimRunning : Procedure Callback Bool).Obeys lockProtocol post .nothing := by
  refine obeys_act_ret_bind.mpr ⟨trivial, fun running _ => ?_⟩
  cases running with
  | true => exact h false
  | false => exact issue_obeys trivial h

theorem subscribeRunning_obeys (channel : Bytes) :
    (subscribeRunning channel : Procedure Callback Outcome).Obeys lockProtocol endsFree
      .nothing := by
  refine obeys_act_ret_bind.mpr ⟨trivial, fun running _ => ?_⟩
  cases running with
  | false => exact rfl
  | true =>
    refine obeys_bind.mpr (underLock_obeys (fun t => issue_obeys trivial fun _ => rfl) fun ok => ?_)
    cases ok with
    | false => exact issue_obeys trivial fun _ => rfl
    | true => exact rfl

theorem subscribe_obeys (channel : Bytes) (callback : Callback) :
    (subscribe channel callback).Obeys lockProtocol endsFree .nothing := by
  refine obeys_act_ret_bind.mpr ⟨rfl, fun _ _ => obeys_act_ret_bind.mpr ⟨rfl, fun _ _ => ?_⟩⟩
  refine obeys_act_ret_bind.mpr ⟨rfl, fun _ _ => obeys_bind.mpr ?_⟩
  refine claimRunning_obeys fun first => ?_
  cases first with
  | false => exact subscribeRunning_obeys channel
  | true =>
    refine obeys_bind.mpr (initializeSubscriber_obeys fun ok => ?_)
    rcases ok with _ | _ | _
    · exact rfl
    · exact issue_obeys trivial fun _ => rfl
    · exact rfl

theorem stopIfEmpty_obeys :
    (stopIfEmpty : Procedure Callback Outcome).Obeys lockProtocol endsFree .nothing := by
  refine obeys_act_ret_bind.mpr ⟨trivial, fun empty _ => ?_⟩
  cases empty with
  | false => exact rfl
  | true => exact issue_obeys trivial fun _ => rfl

theorem unsubscribeAll_obeys :
    (unsubscribeAll : Procedure Callback Outcome).Obeys lockProtocol endsFree .nothing := by
  refine obeys_act_ret_bind.mpr ⟨trivial, fun _ _ => obeys_act_ret_bind.mpr ⟨rfl, fun _ _ => ?_⟩⟩
  refine obeys_act_ret_bind.mpr ⟨trivial, fun keys _ => ?_⟩
  refine obeys_bind.mpr (forEach_obeys ?_ (fun _ => ?_) keys)
  · exact fun key t => issue_obeys trivial fun _ => rfl
  · exact obeys_act_ret_bind.mpr ⟨rfl, fun _ _ => issue_obeys trivial fun _ => rfl⟩

theorem unsubscribeRunning_obeys {post : Bool → Held → Prop} (h : ∀ ok, post ok .nothing)
    (channel : Bytes) :
    (unsubscribeRunning channel : Procedure Callback Bool).Obeys lockProtocol post .nothing := by
  refine obeys_act_ret_bind.mpr ⟨trivial, fun running _ => ?_⟩
  cases running with
  | false => exact h true
  | true => exact underLock_obeys (fun t => issue_obeys trivial fun _ => rfl) h

theorem unsubscribeOne_obeys (channel : Bytes) :
    (unsubscribeOne channel : Procedure Callback Outcome).Obeys lockProtocol endsFree .nothing := by
  refine obeys_act_ret_bind.mpr ⟨trivial, fun found _ => ?_⟩
  cases found with
  | false => exact stopIfEmpty_obeys
  | true =>
    refine obeys_bind.mpr (unsubscribeRunning_obeys (fun ok => ?_) channel)
    cases ok with
    | false => exact rfl
    | true => exact obeys_act_ret_bind.mpr ⟨trivial, fun _ _ => stopIfEmpty_obeys⟩

theorem unsubscribe_obeys (channel : Bytes) :
    (unsubscribe channel : Procedure Callback Outcome).Obeys lockProtocol endsFree .nothing := by
  cases channel with
  | cons b bs => exact unsubscribeOne_obeys _
  | nil =>
    refine obeys_act_ret_bind.mpr ⟨trivial, fun running _ => ?_⟩
    cases running with
    | false => exact unsubscribeOne_obeys _
    | true => exact unsubscribeAll_obeys

theorem publish_obeys (channel message : Bytes) :
    (publish channel message : Procedure Callback Outcome).Obeys lockProtocol endsFree
      .nothing := by
  refine obeys_bind.mpr (getClient_obeys fun client => ?_)
  exact obeys_bind.mpr (underLock_obeys (fun _ => ⟨trivial, fun _ _ => rfl⟩) fun _ => rfl)

theorem ofStorage_obeys (p : RedisStorage.Procedure α) :
    (ofStorage p : Procedure Callback α).Obeys lockProtocol (fun _ t => t = .nothing) .nothing := by
  induction p with
  | ret x => exact rfl
  | act a k ih =>
    cases a with
    | getClient => exact obeys_bind.mpr (getClient_obeys fun redis => ih redis)
    | command redis cmd => exact ⟨trivial, fun r _ => ih r⟩

theorem Operation.obeys (op : Operation Callback) :
    op.procedure.Obeys lockProtocol endsFree .nothing := by
  cases op with
  | subscribe channel callback => exact subscribe_obeys channel callback
  | unsubscribe channel => exact unsubscribe_obeys channel
  | publish channel message => exact publish_obeys channel message
  | storage op => exact obeys_bind.mpr ((ofStorage_obeys _).mono fun _ _ h => h)

end Calls

/-! ## Mutexes along a run -/

namespace ConsumerPc

/-- What the consumer thread holds at a control point. -/
def held : ConsumerPc Callback → Held
  | .lockRedis => ⟨false, true, false⟩
  | .unlockInstance => ⟨false, true, true⟩
  | .consume | .lockCallbacks _ | .unlockRedis => ⟨false, false, true⟩
  | .find _ | .copy _ | .handOver .. | .unlockCallbacks => ⟨true, false, true⟩
  | .testRunning | .lockInstance | .failed | .exited => .nothing

/-- The mutex the consumer thread is about to lock. -/
def wants : ConsumerPc Callback → Option Mutex
  | .lockInstance => some .instanceMutex
  | .lockRedis => some .redisMutex
  | .lockCallbacks _ => some .callbacksMutex
  | _ => none

end ConsumerPc

namespace Shared

variable {s : Shared Callback}

/-- What an action does to the owner fields. -/
theorem owner_perform (i : ℕ) (a : Action Callback) (choice : Choice)
    (h : Possible i s choice a) :
    (∃ m, a = .lock m ∧ s.owner m = none ∧
      (s.perform i a choice).owner = Function.update s.owner m (some (.caller i))) ∨
    (∃ m, a = .unlock m ∧ s.owner m = some (.caller i) ∧
      (s.perform i a choice).owner = Function.update s.owner m none) ∨
    ((∀ (t : Held) (r : Answer a), lockProtocol.after t a r = t) ∧
      (s.perform i a choice).owner = s.owner) := by
  cases a with
  | lock m =>
    obtain ⟨rfl, hm⟩ := h
    exact Or.inl ⟨m, rfl, hm, rfl⟩
  | unlock m =>
    obtain ⟨rfl, hm⟩ := h
    exact Or.inr (Or.inl ⟨m, rfl, hm, rfl⟩)
  | _ =>
    refine Or.inr (Or.inr ⟨fun _ _ => rfl, ?_⟩)
    unfold perform
    split <;> rfl

/-- **One action of a call**: what its thread holds follows the protocol, and the
other threads hold what they held. -/
theorem heldBy_perform {i : ℕ} {a : Action Callback} {choice : Choice}
    (h : Possible i s choice a) (t : Thread) :
    heldBy (s.perform i a choice).owner t =
      if t = .caller i then lockProtocol.after (heldBy s.owner t) a (answer s choice a)
      else heldBy s.owner t := by
  rcases owner_perform i a choice h with ⟨m, rfl, hm, ho⟩ | ⟨m, rfl, hm, ho⟩ | ⟨hafter, ho⟩
  · rw [ho, heldBy_acquire hm]
    split
    · subst t
      rfl
    · rfl
  · rw [ho, heldBy_release hm]
    split
    · subst t
      rfl
    · rfl
  · rw [ho, hafter]
    split <;> rfl

/-- The consumer threads after an action of a call. -/
theorem consumers_perform (i : ℕ) (a : Action Callback) (choice : Choice) :
    (s.perform i a choice).consumers = s.consumers ∨
      (s.perform i a choice).consumers = s.consumers ++ [.testRunning] := by
  unfold perform
  split
  · exact Or.inl rfl
  · cases a with
    | startThread => exact Or.inr rfl
    | _ => exact Or.inl rfl

/-- Calls hand nothing to the pool. -/
theorem tasks_perform (s : Shared Callback) (i : ℕ) (a : Action Callback) (choice : Choice) :
    (s.perform i a choice).tasks = s.tasks := by
  unfold perform
  split
  · rfl
  · cases a <;> rfl

/-- What a step of a consumer thread does to the owner fields. -/
theorem owner_consumer {w : ℕ} {a : ConsumerAct Callback} (hguard : (consumerMove w s a).guard) :
    (∃ m, s.owner m = none ∧
      (s.consumer w a).owner = Function.update s.owner m (some (.consumer w)) ∧
      (consumerMove w s a).target.held = (consumerMove w s a).source.held.set true m) ∨
    (∃ m, s.owner m = some (.consumer w) ∧
      (s.consumer w a).owner = Function.update s.owner m none ∧
      (consumerMove w s a).target.held = (consumerMove w s a).source.held.set false m) ∨
    ((s.consumer w a).owner = s.owner ∧
      (consumerMove w s a).target.held = (consumerMove w s a).source.held) := by
  cases a with
  | lockInstance => exact Or.inl ⟨.instanceMutex, hguard, rfl, rfl⟩
  | lockRedis => exact Or.inl ⟨.redisMutex, hguard, rfl, rfl⟩
  | lockCallbacks m => exact Or.inl ⟨.callbacksMutex, hguard, rfl, rfl⟩
  | unlockInstance => exact Or.inr (Or.inl ⟨.instanceMutex, hguard, rfl, rfl⟩)
  | unlockCallbacks => exact Or.inr (Or.inl ⟨.callbacksMutex, hguard, rfl, rfl⟩)
  | unlockRedis => exact Or.inr (Or.inl ⟨.redisMutex, hguard, rfl, rfl⟩)
  | fail => exact Or.inr (Or.inl ⟨.redisMutex, hguard.2, rfl, rfl⟩)
  | testRunning =>
    refine Or.inr (Or.inr ⟨rfl, ?_⟩)
    show (if s.running then (ConsumerPc.lockInstance : ConsumerPc Callback) else .exited).held = _
    split <;> rfl
  | receive m => exact Or.inr (Or.inr ⟨rfl, rfl⟩)
  | timeout => exact Or.inr (Or.inr ⟨rfl, rfl⟩)
  | find m =>
    refine Or.inr (Or.inr ⟨rfl, ?_⟩)
    show (if (s.callbacks.lookup m.channel).isSome then ConsumerPc.copy m
      else .unlockCallbacks).held = _
    split <;> rfl
  | copy cb m => exact Or.inr (Or.inr ⟨rfl, rfl⟩)
  | handOver cb m => exact Or.inr (Or.inr ⟨rfl, rfl⟩)
  | storeRunning => exact Or.inr (Or.inr ⟨rfl, rfl⟩)

/-- **One step of a consumer thread**: what it holds goes with its control point,
and the other threads hold what they held. -/
theorem heldBy_consumer {w : ℕ} {a : ConsumerAct Callback} (hguard : (consumerMove w s a).guard)
    (hown : heldBy s.owner (.consumer w) = (consumerMove w s a).source.held) (t : Thread) :
    heldBy (s.consumer w a).owner t =
      if t = .consumer w then (consumerMove w s a).target.held else heldBy s.owner t := by
  rcases owner_consumer hguard with ⟨m, hm, ho, htarget⟩ | ⟨m, hm, ho, htarget⟩ | ⟨ho, htarget⟩
  · rw [ho, htarget, ← hown, heldBy_acquire hm]
  · rw [ho, htarget, ← hown, heldBy_release hm]
  · rw [ho, htarget, ← hown]
    split
    · subst t
      rfl
    · rfl

end Shared

/-- **The mutexes are held as the programs say**: a call in progress keeps to the
protocol with what its thread holds, and a consumer thread holds what goes with
its control point. -/
structure Ordered (s : State Callback) : Prop where
  caller : ∀ i call, s.callers i = some call →
    call.rest.Obeys lockProtocol endsFree (heldBy s.shared.owner (.caller i))
  idle : ∀ i, s.callers i = none → heldBy s.shared.owner (.caller i) = .nothing
  consumer : ∀ w, heldBy s.shared.owner (.consumer w) =
    (s.shared.consumers[w]?).elim .nothing ConsumerPc.held

theorem ordered_initial : Ordered (initial : State Callback) where
  caller _ _ h := nomatch h
  idle _ _ := rfl
  consumer _ := rfl

/-- What a thread holds after a step. -/
theorem heldBy_next {a : Label Callback} {s : State Callback} (h : Enabled a s) (hs : Ordered s)
    (t : Thread) :
    heldBy (next a s).shared.owner t =
      match a, t with
      | .act i b choice, .caller j =>
        if j = i then lockProtocol.after (heldBy s.shared.owner t) b (answer s.shared choice b)
        else heldBy s.shared.owner t
      | .consumer w c, .consumer v =>
        if v = w then (consumerMove w s.shared c).target.held else heldBy s.shared.owner t
      | _, _ => heldBy s.shared.owner t := by
  cases a with
  | act i b choice =>
    rw [show (next (.act i b choice) s).shared = s.shared.perform i b choice from rfl,
      Shared.heldBy_perform h.2]
    cases t with
    | caller j => simp
    | consumer v => simp
  | consumer w c =>
    have hown := hs.consumer w
    rw [h.1] at hown
    rw [show (next (.consumer w c) s).shared = s.shared.consumer w c from rfl,
      Shared.heldBy_consumer h.2 hown]
    cases t with
    | caller j => simp
    | consumer v => simp
  | call i op => cases t <;> rfl
  | ret i op outcome => cases t <;> rfl
  | publish c payload => cases t <;> rfl

/-- Every step keeps the discipline. -/
theorem Ordered.next {a : Label Callback} {s : State Callback} (h : Enabled a s)
    (hs : Ordered s) : Ordered (next a s) where
  caller i call hcall := by
    rw [heldBy_next h hs]
    rcases call_next h hcall with ⟨ha, hold⟩ | ⟨op, rfl, hidle, rfl⟩ |
      ⟨call', b, choice, rfl, hold, hhead, -, rfl⟩
    · have hframe := hs.caller i call hold
      cases a with
      | act j b choice =>
        have hne : i ≠ j := fun heq => ha (congrArg some heq.symm)
        simpa [hne] using hframe
      | _ => exact hframe
    · have hfree := hs.idle i hidle
      show op.procedure.Obeys lockProtocol endsFree (heldBy s.shared.owner (.caller i))
      rw [hfree]
      exact op.obeys
    · simpa using (hs.caller i call' hold).step hhead trivial
  idle i hidle := by
    rw [heldBy_next h hs]
    rcases RedisChannel.idle_next h hidle with ⟨ha, hold⟩ | ⟨call, outcome, rfl, hold, hres⟩
    · have hframe := hs.idle i hold
      cases a with
      | act j b choice =>
        have hne : i ≠ j := fun heq => ha (congrArg some heq.symm)
        simpa [hne] using hframe
      | _ => exact hframe
    · exact (hs.caller i call hold).result hres
  consumer w := by
    rw [heldBy_next h hs]
    cases a with
    | consumer v c =>
      show _ = ((s.shared.consumers.set v (consumerMove v s.shared c).target)[w]?).elim _ _
      by_cases hwv : w = v
      · subst hwv
        have hlt : w < s.shared.consumers.length := (List.getElem?_eq_some_iff.mp h.1).1
        simp [hlt]
      · rw [List.getElem?_set_ne (fun heq => hwv heq.symm)]
        simpa [hwv] using hs.consumer w
    | act i b choice =>
      have hframe := hs.consumer w
      show heldBy s.shared.owner (.consumer w) =
        ((s.shared.perform i b choice).consumers[w]?).elim _ _
      rcases s.shared.consumers_perform i b choice with hc | hc
      · rw [hc]
        exact hframe
      · rw [hc, hframe]
        -- the new thread starts with no mutex, like one that does not exist
        rcases lt_or_ge w s.shared.consumers.length with hlt | hge
        · rw [List.getElem?_append_left hlt]
        · rw [List.getElem?_eq_none hge, List.getElem?_append_right hge]
          rcases hi : w - s.shared.consumers.length with _ | n
          · rfl
          · rfl
    | _ => exact hs.consumer w

theorem ordered {tr : List (Label Callback)} {s : State Callback}
    (h : channel.Run initial tr s) : Ordered s :=
  h.invariant ordered_initial fun _ _ hs ha => hs.next ha

/-! ## Loops that still have to lock the client -/

def Action.locks : Action Callback → Prop
  | .lock _ => True
  | _ => False

/-- The answers an action may be given, and the keys `callbacks_` may have after
it, for a caller that holds `callbacks_mutex_`: nobody else adds a key, and the
other threads may erase some. -/
def Foreseen (keys : Finset Bytes) : (a : Action Callback) → Answer a → Finset Bytes → Prop
  | .callbackKeys, order, keys' => order.toFinset ⊆ keys ∧ keys' = keys
  | .setCallback _ _, _, _ => True
  | _, _, keys' => keys' = keys

/-- Before it releases `callbacks_mutex_`, the program may still lock a mutex. -/
def MayLock : Procedure Callback α → Finset Bytes → Prop
  | .ret _, _ => False
  | .act a k, keys =>
    a.locks ∨ a ≠ .unlock .callbacksMutex ∧ ∃ r keys', Foreseen keys a r keys' ∧ MayLock (k r) keys'

theorem MayLock.mono {p : Procedure Callback α} {keys keys' : Finset Bytes} (h : MayLock p keys)
    (hsub : keys ⊆ keys') : MayLock p keys' := by
  induction p generalizing keys keys' with
  | ret x => exact h
  | act a k ih =>
    refine h.imp_right fun ⟨ha, r, keys₁, hr, hk⟩ => ⟨ha, r, ?_⟩
    cases a with
    | callbackKeys =>
      -- more keys leave more orders open
      obtain ⟨horder, rfl⟩ := hr
      exact ⟨keys', ⟨horder.trans hsub, rfl⟩, ih r hk hsub⟩
    | setCallback c cb => exact ⟨keys₁, trivial, hk⟩
    | _ =>
      obtain rfl : keys₁ = keys := hr
      exact ⟨keys', rfl, ih r hk hsub⟩

/-- A program that locks nothing more is the same one action later. -/
theorem not_mayLock_step {p : Procedure Callback α} {keys keys' : Finset Bytes}
    {a : Action Callback} {f : ∀ a, Answer a} (h : ¬ MayLock p keys) (ha : p.head? = some a)
    (hne : a ≠ .unlock .callbacksMutex) (hf : Foreseen keys a (f a) keys') :
    ¬ MayLock (p.step f) keys' := by
  cases p with
  | ret x => exact absurd ha (by simp [head?])
  | act b k =>
    obtain rfl : b = a := Option.some.inj ha
    exact fun hk => h (Or.inr ⟨hne, f b, keys', hf, hk⟩)

/-- Caller `i` holds `callbacks_mutex_` and may still lock a mutex before it
releases it: it is in the loop of `unsubscribe` or `initializeSubscriber`, and
some key is left. -/
def State.InLoop (s : State Callback) (i : ℕ) : Prop :=
  s.shared.owner .callbacksMutex = some (.caller i) ∧
    ∃ call, s.callers i = some call ∧ MayLock call.rest s.shared.keys

/-- Consumer thread `w` has a message and waits for `callbacks_mutex_`. -/
def State.Waiting (s : State Callback) (w : ℕ) : Prop :=
  ∃ m, s.shared.consumers[w]? = some (.lockCallbacks m)

/-- **The steps that close no cycle**: `consume` returns a message only while no
caller is in a loop that still has to lock the client, and no caller enters such
a loop while a consumer thread waits for `callbacks_mutex_`. -/
def LoopApart (_ : List (Label Callback)) (s : State Callback) : Label Callback → Prop
  | .consumer _ (.receive _) => ∀ i, ¬ s.InLoop i
  | .act i (.lock .callbacksMutex) choice =>
    (next (.act i (.lock .callbacksMutex) choice) s).InLoop i → ∀ w, ¬ s.Waiting w
  | _ => True

/-- Only the owner of `callbacks_mutex_` adds a key to `callbacks_`. -/
theorem keys_perform {s : Shared Callback} {i : ℕ} {a : Action Callback} {choice : Choice}
    (ha : ∀ c cb, a ≠ .setCallback c cb) : (s.perform i a choice).keys ⊆ s.keys := by
  unfold Shared.perform
  split
  · exact Finset.Subset.refl _
  · cases a with
    | setCallback c cb => exact absurd rfl (ha c cb)
    | eraseCallback c =>
      intro k hk
      rw [Shared.mem_keys] at hk ⊢
      exact (AList.mem_erase.mp hk).2
    | clearCallbacks => exact Finset.empty_subset _
    | publish g c m => exact Finset.Subset.refl _
    | _ => exact Finset.Subset.refl _

/-- The answer to an action of the owner of `callbacks_mutex_` was foreseen. -/
theorem foreseen_perform {s : Shared Callback} {i : ℕ} {a : Action Callback} {choice : Choice}
    (h : Possible i s choice a) :
    ∃ keys, Foreseen s.keys a (answer s choice a) keys ∧ (s.perform i a choice).keys ⊆ keys := by
  cases a with
  | setCallback c cb => exact ⟨_, trivial, Finset.Subset.refl _⟩
  | callbackKeys =>
    cases choice with
    | order keys =>
      refine ⟨s.keys, ⟨fun k hk => ?_, rfl⟩, keys_perform nofun⟩
      have hperm : keys.Perm s.callbacks.keys := h
      rw [List.mem_toFinset] at hk
      exact List.mem_toFinset.mpr (hperm.mem_iff.mp hk)
    | _ => exact absurd h id
  | _ => exact ⟨s.keys, rfl, keys_perform nofun⟩

/-- A consumer thread that waits for `callbacks_mutex_` waits for no loop that
still has to lock the client. -/
def Unentangled (s : State Callback) : Prop := ∀ w, s.Waiting w → ∀ i, ¬ s.InLoop i

/-- A step of another thread gives caller `i` no mutex. -/
theorem owner_of_owner_next {a : Label Callback} {s : State Callback} (h : Enabled a s)
    (hs : Ordered s) {i : ℕ} {m : Mutex} (ha : a.caller? ≠ some i)
    (hm : (next a s).shared.owner m = some (.caller i)) : s.shared.owner m = some (.caller i) := by
  rw [← heldBy_has, heldBy_next h hs] at hm
  rw [← heldBy_has]
  cases a with
  | act j b choice =>
    have hne : i ≠ j := fun heq => ha (congrArg some heq.symm)
    simpa [hne] using hm
  | _ => exact hm

/-- While caller `i` owns `callbacks_mutex_`, a step of another thread adds no key. -/
theorem keys_next {a : Label Callback} {s : State Callback} (h : Enabled a s) (hs : Ordered s)
    {i : ℕ} (ha : a.caller? ≠ some i) (hi : s.shared.owner .callbacksMutex = some (.caller i)) :
    (next a s).shared.keys ⊆ s.shared.keys := by
  cases a with
  | act j b choice =>
    -- a caller that adds a key owns the mutex, so it is `i`
    refine keys_perform fun c cb hb => ha ?_
    subst hb
    obtain ⟨call, hcall, hhead⟩ := State.exists_call_of_head? h.1
    have hj : (heldBy s.shared.owner (.caller j)).callbacks = true :=
      (hs.caller j call hcall).allowed hhead
    have howner : s.shared.owner .callbacksMutex = some (.caller j) := decide_eq_true_iff.mp hj
    rw [hi] at howner
    obtain rfl : i = j := by simpa using howner
    rfl
  | consumer w c => cases c <;> exact Finset.Subset.refl _
  | _ => exact Finset.Subset.refl _

/-- A caller in a loop was in it before, or has just entered it. -/
theorem inLoop_next {a : Label Callback} {s : State Callback} (h : Enabled a s) (hs : Ordered s)
    {i : ℕ} (hi : (next a s).InLoop i) :
    s.InLoop i ∨ ∃ choice, a = .act i (.lock .callbacksMutex) choice := by
  obtain ⟨howner, call, hcall, hmay⟩ := hi
  rcases call_next h hcall with ⟨ha, hold⟩ | ⟨op, rfl, hidle, -⟩ |
    ⟨call', b, choice, rfl, hold, hhead, hpossible, rfl⟩
  -- a step of another thread
  · have hi := owner_of_owner_next h hs ha howner
    exact Or.inl ⟨hi, call, hold, hmay.mono (keys_next h hs ha hi)⟩
  -- a call begins without a mutex
  · have hfree := hs.idle i hidle
    have hcb : (heldBy s.shared.owner (.caller i)).has .callbacksMutex = true :=
      heldBy_has.mpr howner
    rw [hfree] at hcb
    exact absurd hcb (by decide)
  · by_cases hb : b = .lock .callbacksMutex
    · exact Or.inr ⟨choice, by rw [hb]⟩
    · have hb' : b ≠ .unlock .callbacksMutex := by
        rintro rfl
        obtain ⟨rfl, -⟩ := hpossible
        exact absurd howner (by simp [next, Shared.perform, effect, Shared.release])
      refine Or.inl ⟨?_, call', hold, ?_⟩
      · have howner' : (s.shared.perform i b choice).owner .callbacksMutex = some (.caller i) :=
          howner
        rcases s.shared.owner_perform i b choice hpossible with
          ⟨m, rfl, -, ho⟩ | ⟨m, rfl, -, ho⟩ | ⟨-, ho⟩
        · have hne : Mutex.callbacksMutex ≠ m := fun heq => hb (by rw [heq])
          rwa [ho, Function.update_of_ne hne] at howner'
        · have hne : Mutex.callbacksMutex ≠ m := fun heq => hb' (by rw [heq])
          rwa [ho, Function.update_of_ne hne] at howner'
        · rwa [ho] at howner'
      · obtain ⟨keys, hforeseen, hsub⟩ := foreseen_perform hpossible
        by_contra hnot
        exact not_mayLock_step hnot hhead hb' hforeseen (hmay.mono hsub)

/-- A consumer thread that waits was waiting before, or has just received a message. -/
theorem waiting_next {a : Label Callback} {s : State Callback} (h : Enabled a s) {w : ℕ}
    (hw : (next a s).Waiting w) : s.Waiting w ∨ ∃ m, a = .consumer w (.receive m) := by
  obtain ⟨m, hm⟩ := hw
  cases a with
  | consumer v c =>
    by_cases hwv : v = w
    · subst hwv
      have hlt : v < s.shared.consumers.length := (List.getElem?_eq_some_iff.mp h.1).1
      have htarget : (consumerMove v s.shared c).target = .lockCallbacks m := by
        have hset : (s.shared.consumers.set v (consumerMove v s.shared c).target)[v]? =
          some (.lockCallbacks m) := hm
        simpa [hlt] using hset
      cases c with
      | receive x => exact Or.inr ⟨x, rfl⟩
      | testRunning =>
        have hif : (if s.shared.running then (ConsumerPc.lockInstance : ConsumerPc Callback)
          else .exited) = .lockCallbacks m := htarget
        split at hif <;> exact absurd hif nofun
      | find x =>
        have hif : (if (s.shared.callbacks.lookup x.channel).isSome then
          (ConsumerPc.copy x : ConsumerPc Callback) else .unlockCallbacks) = .lockCallbacks m :=
          htarget
        split at hif <;> exact absurd hif nofun
      | _ => exact absurd htarget nofun
    · refine Or.inl ⟨m, ?_⟩
      have hset : (s.shared.consumers.set v (consumerMove v s.shared c).target)[w]? =
        some (.lockCallbacks m) := hm
      rwa [List.getElem?_set_ne hwv] at hset
  | act i b choice =>
    have hcons : (s.shared.perform i b choice).consumers[w]? = some (.lockCallbacks m) := hm
    rcases s.shared.consumers_perform i b choice with hc | hc
    · exact Or.inl ⟨m, by rwa [hc] at hcons⟩
    · rw [hc] at hcons
      refine Or.inl ⟨m, ?_⟩
      rcases lt_or_ge w s.shared.consumers.length with hlt | hge
      · rwa [List.getElem?_append_left hlt] at hcons
      · rw [List.getElem?_append_right hge] at hcons
        exact absurd (List.mem_of_getElem? hcons) (by simp)
  | _ => exact Or.inl ⟨m, hm⟩

theorem Unentangled.next {tr : List (Label Callback)} {a : Label Callback} {s : State Callback}
    (h : Enabled a s) (hord : Ordered s) (hc : LoopApart tr s a) (hs : Unentangled s) :
    Unentangled (next a s) := by
  intro w hw i hi
  -- one of the two is new, and the step condition keeps it away from the other
  rcases inLoop_next h hord hi with hold | ⟨choice, rfl⟩
  · rcases waiting_next h hw with hwold | ⟨m, rfl⟩
    · exact hs w hwold i hold
    · exact hc i hold
  · rcases waiting_next h hw with hwold | ⟨m, hm⟩
    · exact hc hi w hwold
    · exact absurd hm nofun

theorem unentangled {tr : List (Label Callback)} {s : State Callback}
    (h : channel.RunBy LoopApart initial tr s) : Unentangled s := by
  refine h.induct (P := fun _ s => Unentangled s) ?_ fun tr s a hr hs ha hc =>
    hs.next ha (ordered hr.run) hc
  rintro w ⟨m, hm⟩
  exact absurd hm (by simp [initial])

/-! ## Circular waits -/

/-- Thread `t` holds mutex `m`. -/
def State.Holds (s : State Callback) (t : Thread) (m : Mutex) : Prop := s.shared.owner m = some t

/-- Thread `t` is about to lock mutex `m`. -/
def State.Wants (s : State Callback) : Thread → Mutex → Prop
  | .caller i, m => s.head? i = some (.lock m)
  | .consumer w, m => ∃ pc, s.shared.consumers[w]? = some pc ∧ pc.wants = some m

theorem Ordered.rank_lt {s : State Callback} (hs : Ordered s) {i : ℕ} {m m' : Mutex}
    (hm : s.Holds (.caller i) m) (hm' : s.Wants (.caller i) m') : m.rank < m'.rank := by
  obtain ⟨call, hcall, hhead⟩ := State.exists_call_of_head? hm'
  exact rank_lt_of_allowed (heldBy_has.mpr hm) ((hs.caller i call hcall).allowed hhead)

/-- A consumer thread that holds a mutex and wants another goes up in the order,
unless it has a message. -/
theorem ConsumerPc.rank_lt {pc : ConsumerPc Callback} {m m' : Mutex} (hm : pc.held.has m = true)
    (hm' : pc.wants = some m') :
    m.rank < m'.rank ∨ m' = .callbacksMutex ∧ ∃ x, pc = .lockCallbacks x := by
  cases pc with
  | lockInstance => cases m <;> exact absurd hm nofun
  | lockRedis =>
    obtain rfl : Mutex.redisMutex = m' := Option.some.inj hm'
    cases m with
    | redisMutex => exact absurd hm nofun
    | _ => exact Or.inl (by decide)
  | lockCallbacks x =>
    obtain rfl : Mutex.callbacksMutex = m' := Option.some.inj hm'
    exact Or.inr ⟨rfl, x, rfl⟩
  | _ => exact absurd hm' nofun

/-- In `on_message` the consumer thread wants no mutex but `callbacks_mutex_`. -/
theorem ConsumerPc.wants_eq_none {pc : ConsumerPc Callback}
    (h : pc.held.has .callbacksMutex = true) :
    pc.wants = none := by
  cases pc with
  | find m | copy m | handOver cb m | unlockCallbacks => rfl
  | _ => exact absurd h (by simp [held, Held.has, Held.nothing])

/-- What a consumer thread holds goes with its control point. -/
theorem Ordered.held_of_holds {s : State Callback} (hs : Ordered s) {w : ℕ} {m : Mutex}
    {pc : ConsumerPc Callback} (hpc : s.shared.consumers[w]? = some pc)
    (hm : s.Holds (.consumer w) m) :
    pc.held.has m = true := by
  have hheld := hs.consumer w
  rw [hpc] at hheld
  rw [← show heldBy s.shared.owner (.consumer w) = pc.held from hheld]
  exact heldBy_has.mpr hm

/-- **No deadlock**: in a run in which no message arrives while a loop over
`callbacks_` still has to lock the client, and no such loop is entered while the
consumer waits for `callbacks_mutex_`, no reachable state contains a circular wait. -/
theorem noDeadlock_of_loopApart {tr : List (Label Callback)} {s : State Callback}
    (h : channel.RunBy LoopApart initial tr s) : ¬ CircularWait s.Holds s.Wants := by
  have hord := ordered h.run
  refine not_circularWait Mutex.rank 2 (fun m => by cases m <;> decide) ?_
  intro t u v m m' m'' _ hum hum' hvm hvm'
  cases u with
  | caller i => exact hord.rank_lt hum hum'
  | consumer w =>
    obtain ⟨pc, hpc, hwants⟩ := hum'
    rcases pc.rank_lt (hord.held_of_holds hpc hum) hwants with hlt | ⟨rfl, x, rfl⟩
    · exact hlt
    -- the holder of `callbacks_mutex_` would be in a loop
    · exfalso
      cases v with
      | caller j =>
        obtain ⟨call, hcall, hhead⟩ := State.exists_call_of_head? hvm'
        refine unentangled h w ⟨x, hpc⟩ j ⟨hvm, call, hcall, ?_⟩
        cases hrest : call.rest with
        | ret o => simp [hrest, head?] at hhead
        | act b k =>
          rw [hrest] at hhead
          obtain rfl : b = .lock m'' := Option.some.inj hhead
          exact Or.inl trivial
      | consumer v =>
        obtain ⟨pc', hpc', hwants'⟩ := hvm'
        rw [pc'.wants_eq_none (hord.held_of_holds hpc' hvm)] at hwants'
        exact absurd hwants' (by simp)

/-! ## A deadlock, and a message that causes none -/

/-- A command between `lockClient` and the release of its lock. -/
def lockedRun (i : ℕ) (command : Action Callback) (choice : Choice) : List (Label Callback) :=
  [.act i (.lock .instanceMutex) .ok, .act i (.lock .redisMutex) .ok,
    .act i (.unlock .instanceMutex) .ok, .act i command choice, .act i (.unlock .redisMutex) .ok]

/-- The first `subscribe`, up to the loop of `initializeSubscriber`. -/
def startRun (i : ℕ) (c : Bytes) (cb : Callback) : List (Label Callback) :=
  [.call i (.subscribe c cb), .act i (.lock .callbacksMutex) .ok, .act i (.setCallback c cb) .ok,
    .act i (.unlock .callbacksMutex) .ok, .act i .loadRunning .ok, .act i .compareExchange .ok,
    .act i (.lock .instanceMutex) .ok, .act i (.lock .redisMutex) .ok, .act i .ping .ok,
    .act i (.unlock .redisMutex) .ok, .act i .redis .ok, .act i (.unlock .instanceMutex) .ok] ++
  lockedRun i (.createSubscriber 0) .ok ++ lockedRun i .onMessage .ok ++
  [.act i (.lock .callbacksMutex) .ok, .act i .callbackKeys (.order [c])]

/-- The first `subscribe`. -/
def subscribeRun (i : ℕ) (c : Bytes) (cb : Callback) : List (Label Callback) :=
  startRun i c cb ++ lockedRun i (.subscribe c) .ok ++
  [.act i (.unlock .callbacksMutex) .ok, .act i .joinable .ok, .act i (.storeRunning true) .ok,
    .act i .startThread .ok, .ret i (.subscribe c cb) done]

/-- A round of the consumer thread, up to `consume`. -/
def consumeRun (w : ℕ) : List (Label Callback) :=
  [.consumer w .testRunning, .consumer w .lockInstance, .consumer w .lockRedis,
    .consumer w .unlockInstance]

/-- The rest of a round that receives message `m` and hands it over to `cb`. -/
def receiveRun (w : ℕ) (m : Message) (cb : Callback) : List (Label Callback) :=
  [.consumer w (.receive m), .consumer w (.lockCallbacks m), .consumer w (.find m),
    .consumer w (.copy cb m), .consumer w (.handOver cb m), .consumer w .unlockCallbacks,
    .consumer w .unlockRedis]

/-- A message arrives while `unsubscribe()` is in its loop. -/
def unsubscribeRun : List (Label Unit) :=
  subscribeRun 0 [97] () ++ consumeRun 0 ++
  [.publish [97] [], .call 1 (.unsubscribe []), .act 1 .loadRunning .ok,
    .act 1 (.storeRunning false) .ok, .act 1 (.lock .callbacksMutex) .ok,
    .act 1 .callbackKeys (.order [[97]]), .act 1 (.lock .instanceMutex) .ok,
    .consumer 0 (.receive ⟨0, [97], []⟩)]

set_option maxRecDepth 4000 in
/-- **A deadlock**: the consumer thread holds `redis_mutex_` and waits for
`callbacks_mutex_`, which `unsubscribe()` holds while it waits for `redis_mutex_`. -/
theorem deadlocks_unsubscribeRun : ¬ ∀ (tr : List (Label Unit)) (s : State Unit),
    channel.Run initial tr s → ¬ CircularWait s.Holds s.Wants := by
  intro hall
  refine hall unsubscribeRun _ (TransitionSystem.run_of_legal (by decide))
    ⟨{.caller 1, .consumer 0}, ⟨.caller 1, by simp⟩, ?_⟩
  rintro t (rfl | rfl)
  · exact ⟨⟨.callbacksMutex, rfl⟩, .redisMutex, rfl, .consumer 0, by simp, by simp, rfl⟩
  · exact ⟨⟨.redisMutex, rfl⟩, .callbacksMutex, ⟨_, rfl, rfl⟩, .caller 1, by simp, by simp, rfl⟩

/-- No message arrives while `callbacks_mutex_` is held, and nobody takes it while
the consumer waits for it. -/
def MutexFree (s : State Unit) : Label Unit → Prop
  | .consumer _ (.receive _) => s.shared.owner .callbacksMutex = none
  | .act _ (.lock .callbacksMutex) _ =>
    ∀ pc ∈ s.shared.consumers, pc.wants ≠ some .callbacksMutex
  | _ => True

instance (s : State Unit) (a : Label Unit) : Decidable (MutexFree s a) := by
  unfold MutexFree
  split <;> infer_instance

theorem MutexFree.loopApart {tr : List (Label Unit)} {s : State Unit} {a : Label Unit}
    (h : MutexFree s a) : LoopApart tr s a := by
  unfold LoopApart
  split
  · rintro i ⟨hi, -⟩
    exact absurd (hi.symm.trans h) nofun
  · rintro - w ⟨m, hm⟩
    exact h _ (List.mem_of_getElem? hm) rfl
  · exact trivial

/-- A message is received and handed over. -/
def messageRun : List (Label Unit) :=
  subscribeRun 0 [97] () ++ consumeRun 0 ++ [.publish [97] []] ++ receiveRun 0 ⟨0, [97], []⟩ ()

set_option maxRecDepth 4000 in
theorem noDeadlock_of_loopApart_messageRun :
    ¬ CircularWait (channel.after messageRun initial).Holds
      (channel.after messageRun initial).Wants :=
  noDeadlock_of_loopApart
    (TransitionSystem.runBy_of_legal (D := MutexFree) (fun _ _ _ h => h.loopApart) (by decide))

end RedisChannel
