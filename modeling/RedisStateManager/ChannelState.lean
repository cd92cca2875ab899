/-
# The state of the subscription

`running_`, `subscriber_`, the consumer thread, the callback map and the
channels subscribed at Redis are kept in step by a sequence of calls, while the
consumer thread and other publishers interleave.  `Quiet` is what the others can
do to these fields, with a broken connection as the one event that matters; each
function has an assertion that it establishes (`subscribe_meets`, `unsubscribe_meets`),
and `consistent_between_calls` puts the calls of a run together.
-/
import Mathlib.Data.Finset.Lattice.Lemmas
import RedisStateManager.RelyGuarantee
import RedisStateManager.ChannelLock

namespace RedisChannel

open Redis Program

variable {Callback : Type}

/-! ## What is observed of the shared state -/

/-- The channels subscribed at Redis: none once the connection broke. -/
def Subscriber.subscribed (u : Subscriber) : Finset Bytes := if u.broken then ∅ else u.channels

/-- Receiving a message touches the buffer only. -/
theorem Subscriber.receive_frame (u : Subscriber) (m : Message) :
    (u.receive m).channels = u.channels ∧ (u.receive m).broken = u.broken := by
  unfold receive
  split <;> exact ⟨rfl, rfl⟩

namespace ConsumerPc

/-- The control points of the loop, the part of `on_message` included. -/
def looping : ConsumerPc Callback → Bool
  | .failed | .exited => false
  | _ => true

def isFailed : ConsumerPc Callback → Bool
  | .failed => true
  | _ => false

end ConsumerPc

namespace Shared

variable {s : Shared Callback}

/-- Consumer thread `w` is in its loop. -/
def Alive (s : Shared Callback) (w : ℕ) : Prop :=
  ∃ pc, s.consumers[w]? = some pc ∧ pc.looping = true

/-- Consumer thread `w` has not come to its end. -/
def Unfinished (s : Shared Callback) (w : ℕ) : Prop :=
  ∃ pc, s.consumers[w]? = some pc ∧ pc ≠ .exited

/-- A consumer thread is handling a connection error: `consume` has thrown, and
`running_` is about to be cleared. -/
def failing (s : Shared Callback) : Bool :=
  (s.subscriptionThread.bind (s.consumers[·]?)).any (·.isFailed)

/-- `running_` is set, and not about to be cleared by the handler of an error. -/
def up (s : Shared Callback) : Bool := s.running && !s.failing

theorem up_eq_true : s.up = true ↔ s.running = true ∧ s.failing = false := by
  simp [up]

theorem up_of_stopped (h : s.running = false) : s.up = false := by
  simp [up, h]

theorem up_of_failing (h : s.failing = true) : s.up = false := by
  simp [up, h]

theorem failing_of_looping {w : ℕ} {pc : ConsumerPc Callback}
    (hthread : s.subscriptionThread = some w) (hpc : s.consumers[w]? = some pc)
    (hloop : pc.looping = true) : s.failing = false := by
  rw [failing, hthread, Option.bind_some, hpc]
  cases pc with
  | failed => exact absurd hloop nofun
  | _ => rfl

theorem failing_of_noThread (h : s.subscriptionThread = none) : s.failing = false := by
  simp [failing, h]

/-- The channels the subscriber has subscribed to. -/
def channels (s : Shared Callback) : Option (Finset Bytes) := s.subscriber.map (·.channels)

/-- **The subscription state is consistent**: while `running_` is set, there is a
subscriber, a consumer thread loops on it, and it is subscribed to the keys of
`callbacks_`. -/
def Consistent (s : Shared Callback) : Prop :=
  s.running = true → ∃ u w, s.subscriber = some u ∧ s.subscriptionThread = some w ∧ s.Alive w ∧
    u.subscribed = s.keys

/-- At most one consumer thread has not ended, the one that has not been joined. -/
def OneConsumer (s : Shared Callback) : Prop :=
  ∀ w, s.Unfinished w → s.subscriptionThread = some w

/-! ## One step of a consumer thread -/

theorem source_ne_exited (w : ℕ) (s : Shared Callback) (a : ConsumerAct Callback) :
    (consumerMove w s a).source ≠ .exited := by
  cases a <;> exact nofun

/-- The control points of the other threads stay. -/
theorem getElem?_consumer_of_ne {w v : ℕ} {a : ConsumerAct Callback} (h : w ≠ v) :
    (s.consumer w a).consumers[v]? = s.consumers[v]? := by
  rw [show (s.consumer w a).consumers = s.consumers.set w _ from rfl, List.getElem?_set_ne h]

theorem getElem?_consumer_self {w : ℕ} {a : ConsumerAct Callback} {pc : ConsumerPc Callback}
    (h : s.consumers[w]? = some pc) :
    (s.consumer w a).consumers[w]? = some (consumerMove w s a).target := by
  have hlt : w < s.consumers.length := (List.getElem?_eq_some_iff.mp h).1
  rw [show (s.consumer w a).consumers = s.consumers.set w _ from rfl]
  simp [hlt]

/-- A consumer thread that has not ended after a step had not ended before. -/
theorem unfinished_of_consumer {w v : ℕ} {a : ConsumerAct Callback}
    (hsrc : s.consumers[w]? = some (consumerMove w s a).source)
    (h : (s.consumer w a).Unfinished v) : s.Unfinished v := by
  obtain ⟨pc, hpc, hne⟩ := h
  by_cases hwv : w = v
  · subst hwv
    exact ⟨_, hsrc, source_ne_exited w s a⟩
  · exact ⟨pc, by rwa [getElem?_consumer_of_ne hwv] at hpc, hne⟩

/-- A thread does not come back into its loop. -/
theorem looping_source {w : ℕ} {a : ConsumerAct Callback}
    (h : (consumerMove w s a).target.looping = true) :
    (consumerMove w s a).source.looping = true := by
  cases a with
  | storeRunning => exact absurd h nofun
  | _ => rfl

/-- Only a connection error, or `running_` being cleared, ends the loop. -/
theorem looping_target {w : ℕ} {a : ConsumerAct Callback} (hfail : a ≠ .fail)
    (hrun : a = .testRunning → s.running = true) (h : (consumerMove w s a).source.looping = true) :
    (consumerMove w s a).target.looping = true := by
  cases a with
  | fail => exact absurd rfl hfail
  | storeRunning => exact absurd h nofun
  | testRunning => simp [consumerMove, hrun rfl, ConsumerPc.looping]
  | find m =>
    show (if (s.callbacks.lookup m.channel).isSome then (ConsumerPc.copy m : ConsumerPc Callback)
      else .unlockCallbacks).looping = true
    split <;> rfl
  | _ => rfl

/-- A consumer thread that is in its loop after a step was in it before. -/
theorem alive_of_alive_consumer {w v : ℕ} {a : ConsumerAct Callback}
    (hsrc : s.consumers[w]? = some (consumerMove w s a).source) (h : (s.consumer w a).Alive v) :
    s.Alive v := by
  obtain ⟨pc, hpc, hloop⟩ := h
  by_cases hwv : w = v
  · subst hwv
    rw [getElem?_consumer_self hsrc] at hpc
    obtain rfl := Option.some.inj hpc
    exact ⟨_, hsrc, looping_source hloop⟩
  · exact ⟨pc, by rwa [getElem?_consumer_of_ne hwv] at hpc, hloop⟩

theorem alive_consumer {w v : ℕ} {a : ConsumerAct Callback} (hfail : a ≠ .fail)
    (hsrc : s.consumers[w]? = some (consumerMove w s a).source)
    (hrun : a = .testRunning → s.running = true) (h : s.Alive v) : (s.consumer w a).Alive v := by
  obtain ⟨pc, hpc, hloop⟩ := h
  by_cases hwv : w = v
  · subst hwv
    obtain rfl : pc = _ := Option.some.inj (hpc.symm.trans hsrc)
    exact ⟨_, getElem?_consumer_self hsrc, looping_target hfail hrun hloop⟩
  · exact ⟨pc, by rw [getElem?_consumer_of_ne hwv]; exact hpc, hloop⟩

theorem callbacks_consumer (w : ℕ) (a : ConsumerAct Callback) :
    (s.consumer w a).callbacks = s.callbacks := by
  cases a <;> rfl

theorem subscriptionThread_consumer (w : ℕ) (a : ConsumerAct Callback) :
    (s.consumer w a).subscriptionThread = s.subscriptionThread := by
  cases a <;> rfl

theorem channels_consumer (w : ℕ) (a : ConsumerAct Callback) :
    (s.consumer w a).channels = s.channels := by
  cases a with
  | receive m => simp [consumer, consumerMove, channels, Function.comp_def]
  | fail => simp [consumer, consumerMove, channels, Function.comp_def]
  | _ => rfl

theorem running_consumer {w : ℕ} {a : ConsumerAct Callback} (hstore : a ≠ .storeRunning) :
    (s.consumer w a).running = s.running := by
  cases a with
  | storeRunning => exact absurd rfl hstore
  | _ => rfl

theorem broken_consumer {w : ℕ} {a : ConsumerAct Callback} (hfail : a ≠ .fail) :
    (s.consumer w a).broken = s.broken := by
  cases a with
  | fail => exact absurd rfl hfail
  | receive m =>
    show (s.subscriber.map _).any _ = s.subscriber.any _
    cases s.subscriber <;> rfl
  | _ => rfl

/-- The thread that reports an error is `failed`. -/
theorem failing_fail {w : ℕ} (hthread : s.subscriptionThread = some w)
    (hsrc : s.consumers[w]? = some .consume) : (s.consumer w .fail).failing = true := by
  have htarget : (s.consumer w .fail).consumers[w]? = some .failed := getElem?_consumer_self hsrc
  show ((s.consumer w .fail).subscriptionThread.bind
    ((s.consumer w .fail).consumers[·]?)).any _ = true
  rw [subscriptionThread_consumer, hthread, Option.bind_some, htarget]
  rfl

theorem failing_storeRunning {w : ℕ} (hthread : s.subscriptionThread = some w)
    (hsrc : s.consumers[w]? = some .failed) : s.failing = true := by
  rw [failing, hthread, Option.bind_some, hsrc]
  rfl

/-- The other steps of a consumer thread are not the handler's. -/
theorem failing_consumer {w : ℕ} {a : ConsumerAct Callback} (hfail : a ≠ .fail)
    (hstore : a ≠ .storeRunning) (hsrc : s.consumers[w]? = some (consumerMove w s a).source) :
    (s.consumer w a).failing = s.failing := by
  have hpc : (consumerMove w s a).source.isFailed = false ∧
      (consumerMove w s a).target.isFailed = false := by
    cases a with
    | fail => exact absurd rfl hfail
    | storeRunning => exact absurd rfl hstore
    | testRunning =>
      refine ⟨rfl, ?_⟩
      show (if s.running then (ConsumerPc.lockInstance : ConsumerPc Callback)
        else .exited).isFailed = false
      split <;> rfl
    | find m =>
      refine ⟨rfl, ?_⟩
      show (if (s.callbacks.lookup m.channel).isSome then (ConsumerPc.copy m : ConsumerPc Callback)
        else .unlockCallbacks).isFailed = false
      split <;> rfl
    | _ => exact ⟨rfl, rfl⟩
  rw [failing, failing, subscriptionThread_consumer]
  cases s.subscriptionThread with
  | none => rfl
  | some v =>
    rw [Option.bind_some, Option.bind_some]
    by_cases hwv : w = v
    · subst hwv
      rw [getElem?_consumer_self hsrc, hsrc]
      exact hpc.2.trans hpc.1.symm
    · rw [getElem?_consumer_of_ne hwv]

/-! ## A publication -/

theorem channels_publish (c payload : Bytes) : (s.publish c payload).channels = s.channels := by
  show (s.subscriber.map _).map _ = s.subscriber.map _
  cases s.subscriber with
  | none => rfl
  | some u => exact congrArg some (u.receive_frame _).1

theorem broken_publish (c payload : Bytes) : (s.publish c payload).broken = s.broken := by
  show (s.subscriber.map _).any _ = s.subscriber.any _
  cases s.subscriber with
  | none => rfl
  | some u => exact (u.receive_frame _).2

/-! ## One consumer thread -/

/-- An action other than `join` and the start of a thread leaves the threads alone. -/
theorem threads_perform {i : ℕ} {a : Action Callback} (choice : Choice) (hjoin : a ≠ .join)
    (hstart : a ≠ .startThread) :
    (s.perform i a choice).consumers = s.consumers ∧
      (s.perform i a choice).subscriptionThread = s.subscriptionThread := by
  unfold perform
  split
  · exact ⟨rfl, rfl⟩
  · cases a with
    | join => exact absurd rfl hjoin
    | startThread => exact absurd rfl hstart
    | _ => exact ⟨rfl, rfl⟩

theorem OneConsumer.perform {i : ℕ} {a : Action Callback} {choice : Choice}
    (hs : s.OneConsumer) (h : Possible i s choice a) : (s.perform i a choice).OneConsumer := by
  rintro w ⟨pc, hpc, hne⟩
  by_cases hjoin : a = .join
  · subst hjoin
    -- the thread that is joined has ended, so it is not `w`
    obtain ⟨rfl, hexited⟩ := h
    have hthread := hs w ⟨pc, hpc, hne⟩
    rw [hthread] at hexited
    exact absurd (Option.some.inj (hpc.symm.trans hexited)) hne
  by_cases hstart : a = .startThread
  · subst hstart
    -- no thread is left to be joined, so no older one is in its loop
    obtain ⟨rfl, hnone⟩ := h
    have hcons : (s.consumers ++ [.testRunning])[w]? = some pc := hpc
    rcases lt_trichotomy w s.consumers.length with hlt | rfl | hgt
    · rw [List.getElem?_append_left hlt] at hcons
      exact absurd ((hs w ⟨pc, hcons, hne⟩).symm.trans hnone) nofun
    · rfl
    · rw [List.getElem?_eq_none (by simpa using Nat.succ_le_of_lt hgt)] at hcons
      exact absurd hcons nofun
  · obtain ⟨hcons, hthread⟩ := s.threads_perform (i := i) choice hjoin hstart
    rw [hthread]
    exact hs w ⟨pc, by rwa [hcons] at hpc, hne⟩

end Shared

/-- A step keeps at most one consumer thread that has not ended, the one to be joined. -/
theorem oneConsumer_next {s : State Callback} {a : Label Callback} (h : Enabled a s)
    (hs : s.shared.OneConsumer) : (next a s).shared.OneConsumer := by
  cases a with
  | act i b choice => exact hs.perform h.2
  | consumer w c =>
    intro v hv
    show (s.shared.consumer w c).subscriptionThread = some v
    rw [Shared.subscriptionThread_consumer]
    exact hs v (Shared.unfinished_of_consumer h.1 hv)
  | _ => exact hs

theorem oneConsumer {tr : List (Label Callback)} {s : State Callback}
    (h : channel.Run initial tr s) : s.shared.OneConsumer := by
  refine h.invariant (I := fun s => s.shared.OneConsumer) ?_ fun _ _ hs ha =>
    oneConsumer_next ha hs
  rintro w ⟨pc, hpc, -⟩
  exact absurd hpc (by simp [initial])

/-! ## What the others do between two actions of a call -/

/-- The shared state, and whether a connection error has happened since the call
in progress began. -/
structure View (Callback : Type) where
  shared : Shared Callback
  failed : Bool

/-- **Quiet steps**, as caller `i` sees them: the callbacks, the joinable thread
and the subscribed channels stay, and so does everything else unless the
connection of a live consumer thread breaks, or the handler of such an error
clears `running_`. -/
structure Quiet (i : ℕ) (v v' : View Callback) : Prop where
  callbacks : v'.shared.callbacks = v.shared.callbacks
  subscriptionThread : v'.shared.subscriptionThread = v.shared.subscriptionThread
  channels : v'.shared.channels = v.shared.channels
  owner : v.shared.owner .callbacksMutex = some (.caller i) →
    v'.shared.owner .callbacksMutex = some (.caller i)
  outcome :
    (v'.failed = v.failed ∧ v'.shared.running = v.shared.running ∧
      v'.shared.failing = v.shared.failing ∧ v'.shared.broken = v.shared.broken ∧
      (v.shared.running = true → ∀ w, v.shared.Alive w → v'.shared.Alive w)) ∨
    (v'.failed = true ∧ v'.shared.running = v.shared.running ∧ v'.shared.failing = true) ∨
    (v'.failed = v.failed ∧ v'.shared.running = false ∧ v.shared.failing = true ∧
      v'.shared.broken = v.shared.broken)

theorem Quiet.refl (i : ℕ) (v : View Callback) : Quiet i v v where
  callbacks := rfl
  subscriptionThread := rfl
  channels := rfl
  owner h := h
  outcome := Or.inl ⟨rfl, rfl, rfl, rfl, fun _ _ h => h⟩

/-- A connection error. -/
def Label.fails : Label Callback → Bool
  | .consumer _ .fail => true
  | _ => false

/-- A consumer thread's step is quiet. -/
theorem quiet_consumer {i w : ℕ} {a : ConsumerAct Callback} {s : Shared Callback} (f : Bool)
    (hone : s.OneConsumer) (hsrc : s.consumers[w]? = some (consumerMove w s a).source)
    (hguard : (consumerMove w s a).guard) :
    Quiet i ⟨s, f⟩ ⟨s.consumer w a, f || (Label.consumer w a : Label Callback).fails⟩ where
  callbacks := s.callbacks_consumer w a
  subscriptionThread := s.subscriptionThread_consumer w a
  channels := s.channels_consumer w a
  owner hi := by
    rcases s.owner_consumer hguard with ⟨m, hm, ho, -⟩ | ⟨m, hm, ho, -⟩ | ⟨ho, -⟩
    · have hne : Mutex.callbacksMutex ≠ m := by
        rintro rfl
        exact absurd (hi.symm.trans hm) nofun
      show (s.consumer w a).owner _ = _
      rw [ho, Function.update_of_ne hne]
      exact hi
    · have hne : Mutex.callbacksMutex ≠ m := by
        rintro rfl
        exact absurd (hi.symm.trans hm) nofun
      show (s.consumer w a).owner _ = _
      rw [ho, Function.update_of_ne hne]
      exact hi
    · show (s.consumer w a).owner _ = _
      rw [ho]
      exact hi
  outcome := by
    -- only the thread that has not been joined can report the error
    have hthread := hone w ⟨_, hsrc, Shared.source_ne_exited w s a⟩
    by_cases hfail : a = .fail
    · subst hfail
      exact Or.inr (Or.inl ⟨Bool.or_true f, rfl, Shared.failing_fail hthread hsrc⟩)
    by_cases hstore : a = .storeRunning
    · subst hstore
      exact Or.inr (Or.inr ⟨Bool.or_false f, rfl, Shared.failing_storeRunning hthread hsrc, rfl⟩)
    · refine Or.inl ⟨?_, Shared.running_consumer hstore, Shared.failing_consumer hfail hstore hsrc,
        Shared.broken_consumer hfail,
        fun hrun v hv => Shared.alive_consumer hfail hsrc (fun _ => hrun) hv⟩
      cases a with
      | fail => exact absurd rfl hfail
      | _ => exact Bool.or_false f

/-- A publication is quiet. -/
theorem quiet_publish (i : ℕ) (v : View Callback) (c payload : Bytes) :
    Quiet i v ⟨v.shared.publish c payload, v.failed⟩ where
  callbacks := rfl
  subscriptionThread := rfl
  channels := v.shared.channels_publish c payload
  owner h := h
  outcome := Or.inl ⟨rfl, rfl, rfl, v.shared.broken_publish c payload, fun _ _ h => h⟩

/-- The actions of a call that are quiet themselves. -/
def Action.quiet : Action Callback → Bool
  | .unlock .callbacksMutex | .storeRunning _ | .compareExchange | .setCallback ..
  | .eraseCallback _ | .clearCallbacks | .createSubscriber _ | .resetSubscriber | .subscribe _
  | .unsubscribe _ | .join
  | .startThread => false
  | _ => true

theorem quiet_perform {i : ℕ} {a : Action Callback} {choice : Choice} {v : View Callback}
    (ha : a.quiet = true) (h : Possible i v.shared choice a) :
    Quiet i v ⟨v.shared.perform i a choice, v.failed⟩ := by
  unfold Shared.perform
  split
  · exact Quiet.refl i v
  · cases a with
    | lock m =>
      refine ⟨rfl, rfl, rfl, fun hi => ?_, Or.inl ⟨rfl, rfl, rfl, rfl, fun _ _ h => h⟩⟩
      have hne : Mutex.callbacksMutex ≠ m := by
        rintro rfl
        exact absurd (hi.symm.trans h.2) nofun
      exact (Function.update_of_ne hne _ _).trans hi
    | unlock m =>
      refine ⟨rfl, rfl, rfl, fun hi => ?_, Or.inl ⟨rfl, rfl, rfl, rfl, fun _ _ h => h⟩⟩
      have hne : Mutex.callbacksMutex ≠ m := by
        rintro rfl
        exact absurd ha (by simp [Action.quiet])
      exact (Function.update_of_ne hne _ _).trans hi
    | publish g c m => exact quiet_publish i v c m
    | connect =>
      exact ⟨rfl, rfl, rfl, fun h => h, Or.inl ⟨rfl, rfl, rfl, rfl, fun _ _ h => h⟩⟩
    | loadRunning | findCallback | callbacksEmpty | callbackKeys | ping | redis | onMessage
    | joinable | storage => exact Quiet.refl i v
    | _ => exact absurd ha (by simp [Action.quiet])

/-! ## Assertions -/

/-- Caller `i` among the others, where `C` restricts how its actions turn out. -/
def environment (C : Shared Callback → Action Callback → Choice → Prop) (i : ℕ) :
    Environment (Action Callback) Answer (View Callback) where
  Step v a r v' := ∃ choice, Possible i v.shared choice a ∧ C v.shared a choice ∧
    r = answer v.shared choice a ∧ v' = ⟨v.shared.perform i a choice, v.failed⟩
  Rely := Quiet i

namespace View

/-- The keys of `callbacks_`. -/
def HasKeys (K : Finset Bytes) (v : View Callback) : Prop := v.shared.keys = K

def Owns (i : ℕ) (v : View Callback) : Prop :=
  v.shared.owner .callbacksMutex = some (.caller i)

def Stopped (v : View Callback) : Prop := v.shared.running = false

/-- `running_` is cleared, or about to be cleared by the handler of an error. -/
def Down (v : View Callback) : Prop := v.shared.up = false

def Subscribed (X : Finset Bytes) (v : View Callback) : Prop := v.shared.channels = some X

/-- While `running_` is set, a consumer thread loops on a subscriber of the
channels `X`; its connection is known to work if `Q` holds. -/
def Served (Q : Prop) (X : Finset Bytes) (v : View Callback) : Prop :=
  v.shared.up = true → v.shared.channels = some X ∧
    (∃ w, v.shared.subscriptionThread = some w ∧ v.shared.Alive w) ∧ (Q → v.shared.broken = false)

/-- `running_` is cleared by a connection error only. -/
def Running (v : View Callback) : Prop := v.failed = false → v.shared.up = true

/-- The subscriber broke in this call only. -/
def Sound (v : View Callback) : Prop := v.failed = false → v.shared.broken = false

def NoThread (v : View Callback) : Prop := v.shared.subscriptionThread = none

/-- Ready for the start of the consumer thread. -/
def Prepared (Q : Prop) (X : Finset Bytes) (v : View Callback) : Prop :=
  v.NoThread ∧ v.shared.running = true ∧ v.Subscribed X ∧ (Q → v.shared.broken = false) ∧ v.Sound

end View

/-- **What the others do to `running_`**: it stays as it was, or goes down. -/
theorem Quiet.up {i : ℕ} {v v' : View Callback} (h : Quiet i v v') :
    (v'.failed = v.failed ∧ v'.shared.up = v.shared.up ∧ v'.shared.broken = v.shared.broken ∧
      (v.shared.running = true → ∀ w, v.shared.Alive w → v'.shared.Alive w)) ∨
    v'.Down ∧ (v'.failed = true ∨
      v'.failed = v.failed ∧ v.Down ∧ v'.shared.broken = v.shared.broken) := by
  rcases h.outcome with ⟨hf, hrun, hfailing, hbroken, halive⟩ | ⟨hf, -, hfailing⟩ |
    ⟨hf, hrun, hfailing, hbroken⟩
  · exact Or.inl ⟨hf, by rw [Shared.up, Shared.up, hrun, hfailing], hbroken, halive⟩
  · exact Or.inr ⟨Shared.up_of_failing hfailing, Or.inl hf⟩
  · exact Or.inr ⟨Shared.up_of_stopped hrun,
      Or.inr ⟨hf, Shared.up_of_failing hfailing, hbroken⟩⟩

section Stable

variable {C : Shared Callback → Action Callback → Choice → Prop} {i : ℕ} {Q : Prop}
  {K X : Finset Bytes}

theorem stable_hasKeys : (environment C i).Stable (View.HasKeys K) := by
  intro v v' hv h
  show v'.shared.callbacks.keys.toFinset = K
  rw [h.callbacks]
  exact hv

theorem stable_owns : (environment C i).Stable (View.Owns i) := fun _ _ hv h => h.owner hv

theorem stable_stopped : (environment C i).Stable View.Stopped := by
  intro v v' hv h
  rcases h.outcome with ⟨-, hrun, -⟩ | ⟨-, hrun, -⟩ | ⟨-, hrun, -⟩
  · exact hrun.trans hv
  · exact hrun.trans hv
  · exact hrun

theorem View.Stopped.down {v : View Callback} (h : v.Stopped) : v.Down := Shared.up_of_stopped h

theorem stable_down : (environment C i).Stable View.Down := by
  intro v v' hv h
  rcases h.up with ⟨-, hup, -⟩ | ⟨hdown, -⟩
  · exact hup.trans hv
  · exact hdown

theorem served_of_down {v : View Callback} (h : v.Down) : v.Served Q X :=
  fun hup => absurd (h.symm.trans hup) nofun

theorem stable_failed : (environment C i).Stable fun v => v.failed = true := by
  intro v v' hv h
  rcases h.up with ⟨hf, -⟩ | ⟨-, hf | ⟨hf, -⟩⟩
  · exact hf.trans hv
  · exact hf
  · exact hf.trans hv

theorem stable_subscribed : (environment C i).Stable (View.Subscribed X) :=
  fun _ _ hv h => h.channels.trans hv

theorem stable_noThread : (environment C i).Stable View.NoThread :=
  fun _ _ hv h => h.subscriptionThread.trans hv

theorem stable_served : (environment C i).Stable (View.Served Q X) := by
  intro v v' hv h hup'
  rcases h.up with ⟨-, hup, hbroken, halive⟩ | ⟨hdown, -⟩
  · have hv' := hup.symm.trans hup'
    obtain ⟨hchan, ⟨w, hw, hwalive⟩, hQ⟩ := hv hv'
    exact ⟨h.channels.trans hchan, ⟨w, h.subscriptionThread.trans hw,
      halive (Shared.up_eq_true.mp hv').1 w hwalive⟩, fun q => hbroken.trans (hQ q)⟩
  · exact absurd (hdown.symm.trans hup') nofun

theorem stable_running : (environment C i).Stable View.Running := by
  intro v v' hv h hfailed
  rcases h.up with ⟨hf, hup, -⟩ | ⟨-, hf | ⟨hf, hdown, -⟩⟩
  · exact hup.trans (hv (hf.symm.trans hfailed))
  · exact absurd (hf.symm.trans hfailed) nofun
  · exact absurd (hdown.symm.trans (hv (hf.symm.trans hfailed))) nofun

theorem stable_sound : (environment C i).Stable View.Sound := by
  intro v v' hv h hfailed
  rcases h.up with ⟨hf, -, hbroken, -⟩ | ⟨-, hf | ⟨hf, -, hbroken⟩⟩
  · exact hbroken.trans (hv (hf.symm.trans hfailed))
  · exact absurd (hf.symm.trans hfailed) nofun
  · exact hbroken.trans (hv (hf.symm.trans hfailed))

/-- Without a consumer thread nothing can go wrong. -/
theorem stable_prepared : (environment C i).Stable (View.Prepared Q X) := by
  rintro v v' ⟨hthread, hrun, hchan, hQ, hsound⟩ h
  have hthread' := stable_noThread _ _ hthread h
  rcases h.outcome with ⟨-, hrun', -, hbroken, -⟩ | ⟨-, -, hfailing⟩ | ⟨-, -, hfailing, -⟩
  · exact ⟨hthread', hrun'.trans hrun, stable_subscribed _ _ hchan h,
      fun q => hbroken.trans (hQ q), stable_sound _ _ hsound h⟩
  · exact absurd ((Shared.failing_of_noThread hthread').symm.trans hfailing) nofun
  · exact absurd ((Shared.failing_of_noThread hthread).symm.trans hfailing) nofun

end Stable

/-! ## Rules for the actions -/

section Rules

variable {C : Shared Callback → Action Callback → Choice → Prop} {i : ℕ} {α : Type}
  {post : α → View Callback → Prop} {P : View Callback → Prop} {v : View Callback}

theorem meets_issue {a : Action Callback} {k : Answer a → Procedure Callback α}
    (hP : (environment C i).Stable P) (hv : P v)
    (h : ∀ v choice, P v → Possible i v.shared choice a → C v.shared a choice →
      (k (answer v.shared choice a)).Meets (environment C i) post
        ⟨v.shared.perform i a choice, v.failed⟩) :
    (issue a >>= k).Meets (environment C i) post v := by
  refine meets_act hP hv ?_
  rintro v r _ hv ⟨choice, hpossible, hC, rfl, rfl⟩
  exact h v choice hv hpossible hC

/-- The last action of a program. -/
theorem meets_issue_ret {a : Action Callback} {post : Answer a → View Callback → Prop}
    {P' : Answer a → View Callback → Prop} (hP : (environment C i).Stable P) (hv : P v)
    (hP' : ∀ r, (environment C i).Stable (P' r)) (hpost : ∀ r v, P' r v → post r v)
    (h : ∀ v choice, P v → Possible i v.shared choice a → C v.shared a choice →
      P' (answer v.shared choice a) ⟨v.shared.perform i a choice, v.failed⟩) :
    (issue a).Meets (environment C i) post v := by
  refine meets_act hP hv ?_
  rintro v r _ hv ⟨choice, hpossible, hC, rfl, rfl⟩
  exact meets_ret (hP' _) (h v choice hv hpossible hC) (hpost _)

/-- A quiet action keeps a stable assertion. -/
theorem meets_quiet {a : Action Callback} {k : Answer a → Procedure Callback α}
    (ha : a.quiet = true) (hP : (environment C i).Stable P) (hv : P v)
    (h : ∀ r v, P v → (k r).Meets (environment C i) post v) :
    (issue a >>= k).Meets (environment C i) post v :=
  meets_issue hP hv fun v _ hv hpossible _ => h _ _ (hP v _ hv (quiet_perform ha hpossible))

theorem lockClient_meets {post : Unit → View Callback → Prop} (hP : (environment C i).Stable P)
    (hv : P v) (h : ∀ v, P v → post () v) :
    (lockClient : Procedure Callback Unit).Meets (environment C i) post v := by
  refine meets_quiet rfl hP hv fun _ v hv => meets_quiet rfl hP hv fun _ v hv => ?_
  exact meets_issue_ret hP hv (fun _ => hP) (fun _ => h)
    fun v choice hv hpossible _ => hP v _ hv (quiet_perform rfl hpossible)

theorem getClient_meets {post : ℕ → View Callback → Prop} (hP : (environment C i).Stable P)
    (hv : P v) (h : ∀ g v, P v → post g v) :
    (getClient : Procedure Callback ℕ).Meets (environment C i) post v := by
  have hend : ∀ v, P v → ((issue .redis : Procedure Callback ℕ) >>= fun redis =>
      issue (.unlock .instanceMutex) >>= fun _ => pure redis).Meets (environment C i) post v :=
    fun v hv => meets_quiet rfl hP hv fun redis v hv => meets_quiet rfl hP hv fun _ v hv =>
      meets_ret hP hv (h redis)
  refine meets_quiet rfl hP hv fun _ v hv => meets_bind ?_
  refine meets_quiet rfl hP hv fun _ v hv => meets_quiet rfl hP hv fun alive v hv => ?_
  refine meets_quiet rfl hP hv fun _ v hv => meets_ret hP hv fun v hv => ?_
  cases alive with
  | true => exact hend v hv
  | false =>
    refine meets_bind (meets_quiet rfl hP hv fun _ v hv => meets_quiet rfl hP hv fun _ v hv => ?_)
    exact meets_issue_ret hP hv (fun _ => hP) (fun _ => hend)
      fun v choice hv hpossible _ => hP v _ hv (quiet_perform rfl hpossible)

/-- A command under the client's lock: `P₁` holds if it succeeds, `P₀` if it throws. -/
theorem underLock_meets {command : Procedure Callback Bool} {post : Bool → View Callback → Prop}
    {P₁ P₀ : View Callback → Prop} (hP : (environment C i).Stable P) (hv : P v)
    (hP₁ : (environment C i).Stable P₁) (hP₀ : (environment C i).Stable P₀)
    (hcommand : ∀ v, P v → command.Meets (environment C i)
      (fun ok v => if ok = true then P₁ v else P₀ v) v)
    (hok : ∀ v, P₁ v → post true v) (hthrew : ∀ v, P₀ v → post false v) :
    (underLock command).Meets (environment C i) post v := by
  refine meets_bind (lockClient_meets hP hv fun v hv => ?_)
  refine meets_bind ((hcommand v hv).mono ?_)
  rintro (_ | _) v hv
  · exact meets_quiet rfl hP₀ hv fun _ v hv => meets_ret hP₀ hv hthrew
  · exact meets_quiet rfl hP₁ hv fun _ v hv => meets_ret hP₁ hv hok

/-- A loop: `P keys` holds while `keys` are left, `F` once a command has thrown. -/
theorem forEach_meets {command : Bytes → Procedure Callback Bool}
    {P : List Bytes → View Callback → Prop} {F : View Callback → Prop}
    {post : Bool → View Callback → Prop} (hP : ∀ keys, (environment C i).Stable (P keys))
    (hF : (environment C i).Stable F)
    (hcommand : ∀ key keys v, P (key :: keys) v → (command key).Meets (environment C i)
      (fun ok v => if ok = true then P keys v else F v) v)
    (hok : ∀ v, P [] v → post true v) (hthrew : ∀ v, F v → post false v) (keys : List Bytes)
    {v : View Callback} (hv : P keys v) :
    (forEach command keys).Meets (environment C i) post v := by
  induction keys generalizing v with
  | nil => exact meets_ret (hP []) hv hok
  | cons key keys ih =>
    exact meets_bind (underLock_meets (hP _) hv (hP keys) hF (hcommand key keys)
      (fun v hv => ih hv) fun v hv => meets_ret hF hv hthrew)

end Rules

/-! ## Effects -/

namespace Shared

variable {s : Shared Callback} {i : ℕ} {c : Bytes} {X : Finset Bytes}

theorem keys_setCallback (cb : Callback) :
    (effect i s (.setCallback c cb)).keys = insert c s.keys := by
  ext k
  rw [mem_keys, Finset.mem_insert, mem_keys]
  exact AList.mem_insert _

theorem keys_eraseCallback : (effect i s (.eraseCallback c)).keys = s.keys.erase c := by
  ext k
  rw [mem_keys, Finset.mem_erase, mem_keys]
  exact AList.mem_erase

theorem channels_subscribe (s : Shared Callback) (i : ℕ) (h : s.channels = some X) :
    (effect i s (.subscribe c)).channels = some (insert c X) := by
  obtain ⟨u, hu, rfl⟩ := Option.map_eq_some_iff.mp h
  simp [effect, channels, hu, Subscriber.subscribe]

theorem channels_unsubscribe (s : Shared Callback) (i : ℕ) (h : s.channels = some X) :
    (effect i s (.unsubscribe c)).channels = some (X.erase c) := by
  obtain ⟨u, hu, rfl⟩ := Option.map_eq_some_iff.mp h
  simp [effect, channels, hu, Subscriber.unsubscribe]

theorem broken_subscribe : (effect i s (.subscribe c)).broken = s.broken := by
  show (s.subscriber.map _).any _ = s.subscriber.any _
  cases s.subscriber <;> rfl

theorem broken_unsubscribe : (effect i s (.unsubscribe c)).broken = s.broken := by
  show (s.subscriber.map _).any _ = s.subscriber.any _
  cases s.subscriber <;> rfl

end Shared

/-! ## `subscribe` -/

/-- What is assumed of a caller's actions: a `SUBSCRIBE` under `callbacks_mutex_`
throws only when `running_` is cleared, or about to be; if `Q` holds, the consumer
thread is started on a working connection only; and if `strict` holds, no command
throws, and `running_` is not read as set while the handler of an error is about
to clear it. -/
structure Assumes (C : Shared Callback → Action Callback → Choice → Prop) (i : ℕ)
    (Q strict : Prop) : Prop where
  loop : ∀ s c, C s (.subscribe c) .threw → s.owner .callbacksMutex = some (.caller i) →
    s.up = false
  start : Q → ∀ s choice, C s (.storeRunning true) choice → s.broken = false
  load : strict → ∀ s choice, C s .loadRunning choice → s.running = true → s.failing = false
  strict : strict → ∀ s a choice, C s a choice → choice ≠ .threw

section Calls

variable {C : Shared Callback → Action Callback → Choice → Prop} {i : ℕ} {Q strict : Prop}
  {K X : Finset Bytes} {v : View Callback}

/-- The consumer thread is started: whatever became of the old one, it is joined. -/
theorem startConsumeThread_meets {post : Unit → View Callback → Prop} (hC : Assumes C i Q strict)
    (hv : v.HasKeys K ∧ v.Subscribed K ∧ v.Sound)
    (h : ∀ v, v.HasKeys K ∧ v.Served Q K ∧ v.Subscribed K ∧ v.Running ∧ v.Sound → post () v) :
    (startConsumeThread : Procedure Callback Unit).Meets (environment C i) post v := by
  have hready : (environment C i).Stable fun v => v.HasKeys K ∧ v.Subscribed K ∧ v.Sound :=
    stable_hasKeys.and (stable_subscribed.and stable_sound)
  have hstart : ∀ v : View Callback,
      (v.HasKeys K ∧ v.Subscribed K ∧ v.Sound) ∧ v.NoThread →
      ((issue (.storeRunning true) : Procedure Callback Unit) >>= fun _ =>
        issue .startThread).Meets (environment C i) post v := by
    intro v hv
    refine meets_issue (hready.and stable_noThread) hv ?_
    rintro v choice ⟨⟨hkeys, hsub, hsound⟩, hthread⟩ hpossible hCv
    obtain rfl : choice = .ok := hpossible
    have hprepared : View.Prepared Q K ⟨v.shared.perform i (.storeRunning true) .ok, v.failed⟩ :=
      ⟨hthread, rfl, hsub, fun q => (hC.start q _ _ hCv : v.shared.broken = false), hsound⟩
    refine meets_issue_ret (stable_hasKeys.and stable_prepared) ⟨hkeys, hprepared⟩
      (fun _ => stable_hasKeys.and (stable_served.and
        (stable_subscribed.and (stable_running.and stable_sound)))) (fun _ => h) ?_
    rintro v choice ⟨hkeys, -, hrun, hsub, hQ, hsound⟩ ⟨rfl, -⟩ -
    have hnew : (effect i v.shared .startThread).consumers[v.shared.consumers.length]? =
        some .testRunning := List.getElem?_concat_length
    have hup : (effect i v.shared .startThread).up = true :=
      Shared.up_eq_true.mpr ⟨hrun, Shared.failing_of_looping rfl hnew rfl⟩
    exact ⟨hkeys, fun _ => ⟨hsub, ⟨_, rfl, .testRunning, hnew, rfl⟩, hQ⟩, hsub, fun _ => hup,
      hsound⟩
  refine meets_issue hready hv fun v choice hv hpossible _ => ?_
  obtain rfl : choice = .ok := hpossible
  show Meets _ post (if v.shared.subscriptionThread.isSome = true then _ else _) _
  by_cases hthread : v.shared.subscriptionThread.isSome = true
  · rw [if_pos hthread]
    refine meets_issue hready hv fun v choice hv hpossible _ => hstart _ ?_
    obtain ⟨rfl, -⟩ := hpossible
    exact ⟨hv, rfl⟩
  · rw [if_neg hthread]
    have hnone : v.shared.subscriptionThread = none := by simpa using hthread
    exact hstart _ ⟨hv, hnone⟩

/-- What `initializeSubscriber` leaves: if no command threw, the subscriber has
subscribed to every key, and runs unless its connection broke. -/
def InitPost (Q strict : Prop) (K : Finset Bytes) : Option Bool → View Callback → Prop
  | some true, v => v.HasKeys K ∧ v.Served Q K ∧ v.Subscribed K ∧ v.Running ∧ v.Sound
  | some false, v => v.HasKeys K ∧ ¬ strict
  | none, v => (v.HasKeys K ∧ v.Down) ∧ ¬ strict

/-- While the loop of `initializeSubscriber` has `keys` left. -/
def Subscribing (i : ℕ) (K : Finset Bytes) (keys : List Bytes) (v : View Callback) : Prop :=
  (v.HasKeys K ∧ v.Sound ∧ v.Owns i) ∧ ∃ X, X ∪ keys.toFinset = K ∧ v.Subscribed X

theorem stable_subscribing (keys : List Bytes) :
    (environment C i).Stable (Subscribing i K keys) :=
  (stable_hasKeys.and (stable_sound.and stable_owns)).and
    (Environment.Stable.exists fun _ => (Environment.stable_const _).and stable_subscribed)

/-- One `SUBSCRIBE` of the loop. -/
theorem subscribing_meets (hC : Assumes C i Q strict) (key : Bytes) (keys : List Bytes)
    (hv : Subscribing i K (key :: keys) v) :
    (issue (.subscribe key) : Procedure Callback Bool).Meets (environment C i)
      (fun ok v => if ok = true then Subscribing i K keys v
        else (v.HasKeys K ∧ v.Down) ∧ ¬ strict) v := by
  refine meets_issue_ret (stable_subscribing _) hv ?_ (fun _ _ h => h) ?_
  · rintro (_ | _)
    · exact (stable_hasKeys.and stable_down).and (Environment.stable_const _)
    · exact stable_subscribing keys
  · rintro v choice ⟨⟨hkeys, -, howns⟩, X, hX, hsub⟩ ⟨-, ⟨rfl, hbroken⟩ | rfl⟩ hCv
    · have hunbroken : (effect i v.shared (.subscribe key)).broken = false :=
        Shared.broken_subscribe.trans hbroken
      refine ⟨⟨hkeys, fun _ => hunbroken, howns⟩, insert key X, ?_,
        v.shared.channels_subscribe i hsub⟩
      rw [← hX, List.toFinset_cons, Finset.insert_union, Finset.union_insert]
    -- the exception will escape the call, which `running_` must not outlive
    · exact ⟨⟨hkeys, hC.loop _ _ hCv howns⟩, fun hs => hC.strict hs _ _ _ hCv rfl⟩

/-- The order of a loop over `callbacks_`. -/
theorem exists_order {s : Shared Callback} {choice : Choice}
    (h : Possible i s choice .callbackKeys) :
    ∃ keys, choice = .order keys ∧ keys.toFinset = s.keys := by
  cases choice with
  | order keys => exact ⟨keys, rfl, List.toFinset_eq_of_perm _ _ h⟩
  | _ => exact absurd h id

theorem subscribeAll_meets {post : Option Bool → View Callback → Prop} (hC : Assumes C i Q strict)
    (hv : v.HasKeys K ∧ v.Subscribed ∅ ∧ v.Sound)
    (h : ∀ ok v, InitPost Q strict K ok v → post ok v) :
    (subscribeAll : Procedure Callback (Option Bool)).Meets (environment C i) post v := by
  have hcreated : (environment C i).Stable fun v =>
      v.HasKeys K ∧ v.Subscribed ∅ ∧ v.Sound :=
    stable_hasKeys.and (stable_subscribed.and stable_sound)
  have hlocked : (environment C i).Stable fun v =>
      v.HasKeys K ∧ v.Subscribed ∅ ∧ v.Sound ∧ v.Owns i :=
    stable_hasKeys.and (stable_subscribed.and (stable_sound.and stable_owns))
  have hescaped : (environment C i).Stable fun v : View Callback =>
      (v.HasKeys K ∧ v.Down) ∧ ¬ strict :=
    (stable_hasKeys.and stable_down).and (Environment.stable_const _)
  refine meets_issue hcreated hv ?_
  rintro v choice ⟨hkeys, hsub, hsound⟩ ⟨rfl, -⟩ -
  have howns : (v.shared.acquire .callbacksMutex (.caller i)).owner .callbacksMutex =
      some (.caller i) := by simp [Shared.acquire]
  refine meets_issue hlocked ⟨hkeys, hsub, hsound, howns⟩ ?_
  rintro v choice ⟨hkeys, hsub, hsound, howns⟩ hpossible -
  obtain ⟨keys, rfl, hall⟩ := exists_order hpossible
  refine meets_bind (forEach_meets stable_subscribing hescaped
    (fun key keys v hv => subscribing_meets hC key keys hv) ?_ ?_ keys
    ⟨⟨hkeys, hsound, howns⟩, ∅, by rw [Finset.empty_union, hall, hkeys], hsub⟩)
  · -- every key is subscribed
    intro v hv
    refine meets_issue (stable_subscribing []) hv ?_
    rintro v choice ⟨⟨hkeys, hsound, -⟩, X, hX, hsub⟩ ⟨rfl, -⟩ -
    rw [List.toFinset_nil, Finset.union_empty] at hX
    subst hX
    refine meets_bind (startConsumeThread_meets hC ⟨hkeys, hsub, hsound⟩ fun v hv => ?_)
    exact meets_ret (stable_hasKeys.and (stable_served.and
      (stable_subscribed.and (stable_running.and stable_sound)))) hv (h (some true))
  · -- a `SUBSCRIBE` threw
    intro v hv
    refine meets_issue hescaped hv ?_
    rintro v choice hv ⟨rfl, -⟩ -
    exact meets_ret hescaped hv (h none)

theorem initializeSubscriber_meets {post : Option Bool → View Callback → Prop}
    (hC : Assumes C i Q strict) (hv : v.HasKeys K)
    (h : ∀ ok v, InitPost Q strict K ok v → post ok v) :
    (initializeSubscriber : Procedure Callback (Option Bool)).Meets (environment C i) post v := by
  have hkeys : (environment C i).Stable (View.HasKeys K : View Callback → Prop) := stable_hasKeys
  have hcreated : (environment C i).Stable fun v =>
      v.HasKeys K ∧ v.Subscribed ∅ ∧ v.Sound :=
    stable_hasKeys.and (stable_subscribed.and stable_sound)
  have hfailed : (environment C i).Stable fun v : View Callback => v.HasKeys K ∧ ¬ strict :=
    stable_hasKeys.and (Environment.stable_const _)
  have hboth : ∀ ok : Bool, (environment C i).Stable fun v : View Callback =>
      if ok = true then v.HasKeys K ∧ v.Subscribed ∅ ∧ v.Sound
      else v.HasKeys K ∧ ¬ strict := by
    rintro (_ | _)
    · exact hfailed
    · exact hcreated
  refine meets_bind (getClient_meets hkeys hv fun client v hv => ?_)
  refine meets_bind (underLock_meets hkeys hv hcreated hfailed (fun v hv => ?_)
    (fun v hv => ?_) fun v hv => meets_ret hfailed hv (h (some false)))
  · -- the new `Subscriber`
    refine meets_issue_ret hkeys hv hboth (fun _ _ h => h) ?_
    rintro v choice hv (rfl | rfl) hCv
    · exact ⟨hv, rfl, fun _ => rfl⟩
    · exact ⟨hv, fun hs => hC.strict hs _ _ _ hCv rfl⟩
  refine meets_bind (underLock_meets hcreated hv hcreated hfailed (fun v hv => ?_)
    (fun v hv => subscribeAll_meets hC hv h) fun v hv => ?_)
  · -- the registration
    refine meets_issue_ret hcreated hv hboth (fun _ _ h => h) ?_
    rintro v choice hv ⟨-, rfl | rfl⟩ hCv
    · exact hv
    · exact ⟨hv.1, fun hs => hC.strict hs _ _ _ hCv rfl⟩
  · refine meets_issue hfailed hv fun v choice hv hpossible _ => ?_
    obtain rfl : choice = .ok := hpossible
    exact meets_ret hfailed hv (h (some false))

/-- What `subscribe` leaves, where `was` says whether the channel was up at its
start: the subscription is in step with the keys; and if no command threw, every
key has been subscribed if the subscriber was created anew, and everything runs
unless the connection broke during the call. -/
def SubscribePost (Q strict : Prop) (was : Bool) (v : View Callback) : Prop :=
  ∃ K, v.HasKeys K ∧ v.Served Q K ∧
    (strict → (was = false → v.Subscribed K) ∧ v.Running ∧ v.Sound)

/-- The channel is up as it was when the call began, unless the connection broke. -/
def View.Since (was : Bool) (v : View Callback) : Prop := if was = true then v.Running else v.Down

theorem stable_since (was : Bool) : (environment C i).Stable (View.Since was) := by
  cases was with
  | true => exact stable_running
  | false => exact stable_down

/-- Only the caller itself sets `running_`: if it is cleared, the caller claims it. -/
theorem claimRunning_meets {post : Bool → View Callback → Prop} {was : Bool}
    (hC : Assumes C i Q strict) (hv : v.HasKeys K ∧ v.Served Q X ∧ v.Since was)
    (htrue : ∀ v, v.HasKeys K → post true v)
    (hfalse : ∀ v, v.HasKeys K ∧ v.Served Q X ∧ v.Since was → (strict → was = true) →
      post false v) :
    (claimRunning : Procedure Callback Bool).Meets (environment C i) post v := by
  have hbefore : (environment C i).Stable fun v : View Callback =>
      v.HasKeys K ∧ v.Served Q X ∧ v.Since was :=
    stable_hasKeys.and (stable_served.and (stable_since was))
  refine meets_issue hbefore hv ?_
  rintro v choice hv hpossible hCv
  obtain rfl : choice = .ok := hpossible
  show Meets _ post (if v.shared.running = true then _ else _) _
  by_cases hset : v.shared.running = true
  · rw [if_pos hset]
    -- nobody else sets `running_`, so it was set when the call began
    have hwas : strict → was = true := by
      intro hs
      by_contra hne
      have hdown : v.shared.up = false := by
        have hsince := hv.2.2
        rwa [View.Since, if_neg hne] at hsince
      exact absurd (hdown.symm.trans (Shared.up_eq_true.mpr ⟨hset, hC.load hs _ _ hCv hset⟩)) nofun
    exact meets_ret hbefore hv fun v hv => hfalse v hv hwas
  · rw [if_neg hset]
    have hstopped : v.shared.running = false := by simpa using hset
    refine meets_issue_ret (stable_hasKeys.and stable_stopped) ⟨hv.1, hstopped⟩
      (fun first => (Environment.stable_const (first = true)).and (stable_hasKeys (K := K))) ?_ ?_
    · rintro first v ⟨rfl, hv⟩
      exact htrue v hv
    · rintro v choice ⟨hkeys, hstopped⟩ hpossible -
      obtain rfl : choice = .ok := hpossible
      refine ⟨?_, hkeys⟩
      show (!v.shared.running) = true
      rw [show v.shared.running = false from hstopped, Bool.not_false]

theorem subscribeRunning_meets (hC : Assumes C i Q strict) {c : Bytes} {was : Bool}
    (hK : insert c X = K) (hv : v.HasKeys K ∧ v.Served Q X ∧ v.Since was)
    (hwas : strict → was = true) :
    (subscribeRunning c : Procedure Callback Outcome).Meets (environment C i)
      (fun _ => SubscribePost Q strict was) v := by
  have hrunning : ∀ v : View Callback, v.Since was → strict → v.Running := by
    intro v hv hs
    rwa [View.Since, if_pos (hwas hs)] at hv
  have hserved : (environment C i).Stable fun v : View Callback =>
      v.HasKeys K ∧ v.Served Q X ∧ v.Since was :=
    stable_hasKeys.and (stable_served.and (stable_since was))
  have hresubscribed : (environment C i).Stable fun v : View Callback =>
      v.HasKeys K ∧ v.Served Q K ∧ v.Since was ∧ v.Sound :=
    stable_hasKeys.and (stable_served.and ((stable_since was).and stable_sound))
  have hthrown : (environment C i).Stable fun v : View Callback => v.HasKeys K ∧ ¬ strict :=
    stable_hasKeys.and (Environment.stable_const _)
  refine meets_issue hserved hv ?_
  rintro v choice hv hpossible -
  obtain rfl : choice = .ok := hpossible
  show Meets _ _ (if v.shared.running = true then _ else _) _
  by_cases hset : v.shared.running = true
  · rw [if_pos hset]
    refine meets_bind (underLock_meets hserved hv hresubscribed hthrown (fun v hv => ?_)
      (fun v hv => ?_) fun v hv => ?_)
    · refine meets_issue_ret hserved hv ?_ (fun _ _ h => h) ?_
      · rintro (_ | _)
        · exact hthrown
        · exact hresubscribed
      · rintro v choice ⟨hkeys, hserved, hsince⟩ ⟨-, ⟨rfl, hbroken⟩ | rfl⟩ hCv
        · have hunbroken : (effect i v.shared (.subscribe c)).broken = false :=
            Shared.broken_subscribe.trans hbroken
          refine ⟨hkeys, fun hset => ?_, hsince, fun _ => hunbroken⟩
          obtain ⟨hsub, hthread, -⟩ := hserved hset
          exact ⟨hK ▸ v.shared.channels_subscribe i hsub, hthread, fun _ => hunbroken⟩
        · exact ⟨hkeys, fun hs => hC.strict hs _ _ _ hCv rfl⟩
    · exact meets_ret hresubscribed hv fun v ⟨hkeys, hserved, hsince, hsound⟩ =>
        ⟨K, hkeys, hserved, fun hs => ⟨fun hne => absurd ((hwas hs).symm.trans hne) nofun,
          hrunning v hsince hs, hsound⟩⟩
    · refine meets_issue hthrown hv ?_
      rintro v choice ⟨hkeys, hstrict⟩ hpossible -
      obtain rfl : choice = .ok := hpossible
      exact meets_ret ((stable_hasKeys.and stable_stopped).and (Environment.stable_const _))
        ⟨⟨hkeys, rfl⟩, hstrict⟩
        fun v hv => ⟨K, hv.1.1, served_of_down hv.1.2.down, fun hs => absurd hs hv.2⟩
  · -- the connection broke between the two loads
    rw [if_neg hset]
    have hstopped : v.shared.running = false := by simpa using hset
    have hfailed : strict → v.failed = true := by
      intro hs
      by_contra hne
      have hup := hrunning v hv.2.2 hs (by simpa using hne)
      exact hset (Shared.up_eq_true.mp hup).1
    have hend : (environment C i).Stable fun v : View Callback =>
        v.HasKeys K ∧ v.Stopped ∧ (strict → v.failed = true) :=
      stable_hasKeys.and (stable_stopped.and fun v v' hv h hs =>
        stable_failed (C := C) _ _ (hv hs) h)
    refine meets_ret hend ⟨hv.1, hstopped, hfailed⟩ fun v ⟨hkeys, hstopped, hfailed⟩ =>
      ⟨K, hkeys, served_of_down hstopped.down, fun hs => ⟨fun hne => ?_, fun h => ?_, fun h => ?_⟩⟩
    · exact absurd ((hwas hs).symm.trans hne) nofun
    · exact absurd ((hfailed hs).symm.trans h) nofun
    · exact absurd ((hfailed hs).symm.trans h) nofun

theorem subscribe_meets (hC : Assumes C i Q strict) (c : Bytes) (cb : Callback)
    (hv : v.HasKeys X ∧ v.Served Q X) :
    (subscribe c cb).Meets (environment C i) (fun _ => SubscribePost Q strict v.shared.up) v := by
  generalize hwas : v.shared.up = was
  have hsince : v.Since was := by
    subst hwas
    cases hup : v.shared.up with
    | true => exact fun _ => hup
    | false => exact hup
  have hbefore : (environment C i).Stable fun v : View Callback =>
      v.HasKeys X ∧ v.Served Q X ∧ v.Since was :=
    stable_hasKeys.and (stable_served.and (stable_since was))
  have hafter : (environment C i).Stable fun v : View Callback =>
      v.HasKeys (insert c X) ∧ v.Served Q X ∧ v.Since was :=
    stable_hasKeys.and (stable_served.and (stable_since was))
  refine meets_quiet rfl hbefore ⟨hv.1, hv.2, hsince⟩ fun _ v hv => ?_
  refine meets_issue hbefore hv ?_
  rintro v choice ⟨hkeys, hserved, hsince⟩ hpossible -
  obtain rfl : choice = .ok := hpossible
  have hinsert : View.HasKeys (insert c X)
      ⟨v.shared.perform i (.setCallback c cb) .ok, v.failed⟩ := by
    show (effect i v.shared (.setCallback c cb)).keys = _
    rw [Shared.keys_setCallback, show v.shared.keys = X from hkeys]
  refine meets_issue hafter ⟨hinsert, hserved, hsince⟩ ?_
  rintro v choice hv ⟨rfl, -⟩ -
  refine meets_bind (claimRunning_meets hC hv (fun v hv => ?_) fun v hset hwas => ?_)
  · refine meets_bind (initializeSubscriber_meets hC hv ?_)
    rintro (_ | _ | _) v hv
    · -- the exception of the loop escapes, and `running_` went down before
      exact meets_ret ((stable_hasKeys.and stable_down).and (Environment.stable_const _)) hv
        fun v hv => ⟨_, hv.1.1, served_of_down hv.1.2, fun hs => absurd hs hv.2⟩
    · refine meets_issue (stable_hasKeys.and (Environment.stable_const _)) hv ?_
      rintro v choice ⟨hkeys, hstrict⟩ hpossible -
      obtain rfl : choice = .ok := hpossible
      exact meets_ret ((stable_hasKeys.and stable_stopped).and (Environment.stable_const _))
        ⟨⟨hkeys, rfl⟩, hstrict⟩
        fun v hv => ⟨_, hv.1.1, served_of_down hv.1.2.down, fun hs => absurd hs hv.2⟩
    · exact meets_ret (stable_hasKeys.and (stable_served.and
        (stable_subscribed.and (stable_running.and stable_sound)))) hv
        fun v hv => ⟨_, hv.1, hv.2.1, fun _ => ⟨fun _ => hv.2.2.1, hv.2.2.2⟩⟩
  · exact subscribeRunning_meets hC rfl hset hwas

/-! ## `unsubscribe` and `publish` -/

/-- The subscription is in step with the keys. -/
def Synced (Q : Prop) (v : View Callback) : Prop := ∃ K, v.HasKeys K ∧ v.Served Q K

theorem stable_synced : (environment C i).Stable (Synced Q : View Callback → Prop) :=
  Environment.Stable.exists fun _ => stable_hasKeys.and stable_served

theorem synced_of_stopped (h : v.Stopped) : Synced Q v := ⟨_, rfl, served_of_down h.down⟩

/-- Once `running_` is cleared, only `subscribe` sets it again. -/
theorem unsubscribeAll_meets (v : View Callback) :
    (unsubscribeAll : Procedure Callback Outcome).Meets (environment C i)
      (fun _ => Synced Q) v := by
  -- the same end for a loop that is through and for one that threw
  have hend : ∀ v : View Callback, v.Stopped →
      ((issue (.unlock .callbacksMutex) : Procedure Callback Unit) >>= fun _ =>
        issue .clearCallbacks >>= fun _ => pure done).Meets (environment C i)
        (fun _ => Synced Q) v := by
    intro v hv
    refine meets_issue stable_stopped hv ?_
    rintro v choice hv ⟨rfl, -⟩ -
    refine meets_issue stable_stopped hv fun v choice hv hpossible _ => ?_
    obtain rfl : choice = .ok := hpossible
    exact meets_ret stable_stopped hv fun v hv => synced_of_stopped hv
  refine meets_issue (P := fun _ => True) (Environment.stable_const _) trivial ?_
  rintro v choice - hpossible -
  obtain rfl : choice = .ok := hpossible
  -- from `running_.store(false)` on, whatever the loop does
  refine meets_quiet rfl stable_stopped rfl fun _ v hv => ?_
  refine meets_quiet rfl stable_stopped hv fun keys v hv => ?_
  refine meets_bind (forEach_meets (P := fun _ => View.Stopped) (fun _ => stable_stopped)
    stable_stopped (fun key keys v hv => ?_) hend hend keys hv)
  refine meets_issue_ret stable_stopped hv ?_ (fun _ _ h => h) ?_
  · rintro (_ | _) <;> exact stable_stopped
  · rintro v choice hv ⟨-, ⟨rfl, -⟩ | rfl⟩ - <;> exact hv

theorem stopIfEmpty_meets (hv : v.HasKeys K ∧ v.Served Q K) :
    (stopIfEmpty : Procedure Callback Outcome).Meets (environment C i) (fun _ => Synced Q) v := by
  have hserved : (environment C i).Stable fun v : View Callback => v.HasKeys K ∧ v.Served Q K :=
    stable_hasKeys.and stable_served
  refine meets_quiet rfl hserved hv fun empty v hv => ?_
  cases empty with
  | false => exact meets_ret hserved hv fun v hv => ⟨K, hv⟩
  | true =>
    refine meets_issue hserved hv fun v choice _ hpossible _ => ?_
    obtain rfl : choice = .ok := hpossible
    exact meets_ret stable_stopped rfl fun v hv => synced_of_stopped hv

theorem unsubscribeRunning_meets {post : Bool → View Callback → Prop} {c : Bytes}
    (hv : v.HasKeys K ∧ v.Served Q K)
    (hok : ∀ v, v.HasKeys K ∧ v.Served Q (K.erase c) → post true v)
    (hthrew : ∀ v, v.HasKeys K ∧ v.Served Q K → post false v) :
    (unsubscribeRunning c : Procedure Callback Bool).Meets (environment C i) post v := by
  have hserved : ∀ X, (environment C i).Stable fun v : View Callback =>
      v.HasKeys K ∧ v.Served Q X := fun X => stable_hasKeys.and stable_served
  refine meets_issue (hserved K) hv ?_
  rintro v choice hv hpossible -
  obtain rfl : choice = .ok := hpossible
  show Meets _ post (if v.shared.running = true then _ else _) _
  by_cases hset : v.shared.running = true
  · rw [if_pos hset]
    refine underLock_meets (hserved K) hv (hserved (K.erase c)) (hserved K) (fun v hv => ?_) hok
      hthrew
    refine meets_issue_ret (hserved K) hv ?_ (fun _ _ h => h) ?_
    · rintro (_ | _)
      · exact hserved K
      · exact hserved (K.erase c)
    · rintro v choice ⟨hkeys, hserved⟩ ⟨-, ⟨rfl, hbroken⟩ | rfl⟩ -
      · have hunbroken : (effect i v.shared (.unsubscribe c)).broken = false :=
          Shared.broken_unsubscribe.trans hbroken
        refine ⟨hkeys, fun hset => ?_⟩
        obtain ⟨hsub, hthread, -⟩ := hserved hset
        exact ⟨v.shared.channels_unsubscribe i hsub, hthread, fun _ => hunbroken⟩
      · exact ⟨hkeys, hserved⟩
  · rw [if_neg hset]
    have hstopped : v.shared.running = false := by simpa using hset
    exact meets_ret (stable_hasKeys.and stable_stopped) ⟨hv.1, hstopped⟩
      fun v hv => hok v ⟨hv.1, served_of_down hv.2.down⟩

theorem unsubscribeOne_meets (c : Bytes) (hv : v.HasKeys K ∧ v.Served Q K) :
    (unsubscribeOne c : Procedure Callback Outcome).Meets (environment C i)
      (fun _ => Synced Q) v := by
  have hserved : ∀ X, (environment C i).Stable fun v : View Callback =>
      v.HasKeys K ∧ v.Served Q X := fun X => stable_hasKeys.and stable_served
  refine meets_quiet rfl (hserved K) hv fun found v hv => ?_
  cases found with
  | false => exact stopIfEmpty_meets hv
  | true =>
    refine meets_bind (unsubscribeRunning_meets hv (fun v hv => ?_) fun v hv => ?_)
    · refine meets_issue (hserved (K.erase c)) hv ?_
      rintro v choice ⟨hkeys, hserved⟩ hpossible -
      obtain rfl : choice = .ok := hpossible
      have herase : View.HasKeys (K.erase c)
          ⟨v.shared.perform i (.eraseCallback c) .ok, v.failed⟩ := by
        show (effect i v.shared (.eraseCallback c)).keys = _
        rw [Shared.keys_eraseCallback, show v.shared.keys = K from hkeys]
      exact stopIfEmpty_meets ⟨herase, hserved⟩
    · exact meets_ret (hserved K) hv fun v hv => ⟨K, hv⟩

theorem unsubscribe_meets (c : Bytes) (hv : v.HasKeys K ∧ v.Served Q K) :
    (unsubscribe c : Procedure Callback Outcome).Meets (environment C i) (fun _ => Synced Q) v := by
  cases c with
  | cons b bs => exact unsubscribeOne_meets _ hv
  | nil =>
    refine meets_quiet rfl (stable_hasKeys.and stable_served) hv fun running v hv => ?_
    cases running with
    | false => exact unsubscribeOne_meets _ hv
    | true => exact unsubscribeAll_meets v

theorem publish_meets (c payload : Bytes) (hv : v.HasKeys K ∧ v.Served Q K) :
    (publish c payload : Procedure Callback Outcome).Meets (environment C i)
      (fun _ => Synced Q) v := by
  have hserved : (environment C i).Stable fun v : View Callback => v.HasKeys K ∧ v.Served Q K :=
    stable_hasKeys.and stable_served
  refine meets_bind (getClient_meets hserved hv fun redis v hv => ?_)
  refine meets_bind (underLock_meets hserved hv hserved hserved (fun v hv => ?_) ?_ ?_)
  · refine meets_issue_ret hserved hv ?_ (fun _ _ h => h) ?_
    · rintro (_ | _) <;> exact hserved
    · intro v choice hv hpossible _
      have hkept := hserved _ _ hv (quiet_perform rfl hpossible)
      split <;> exact hkept
  · exact fun v hv => meets_ret hserved hv fun v hv => ⟨K, hv⟩
  · exact fun v hv => meets_ret hserved hv fun v hv => ⟨K, hv⟩

/-- What a call leaves. -/
def CallPost (Q strict : Prop) (was : Bool) : Operation Callback → View Callback → Prop
  | .subscribe _ _, v => SubscribePost Q strict was v
  | _, v => Synced Q v

theorem CallPost.synced {was : Bool} {op : Operation Callback}
    (h : CallPost Q strict was op v) : Synced Q v := by
  cases op with
  | subscribe c cb =>
    obtain ⟨K, hkeys, hserved, -⟩ := h
    exact ⟨K, hkeys, hserved⟩
  | _ => exact h

/-- **Every operation of the channel**, started in step with the keys, ends so. -/
theorem Operation.meets (hC : Assumes C i Q strict) {op : Operation Callback}
    (hop : op.isChannel = true) (hv : Synced Q v) :
    op.procedure.Meets (environment C i)
      (fun _ => CallPost Q strict v.shared.up op) v := by
  obtain ⟨K, hv⟩ := hv
  cases op with
  | subscribe c cb => exact subscribe_meets hC c cb hv
  | unsubscribe c => exact unsubscribe_meets c hv
  | publish c payload => exact publish_meets c payload hv
  | storage o => exact absurd hop (by simp [isChannel])

end Calls

/-! ## Sequences of calls -/

/-- One operation of the channel after the other, whose actions meet `C`. -/
def Sequenced (C : ℕ → Shared Callback → Action Callback → Choice → Prop)
    (_ : List (Label Callback)) (s : State Callback) : Label Callback → Prop
  | .call _ op => (∀ i, s.callers i = none) ∧ op.isChannel = true
  | .act i a choice => C i s.shared a choice
  | _ => True

section Sequence

variable {C : ℕ → Shared Callback → Action Callback → Choice → Prop} {Q strict : Prop}
  {s : State Callback} {a : Label Callback}

/-- No call is in progress, and the subscription is in step with the keys. -/
def Between (Q : Prop) (s : State Callback) : Prop :=
  (∀ i, s.callers i = none) ∧ Synced Q ⟨s.shared, false⟩

/-- Caller `i` is inside `op`, which will leave what it should; `was` says whether
the channel was up at the start of the call, `failed` whether a connection error
has happened since. -/
def InCall (C : ℕ → Shared Callback → Action Callback → Choice → Prop) (Q strict : Prop)
    (i : ℕ) (op : Operation Callback) (was failed : Bool) (s : State Callback) : Prop :=
  (∀ j, j ≠ i → s.callers j = none) ∧ ∃ call, s.callers i = some call ∧ call.operation = op ∧
    call.rest.Meets (environment (C i) i) (fun _ => CallPost Q strict was op) ⟨s.shared, failed⟩

theorem not_enabled_of_idle {i : ℕ} (hidle : s.callers i = none) (ha : a.caller? = some i)
    (h : Enabled a s) : ∃ op, a = .call i op := by
  cases a with
  | call j op =>
    obtain rfl : j = i := Option.some.inj ha
    exact ⟨op, rfl⟩
  | act j b choice =>
    obtain rfl : j = i := Option.some.inj ha
    obtain ⟨call, hcall, -⟩ := State.exists_call_of_head? h.1
    exact absurd (hidle.symm.trans hcall) nofun
  | ret j op outcome =>
    obtain rfl : j = i := Option.some.inj ha
    obtain ⟨call, hcall, -⟩ := State.exists_call_of_result? h
    exact absurd (hidle.symm.trans hcall) nofun
  | _ => exact absurd ha nofun

/-- A step that is no caller's is quiet. -/
theorem quiet_next {i : ℕ} (f : Bool) (hone : s.shared.OneConsumer) (h : Enabled a s)
    (ha : a.caller? = none) : Quiet i ⟨s.shared, f⟩ ⟨(next a s).shared, f || a.fails⟩ := by
  cases a with
  | consumer w c => exact quiet_consumer f hone h.1 h.2
  | publish c payload =>
    rw [show (f || (Label.publish c payload : Label Callback).fails) = f from Bool.or_false f]
    exact quiet_publish i ⟨s.shared, f⟩ c payload
  | _ => exact absurd ha nofun

theorem Between.next (hone : s.shared.OneConsumer) (h : Enabled a s) (hs : Between Q s)
    (ha : a.caller? = none) : Between Q (next a s) := by
  refine ⟨fun i => ?_, ?_⟩
  · rw [callers_next_of_ne (by rw [ha]; exact nofun)]
    exact hs.1 i
  · have hsynced : Synced Q ⟨(RedisChannel.next a s).shared, false || a.fails⟩ :=
      stable_synced (C := fun _ _ _ => True) _ _ hs.2 (quiet_next (i := 0) false hone h ha)
    exact hsynced

/-- A call begins. -/
theorem Between.call {i : ℕ} {op : Operation Callback} (hC : ∀ i, Assumes (C i) i Q strict)
    (hop : op.isChannel = true) (hs : Between Q s) :
    InCall C Q strict i op s.shared.up false (RedisChannel.next (.call i op) s) := by
  refine ⟨fun j hj => ?_, ⟨op, op.procedure⟩, Function.update_self .., rfl, ?_⟩
  · exact (Function.update_of_ne hj _ _).trans (hs.1 j)
  · exact op.meets (hC i) hop hs.2

/-- Caller `i` alone has a call in progress; it is inside `op`, and ends it with `post`. -/
def Inside (C : ℕ → Shared Callback → Action Callback → Choice → Prop) (i : ℕ)
    (op : Operation Callback) (post : Outcome → View Callback → Prop) (failed : Bool)
    (s : State Callback) : Prop :=
  (∀ j, j ≠ i → s.callers j = none) ∧ ∃ call, s.callers i = some call ∧ call.operation = op ∧
    call.rest.Meets (environment (C i) i) post ⟨s.shared, failed⟩

/-- A call ends with its postcondition, or goes on. -/
theorem Inside.next {i : ℕ} {op : Operation Callback} {post : Outcome → View Callback → Prop}
    {f : Bool} (hone : s.shared.OneConsumer) (h : Enabled a s) (hs : Inside C i op post f s)
    {tr : List (Label Callback)} (hc : Sequenced C tr s a) :
    (∃ outcome, a = .ret i op outcome ∧ post outcome ⟨s.shared, f⟩ ∧
      ∀ j, (RedisChannel.next a s).callers j = none) ∨
    Inside C i op post (f || a.fails) (RedisChannel.next a s) := by
  obtain ⟨hidle, call, hcall, hop, hmeets⟩ := hs
  rcases hcaller : a.caller? with _ | j
  · -- a step of the others
    refine Or.inr ⟨fun j hj => ?_, call, ?_, hop, ?_⟩
    · rw [callers_next_of_ne (by rw [hcaller]; exact nofun)]
      exact hidle j hj
    · rw [callers_next_of_ne (by rw [hcaller]; exact nofun)]
      exact hcall
    · exact hmeets.rely (quiet_next f hone h hcaller)
  -- only the caller itself moves: the others are idle, and no call begins now
  · obtain rfl : j = i := by
      by_contra hne
      obtain ⟨op', rfl⟩ := not_enabled_of_idle (hidle j hne) hcaller h
      exact absurd ((hc.1 i).symm.trans hcall) nofun
    cases a with
    | call i op' =>
      obtain rfl : i = j := Option.some.inj hcaller
      exact absurd ((hc.1 i).symm.trans hcall) nofun
    | ret i op' outcome =>
      obtain rfl : i = j := Option.some.inj hcaller
      obtain ⟨call', hcall', rfl, hres⟩ := State.exists_call_of_result? h
      obtain rfl : call = call' := Option.some.inj (hcall.symm.trans hcall')
      subst hop
      refine Or.inl ⟨outcome, rfl, hmeets.result hres, fun k => ?_⟩
      by_cases hk : k = i
      · subst hk
        exact Function.update_self ..
      · exact (Function.update_of_ne hk _ _).trans (hidle k hk)
    | act i b choice =>
      obtain rfl : i = j := Option.some.inj hcaller
      obtain ⟨call', hcall', hhead⟩ := State.exists_call_of_head? h.1
      obtain rfl : call = call' := Option.some.inj (hcall.symm.trans hcall')
      refine Or.inr ⟨fun k hk => ?_, _, callers_act hcall b choice, hop, ?_⟩
      · exact (Function.update_of_ne hk _ _).trans (hidle k hk)
      · refine hmeets.step hhead ⟨choice, h.2, hc, rfl, ?_⟩
        rw [show (f || (Label.act i b choice : Label Callback).fails) = f from Bool.or_false f]
        rfl
    | consumer w c => exact absurd hcaller nofun
    | publish c payload => exact absurd hcaller nofun

/-- A call goes on. -/
theorem InCall.next {i : ℕ} {op : Operation Callback} {was f : Bool}
    (hone : s.shared.OneConsumer) (h : Enabled a s)
    (hs : InCall C Q strict i op was f s) {tr : List (Label Callback)} (hc : Sequenced C tr s a) :
    (∃ outcome, a = .ret i op outcome ∧ CallPost Q strict was op ⟨s.shared, f⟩ ∧
      Between Q (RedisChannel.next a s)) ∨
    InCall C Q strict i op was (f || a.fails) (RedisChannel.next a s) := by
  have hinside : Inside C i op (fun _ => CallPost Q strict was op) f s := hs
  rcases hinside.next hone h hc with ⟨outcome, rfl, hpost, hidle⟩ | hin
  · exact Or.inl ⟨outcome, rfl, hpost, hidle, hpost.synced⟩
  · exact Or.inr hin

/-- **Along a sequence of calls** the subscription is in step with the keys
between two calls, and every call in progress will leave it so. -/
theorem between_or_inCall (hC : ∀ i, Assumes (C i) i Q strict) {tr : List (Label Callback)}
    (h : channel.RunBy (Sequenced C) initial tr s) :
    Between Q s ∨ ∃ i op was f, InCall C Q strict i op was f s := by
  induction h with
  | nil => exact Or.inl ⟨fun _ => rfl, synced_of_stopped rfl⟩
  | @snoc tr s a hr ha hc ih =>
    have hone := oneConsumer hr.run
    rcases ih with hs | ⟨i, op, was, f, hs⟩
    · rcases hcaller : a.caller? with _ | i
      · exact Or.inl (hs.next hone ha hcaller)
      · obtain ⟨op, rfl⟩ := not_enabled_of_idle (hs.1 i) hcaller ha
        exact Or.inr ⟨i, op, _, _, hs.call hC hc.2⟩
    · rcases hs.next hone ha hc with ⟨outcome, -, -, hbetween⟩ | hin
      · exact Or.inl hbetween
      · exact Or.inr ⟨i, op, was, _, hin⟩

end Sequence

/-! ## Consistency between two calls -/

/-- **The failures that leave the subscription consistent**: a `SUBSCRIBE` of the
loop in `initializeSubscriber` throws only when `running_` has been cleared, or the
handler of a connection error is about to clear it, and `startConsumeThread` sets
`running_` only while the connection of the subscriber works. -/
def KeepsInStep (i : ℕ) (s : Shared Callback) : Action Callback → Choice → Prop
  | .subscribe _, .threw => s.owner .callbacksMutex = some (.caller i) → s.up = false
  | .storeRunning true, _ => s.broken = false
  | _, _ => True

theorem keepsInStep_assumes (i : ℕ) :
    Assumes (KeepsInStep i : Shared Callback → Action Callback → Choice → Prop) i True False where
  loop _ _ h := h
  start _ _ _ h := h
  strict h := h.elim
  load h := h.elim

theorem consistent_of_synced {s : State Callback} (h : Synced True ⟨s.shared, false⟩)
    (hhandled : s.shared.failing = false) : s.shared.Consistent := by
  obtain ⟨K, hkeys, hserved⟩ := h
  intro hrun
  obtain ⟨hchan, ⟨w, hw, halive⟩, hbroken⟩ := hserved (Shared.up_eq_true.mpr ⟨hrun, hhandled⟩)
  obtain ⟨u, hu, hX⟩ := Option.map_eq_some_iff.mp hchan
  refine ⟨u, w, hu, hw, halive, ?_⟩
  have hunbroken : u.broken = false := by
    have hany : s.shared.subscriber.any (·.broken) = false := hbroken trivial
    rwa [hu] at hany
  rw [Subscriber.subscribed, hunbroken, if_neg Bool.false_ne_true, hX]
  exact hkeys.symm

/-- **Consistency of the subscription state.**  In a sequence of calls in which
every step keeps the subscription in step, it is consistent between two calls,
where a connection error and its handler count as one step. -/
theorem consistent_between_calls {tr : List (Label Callback)} {s : State Callback}
    (h : channel.RunBy (Sequenced KeepsInStep) initial tr s) (hidle : ∀ i, s.callers i = none)
    (hhandled : s.shared.failing = false) : s.shared.Consistent := by
  rcases between_or_inCall keepsInStep_assumes h with hs | ⟨i, op, was, f, -, call, hcall, -⟩
  · exact consistent_of_synced hs.2 hhandled
  · exact absurd ((hidle i).symm.trans hcall) nofun

/-! ## One caller -/

/-- A step of caller `0`, or of nobody. -/
def SingleCaller (C : ℕ → Shared Callback → Action Callback → Choice → Prop)
    (s : State Callback) : Label Callback → Prop
  | .call i op => i = 0 ∧ op.isChannel = true
  | .act i a choice => i = 0 ∧ C i s.shared a choice
  | _ => True

instance {C : ℕ → Shared Callback → Action Callback → Choice → Prop}
    [∀ i s a choice, Decidable (C i s a choice)] :
    ∀ (s : State Callback) (a : Label Callback), Decidable (SingleCaller C s a)
  | _, .call i op => inferInstanceAs (Decidable (i = 0 ∧ op.isChannel = true))
  | s, .act i a choice => inferInstanceAs (Decidable (i = 0 ∧ C i s.shared a choice))
  | _, .ret .. | _, .consumer .. | _, .publish .. => isTrue trivial

/-- The calls of one caller are a sequence of calls. -/
theorem sequenced_of_singleCaller {C : ℕ → Shared Callback → Action Callback → Choice → Prop}
    {tr : List (Label Callback)} (h : (channel.restrict (SingleCaller C)).Legal tr initial) :
    channel.RunBy (Sequenced C) initial tr (channel.after tr initial) ∧
      ∀ j, j ≠ 0 → (channel.after tr initial).callers j = none := by
  rw [← TransitionSystem.after_restrict (SingleCaller C)]
  refine TransitionSystem.Run.induct (P := fun tr s => channel.RunBy (Sequenced C) initial tr s ∧
    ∀ j, j ≠ 0 → s.callers j = none) ⟨.nil, fun _ _ => rfl⟩ ?_ (TransitionSystem.run_of_legal h)
  rintro tr s a - ⟨hr, hidle⟩ ⟨ha, hc⟩
  refine ⟨hr.snoc ha ?_, fun j hj => ?_⟩
  · cases a with
    | call i op =>
      obtain ⟨rfl, hop⟩ := hc
      refine ⟨fun j => ?_, hop⟩
      rcases eq_or_ne j 0 with rfl | hj
      · exact ha
      · exact hidle j hj
    | act i b choice =>
      obtain ⟨rfl, hCa⟩ := hc
      exact hCa
    | _ => exact trivial
  · rcases hcaller : a.caller? with _ | k
    · exact (callers_next_of_ne (by rw [hcaller]; exact nofun) s).trans (hidle j hj)
    · rcases eq_or_ne k j with rfl | hk
      · obtain ⟨op, rfl⟩ := not_enabled_of_idle (hidle k hj) hcaller ha
        exact absurd hc.1 hj
      · refine (callers_next_of_ne ?_ s).trans (hidle j hj)
        rw [hcaller]
        exact fun heq => hk (Option.some.inj heq)

/-- At the end of the calls of one caller nobody has a call in progress. -/
theorem idle_of_singleCaller {C : ℕ → Shared Callback → Action Callback → Choice → Prop}
    {tr : List (Label Callback)} (h : (channel.restrict (SingleCaller C)).Legal tr initial)
    (h0 : ((channel.after tr initial).callers 0).isNone = true) (i : ℕ) :
    (channel.after tr initial).callers i = none := by
  by_cases hi : i = 0
  · rw [hi]
    exact Option.isNone_iff_eq_none.mp h0
  · exact (sequenced_of_singleCaller h).2 i hi

/-! ## A subscription without a consumer -/

/-- The `SUBSCRIBE` of the first call throws, and the exception escapes. -/
def escapedRun : List (Label Unit) :=
  startRun 0 [97] () ++ lockedRun 0 (.subscribe [97]) .threw ++
  [.act 0 (.unlock .callbacksMutex) .ok, .ret 0 (.subscribe [97] ()) .threw]

instance (i : ℕ) (s : Shared Callback) :
    ∀ (a : Action Callback) (choice : Choice), Decidable (KeepsInStep i s a choice)
  | .subscribe _, .threw =>
    inferInstanceAs (Decidable (s.owner .callbacksMutex = some (.caller i) → s.up = false))
  | .storeRunning true, _ => inferInstanceAs (Decidable (s.broken = false))
  | .subscribe _, .ok | .subscribe _, .order _ | .subscribe _, .reply _ | .storeRunning false, _
  | .lock _, _ | .unlock _, _ | .loadRunning, _ | .compareExchange, _ | .setCallback .., _
  | .findCallback _, _ | .eraseCallback _, _ | .clearCallbacks, _ | .callbacksEmpty, _
  | .callbackKeys, _ | .ping, _ | .connect, _ | .redis, _ | .createSubscriber _, _
  | .onMessage, _ | .resetSubscriber, _ | .unsubscribe _, _ | .publish .., _ | .joinable, _
  | .join, _ | .startThread, _ | .storage .., _ => isTrue trivial

set_option maxRecDepth 4000 in
/-- **`running_` without a consumer**: nobody clears `running_`, no consumer thread
was started, and the next `subscribe` will find the channel running. -/
theorem not_consistent_escapedRun : ¬ ∀ (tr : List (Label Unit)) (s : State Unit),
    channel.RunBy (Sequenced fun _ _ _ _ => True) initial tr s → (∀ i, s.callers i = none) →
      s.shared.failing = false → s.shared.Consistent := by
  intro hall
  have hlegal : (channel.restrict (SingleCaller fun _ _ _ _ => True)).Legal escapedRun initial := by
    decide
  have hthread : (channel.after escapedRun initial).shared.subscriptionThread = none := by decide
  obtain ⟨u, w, -, hw, -⟩ := hall _ _ (sequenced_of_singleCaller hlegal).1
    (idle_of_singleCaller hlegal (by decide)) (by decide) (by decide)
  exact absurd (hw.symm.trans hthread) nofun

set_option maxRecDepth 4000 in
/-- A first `subscribe` that succeeds. -/
theorem consistent_between_calls_subscribeRun :
    (channel.after (subscribeRun 0 [97] ()) initial).shared.Consistent := by
  have hlegal : (channel.restrict (SingleCaller KeepsInStep)).Legal (subscribeRun 0 [97] ())
      initial := by decide
  exact consistent_between_calls (sequenced_of_singleCaller hlegal).1
    (idle_of_singleCaller hlegal (by decide)) (by decide)

end RedisChannel
