/-
# The destructor of the channel

`~RedisChannel` of `src/client/RedisChannel.cpp`: `unsubscribe()`, and the join of the
consumer thread.  It runs when no call is in progress and none begins.  `tearing` follows
what it has found and done; with the mutexes of `ChannelLock` this gives what is left of the
channel once the destructor is through (`destroyed`): no consumer thread, no mutex that is
held, and nothing more for the pool, which is destroyed next.  `destructor_ends` says when
it gets there.
-/
import RedisStateManager.CallBounds
import RedisStateManager.ChannelCalls
import RedisStateManager.ChannelMessages
import RedisStateManager.ChannelPresence

namespace RedisChannel

open Redis Program

variable {Callback : Type} {α : Type}

/-- The end of `~RedisChannel`. -/
def joinConsumer : Procedure Callback Outcome := do
  if ← issue .joinable then
    issue .join
    return done
  else return done

/-- `~RedisChannel`, up to the destruction of the members; an exception would end the program. -/
def destructor : Procedure Callback Outcome := do
  match ← unsubscribe [] with
  | .returned _ => joinConsumer
  | .threw => return .threw

/-- The destructor begins in thread `i`; its first call is `unsubscribe()`. -/
def State.destroy (s : State Callback) (i : ℕ) : State Callback :=
  s.setCaller i (some ⟨.unsubscribe [], destructor⟩)

/-! ## What the destructor has found and done -/

/-- `running_` is known to be cleared, and whether there is a thread to be joined, once that
is known. -/
structure Teardown where
  stopped : Bool
  thread : Option Bool

/-- The destructor sets nothing up, joins a thread that it has found, and ends then. -/
def tearing : Protocol (Action Callback) Answer Teardown where
  Allowed t a :=
    match t.thread with
    | none => a.ofSubscribe = false ∨ a = .joinable
    | some true => a = .join
    | some false => False
  Possible t
    | .loadRunning, (running : Bool) => t.stopped = true → running = false
    | _, _ => True
  after t
    | .loadRunning, (running : Bool) => { t with stopped := t.stopped || !running }
    | .storeRunning b, _ => { t with stopped := !b }
    | .joinable, (found : Bool) => { t with thread := some found }
    | .join, _ => { t with thread := some false }
    | _, _ => t

/-- The destructor has come to its end. -/
def torn (outcome : Outcome) (t : Teardown) : Prop :=
  outcome = done ∧ t.stopped = true ∧ t.thread = some false

section Programs

variable {b : Bool}

/-- An action that tells nothing of `running_` and of the thread. -/
def Action.plain : Action Callback → Bool
  | .loadRunning | .storeRunning _ => false
  | a => !a.ofSubscribe

theorem plain_tearing {a : Action Callback} (ha : a.plain = true) :
    (tearing : Protocol (Action Callback) Answer Teardown).Allowed ⟨b, none⟩ a ∧
      ∀ r, tearing.after ⟨b, none⟩ a r = ⟨b, none⟩ := by
  cases a with
  | loadRunning => exact absurd ha Bool.false_ne_true
  | storeRunning b' => exact absurd ha Bool.false_ne_true
  | compareExchange | setCallback | createSubscriber | onMessage | resetSubscriber | subscribe
  | joinable | join | startThread => exact absurd ha Bool.false_ne_true
  | _ => exact ⟨Or.inl rfl, fun _ => rfl⟩

theorem issue_tearing {a : Action Callback} {k : Answer a → Procedure Callback α}
    {post : α → Teardown → Prop} (ha : a.plain = true)
    (h : ∀ r, (k r).Obeys tearing post ⟨b, none⟩) :
    (issue a >>= k).Obeys tearing post ⟨b, none⟩ := by
  obtain ⟨hallowed, hafter⟩ := plain_tearing (b := b) ha
  refine obeys_act_ret_bind.mpr ⟨hallowed, fun r _ => ?_⟩
  rw [hafter r]
  exact h r

theorem underLock_tearing {c : Bytes} {post : Bool → Teardown → Prop}
    (h : ∀ ok, post ok ⟨b, none⟩) :
    (underLock (issue (.unsubscribe c)) : Procedure Callback Bool).Obeys tearing post
      ⟨b, none⟩ := by
  refine obeys_bind.mpr (issue_tearing rfl fun _ => issue_tearing rfl fun _ => ?_)
  refine issue_tearing (k := fun _ => ret ()) rfl fun _ => ?_
  refine obeys_bind.mpr (issue_tearing (k := ret) rfl fun ok => ?_)
  exact issue_tearing rfl fun _ => h ok

theorem forEach_tearing (keys : List Bytes) {post : Bool → Teardown → Prop}
    (h : ∀ ok, post ok ⟨b, none⟩) :
    (forEach (fun key => issue (.unsubscribe key)) keys : Procedure Callback Bool).Obeys tearing
      post ⟨b, none⟩ := by
  induction keys with
  | nil => exact h true
  | cons key keys ih =>
    refine obeys_bind.mpr (underLock_tearing fun ok => ?_)
    cases ok with
    | true => exact ih
    | false => exact h false

/-- What `unsubscribe()` leaves to the end of the destructor. -/
def untorn (outcome : Outcome) (t : Teardown) : Prop :=
  outcome = done ∧ t = ⟨true, none⟩

theorem unsubscribeAll_tearing :
    (unsubscribeAll : Procedure Callback Outcome).Obeys tearing untorn ⟨b, none⟩ := by
  refine obeys_act_ret_bind.mpr ⟨Or.inl rfl, fun _ _ => ?_⟩
  refine issue_tearing rfl fun _ => issue_tearing rfl fun keys => ?_
  refine obeys_bind.mpr (forEach_tearing keys fun _ => ?_)
  exact issue_tearing rfl fun _ => issue_tearing rfl fun _ => ⟨rfl, rfl⟩

theorem stopIfEmpty_tearing :
    (stopIfEmpty : Procedure Callback Outcome).Obeys tearing untorn ⟨true, none⟩ := by
  refine issue_tearing rfl fun empty => ?_
  cases empty with
  | false => exact ⟨rfl, rfl⟩
  | true => exact obeys_act_ret_bind.mpr ⟨Or.inl rfl, fun _ _ => ⟨rfl, rfl⟩⟩

/-- With `running_` cleared there is no `UNSUBSCRIBE` that could throw. -/
theorem unsubscribeOne_tearing (c : Bytes) :
    (unsubscribeOne c : Procedure Callback Outcome).Obeys tearing untorn ⟨true, none⟩ := by
  refine issue_tearing rfl fun found => ?_
  cases found with
  | false => exact stopIfEmpty_tearing
  | true =>
    refine obeys_bind.mpr (obeys_act_ret_bind.mpr ⟨Or.inl rfl, fun running hrunning => ?_⟩)
    obtain rfl : running = false := hrunning rfl
    exact issue_tearing rfl fun _ => stopIfEmpty_tearing

theorem unsubscribe_tearing :
    (unsubscribe [] : Procedure Callback Outcome).Obeys tearing untorn ⟨false, none⟩ := by
  refine obeys_act_ret_bind.mpr ⟨Or.inl rfl, fun running _ => ?_⟩
  cases running with
  | false => exact unsubscribeOne_tearing []
  | true => exact unsubscribeAll_tearing

theorem joinConsumer_tearing :
    (joinConsumer : Procedure Callback Outcome).Obeys tearing torn ⟨true, none⟩ := by
  refine obeys_act_ret_bind.mpr ⟨Or.inr rfl, fun found _ => ?_⟩
  cases found with
  | false => exact ⟨rfl, rfl, rfl⟩
  | true => exact obeys_act_ret_bind.mpr ⟨rfl, fun _ _ => ⟨rfl, rfl, rfl⟩⟩

/-- **The destructor** ends without an exception, has seen `running_` cleared and has joined the
thread, if there was one. -/
theorem destructor_tearing :
    (destructor : Procedure Callback Outcome).Obeys tearing torn ⟨false, none⟩ := by
  refine obeys_bind.mpr (unsubscribe_tearing.mono ?_)
  rintro outcome t ⟨rfl, rfl⟩
  exact joinConsumer_tearing

/-- The destructor takes the mutexes in order, and ends without one. -/
theorem destructor_obeys :
    (destructor : Procedure Callback Outcome).Obeys lockProtocol endsFree .nothing := by
  refine obeys_bind.mpr ((unsubscribe_obeys []).mono ?_)
  rintro outcome _ rfl
  cases outcome with
  | threw => exact rfl
  | returned r =>
    refine obeys_act_ret_bind.mpr ⟨trivial, fun found _ => ?_⟩
    cases found with
    | false => exact rfl
    | true => exact obeys_act_ret_bind.mpr ⟨trivial, fun _ _ => rfl⟩

end Programs

/-! ## Along a run -/

/-- What the destructor has found is so. -/
structure Teardown.Fits (t : Teardown) (s : Shared Callback) : Prop where
  running : t.stopped = true → s.running = false
  thread : ∀ b ∈ t.thread, b = s.subscriptionThread.isSome

section Fits

variable {t : Teardown} {s : Shared Callback} {i w : ℕ}

theorem Teardown.Fits.congr (h : t.Fits s) {s' : Shared Callback}
    (hrunning : s'.running = s.running)
    (hthread : s'.subscriptionThread = s.subscriptionThread) : t.Fits s' :=
  ⟨fun hstopped => hrunning.trans (h.running hstopped), fun b hb => hthread ▸ h.thread b hb⟩

/-- A consumer thread at most clears `running_`. -/
theorem Teardown.Fits.consumer (h : t.Fits s) (a : ConsumerAct Callback) :
    t.Fits (s.consumer w a) := by
  refine ⟨fun hstopped => ?_, fun b hb => ?_⟩
  · by_cases hstore : a = .storeRunning
    · subst hstore
      rfl
    · exact (Shared.running_consumer hstore).trans (h.running hstopped)
  · rw [Shared.subscriptionThread_consumer]
    exact h.thread b hb

/-- **An action of the destructor** is answered, and turns out, as it has found. -/
theorem Teardown.Fits.perform (h : t.Fits s) {b : Action Callback} {choice : Choice}
    (hallowed : tearing.Allowed t b) (hposs : Possible i s choice b) :
    tearing.Possible t b (answer s choice b) ∧
      (tearing.after t b (answer s choice b)).Fits (s.perform i b choice) := by
  obtain ⟨stopped, thread⟩ := t
  cases thread with
  | none =>
    have hquiet : b.ofSubscribe = false ∨ b = .joinable := hallowed
    cases b with
    | loadRunning =>
      obtain rfl : choice = .ok := hposs
      refine ⟨h.running, fun hstopped => ?_, nofun⟩
      rcases Bool.or_eq_true_iff.mp hstopped with hold | hnot
      · exact h.running hold
      · exact Bool.not_eq_true' _ ▸ hnot
    | storeRunning set =>
      obtain rfl : choice = .ok := hposs
      cases set with
      | false => exact ⟨trivial, fun _ => rfl, nofun⟩
      | true => exact absurd hquiet (by simp [Action.ofSubscribe])
    | joinable =>
      obtain rfl : choice = .ok := hposs
      refine ⟨trivial, h.running, ?_⟩
      rintro b ⟨⟩
      rfl
    | compareExchange | setCallback | createSubscriber | onMessage | resetSubscriber | subscribe
    | join | startThread => exact absurd hquiet (by simp [Action.ofSubscribe])
    | _ =>
      refine ⟨trivial, h.congr ?_ ?_⟩
      all_goals
        unfold Shared.perform
        split <;> rfl
  | some found =>
    cases found with
    | false => exact hallowed.elim
    | true =>
      obtain rfl : b = .join := hallowed
      obtain ⟨rfl, -⟩ := hposs
      refine ⟨trivial, fun hstopped => h.running hstopped, ?_⟩
      rintro b ⟨⟩
      rfl

end Fits

/-- The thread to be joined exists. -/
def Shared.Started (s : Shared Callback) : Prop :=
  ∀ w ∈ s.subscriptionThread, w < s.consumers.length

theorem started_next {s : State Callback} {a : Label Callback} (h : Enabled a s)
    (hs : s.shared.Started) : (next a s).shared.Started := by
  cases a with
  | act i b choice =>
    show (s.shared.perform i b choice).Started
    by_cases hjoin : b = .join
    · subst hjoin
      obtain ⟨rfl, -⟩ := h.2
      exact nofun
    by_cases hstart : b = .startThread
    · subst hstart
      obtain ⟨rfl, -⟩ := h.2
      rintro w ⟨⟩
      show s.shared.consumers.length < (s.shared.consumers ++ [ConsumerPc.testRunning]).length
      simp
    · obtain ⟨hcons, hthread⟩ := s.shared.threads_perform (i := i) choice hjoin hstart
      intro w hw
      rw [hthread] at hw
      rw [hcons]
      exact hs w hw
  | consumer w c =>
    intro v hv
    rw [show (next (.consumer w c) s).shared.subscriptionThread = _ from
      Shared.subscriptionThread_consumer w c] at hv
    show v < (s.shared.consumers.set w _).length
    rw [List.length_set]
    exact hs v hv
  | _ => exact hs

/-- A call begins. -/
def Label.begins : Label Callback → Bool
  | .call _ _ => true
  | _ => false

/-- The destructor runs in thread `i`, and nothing else is in progress but the consumer thread. -/
structure Destroying (i : ℕ) (s : State Callback) : Prop where
  idle : ∀ j, j ≠ i → s.callers j = none
  one : s.shared.OneConsumer
  started : s.shared.Started
  ordered : Ordered s
  call : ∀ call, s.callers i = some call → ∃ t, call.rest.Obeys tearing torn t ∧ t.Fits s.shared
  returned : s.callers i = none → Teardown.Fits ⟨true, some false⟩ s.shared

section Destroying

variable {i : ℕ} {s : State Callback} {a : Label Callback}

/-- A step that is no caller's. -/
theorem Teardown.Fits.next {t : Teardown} (ht : t.Fits s.shared) (ha : a.caller? = none) :
    t.Fits (RedisChannel.next a s).shared := by
  cases a with
  | consumer w c => exact ht.consumer c
  | publish c payload => exact ht.congr rfl rfl
  | _ => exact absurd ha nofun

/-- Nobody but the destructor takes steps as a caller. -/
theorem Destroying.caller_eq (hs : Destroying i s) (h : Enabled a s) (hbegins : a.begins = false)
    {j : ℕ} (ha : a.caller? = some j) : j = i := by
  by_contra hne
  obtain ⟨op, rfl⟩ := not_enabled_of_idle (hs.idle j hne) ha h
  exact absurd hbegins (by simp [Label.begins])

theorem Destroying.caller?_eq_none (hs : Destroying i s) (h : Enabled a s)
    (hbegins : a.begins = false) (ha : a.caller? ≠ some i) : a.caller? = none := by
  cases hcaller : a.caller? with
  | none => rfl
  | some j => exact absurd (hcaller.trans (hs.caller_eq h hbegins hcaller ▸ rfl)) ha

/-- **One step** of the destructor, the consumer thread or a publisher. -/
theorem Destroying.next (hs : Destroying i s) (h : Enabled a s) (hbegins : a.begins = false) :
    Destroying i (RedisChannel.next a s) where
  idle j hj := by
    by_cases ha : a.caller? = some j
    · exact absurd (hs.caller_eq h hbegins ha) hj
    · exact (callers_next_of_ne ha s).trans (hs.idle j hj)
  one := oneConsumer_next h hs.one
  started := started_next h hs.started
  ordered := hs.ordered.next h
  call call hcall := by
    rcases call_next h hcall with ⟨ha, hold⟩ | ⟨op, rfl, -⟩ |
      ⟨call', b, choice, rfl, hold, hhead, hposs, rfl⟩
    · obtain ⟨t, hobeys, ht⟩ := hs.call call hold
      exact ⟨t, hobeys, ht.next (hs.caller?_eq_none h hbegins ha)⟩
    · exact absurd hbegins (by simp [Label.begins])
    · obtain ⟨t, hobeys, ht⟩ := hs.call call' hold
      obtain ⟨hanswer, ht'⟩ := ht.perform (hobeys.allowed hhead) hposs
      exact ⟨_, hobeys.step hhead hanswer, ht'⟩
  returned hidle := by
    rcases idle_next h hidle with ⟨ha, hold⟩ | ⟨call, outcome, rfl, hold, hres⟩
    · exact (hs.returned hold).next (hs.caller?_eq_none h hbegins ha)
    · obtain ⟨t, hobeys, ht⟩ := hs.call call hold
      obtain ⟨-, hstopped, hthread⟩ := hobeys.result hres
      exact ⟨fun _ => ht.running hstopped, fun b hb => ht.thread b (hthread.trans hb)⟩

theorem started_of_run {tr : List (Label Callback)} (h : channel.Run initial tr s) :
    s.shared.Started :=
  h.invariant (I := fun s => s.shared.Started) nofun fun _ _ hs ha => started_next ha hs

theorem callers_destroy (s : State Callback) (i : ℕ) :
    (s.destroy i).callers i = some ⟨.unsubscribe [], destructor⟩ :=
  Function.update_self ..

/-- The destructor begins. -/
theorem destroying_destroy {tr : List (Label Callback)} (h : channel.Run initial tr s)
    (hidle : ∀ j, s.callers j = none) (i : ℕ) : Destroying i (s.destroy i) where
  idle j hj := (Function.update_of_ne hj _ _).trans (hidle j)
  one := (oneConsumer h : s.shared.OneConsumer)
  started := (started_of_run h : s.shared.Started)
  ordered := by
    have hord := ordered h
    refine ⟨fun j call hcall => ?_, fun j _ => hord.idle j (hidle j), hord.consumer⟩
    by_cases hj : j = i
    · subst hj
      obtain rfl := Option.some.inj ((callers_destroy s _).symm.trans hcall)
      show destructor.Obeys lockProtocol endsFree (heldBy s.shared.owner (.caller j))
      rw [hord.idle j (hidle j)]
      exact destructor_obeys
    · have hnone : (s.destroy i).callers j = none := (Function.update_of_ne hj _ _).trans (hidle j)
      exact absurd (hnone.symm.trans hcall) nofun
  call call hcall := by
    obtain rfl := Option.some.inj ((callers_destroy s _).symm.trans hcall)
    exact ⟨⟨false, none⟩, destructor_tearing, nofun, nofun⟩
  returned hnone := absurd ((callers_destroy s i).symm.trans hnone) nofun

/-- **Along a run** in which no call begins. -/
theorem Destroying.run (hs : Destroying i s) {tr : List (Label Callback)} {s' : State Callback}
    (h : channel.RunBy (fun _ _ a => a.begins = false) s tr s') : Destroying i s' :=
  h.induct (P := fun _ s => Destroying i s) hs fun _ _ _ _ hs ha hbegins => hs.next ha hbegins

end Destroying

/-! ## What is left -/

/-- The channel is torn down: there is no consumer thread, and nobody holds a mutex. -/
structure Torn (s : Shared Callback) : Prop where
  running : s.running = false
  joined : s.subscriptionThread = none
  exited : ∀ w, ¬ s.Unfinished w
  free : ∀ m, s.owner m = none

section Ended

variable {i : ℕ} {s : State Callback} {a : Label Callback}

theorem owner_ne_of_nothing {owner : Mutex → Option Thread} {t : Thread}
    (h : heldBy owner t = .nothing) (m : Mutex) : owner m ≠ some t := by
  intro hm
  have hhas : (heldBy owner t).has m = true := heldBy_has.mpr hm
  rw [h] at hhas
  cases m <;> exact absurd hhas (by decide)

/-- A thread that has ended holds no mutex. -/
theorem Ordered.heldBy_of_not_unfinished (hs : Ordered s) {w : ℕ}
    (hw : ¬ s.shared.Unfinished w) :
    heldBy s.shared.owner (.consumer w) = .nothing := by
  rw [hs.consumer w]
  cases hpc : s.shared.consumers[w]? with
  | none => rfl
  | some pc =>
    obtain rfl : pc = .exited := by
      by_contra hne
      exact hw ⟨pc, hpc, hne⟩
    rfl

/-- Once the destructor has no action left, there is only its return. -/
theorem Destroying.ended (hs : Destroying i s) (hend : s.head? i = none) :
    Teardown.Fits ⟨true, some false⟩ s.shared ∧
      heldBy s.shared.owner (.caller i) = .nothing ∧
      ∀ op outcome, s.result? i = some (op, outcome) → outcome = done := by
  cases hcall : s.callers i with
  | none =>
    refine ⟨hs.returned hcall, hs.ordered.idle i hcall, fun op outcome hres => ?_⟩
    rw [State.result?, hcall] at hres
    exact absurd hres nofun
  | some call =>
    obtain ⟨t, hobeys, ht⟩ := hs.call call hcall
    have hfree := hs.ordered.caller i call hcall
    have hhead : call.rest.head? = none := by
      rw [State.head?, hcall] at hend
      exact hend
    rw [State.result?, hcall]
    cases hrest : call.rest with
    | act b k => exact absurd (hrest ▸ hhead) nofun
    | ret outcome =>
      rw [hrest] at hobeys hfree
      obtain ⟨hdone, hstopped, hthread⟩ := hobeys
      refine ⟨⟨fun _ => ht.running hstopped, fun b hb => ht.thread b (hthread.trans hb)⟩, hfree, ?_⟩
      rintro op outcome' hres
      rw [Option.bind_some, hrest] at hres
      exact (Prod.mk.inj (Option.some.inj hres)).2 ▸ hdone

/-- A mutex that the destructor does not hold is held by the consumer thread. -/
theorem Destroying.unfinished_of_owner (hs : Destroying i s) {m : Mutex} {t : Thread}
    (hm : s.shared.owner m = some t) (ht : t ≠ .caller i) :
    ∃ w, t = .consumer w ∧ s.shared.Unfinished w := by
  cases t with
  | caller j =>
    have hne : j ≠ i := fun hji => ht (hji ▸ rfl)
    exact absurd hm (owner_ne_of_nothing (hs.ordered.idle j (hs.idle j hne)) m)
  | consumer w =>
    refine ⟨w, rfl, ?_⟩
    by_contra hdead
    exact owner_ne_of_nothing (hs.ordered.heldBy_of_not_unfinished hdead) m hm

theorem Destroying.torn (hs : Destroying i s) (hend : s.head? i = none) : Torn s.shared := by
  obtain ⟨hfits, hfree, -⟩ := hs.ended hend
  have hthread : s.shared.subscriptionThread = none := by
    have hnone : false = s.shared.subscriptionThread.isSome := hfits.thread false rfl
    exact Option.isNone_iff_eq_none.mp (Option.isSome_eq_false_iff.mp hnone.symm)
  have hexited (w : ℕ) (hw : s.shared.Unfinished w) : False :=
    absurd (hthread.symm.trans (hs.one w hw)) nofun
  refine ⟨hfits.running rfl, hthread, hexited, fun m => ?_⟩
  by_contra hne
  obtain ⟨t, ht⟩ := Option.ne_none_iff_exists'.mp hne
  by_cases hcaller : t = .caller i
  · exact owner_ne_of_nothing hfree m (ht.trans (congrArg some hcaller))
  · obtain ⟨w, -, hw⟩ := hs.unfinished_of_owner ht hcaller
    exact hexited w hw

/-- After the destructor's last action only it returns, and others publish. -/
theorem Destroying.ended_next (hs : Destroying i s) (hend : s.head? i = none) (h : Enabled a s)
    (hbegins : a.begins = false) :
    (RedisChannel.next a s).head? i = none ∧
      (RedisChannel.next a s).shared.tasks = s.shared.tasks := by
  cases a with
  | call j op => exact absurd hbegins (by simp [Label.begins])
  | act j b choice =>
    obtain rfl := hs.caller_eq h hbegins rfl
    exact absurd (hend.symm.trans h.1) nofun
  | ret j op outcome =>
    obtain rfl := hs.caller_eq h hbegins rfl
    have hnone : (RedisChannel.next (.ret j op outcome) s).callers j = none :=
      Function.update_self ..
    exact ⟨by rw [State.head?, hnone]; rfl, rfl⟩
  | consumer w c =>
    exact absurd ⟨_, h.1, Shared.source_ne_exited w s.shared c⟩ ((hs.torn hend).exited w)
  | publish c payload => exact ⟨hend, rfl⟩

/-- **The channel is torn down** once its destructor, which began with no call in progress, has
come to its end: it has thrown no exception, no consumer thread is left, no mutex is held, and
from then on nothing is handed to the pool. -/
theorem destroyed {pre tr : List (Label Callback)} {u : State Callback}
    (hu : channel.Run initial pre u) (hidle : ∀ j, u.callers j = none)
    (h : channel.RunBy (fun _ _ a => a.begins = false) (u.destroy i) tr s)
    (hend : s.head? i = none) :
    Torn s.shared ∧ (∀ op outcome, s.result? i = some (op, outcome) → outcome = done) ∧
      ∀ tr' s', channel.RunBy (fun _ _ a => a.begins = false) s tr' s' →
        Torn s'.shared ∧ s'.shared.tasks = s.shared.tasks := by
  have hs := (destroying_destroy hu hidle i).run h
  refine ⟨hs.torn hend, (hs.ended hend).2.2, fun tr' s' h' => ?_⟩
  have hlast : Destroying i s' ∧ s'.head? i = none ∧ s'.shared.tasks = s.shared.tasks := by
    refine h'.induct (P := fun _ v => Destroying i v ∧ v.head? i = none ∧
      v.shared.tasks = s.shared.tasks) ⟨hs, hend, rfl⟩ ?_
    rintro _ v a - ⟨hv, hvend, htasks⟩ ha hbegins
    obtain ⟨hend', htasks'⟩ := hv.ended_next hvend ha hbegins
    exact ⟨hv.next ha hbegins, hend', htasks'.trans htasks⟩
  exact ⟨hlast.1.torn hlast.2.1, hlast.2.2⟩

/-- A channel with one callback, whose destructor begins in thread `0`. -/
def subscribed : State Unit := channel.after (subscribeRun 0 [97] ()) initial

/-- The destructor of `subscribed`; the consumer thread finds `running_` cleared. -/
def destroyRun : List (Label Unit) :=
  [.act 0 .loadRunning .ok, .act 0 (.storeRunning false) .ok, .act 0 (.lock .callbacksMutex) .ok,
    .act 0 .callbackKeys (.order [[97]])] ++ lockedRun 0 (.unsubscribe [97]) .ok ++
  [.act 0 (.unlock .callbacksMutex) .ok, .act 0 .clearCallbacks .ok, .act 0 .joinable .ok,
    .consumer 0 .testRunning, .act 0 .join .ok]

set_option maxRecDepth 4000 in
theorem run_subscribed : channel.Run initial (subscribeRun 0 [97] ()) subscribed :=
  TransitionSystem.run_of_legal (by decide)

/-- In a run that only moves caller `0`, and lets its calls return, no call is in progress. -/
theorem idle_of_callerZero {tr : List (Label Unit)} {s : State Unit}
    (h : channel.Run initial tr s) (h0 : s.callers 0 = none)
    (htr : ∀ a ∈ tr, a.caller? = some 0 ∨ a.caller? = none) (j : ℕ) : s.callers j = none := by
  by_cases hj : j = 0
  · rw [hj]
    exact h0
  · refine callers_of_run h fun a ha hcaller => ?_
    rcases htr a ha with hzero | hnone
    · exact hj (Option.some.inj (hcaller.symm.trans hzero))
    · exact absurd (hnone.symm.trans hcaller) nofun

theorem idle_subscribed (j : ℕ) : subscribed.callers j = none :=
  idle_of_callerZero run_subscribed rfl (by decide) j

set_option maxRecDepth 4000 in
theorem run_destroyRun : channel.RunBy (fun _ _ a => a.begins = false) (subscribed.destroy 0)
    destroyRun (channel.after destroyRun (subscribed.destroy 0)) :=
  TransitionSystem.runBy_of_legal (D := fun _ (a : Label Unit) => a.begins = false)
    (fun _ _ _ h => h) (by decide)

theorem destroyed_destroyRun : Torn (channel.after destroyRun (subscribed.destroy 0)).shared :=
  (destroyed run_subscribed idle_subscribed run_destroyRun rfl).1

end Ended

/-! ## How much there is to do -/

section Bounds

/-- A loop over `callbacks_` visits at most `K` keys. -/
def fits (K : ℕ) : (a : Action Callback) → Answer a → Prop
  | .callbackKeys, keys => keys.length ≤ K
  | _, _ => True

theorem underLock_within (c : Bytes) :
    (underLock (issue (.unsubscribe c)) : Procedure Callback Bool).Within 5 := by
  refine Within.bind (m := 2) ?_ fun _ => ?_
  · exact within_act_ret_bind fun _ =>
      within_act_ret_bind fun _ => within_act fun _ => within_ret _ 0
  · exact Within.bind (m := 1) (within_act fun ok => within_ret ok 0) fun ok =>
      within_act_ret_bind fun _ => within_ret ok 0

theorem forEach_within (keys : List Bytes) :
    (forEach (fun key => issue (.unsubscribe key)) keys : Procedure Callback Bool).Within
      (5 * keys.length) := by
  induction keys with
  | nil => exact within_ret true 0
  | cons key keys ih =>
    rw [List.length_cons, Nat.mul_succ, Nat.add_comm]
    refine (underLock_within key).bind fun ok => ?_
    cases ok with
    | true => exact ih
    | false => exact within_ret false _

theorem stopIfEmpty_within : (stopIfEmpty : Procedure Callback Outcome).Within 2 := by
  refine within_act_ret_bind fun empty => ?_
  cases empty with
  | false => exact within_ret done 1
  | true => exact within_act_ret_bind fun _ => within_ret done 0

theorem unsubscribeOne_within (c : Bytes) :
    (unsubscribeOne c : Procedure Callback Outcome).Within 10 := by
  refine within_act_ret_bind fun found => ?_
  cases found with
  | false => exact stopIfEmpty_within.mono (by decide)
  | true =>
    refine Within.bind (n := 6) (m := 3) ?_ fun ok => ?_
    · refine within_act_ret_bind fun running => ?_
      cases running with
      | false => exact within_ret true 5
      | true => exact underLock_within c
    · cases ok with
      | false => exact within_ret _ 3
      | true => exact within_act_ret_bind fun _ => stopIfEmpty_within

theorem unsubscribeAll_counting (K c : ℕ) :
    (unsubscribeAll : Procedure Callback Outcome).Obeys (counting (fits K)) (fun _ l => c ≤ l)
      (5 * K + 5 + c) := by
  refine obeys_act_ret_bind.mpr ⟨by show 0 < _; omega, fun _ _ => ?_⟩
  refine obeys_act_ret_bind.mpr ⟨by show 0 < _ - 1; omega, fun _ _ => ?_⟩
  refine obeys_act_ret_bind.mpr ⟨by show 0 < _ - 1 - 1; omega, fun keys hkeys => ?_⟩
  have hlength : keys.length ≤ K := hkeys
  refine obeys_bind.mpr (Obeys.mono (counting_mono ((forEach_within keys).counting (2 + c)) ?_) ?_)
  · show _ ≤ 5 * K + 5 + c - 1 - 1 - 1
    omega
  · intro ok l hl
    have hend : ((issue (.unlock .callbacksMutex) : Procedure Callback Unit) >>= fun _ =>
        issue .clearCallbacks >>= fun _ => pure done).Within 2 :=
      within_act_ret_bind fun _ => within_act_ret_bind fun _ => within_ret done 0
    exact counting_mono (hend.counting c) hl

/-- The destructor's own steps, with at most `K` callbacks. -/
def steps (K : ℕ) : ℕ := 5 * K + 13

theorem destructor_counting (K : ℕ) :
    (destructor : Procedure Callback Outcome).Obeys (counting (fits K)) (fun _ _ => True)
      (steps K) := by
  have hunsubscribe : (unsubscribe [] : Procedure Callback Outcome).Obeys (counting (fits K))
      (fun _ l => 2 ≤ l) (steps K) := by
    refine obeys_act_ret_bind.mpr ⟨Nat.succ_pos _, fun running _ => ?_⟩
    cases running with
    | true => exact counting_mono (unsubscribeAll_counting K 2) (by show _ ≤ 5 * K + 13 - 1; omega)
    | false =>
      exact counting_mono ((unsubscribeOne_within []).counting 2)
        (by show _ ≤ 5 * K + 13 - 1; omega)
  have hjoin : (joinConsumer : Procedure Callback Outcome).Within 2 := by
    refine within_act_ret_bind fun found => ?_
    cases found with
    | false => exact within_ret done 1
    | true => exact within_act_ret_bind fun _ => within_ret done 0
  refine obeys_bind.mpr (hunsubscribe.mono fun outcome l hl => ?_)
  have hend : (match outcome with
      | .returned _ => joinConsumer
      | .threw => return .threw : Procedure Callback Outcome).Within 2 := by
    cases outcome with
    | returned r => exact hjoin
    | threw => exact within_ret _ 2
  exact (counting_mono (hend.counting 0) hl).mono fun _ _ _ => trivial

/-- How far the consumer thread is from its end, once `running_` is cleared. -/
def ConsumerPc.rank : ConsumerPc Callback → ℕ
  | .exited => 0
  | .testRunning => 1
  | .failed => 1
  | .unlockRedis => 2
  | .unlockCallbacks => 3
  | .handOver _ _ => 4
  | .copy _ => 5
  | .find _ => 6
  | .lockCallbacks _ => 7
  | .consume => 8
  | .unlockInstance => 9
  | .lockRedis => 10
  | .lockInstance => 11

def Shared.rank (s : Shared Callback) : ℕ :=
  (s.subscriptionThread.bind (s.consumers[·]?)).elim 0 ConsumerPc.rank

theorem rank_le (s : Shared Callback) : s.rank ≤ 11 := by
  unfold Shared.rank
  cases s.subscriptionThread.bind (s.consumers[·]?) with
  | none => exact Nat.zero_le 11
  | some pc => cases pc <;> simp [ConsumerPc.rank]

/-- A step of the consumer thread brings it nearer to its end. -/
theorem rank_consumer {s : Shared Callback} (hone : s.OneConsumer) (hrun : s.running = false)
    {w : ℕ} {a : ConsumerAct Callback}
    (hsrc : s.consumers[w]? = some (consumerMove w s a).source) :
    (s.consumer w a).rank < s.rank := by
  have hthread : s.subscriptionThread = some w :=
    hone w ⟨_, hsrc, Shared.source_ne_exited w s a⟩
  have hnew : (s.consumer w a).rank = (consumerMove w s a).target.rank := by
    rw [Shared.rank, Shared.subscriptionThread_consumer, hthread]
    show ((s.consumer w a).consumers[w]?).elim 0 ConsumerPc.rank = _
    rw [Shared.getElem?_consumer_self hsrc]
    rfl
  have hold : s.rank = (consumerMove w s a).source.rank := by
    rw [Shared.rank, hthread, Option.bind_some, hsrc]
    rfl
  rw [hnew, hold]
  cases a with
  | testRunning =>
    show (if s.running then ConsumerPc.lockInstance else .exited).rank < 1
    rw [hrun]
    exact Nat.zero_lt_one
  | find m =>
    show ConsumerPc.rank (if (s.callbacks.lookup m.channel).isSome then _ else _) < 6
    split <;> simp [ConsumerPc.rank]
  | _ => simp [consumerMove, ConsumerPc.rank]

end Bounds

section Moves

variable {t : Teardown} {s : Shared Callback} {b : Action Callback} {choice : Choice} {i : ℕ}

/-- What the destructor never issues. -/
theorem not_of_tearing (h : tearing.Allowed t b) :
    b ≠ .startThread ∧ b ≠ .compareExchange ∧ b ≠ .storeRunning true ∧
      ∀ c cb, b ≠ .setCallback c cb := by
  obtain ⟨stopped, thread⟩ := t
  have hquiet : b.ofSubscribe = false ∨ b = .joinable ∨ b = .join := by
    cases thread with
    | none =>
      have hnone : b.ofSubscribe = false ∨ b = .joinable := h
      exact hnone.imp_right Or.inl
    | some found =>
      cases found with
      | false => exact h.elim
      | true => exact Or.inr (Or.inr h)
  refine ⟨?_, ?_, ?_, fun c cb => ?_⟩ <;> rintro rfl <;>
    exact absurd hquiet (by simp [Action.ofSubscribe])

/-- Cleared once, `running_` stays cleared. -/
theorem running_perform_tearing (h : tearing.Allowed t b) (hrun : s.running = false) :
    (s.perform i b choice).running = false := by
  obtain ⟨-, hexchange, hstore, -⟩ := not_of_tearing h
  unfold Shared.perform
  split
  · exact hrun
  · cases b with
    | compareExchange => exact absurd rfl hexchange
    | storeRunning set =>
      cases set with
      | false => rfl
      | true => exact absurd rfl hstore
    | _ => exact hrun

theorem rank_perform (h : tearing.Allowed t b) (hposs : Possible i s choice b) :
    (s.perform i b choice).rank ≤ s.rank := by
  by_cases hjoin : b = .join
  · subst hjoin
    obtain ⟨rfl, -⟩ := hposs
    exact Nat.zero_le _
  · obtain ⟨hcons, hthread⟩ := s.threads_perform (i := i) choice hjoin (not_of_tearing h).1
    rw [Shared.rank, hcons, hthread]
    exact Nat.le_refl _

/-- The keys that a loop visits are those of `callbacks_`. -/
theorem fits_answer {K : ℕ} (hK : s.keys.card ≤ K) (hposs : Possible i s choice b) :
    fits K b (answer s choice b) := by
  cases b with
  | callbackKeys =>
    cases choice with
    | order keys =>
      have hperm : keys.Perm s.callbacks.keys := hposs
      show keys.length ≤ K
      rw [hperm.length_eq, ← List.toFinset_card_of_nodup s.callbacks.keys_nodup]
      exact hK
    | _ => exact hposs.elim
  | _ => trivial

end Moves

/-- There are at most `K` callbacks, and the destructor has at most `n` steps to make, its
return among them. -/
structure Left (i K n : ℕ) (s : State Callback) : Prop where
  keys : s.shared.keys.card ≤ K
  call : ∀ call, s.callers i = some call →
    0 < n ∧ call.rest.Obeys (counting (fits K)) (fun _ _ => True) (n - 1)

section Ends

variable {i K n : ℕ} {s : State Callback} {a : Label Callback}

/-- A step of another thread leaves the destructor what it has to do. -/
theorem Left.next_of_none (hl : Left i K n s) (h : Enabled a s) (ha : a.caller? = none) :
    Left i K n (RedisChannel.next a s) := by
  constructor
  · cases a with
    | consumer w c =>
      show (s.shared.consumer w c).callbacks.keys.toFinset.card ≤ K
      rw [Shared.callbacks_consumer]
      exact hl.keys
    | publish c payload => exact hl.keys
    | _ => exact absurd ha nofun
  · intro call hcall
    rw [callers_next_of_ne (by rw [ha]; exact nofun)] at hcall
    exact hl.call call hcall

/-- **A step of the destructor** uses up one. -/
theorem Left.next_of_caller (hs : Destroying i s) (hl : Left i K n s) (h : Enabled a s)
    (hbegins : a.begins = false) (ha : a.caller? = some i) :
    0 < n ∧ Left i K (n - 1) (RedisChannel.next a s) := by
  cases a with
  | call j op => exact absurd hbegins (by simp [Label.begins])
  | act j b choice =>
    obtain rfl : j = i := Option.some.inj ha
    obtain ⟨call, hcall, hhead⟩ := State.exists_call_of_head? h.1
    obtain ⟨hpos, hcount⟩ := hl.call call hcall
    obtain ⟨t, hobeys, -⟩ := hs.call call hcall
    have hset := (not_of_tearing (hobeys.allowed hhead)).2.2.2
    refine ⟨hpos, (Finset.card_le_card (keys_perform hset)).trans hl.keys, fun call' hcall' => ?_⟩
    obtain rfl := Option.some.inj ((callers_act hcall b choice).symm.trans hcall')
    exact ⟨hcount.allowed hhead, hcount.step hhead (fits_answer hl.keys h.2)⟩
  | ret j op outcome =>
    obtain rfl : j = i := Option.some.inj ha
    obtain ⟨call, hcall, -⟩ := State.exists_call_of_result? h
    refine ⟨(hl.call call hcall).1, hl.keys, fun call' hcall' => ?_⟩
    have hnone : (RedisChannel.next (.ret j op outcome) s).callers j = none :=
      Function.update_self ..
    exact absurd (hnone.symm.trans hcall') nofun
  | consumer w c => exact absurd ha nofun
  | publish c payload => exact absurd ha nofun

/-- **Along a run** the destructor spends what it has. -/
theorem Left.run (hs : Destroying i s) (hl : Left i K n s) {tr : List (Label Callback)}
    {s' : State Callback} (h : channel.RunBy (fun _ _ a => a.begins = false) s tr s') :
    ∃ n', Left i K n' s' ∧ tr.countP (fun a => a.caller? = some i) + n' ≤ n := by
  refine (h.induct (P := fun tr v => Destroying i v ∧ ∃ n', Left i K n' v ∧
    tr.countP (fun a => a.caller? = some i) + n' ≤ n) ⟨hs, n, hl, (Nat.zero_add n).le⟩ ?_).2
  rintro tr v a - ⟨hv, n', hleft, hle⟩ ha hbegins
  refine ⟨hv.next ha hbegins, ?_⟩
  rw [List.countP_append, List.countP_singleton]
  by_cases hcaller : a.caller? = some i
  · obtain ⟨hpos, hnext⟩ := hleft.next_of_caller hv ha hbegins hcaller
    refine ⟨n' - 1, hnext, ?_⟩
    rw [if_pos (decide_eq_true hcaller)]
    omega
  · refine ⟨n', hleft.next_of_none ha (hv.caller?_eq_none ha hbegins hcaller), ?_⟩
    rw [if_neg (by simpa using hcaller)]
    omega

/-- Once `running_` is cleared, every step of a thread brings the end nearer. -/
theorem Left.next_stopped (hs : Destroying i s) (hl : Left i K n s)
    (hrun : s.shared.running = false) (h : Enabled a s) (hbegins : a.begins = false) :
    (RedisChannel.next a s).shared.running = false ∧ ∃ n', Left i K n' (RedisChannel.next a s) ∧
      (if a.thread?.isSome then 1 else 0) + n' + (RedisChannel.next a s).shared.rank ≤
        n + s.shared.rank := by
  cases a with
  | call j op => exact absurd hbegins (by simp [Label.begins])
  | act j b choice =>
    obtain rfl := hs.caller_eq h hbegins rfl
    obtain ⟨call, hcall, hhead⟩ := State.exists_call_of_head? h.1
    obtain ⟨t, hobeys, -⟩ := hs.call call hcall
    have hallowed := hobeys.allowed hhead
    obtain ⟨hpos, hnext⟩ := hl.next_of_caller hs h hbegins rfl
    refine ⟨running_perform_tearing hallowed hrun, n - 1, hnext, ?_⟩
    have hrank : (s.shared.perform j b choice).rank ≤ s.shared.rank := rank_perform hallowed h.2
    show 1 + (n - 1) + (s.shared.perform j b choice).rank ≤ n + s.shared.rank
    omega
  | ret j op outcome =>
    obtain rfl := hs.caller_eq h hbegins rfl
    obtain ⟨hpos, hnext⟩ := hl.next_of_caller hs h hbegins rfl
    refine ⟨hrun, n - 1, hnext, ?_⟩
    show 1 + (n - 1) + s.shared.rank ≤ n + s.shared.rank
    omega
  | consumer w c =>
    have hrank : (s.shared.consumer w c).rank < s.shared.rank := rank_consumer hs.one hrun h.1
    refine ⟨?_, n, hl.next_of_none h rfl, ?_⟩
    · by_cases hstore : c = .storeRunning
      · subst hstore
        rfl
      · exact (Shared.running_consumer hstore).trans hrun
    · show 1 + n + (s.shared.consumer w c).rank ≤ n + s.shared.rank
      omega
  | publish c payload =>
    refine ⟨hrun, n, hl.next_of_none h rfl, ?_⟩
    show 0 + n + s.shared.rank ≤ n + s.shared.rank
    omega

theorem Left.run_stopped (hs : Destroying i s) (hl : Left i K n s)
    (hrun : s.shared.running = false) {tr : List (Label Callback)} {s' : State Callback}
    (h : channel.RunBy (fun _ _ a => a.begins = false) s tr s') :
    tr.countP (fun a => a.thread?.isSome) ≤ n + s.shared.rank := by
  have hspent : Destroying i s' ∧ s'.shared.running = false ∧ ∃ n', Left i K n' s' ∧
      tr.countP (fun a => a.thread?.isSome) + n' + s'.shared.rank ≤ n + s.shared.rank := by
    refine h.induct (P := fun tr v => Destroying i v ∧ v.shared.running = false ∧
      ∃ n', Left i K n' v ∧
        tr.countP (fun a => a.thread?.isSome) + n' + v.shared.rank ≤ n + s.shared.rank)
      ⟨hs, hrun, n, hl, by simp⟩ ?_
    rintro tr v a - ⟨hv, hstopped, n', hleft, hle⟩ ha hbegins
    obtain ⟨hstopped', m, hleft', hle'⟩ := hleft.next_stopped hv hstopped ha hbegins
    refine ⟨hv.next ha hbegins, hstopped', m, hleft', ?_⟩
    rw [List.countP_append, List.countP_singleton]
    show _ + _ + m + (RedisChannel.next a v).shared.rank ≤ _
    omega
  obtain ⟨-, -, n', -, hle⟩ := hspent
  omega

/-- What the destructor has to do when it begins. -/
theorem left_destroy (s : State Callback) (i : ℕ) :
    Left i s.shared.keys.card (steps s.shared.keys.card + 1) (s.destroy i) where
  keys := Nat.le_refl _
  call call hcall := by
    obtain rfl := Option.some.inj ((callers_destroy s i).symm.trans hcall)
    exact ⟨Nat.succ_pos _, destructor_counting _⟩

end Ends

/-! ## Where it can stop -/

section Stuck

variable {i w : ℕ} {s : State Callback}

/-- No thread can take a step that begins no call. -/
def State.Still (s : State Callback) : Prop :=
  ∀ a : Label Callback, a.thread?.isSome = true → a.begins = false → ¬ Enabled a s

/-- The destructor, in its loop over `callbacks_`, waits for `redis_mutex_`, and the consumer
thread, in `on_message`, for `callbacks_mutex_`. -/
def State.Hangs (s : State Callback) (i : ℕ) : Prop :=
  ∃ w, s.Waiting w ∧ s.Holds (.caller i) .callbacksMutex ∧
    s.Wants (.caller i) .redisMutex ∧ s.Holds (.consumer w) .redisMutex

/-- The consumer thread is held up by a mutex only, where there is a subscriber and no iterator
dangles. -/
theorem wants_of_still (hord : Ordered s) (hone : s.shared.OneConsumer) (huses : UsesExisting s)
    (hreads : ∀ c, ¬ s.shared.Dangling c) (hstill : s.Still) (hw : s.shared.Unfinished w) :
    ∃ pc m, s.shared.consumers[w]? = some pc ∧ pc.wants = some m ∧ s.shared.owner m ≠ none := by
  have hthread := hone w hw
  obtain ⟨pc, hpc, hunfinished⟩ := hw
  have hheld (m : Mutex) (hm : pc.held.has m = true) : s.shared.owner m = some (.consumer w) := by
    refine heldBy_has.mp ?_
    rw [hord.consumer w, hpc]
    exact hm
  have hguard (a : ConsumerAct Callback) (hsource : (consumerMove w s.shared a).source = pc) :
      ¬ (consumerMove w s.shared a).guard := fun hguard =>
    hstill (.consumer w a) rfl rfl ⟨hpc.trans (congrArg some hsource.symm), hguard⟩
  cases pc with
  | lockInstance => exact ⟨_, _, hpc, rfl, hguard .lockInstance rfl⟩
  | lockRedis => exact ⟨_, _, hpc, rfl, hguard .lockRedis rfl⟩
  | lockCallbacks m => exact ⟨_, _, hpc, rfl, hguard (.lockCallbacks m) rfl⟩
  | testRunning => exact absurd trivial (hguard .testRunning rfl)
  | unlockInstance => exact absurd (hheld .instanceMutex rfl) (hguard .unlockInstance rfl)
  | consume =>
    exact absurd ⟨huses.2 w hpc, hheld .redisMutex rfl⟩ (hguard .fail rfl)
  | find m => exact absurd trivial (hguard (.find m) rfl)
  | copy m =>
    -- the entry is still there
    have hcopy : m ∈ s.shared.toCopy :=
      Option.bind_eq_some_iff.mpr ⟨_, by rw [hthread]; exact hpc, rfl⟩
    have hfound : m.channel ∈ s.shared.callbacks := by
      by_contra hgone
      exact hreads m.channel ⟨m, hcopy, rfl, hgone⟩
    obtain ⟨cb, hcb⟩ := Option.isSome_iff_exists.mp (AList.lookup_isSome.mpr hfound)
    exact absurd hcb (hguard (.copy cb m) rfl)
  | handOver cb m => exact absurd trivial (hguard (.handOver cb m) rfl)
  | unlockCallbacks => exact absurd (hheld .callbacksMutex rfl) (hguard .unlockCallbacks rfl)
  | unlockRedis => exact absurd (hheld .redisMutex rfl) (hguard .unlockRedis rfl)
  | failed => exact absurd trivial (hguard .storeRunning rfl)
  | exited => exact absurd rfl hunfinished

/-- What holds the destructor up. -/
theorem held_of_still (hs : Destroying i s) (huses : UsesExisting s) (hstill : s.Still)
    {b : Action Callback} (hhead : s.head? i = some b) :
    (∃ m, b = .lock m ∧ s.shared.owner m ≠ none) ∨ b = .join ∧ ∃ w, s.shared.Unfinished w := by
  obtain ⟨call, hcall, hrest⟩ := State.exists_call_of_head? hhead
  obtain ⟨t, hobeys, hfits⟩ := hs.call call hcall
  have hallowed := hobeys.allowed hrest
  have himpossible (choice : Choice) : ¬ Possible i s.shared choice b := fun hposs =>
    hstill (.act i b choice) rfl rfl ⟨hhead, hposs⟩
  have hused (huse : b.usesSubscriber = true) : s.shared.subscriber.isSome = true :=
    huses.1 i b hhead huse
  cases b with
  | lock m => exact Or.inl ⟨m, rfl, fun hm => himpossible .ok ⟨rfl, hm⟩⟩
  | join =>
    refine Or.inr ⟨rfl, ?_⟩
    obtain ⟨stopped, thread⟩ := t
    obtain rfl : thread = some true := by
      rcases thread with _ | _ | _
      · exact absurd (show Action.join.ofSubscribe = false ∨ _ from hallowed)
          (by simp [Action.ofSubscribe])
      · exact hallowed.elim
      · rfl
    obtain ⟨w, hw⟩ := Option.isSome_iff_exists.mp (hfits.thread true rfl).symm
    have hlt : w < s.shared.consumers.length := hs.started w hw
    refine ⟨w, _, List.getElem?_eq_getElem hlt, fun hexited => himpossible .ok ⟨rfl, ?_⟩⟩
    rw [hw, Option.bind_some, List.getElem?_eq_getElem hlt, hexited]
  | unlock m =>
    have hm := ((hs.ordered.caller i call hcall).allowed hrest : _)
    exact absurd ⟨rfl, heldBy_has.mp hm⟩ (himpossible .ok)
  | startThread => exact absurd rfl (not_of_tearing hallowed).1
  | callbackKeys => exact absurd (List.Perm.refl _) (himpossible (.order s.shared.callbacks.keys))
  | ping => exact absurd (Or.inl rfl) (himpossible .ok)
  | connect => exact absurd (Or.inl rfl) (himpossible .ok)
  | createSubscriber g => exact absurd (Or.inl rfl) (himpossible .ok)
  | publish g c m => exact absurd (Or.inl rfl) (himpossible .ok)
  | onMessage => exact absurd ⟨hused rfl, Or.inl rfl⟩ (himpossible .ok)
  | subscribe c => exact absurd ⟨hused rfl, Or.inr rfl⟩ (himpossible .threw)
  | unsubscribe c => exact absurd ⟨hused rfl, Or.inr rfl⟩ (himpossible .threw)
  | storage g c => exact absurd trivial (himpossible (.reply .error))
  | _ => exact absurd rfl (himpossible .ok)

/-- At the join the destructor holds no mutex. -/
theorem Destroying.nothing_of_join (hs : Destroying i s) (hhead : s.head? i = some .join) :
    heldBy s.shared.owner (.caller i) = .nothing := by
  obtain ⟨call, hcall, hrest⟩ := State.exists_call_of_head? hhead
  obtain ⟨t, hobeys, -⟩ := hs.call call hcall
  have hlocks := hs.ordered.caller i call hcall
  cases hprogram : call.rest with
  | ret outcome => exact absurd (hprogram ▸ hrest) nofun
  | act b k =>
    rw [hprogram] at hrest hobeys hlocks
    obtain rfl : b = .join := Option.some.inj hrest
    -- after the join there is only the return
    have hlast : (k ()).Obeys tearing RedisChannel.torn { t with thread := some false } :=
      hobeys.2 () trivial
    have hfree := hlocks.2 () trivial
    cases hk : k () with
    | ret outcome =>
      rw [hk] at hfree
      exact hfree
    | act b' k' =>
      rw [hk] at hlast
      exact hlast.1.elim

/-- The consumer thread is held up by the destructor only. -/
theorem Destroying.wants_of_still (hs : Destroying i s) (huses : UsesExisting s)
    (hreads : ∀ c, ¬ s.shared.Dangling c) (hstill : s.Still) (hw : s.shared.Unfinished w) :
    ∃ pc m, s.shared.consumers[w]? = some pc ∧ pc.wants = some m ∧ s.Holds (.caller i) m := by
  obtain ⟨pc, m, hpc, hwants, hne⟩ :=
    RedisChannel.wants_of_still hs.ordered hs.one huses hreads hstill hw
  refine ⟨pc, m, hpc, hwants, ?_⟩
  obtain ⟨t, ht⟩ := Option.ne_none_iff_exists'.mp hne
  by_cases hcaller : t = .caller i
  · exact ht.trans (congrArg some hcaller)
  · obtain ⟨v, rfl, hv⟩ := hs.unfinished_of_owner ht hcaller
    obtain rfl : w = v := Option.some.inj ((hs.one w hw).symm.trans (hs.one v hv))
    rcases pc.rank_lt (hs.ordered.held_of_holds hpc ht) hwants with hlt | ⟨rfl, x, rfl⟩
    · exact absurd hlt (Nat.lt_irrefl _)
    · exact absurd (hs.ordered.held_of_holds hpc ht) Bool.false_ne_true

/-- **Where nothing moves** before the destructor has returned, it and the consumer thread wait
for each other. -/
theorem Destroying.hangs_of_still (hs : Destroying i s) (huses : UsesExisting s)
    (hreads : ∀ c, ¬ s.shared.Dangling c) (hstill : s.Still) {b : Action Callback}
    (hhead : s.head? i = some b) : s.Hangs i := by
  rcases held_of_still hs huses hstill hhead with ⟨m, rfl, hne⟩ | ⟨rfl, w, hw⟩
  · obtain ⟨t, ht⟩ := Option.ne_none_iff_exists'.mp hne
    have hother : t ≠ .caller i := by
      rintro rfl
      exact absurd (hs.ordered.rank_lt ht hhead) (Nat.lt_irrefl _)
    obtain ⟨w, rfl, hw⟩ := hs.unfinished_of_owner ht hother
    obtain ⟨pc, m', hpc, hwants, hm'⟩ := hs.wants_of_still huses hreads hstill hw
    have hup : m'.rank < m.rank := hs.ordered.rank_lt hm' hhead
    have hheld := hs.ordered.held_of_holds hpc ht
    rcases pc.rank_lt hheld hwants with hlt | ⟨rfl, x, rfl⟩
    · exact absurd hup hlt.asymm
    · obtain rfl : m = .redisMutex := by
        cases m with
        | redisMutex => rfl
        | _ => exact absurd hheld Bool.false_ne_true
      exact ⟨w, ⟨x, hpc⟩, hm', hhead, ht⟩
  · obtain ⟨pc, m, -, -, hm⟩ := hs.wants_of_still huses hreads hstill hw
    exact absurd hm (owner_ne_of_nothing (hs.nothing_of_join hhead) m)

/-- **The destructor comes to its end**: whatever the consumer thread does, it makes a bounded
number of steps, as the consumer thread does once `running_` is cleared; and where nothing moves
any more it has returned with the channel torn down, unless it hangs in its loop on a message
that has just come, or the subscriber has not been created, or the consumer thread's iterator
dangles. -/
theorem destructor_ends {pre tr : List (Label Callback)} {u : State Callback}
    (hu : channel.Run initial pre u) (hidle : ∀ j, u.callers j = none)
    (h : channel.RunBy (fun _ _ a => a.begins = false) (u.destroy i) tr s) :
    tr.countP (fun a => a.caller? = some i) ≤ 5 * u.shared.keys.card + 14 ∧
    (s.shared.running = false → ∀ tr' s',
      channel.RunBy (fun _ _ a => a.begins = false) s tr' s' →
        tr'.countP (fun a => a.thread?.isSome) ≤ 5 * u.shared.keys.card + 25) ∧
    (s.Still → s.callers i = none ∧ Torn s.shared ∨ s.Hangs i ∨ ¬ UsesExisting s ∨
      ∃ c, s.shared.Dangling c) := by
  have hu' := destroying_destroy hu hidle i
  have hs := hu'.run h
  obtain ⟨n, hleft, hspent⟩ := (left_destroy u i).run hu' h
  have hsteps : steps u.shared.keys.card = 5 * u.shared.keys.card + 13 := rfl
  refine ⟨by omega, fun hrun tr' s' h' => ?_, fun hstill => ?_⟩
  · have hle := hleft.run_stopped hs hrun h'
    have hrank := rank_le s.shared
    omega
  · by_cases huses : UsesExisting s
    · by_cases hreads : ∃ c, s.shared.Dangling c
      · exact Or.inr (Or.inr (Or.inr hreads))
      cases hhead : s.head? i with
      | some b =>
        exact Or.inr (Or.inl (hs.hangs_of_still huses (not_exists.mp hreads) hstill hhead))
      | none =>
        refine Or.inl ⟨?_, hs.torn hhead⟩
        -- a call that has come to its end could return
        cases hcall : s.callers i with
        | none => rfl
        | some call =>
          cases hrest : call.rest with
          | act b k =>
            rw [State.head?, hcall, Option.bind_some, hrest] at hhead
            exact absurd hhead nofun
          | ret outcome =>
            refine absurd ?_ (hstill (.ret i call.operation outcome) rfl rfl)
            show s.result? i = _
            rw [State.result?, hcall, Option.bind_some, hrest]
            rfl
    · exact Or.inr (Or.inr (Or.inl huses))

/-- The consumer thread is in `consume` when the destructor begins. -/
def consuming : State Unit := channel.after (subscribeRun 0 [97] () ++ consumeRun 0) initial

/-- A message arrives while the destructor of `consuming` is in its loop. -/
def hangRun : List (Label Unit) :=
  [.act 0 .loadRunning .ok, .act 0 (.storeRunning false) .ok, .act 0 (.lock .callbacksMutex) .ok,
    .act 0 .callbackKeys (.order [[97]]), .act 0 (.lock .instanceMutex) .ok, .publish [97] [],
    .consumer 0 (.receive ⟨0, [97], []⟩)]

set_option maxRecDepth 4000 in
theorem run_consuming : channel.Run initial (subscribeRun 0 [97] () ++ consumeRun 0) consuming :=
  TransitionSystem.run_of_legal (by decide)

theorem idle_consuming (j : ℕ) : consuming.callers j = none :=
  idle_of_callerZero run_consuming rfl (by decide) j

theorem runBy_of_legal_begins {u : State Unit} {tr : List (Label Unit)}
    (h : (channel.restrict fun _ a => a.begins = false).Legal tr u) :
    channel.RunBy (fun _ _ a => a.begins = false) u tr (channel.after tr u) :=
  TransitionSystem.runBy_of_legal (D := fun _ (a : Label Unit) => a.begins = false)
    (fun _ _ _ h => h) h

set_option maxRecDepth 4000 in
theorem run_hangRun : channel.RunBy (fun _ _ a => a.begins = false) (consuming.destroy 0) hangRun
    (channel.after hangRun (consuming.destroy 0)) :=
  runBy_of_legal_begins (by decide)

set_option maxRecDepth 4000 in
/-- Neither the destructor nor the consumer thread can move. -/
theorem still_hangRun : (channel.after hangRun (consuming.destroy 0)).Still := by
  have hs := (destroying_destroy run_consuming idle_consuming 0).run run_hangRun
  intro a hthread hbegins ha
  cases a with
  | call j op => exact absurd hbegins (by simp [Label.begins])
  | act j b choice =>
    obtain rfl := hs.caller_eq ha hbegins rfl
    obtain rfl : Action.lock .redisMutex = b := Option.some.inj ha.1
    exact absurd ha.2.2 (by decide)
  | ret j op outcome =>
    obtain rfl := hs.caller_eq ha hbegins rfl
    exact absurd ha nofun
  | consumer w c =>
    have hpc : [ConsumerPc.lockCallbacks ⟨0, [97], []⟩][w]? = some _ := ha.1
    cases w with
    | zero =>
      cases c with
      | lockCallbacks m =>
        have hfree : (channel.after hangRun (consuming.destroy 0)).shared.owner .callbacksMutex =
          none := ha.2
        exact absurd hfree (by decide)
      | _ => cases hpc
    | succ w => cases hpc
  | publish c payload => exact absurd hthread nofun

set_option maxRecDepth 4000 in
theorem destructor_ends_destroyRun :
    destroyRun.countP (fun a => a.caller? = some 0) ≤ 5 * subscribed.shared.keys.card + 14 ∧
    (destroyRun.drop 2).countP (fun a => a.thread?.isSome) ≤
      5 * subscribed.shared.keys.card + 25 ∧
    ((channel.after hangRun (consuming.destroy 0)).callers 0 = none ∧
        Torn (channel.after hangRun (consuming.destroy 0)).shared ∨
      (channel.after hangRun (consuming.destroy 0)).Hangs 0 ∨
      ¬ UsesExisting (channel.after hangRun (consuming.destroy 0)) ∨
      ∃ c, (channel.after hangRun (consuming.destroy 0)).shared.Dangling c) := by
  have hstart : channel.RunBy (fun _ _ a => a.begins = false) (subscribed.destroy 0)
      (destroyRun.take 2) _ := runBy_of_legal_begins (by decide)
  have hrest : channel.RunBy (fun _ _ a => a.begins = false)
      (channel.after (destroyRun.take 2) (subscribed.destroy 0)) (destroyRun.drop 2) _ :=
    runBy_of_legal_begins (by decide)
  obtain ⟨-, hstopped, -⟩ := destructor_ends run_subscribed idle_subscribed hstart
  exact ⟨(destructor_ends run_subscribed idle_subscribed run_destroyRun).1,
    hstopped rfl _ _ hrest,
    (destructor_ends run_consuming idle_consuming run_hangRun).2.2 still_hangRun⟩

example : (channel.after hangRun (consuming.destroy 0)).Hangs 0 := ⟨0, ⟨_, rfl⟩, rfl, rfl, rfl⟩

end Stuck

end RedisChannel
