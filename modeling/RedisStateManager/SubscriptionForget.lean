/-
# What is left of a subscription after `unsubscribe()`

A call of `unsubscribe()` that returns with `callbacks_` empty, no iterator dangling and
no copy of a callback on its way is the end of every subscription: whatever follows, a
channel for which `subscribe` is not called again is neither subscribed at Redis nor
delivered to (`Forgets`).  With no copy on its way at the return, the call forgets
everything if and only if it finds `running_` set, or no key but `""`, and leaves no
iterator to be read (`forgets_iff`).
-/
import RedisStateManager.ChannelForget
import RedisStateManager.SubscriptionEnd

namespace Subscription

open Redis (Bytes)
open StateManager (JsonLibrary StateObj)

variable {T : Type} {lib : JsonLibrary} {cls : StateObj T} {up down : UInt32 → UInt32 → Bool}
  {pre tr : List (Label T)} {s u : State T}

/-- The calls of a run come one after the other, with any failures. -/
def InSequence (tr : List (Label T)) : Prop :=
  ∃ c, RedisChannel.channel.RunBy RedisChannel.InSequence RedisChannel.initial (channelPart tr) c

/-- A step that subscribes to channel `c` at Redis, hands over one of its messages, or
begins the invocation of one of its callbacks. -/
def Label.Serves (c : Bytes) (a : Label T) : Prop :=
  (∃ j choice, a = .channel (.act j (.subscribe c) choice)) ∨
  (∃ w m f, a = .dispatch w m f ∧ m.channel = c) ∨
  ∃ e, a.Begins e ∧ e.work.task.channel = c

variable (lib cls) in
/-- **Everything is forgotten**: `callbacks_` is empty, with no iterator into it left to
be read, and whatever follows, no step serves a channel for which `subscribe` is not
called again. -/
def Forgets (s : State T) : Prop :=
  s.channel.shared.callbacks = ∅ ∧ (∀ c, ¬ s.channel.shared.Dangling c) ∧
    ∀ tr s' c, (system lib cls).Run s tr s' →
      (∀ i f r v, Label.subscribe i f r v ∈ tr → f.channel ≠ c) → ∀ a ∈ tr, ¬ a.Serves c

/-- **An empty map forgets**, if no call is in progress and no copy is on its way. -/
theorem forgets_of_empty (h : (system lib cls).Run (initial T up down) pre s)
    (hempty : s.channel.shared.callbacks = ∅) (hdangling : ∀ c, ¬ s.channel.shared.Dangling c)
    (hidle : ∀ i, s.channel.callers i = none) (hnone : ∀ f, ¬ Carried lib cls s f) :
    Forgets lib cls s := by
  refine ⟨hempty, hdangling, fun tr s' c hr hcall a ha hserves => ?_⟩
  obtain ⟨mid, post, rfl⟩ := List.append_of_mem ha
  obtain ⟨u, hmid, ha, -⟩ := hr.split_cons
  -- up to this step the channel has not been brought back
  obtain ⟨hforgotten, hrevives⟩ : RedisChannel.Forgotten c u.channel ∧
      ∀ b ∈ channelPart mid, ¬ b.Revives c := by
    refine (RedisChannel.forgotten_of_empty hempty hidle).run (channelPart_run hmid) ?_
    intro j f hmem
    obtain ⟨b, hb, hpart⟩ := List.mem_filterMap.mp hmem
    obtain ⟨v, hready⟩ := ready_of_mem hmid hb
    obtain ⟨hchannel, r, v, rfl⟩ := eq_subscribe_of_call hready hpart
    exact hcall j f r v (List.mem_append_left _ hb) hchannel
  rcases hserves with ⟨j, choice, rfl⟩ | ⟨w, m, f, rfl, rfl⟩ | ⟨e, hbegins, rfl⟩
  · exact hforgotten.not_revives (ha.1 _ rfl) ⟨j, choice, Or.inl rfl⟩
  · have hlookup : u.channel.shared.callbacks.lookup m.channel = some f := (ha.1 _ rfl).2
    exact hforgotten.1 (AList.lookup_isSome.mp (Option.isSome_of_eq_some hlookup))
  · have habsent : Absent lib cls s e.work.task := by
      refine ⟨?_, hnone _⟩
      rw [hempty]
      exact nofun
    have hend := habsent.run h hmid fun j hj =>
      hrevives _ hj ⟨j, .ok, Or.inr ⟨e.work.task, rfl⟩⟩
    exact hend.carried (carried_of_begins (h.append hmid) ha hbegins)

/-- The calls of the channel, up to a state on the way and from there. -/
theorem InSequence.split {tr' : List (Label T)} (h : InSequence (tr ++ tr'))
    (hu : (system lib cls).Run (initial T up down) tr u) (hs : (system lib cls).Run u tr' s) :
    RedisChannel.channel.RunBy RedisChannel.InSequence RedisChannel.initial (channelPart tr)
        u.channel ∧
      RedisChannel.channel.RunBy RedisChannel.InSequence u.channel (channelPart tr') s.channel := by
  obtain ⟨c, hc⟩ := h
  rw [channelPart, List.filterMap_append] at hc
  obtain ⟨v, hbefore, hafter⟩ := hc.split
  obtain rfl := hbefore.run.unique (channel_run hu)
  obtain rfl := hafter.run.unique (channelPart_run hs)
  exact ⟨hbefore, hafter⟩

/-- A return of the channel is one of the whole. -/
theorem mem_of_ret {i : ℕ} {op : RedisChannel.Operation Wrapped} {outcome : RedisChannel.Outcome}
    (h : .ret i op outcome ∈ channelPart tr) : Label.channel (.ret i op outcome) ∈ tr := by
  obtain ⟨a, ha, hpart⟩ := List.mem_filterMap.mp h
  cases a with
  | channel b =>
    cases hpart
    exact ha
  | _ => cases hpart

/-- Nothing is about to be copied, so no iterator dangles; over an empty map, only so. -/
theorem toCopy_eq_none_iff (hempty : s.channel.shared.callbacks = ∅) :
    s.channel.shared.toCopy = none ↔ ∀ c, ¬ s.channel.shared.Dangling c := by
  constructor
  · rintro hcopy c ⟨m, hm, -, -⟩
    rw [hcopy] at hm
    exact Option.not_mem_none m hm
  · intro hdangling
    refine Option.eq_none_iff_forall_not_mem.mpr fun m hm => hdangling m.channel ⟨m, hm, rfl, ?_⟩
    rw [hempty]
    exact AList.notMem_empty _

/-- **`unsubscribe()` forgets everything**, when it returns with no copy on its way, if and
only if it finds `running_` set or there is nothing to forget but the key `""`, and the
consumer thread is not about to copy a callback that it has found. -/
theorem forgets_iff {i : ℕ} {outcome : RedisChannel.Outcome}
    (hpre : (system lib cls).Run (initial T up down) pre u)
    (hcall : u.channel.callers i =
      some ⟨.unsubscribe [], (RedisChannel.Operation.unsubscribe []).procedure⟩)
    (hrun : (system lib cls).Run u (.channel (.act i .loadRunning .ok) :: tr) s)
    (hseq : InSequence (pre ++ .channel (.act i .loadRunning .ok) :: tr))
    (hret : ∀ outcome, Label.channel (.ret i (.unsubscribe []) outcome) ∉ tr)
    (hend : s.channel.result? i = some (.unsubscribe [], outcome))
    (hnone : ∀ f, ¬ Carried lib cls s f) :
    Forgets lib cls ((system lib cls).next (.channel (.ret i (.unsubscribe []) outcome)) s) ↔
      (u.channel.shared.running = true ∨ ∀ c ∈ u.channel.shared.keys, c = []) ∧
        s.channel.shared.toCopy = none := by
  obtain ⟨hbefore, hafter⟩ := hseq.split hpre hrun
  have hnoRet : ∀ outcome, RedisChannel.Label.ret i (.unsubscribe []) outcome ∉ channelPart tr :=
    fun outcome hmem => hret outcome (mem_of_ret hmem)
  have hempty := RedisChannel.empty_iff hbefore hcall hafter hnoRet hend
  obtain ⟨hothers, -⟩ := RedisChannel.leaves_of_unsubscribe hbefore hcall hafter hnoRet hend
  have henabled : (system lib cls).Enabled (.channel (.ret i (.unsubscribe []) outcome)) s :=
    ⟨TransitionSystem.enabledOn_some.mpr hend, TransitionSystem.enabledOn_none, trivial⟩
  rw [← hempty]
  constructor
  · rintro ⟨hcallbacks, hdangling, -⟩
    have hcallbacks : s.channel.shared.callbacks = ∅ := hcallbacks
    exact ⟨hcallbacks, (toCopy_eq_none_iff hcallbacks).mpr hdangling⟩
  · rintro ⟨hcallbacks, hcopy⟩
    refine forgets_of_empty ((hpre.append hrun).snoc henabled) hcallbacks
      ((toCopy_eq_none_iff hcallbacks).mp hcopy) ?_ ?_
    · intro j
      by_cases hj : j = i
      · rw [hj]
        exact Function.update_self ..
      · exact (Function.update_of_ne hj _ _).trans (hothers j hj)
    · intro f hf
      rcases carried_next (hpre.append hrun) henabled hf with hold | ⟨w, m, heq⟩
      · exact hnone f hold
      · cases heq

/-! ## Runs spelt out -/

/-- Channel `"a"` is subscribed, the connection of the consumer thread breaks, and
`unsubscribe()` is called. -/
def leftoverRun : List (Label ℕ) :=
  subscribeRun closure 5 ++ (RedisChannel.consumeRun 0).map .channel ++
    [.channel (.consumer 0 .fail), .channel (.consumer 0 .storeRunning),
      .channel (.call 0 (.unsubscribe []))]

/-- The channel is not running, and there is no key `""`. -/
def notFoundRun : List (Label ℕ) :=
  [.channel (.act 0 .loadRunning .ok), .channel (.act 0 (.findCallback []) .ok),
    .channel (.act 0 .callbacksEmpty .ok)]

theorem inSequence_of_legal {tr : List (Label T)}
    (h : (RedisChannel.channel.restrict (RedisChannel.SingleCaller fun _ _ _ _ => True)).Legal
      (channelPart tr) RedisChannel.initial) : InSequence tr :=
  ⟨_, (RedisChannel.sequenced_of_singleCaller h).1⟩

set_option maxRecDepth 10000 in
/-- **A callback is left over** after a connection error. -/
theorem not_forgets_leftoverRun : ¬ ∀ (i : ℕ) (pre tr : List (Label ℕ)) (u s : State ℕ)
    (outcome : RedisChannel.Outcome),
    (system nullLibrary counter).Run (initial ℕ scaleUp scaleDown) pre u →
    u.channel.callers i =
      some ⟨.unsubscribe [], (RedisChannel.Operation.unsubscribe []).procedure⟩ →
    (system nullLibrary counter).Run u (.channel (.act i .loadRunning .ok) :: tr) s →
    InSequence (pre ++ .channel (.act i .loadRunning .ok) :: tr) →
    (∀ outcome, Label.channel (.ret i (.unsubscribe []) outcome) ∉ tr) →
    s.channel.result? i = some (.unsubscribe [], outcome) →
      Forgets nullLibrary counter
        ((system nullLibrary counter).next (.channel (.ret i (.unsubscribe []) outcome)) s) := by
  intro hall
  have hpre : (system nullLibrary counter).Legal leftoverRun (initial ℕ scaleUp scaleDown) := by
    decide +kernel
  have htr : (system nullLibrary counter).Legal notFoundRun
      ((system nullLibrary counter).after leftoverRun (initial ℕ scaleUp scaleDown)) := by
    decide +kernel
  have hforgets := hall 0 leftoverRun _ _ _ RedisChannel.done (TransitionSystem.run_of_legal hpre)
    rfl (TransitionSystem.run_of_legal htr) (inSequence_of_legal (by decide +kernel)) (by simp)
    (by decide +kernel)
  have hkeys := congrArg AList.keys hforgets.1
  exact absurd hkeys (by decide +kernel)

/-- A subscription, and the call of `unsubscribe()`. -/
def subscribedRun : List (Label ℕ) :=
  subscribeRun closure 5 ++ [.channel (.call 0 (.unsubscribe []))]

/-- `unsubscribe()` while the channel is running. -/
def clearedRun : List (Label ℕ) :=
  [.channel (.act 0 .loadRunning .ok), .channel (.act 0 (.storeRunning false) .ok),
    .channel (.act 0 (.lock .callbacksMutex) .ok),
    .channel (.act 0 .callbackKeys (.order [[97]]))] ++
  (RedisChannel.lockedRun 0 (.unsubscribe [97]) .ok).map .channel ++
  [.channel (.act 0 (.unlock .callbacksMutex) .ok), .channel (.act 0 .clearCallbacks .ok)]

set_option maxRecDepth 10000 in
theorem forgets_iff_clearedRun :
    Forgets nullLibrary counter
      ((system nullLibrary counter).next (.channel (.ret 0 (.unsubscribe []) RedisChannel.done))
        ((system nullLibrary counter).after clearedRun
          ((system nullLibrary counter).after subscribedRun (initial ℕ scaleUp scaleDown)))) := by
  have hpre : (system nullLibrary counter).Legal subscribedRun (initial ℕ scaleUp scaleDown) := by
    decide +kernel
  have htr : (system nullLibrary counter).Legal clearedRun
      ((system nullLibrary counter).after subscribedRun (initial ℕ scaleUp scaleDown)) := by
    decide +kernel
  have hrun := TransitionSystem.run_of_legal hpre
  have hrun' := TransitionSystem.run_of_legal htr
  have hquiet : Quiet ((system nullLibrary counter).after clearedRun
      ((system nullLibrary counter).after subscribedRun (initial ℕ scaleUp scaleDown))) := by
    decide +kernel
  exact (forgets_iff hrun rfl hrun' (inSequence_of_legal (by decide +kernel))
    (by simp [RedisChannel.lockedRun]) (by decide +kernel) fun f =>
      hquiet.not_carried (hrun.append hrun')).mpr ⟨Or.inl (by decide +kernel), by decide +kernel⟩

end Subscription
