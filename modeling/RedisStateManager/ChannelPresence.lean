/-
# The subscriber is used before it exists

A thread tests `running_`, or reads the keys of `callbacks_`, and then goes through
the mutexes to a command on `subscriber_`; nothing it tests says that there is a
subscriber.  A thread on this way is `committed`.  If threads set out only while
`subscriber_` exists, and it is not reset while one is on its way, every command
finds it (`usesExisting`).
-/
import RedisStateManager.ChannelState

namespace RedisChannel

open Redis Program

variable {Callback : Type} {α : Type}

/-! ## On the way to a command -/

/-- A command on `*subscriber_`. -/
def Action.usesSubscriber : Action Callback → Bool
  | .onMessage | .subscribe _ | .unsubscribe _ => true
  | _ => false

/-- Nothing but mutexes stands between the program and a command on `*subscriber_`. -/
def usesNext : Procedure Callback α → Bool
  | .ret _ => false
  | .act (.lock _) k | .act (.unlock _) k => usesNext (k ())
  | .act a _ => a.usesSubscriber

theorem usesNext_of_head {p : Procedure Callback α} {a : Action Callback}
    (ha : p.head? = some a) (huses : a.usesSubscriber = true) : usesNext p = true := by
  cases p with
  | ret x => exact absurd ha nofun
  | act b k =>
    obtain rfl : b = a := Option.some.inj ha
    cases b with
    | onMessage => rfl
    | subscribe c => rfl
    | unsubscribe c => rfl
    | _ => exact absurd huses (by simp [Action.usesSubscriber])

/-- The consumer thread has found `running_` set and has not called `consume` yet. -/
def ConsumerPc.usesNext : ConsumerPc Callback → Bool
  | .lockInstance | .lockRedis | .unlockInstance | .consume => true
  | _ => false

/-- The thread is on its way to a command on `*subscriber_`. -/
def State.committed (s : State Callback) : Thread → Bool
  | .caller i => (s.callers i).any fun call => usesNext call.rest
  | .consumer w => (s.shared.consumers[w]?).any ConsumerPc.usesNext

/-- The thread that takes a step. -/
def Label.thread? : Label Callback → Option Thread
  | .call i _ | .act i _ _ | .ret i _ _ => some (.caller i)
  | .consumer w _ => some (.consumer w)
  | .publish _ _ => none

/-- Nobody sets out for another thread. -/
theorem committed_of_next {a : Label Callback} {s : State Callback} {t : Thread}
    (ha : a.thread? ≠ some t) (h : (next a s).committed t = true) : s.committed t = true := by
  cases t with
  | caller i =>
    have hcaller : a.caller? ≠ some i := by
      cases a with
      | consumer w b => simp [Label.caller?]
      | publish c payload => simp [Label.caller?]
      | _ => exact fun heq => ha (congrArg _ (congrArg _ (Option.some.inj heq)))
    have hany : ((next a s).callers i).any (fun call => usesNext call.rest) = true := h
    rwa [callers_next_of_ne hcaller] at hany
  | consumer w =>
    cases a with
    | consumer v b =>
      have hvw : v ≠ w := fun heq => ha (congrArg _ (congrArg _ heq))
      have hcons : (s.shared.consumer v b).consumers[w]? = s.shared.consumers[w]? :=
        List.getElem?_set_ne hvw
      have hany : ((s.shared.consumer v b).consumers[w]?).any ConsumerPc.usesNext = true := h
      rwa [hcons] at hany
    | act i b choice =>
      have hany : ((s.shared.perform i b choice).consumers[w]?).any ConsumerPc.usesNext = true := h
      show (s.shared.consumers[w]?).any ConsumerPc.usesNext = true
      by_cases hchoice : choice = .threw
      · rwa [Shared.perform, if_pos hchoice] at hany
      rw [Shared.perform, if_neg hchoice] at hany
      cases b with
      | startThread =>
        -- the new thread has not tested `running_` yet
        have hnew : ((s.shared.consumers ++ [.testRunning])[w]?).any ConsumerPc.usesNext = true :=
          hany
        rw [List.getElem?_append] at hnew
        split at hnew
        · exact hnew
        · rw [List.getElem?_singleton] at hnew
          split at hnew <;> cases hnew
      | _ => exact hany
    | _ => exact h

/-! ## When the subscriber is there -/

namespace Shared

variable {s : Shared Callback}

/-- Only `subscriber_.reset()` takes the subscriber away. -/
theorem isSome_subscriber_perform (h : s.subscriber.isSome = true) {i : ℕ} {a : Action Callback}
    (choice : Choice) (ha : a ≠ .resetSubscriber) :
    (s.perform i a choice).subscriber.isSome = true := by
  unfold perform
  split
  · exact h
  · cases a with
    | resetSubscriber => exact absurd rfl ha
    | createSubscriber g => rfl
    | subscribe c => exact Option.isSome_map.trans h
    | unsubscribe c => exact Option.isSome_map.trans h
    | publish g c payload => exact Option.isSome_map.trans h
    | _ => exact h

theorem isSome_subscriber_consumer (h : s.subscriber.isSome = true) (w : ℕ)
    (a : ConsumerAct Callback) :
    (s.consumer w a).subscriber.isSome = true := by
  cases a with
  | receive m => exact Option.isSome_map.trans h
  | fail => exact Option.isSome_map.trans h
  | _ => exact h

end Shared

/-- **The steps that look first**: a thread sets out for a command on
`*subscriber_` only if there is a subscriber, and it is not reset while a thread is
on its way. -/
def LooksFirst (s : State Callback) (a : Label Callback) : Prop :=
  (∀ t, a.thread? = some t → s.committed t = false → (next a s).committed t = true →
    (next a s).shared.subscriber.isSome = true) ∧
  ∀ i choice, a = .act i .resetSubscriber choice → ∀ t, s.committed t = false

/-- Whoever is on the way will find the subscriber. -/
theorem isSome_of_committed {tr : List (Label Callback)} {s : State Callback}
    (h : channel.RunBy (fun _ => LooksFirst) initial tr s) :
    ∀ t, s.committed t = true → s.shared.subscriber.isSome = true := by
  refine h.induct (P := fun _ s => ∀ t, s.committed t = true →
    s.shared.subscriber.isSome = true) ?_ fun tr s a hr hs ha hC t ht => ?_
  · rintro (i | w) ht <;> exact absurd ht nofun
  by_cases hbefore : s.committed t = true
  · -- it was on its way already, so the step is no reset
    cases a with
    | act i b choice =>
      refine Shared.isSome_subscriber_perform (hs t hbefore) choice ?_
      rintro rfl
      exact absurd (hbefore.symm.trans (hC.2 i choice rfl t)) nofun
    | consumer w b => exact Shared.isSome_subscriber_consumer (hs t hbefore) w b
    | publish c payload => exact Option.isSome_map.trans (hs t hbefore)
    | _ => exact hs t hbefore
  · by_cases hthread : a.thread? = some t
    · exact hC.1 t hthread (by simpa using hbefore) ht
    · exact absurd (committed_of_next hthread ht) hbefore

/-- **Every command finds the subscriber**: `subscribe`, `unsubscribe` and
`on_message` of a call that is about to issue them, and `consume`. -/
def UsesExisting (s : State Callback) : Prop :=
  (∀ i a, s.head? i = some a → a.usesSubscriber = true → s.shared.subscriber.isSome = true) ∧
  ∀ w : ℕ, s.shared.consumers[w]? = some .consume → s.shared.subscriber.isSome = true

theorem usesExisting {tr : List (Label Callback)} {s : State Callback}
    (h : channel.RunBy (fun _ => LooksFirst) initial tr s) : UsesExisting s := by
  refine ⟨fun i a hhead huses => isSome_of_committed h (.caller i) ?_,
    fun w hw => isSome_of_committed h (.consumer w) ?_⟩
  · obtain ⟨call, hcall, ha⟩ := State.exists_call_of_head? hhead
    show ((s.callers i).any fun call => usesNext call.rest) = true
    rw [hcall]
    exact usesNext_of_head ha huses
  · show (s.shared.consumers[w]?).any ConsumerPc.usesNext = true
    rw [hw]
    rfl

/-! ## A subscriber that does not exist yet -/

/-- Caller `0` has set `running_` and not created the subscriber; caller `1` finds
the channel running. -/
def fastPathRun : List (Label Unit) :=
  [.call 0 (.subscribe [97] ()), .act 0 (.lock .callbacksMutex) .ok,
    .act 0 (.setCallback [97] ()) .ok, .act 0 (.unlock .callbacksMutex) .ok,
    .act 0 .loadRunning .ok, .act 0 .compareExchange .ok,
    .call 1 (.subscribe [98] ()), .act 1 (.lock .callbacksMutex) .ok,
    .act 1 (.setCallback [98] ()) .ok, .act 1 (.unlock .callbacksMutex) .ok,
    .act 1 .loadRunning .ok, .act 1 .loadRunning .ok, .act 1 (.lock .instanceMutex) .ok,
    .act 1 (.lock .redisMutex) .ok,
    .act 1 (.unlock .instanceMutex) .ok]

/-- **A null `subscriber_`** on the fast path of `subscribe`. -/
theorem not_usesExisting_fastPathRun : ¬ ∀ (tr : List (Label Unit)) (s : State Unit),
    channel.Run initial tr s → UsesExisting s := by
  intro hall
  have hlegal : channel.Legal fastPathRun (initial : State Unit) := by decide
  have huses := (hall _ _ (TransitionSystem.run_of_legal hlegal)).1 1 (.subscribe [98])
    (by decide) rfl
  exact absurd huses (by decide)

/-- The part of `LooksFirst` that evaluates, for steps that reset nothing. -/
def LooksFirstHere (s : State Unit) (a : Label Unit) : Prop :=
  (a.thread?.all fun t => s.committed t || !(next a s).committed t ||
    (next a s).shared.subscriber.isSome) = true ∧
  (match a with
    | .act _ .resetSubscriber _ => false
    | _ => true) = true

instance (s : State Unit) (a : Label Unit) : Decidable (LooksFirstHere s a) :=
  inferInstanceAs (Decidable (_ ∧ _))

set_option maxRecDepth 8000 in
/-- The first `subscribe`, its consumer thread up to `consume`, and a second
`subscribe` up to its command. -/
theorem usesExisting_secondSubscribe : UsesExisting (channel.after (subscribeRun 0 [97] () ++
    consumeRun 0 ++ [.consumer 0 .timeout, .consumer 0 .unlockRedis,
      .call 1 (.subscribe [98] ()), .act 1 (.lock .callbacksMutex) .ok,
      .act 1 (.setCallback [98] ()) .ok, .act 1 (.unlock .callbacksMutex) .ok,
      .act 1 .loadRunning .ok, .act 1 .loadRunning .ok, .act 1 (.lock .instanceMutex) .ok,
      .act 1 (.lock .redisMutex) .ok, .act 1 (.unlock .instanceMutex) .ok]) initial) := by
  refine usesExisting (TransitionSystem.runBy_of_legal (D := LooksFirstHere) ?_ (by decide))
  rintro - s a ⟨hthread, hreset⟩
  refine ⟨fun t ht hbefore hafter => ?_, ?_⟩
  · rw [ht] at hthread
    simpa [hbefore, hafter] using hthread
  · rintro i choice rfl
    exact absurd hreset nofun

end RedisChannel
