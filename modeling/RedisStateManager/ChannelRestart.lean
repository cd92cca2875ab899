/-
# Joining the old consumer thread

The request to stop the old consumer thread and the start of the new one share the
flag `running_`: a call of `subscribe` sets it before it joins the old thread, which
then has no reason to leave its loop.  If `running_` is claimed only when every
consumer thread has left its loop, `join` returns at once (`waitsForNobody`).
-/
import RedisStateManager.ChannelCalls

namespace RedisChannel

open Redis Program

variable {Callback : Type}

/-- **No call waits for a thread that keeps running**: a thread that is being
joined has left its loop, or finds `running_` cleared at its next test. -/
def WaitsForNobody (s : State Callback) : Prop :=
  ∀ i w, s.head? i = some .join → s.shared.subscriptionThread = some w →
    ¬ s.shared.Alive w ∨ s.shared.running = false

/-- **The calls that claim `running_` in time**: it is set from cleared only when
every consumer thread has left its loop. -/
def ClaimsInTime (_ : ℕ) (s : Shared Callback) : Action Callback → Choice → Prop
  | .compareExchange, _ => s.running = false → ∀ pc ∈ s.consumers, pc.looping = false
  | _, _ => True

instance (i : ℕ) (s : Shared Callback) :
    ∀ (a : Action Callback) (choice : Choice), Decidable (ClaimsInTime i s a choice)
  | .compareExchange, _ =>
    inferInstanceAs (Decidable (s.running = false → ∀ pc ∈ s.consumers, pc.looping = false))
  | .lock _, _ | .unlock _, _ | .loadRunning, _ | .storeRunning _, _ | .setCallback .., _
  | .findCallback _, _ | .eraseCallback _, _ | .clearCallbacks, _ | .callbacksEmpty, _
  | .callbackKeys, _ | .ping, _ | .connect, _ | .redis, _ | .createSubscriber _, _
  | .onMessage, _ | .resetSubscriber, _ | .subscribe _, _ | .unsubscribe _, _ | .publish .., _
  | .joinable, _ | .join, _ | .startThread, _ | .storage .., _ => isTrue trivial

/-- No consumer thread is in its loop. -/
def Shared.Deserted (s : Shared Callback) : Prop := ∀ w, ¬ s.Alive w

namespace Shared

variable {s : Shared Callback}

theorem deserted_of_left (h : ∀ pc ∈ s.consumers, pc.looping = false) : s.Deserted := by
  rintro w ⟨pc, hpc, hloop⟩
  exact absurd (hloop.symm.trans (h pc (List.mem_of_getElem? hpc))) nofun

/-- Only a start brings a thread into its loop. -/
theorem Deserted.perform (hs : s.Deserted) {i : ℕ} {a : Action Callback} (choice : Choice)
    (ha : a ≠ .startThread) : (s.perform i a choice).Deserted := by
  rintro w ⟨pc, hpc, hne⟩
  refine hs w ⟨pc, ?_, hne⟩
  by_cases hjoin : a = .join
  · subst hjoin
    unfold Shared.perform at hpc
    split at hpc <;> exact hpc
  · rwa [(s.threads_perform (i := i) choice hjoin ha).1] at hpc

end Shared

/-- The call that has claimed `running_` is alone. -/
def ClaimedAlone (_ : ℕ) (claimed : Bool) (s : State Callback) : Prop :=
  claimed = true → s.shared.Deserted

/-- **Along a sequence of calls** that claim `running_` in time, no consumer thread
is in its loop while a call is about to start one. -/
theorem claimedAlone {tr : List (Label Callback)} {s : State Callback}
    (h : channel.RunBy (Sequenced ClaimsInTime) initial tr s) :
    Tracks claiming (fun _ _ _ => True) ClaimedAlone s := by
  refine h.induct (P := fun _ s => Tracks claiming (fun _ _ _ => True) ClaimedAlone s)
    (fun _ _ hnone => by cases hnone) fun tr s a hr hs ha hC => ?_
  refine hs.next ha ?_ ?_ ?_
  · rintro i op rfl
    exact ⟨false, op.claiming fun _ => trivial, nofun⟩
  · rintro i b choice claimed rfl hI hallowed hpossible
    refine ⟨trivial, fun hclaimed => ?_⟩
    cases b with
    | compareExchange =>
      have hcleared : s.shared.running = false := by
        rw [← Bool.not_eq_true']
        exact hclaimed
      exact (Shared.deserted_of_left (hC hcleared)).perform choice nofun
    | startThread => exact absurd hclaimed Bool.false_ne_true
    | createSubscriber g => exact (hI (Bool.and_eq_true_iff.mp hclaimed).1).perform choice nofun
    | onMessage => exact (hI (Bool.and_eq_true_iff.mp hclaimed).1).perform choice nofun
    | subscribe c => exact (hI (Bool.and_eq_true_iff.mp hclaimed).1).perform choice nofun
    | _ => exact (hI hclaimed).perform choice nofun
  · -- the other calls have ended
    intro i claimed call hcall hcaller hI hclaimed w hw
    refine hI hclaimed w ?_
    rcases hsome : a.caller? with _ | j
    · cases a with
      | consumer v c => exact Shared.alive_of_alive_consumer ha.1 hw
      | publish c payload => exact hw
      | _ => exact absurd hsome nofun
    · have hj : j ≠ i := fun heq => hcaller (heq ▸ hsome)
      obtain ⟨op, rfl⟩ := not_enabled_of_idle (alone hr hcall j hj) hsome ha
      exact absurd ((hC.1 i).symm.trans hcall) nofun

/-- **Re-subscribing never waits for a consumer that keeps running**, in every
state of a sequence of calls that claim `running_` in time. -/
theorem waitsForNobody {tr : List (Label Callback)} {s : State Callback}
    (h : channel.RunBy (Sequenced ClaimsInTime) initial tr s) : WaitsForNobody s := by
  intro i w hjoin _
  obtain ⟨claimed, hallowed, hI⟩ := (claimedAlone h).allowed hjoin
  exact Or.inl (hI hallowed w)

/-! ## A thread that is joined while it runs -/

/-- `unsubscribe` of the only channel. -/
def unsubscribeLastRun (i : ℕ) (c : Bytes) : List (Label Callback) :=
  [.call i (.unsubscribe c), .act i (.findCallback c) .ok, .act i .loadRunning .ok] ++
  lockedRun i (.unsubscribe c) .ok ++
  [.act i (.eraseCallback c) .ok, .act i .callbacksEmpty .ok, .act i (.storeRunning false) .ok,
    .ret i (.unsubscribe c) done]

/-- The next `subscribe`, up to `join`. -/
def rejoinRun (i : ℕ) (c : Bytes) (cb : Callback) : List (Label Callback) :=
  startRun i c cb ++ lockedRun i (.subscribe c) .ok ++
  [.act i (.unlock .callbacksMutex) .ok, .act i .joinable .ok]

/-- The consumer thread tests `running_` before `unsubscribe` clears it, and again
after the next `subscribe` has set it. -/
def missedStopRun : List (Label Unit) :=
  subscribeRun 0 [97] () ++ [.consumer 0 .testRunning] ++ unsubscribeLastRun 0 [97] ++
  rejoinRun 0 [98] ()

set_option maxRecDepth 8000 in
/-- **A join without end**: the old thread does not see `running_` cleared. -/
theorem waits_missedStopRun : ¬ ∀ (tr : List (Label Unit)) (s : State Unit),
    channel.RunBy (Sequenced fun _ _ _ _ => True) initial tr s → WaitsForNobody s := by
  intro hall
  have hlegal : (channel.restrict (SingleCaller fun _ _ _ _ => True)).Legal missedStopRun
      initial := by decide
  have halive : (channel.after missedStopRun initial).shared.Alive 0 :=
    ⟨.lockInstance, by decide, rfl⟩
  rcases hall _ _ (sequenced_of_singleCaller hlegal).1 0 0 (by decide) (by decide) with hdead | hrun
  · exact hdead halive
  · exact absurd hrun (by decide)

set_option maxRecDepth 8000 in
/-- The consumer thread has seen the request to stop. -/
theorem waitsForNobody_rejoinRun : WaitsForNobody (channel.after (subscribeRun 0 [97] () ++
    unsubscribeLastRun 0 [97] ++ [.consumer 0 .testRunning] ++ rejoinRun 0 [98] ())
      initial) := by
  have hlegal : (channel.restrict (SingleCaller ClaimsInTime)).Legal (subscribeRun 0 [97] () ++
      unsubscribeLastRun 0 [97] ++ [.consumer 0 .testRunning] ++ rejoinRun 0 [98] ())
      initial := by decide
  exact waitsForNobody (sequenced_of_singleCaller hlegal).1

end RedisChannel
