/-
# Where callbacks come from, and where they end

A callback in `callbacks_` is one that a call of `subscribe` for its channel was given
(`given_of_lookup`).  A call of `unsubscribe` that returns has seen its channel
removed, by itself or by somebody before it (`removed_of_unsubscribe`).
-/
import Mathlib.Data.List.DropRight
import RedisStateManager.ChannelCalls

namespace RedisChannel

open Redis Program

variable {Callback : Type} {s : State Callback} {a : Label Callback}

/-! ## The callback map -/

namespace Shared

variable {s : Shared Callback} {c : Bytes}

/-- Only `callbacks_[c] = cb` brings a callback into the map. -/
theorem lookup_perform {i : ℕ} {a : Action Callback} {choice : Choice} {cb : Callback}
    (h : (s.perform i a choice).callbacks.lookup c = some cb) :
    s.callbacks.lookup c = some cb ∨ a = .setCallback c cb := by
  unfold perform at h
  split at h
  · exact Or.inl h
  · cases a with
    | setCallback c' cb' =>
      have hinsert : (s.callbacks.insert c' cb').lookup c = some cb := h
      by_cases hc : c = c'
      · subst hc
        rw [AList.lookup_insert] at hinsert
        cases hinsert
        exact Or.inr rfl
      · rw [AList.lookup_insert_ne hc] at hinsert
        exact Or.inl hinsert
    | eraseCallback c' =>
      have herase : (s.callbacks.erase c').lookup c = some cb := h
      by_cases hc : c = c'
      · subst hc
        rw [AList.lookup_erase] at herase
        exact absurd herase nofun
      · rw [AList.lookup_erase_ne hc] at herase
        exact Or.inl herase
    | clearCallbacks => exact absurd h nofun
    | _ => exact Or.inl h

end Shared

/-! ## Where a callback comes from -/

/-- A callback was in the map before a step, or the step stored it. -/
theorem lookup_next (h : Enabled a s) {c : Bytes} {cb : Callback}
    (hcb : (next a s).shared.callbacks.lookup c = some cb) :
    s.shared.callbacks.lookup c = some cb ∨ ∃ j, a = .act j (.setCallback c cb) .ok := by
  cases a with
  | act j b choice =>
    refine (Shared.lookup_perform hcb).imp_right ?_
    rintro rfl
    obtain rfl : choice = .ok := h.2
    exact ⟨j, rfl⟩
  | consumer w b =>
    refine Or.inl ?_
    rw [← Shared.callbacks_consumer (s := s.shared) w b]
    exact hcb
  | _ => exact Or.inl hcb

/-- A call stores its own callback. -/
def StoresOwn (call : Call Callback) : Prop :=
  call.rest.Obeys (keeping (fun c cb => call.operation = .subscribe c cb) fun _ => True)
    (fun _ _ => True) ()

theorem storesOwn {tr : List (Label Callback)} (h : channel.Run initial tr s) {i : ℕ}
    {call : Call Callback} (hcall : s.callers i = some call) :
    StoresOwn call ∧ Label.call i call.operation ∈ tr := by
  revert i call
  refine h.induct (P := fun tr s => ∀ {i call}, s.callers i = some call →
    StoresOwn call ∧ Label.call i call.operation ∈ tr) (fun hnone => by cases hnone) ?_
  intro tr s a hr ih ha i call hi
  rcases call_next ha hi with ⟨-, hold⟩ | ⟨op, rfl, -, rfl⟩ |
    ⟨call', b, choice, rfl, hold, hhead, -, rfl⟩
  · exact ⟨(ih hold).1, List.mem_append_left _ (ih hold).2⟩
  · exact ⟨op.keeping fun _ _ hop => ⟨hop, trivial⟩,
      List.mem_append_right _ (List.mem_singleton_self _)⟩
  · obtain ⟨hobeys, hmem⟩ := ih hold
    refine ⟨hobeys.step hhead ?_, List.mem_append_left _ hmem⟩
    cases b with
    | callbackKeys => exact fun _ _ => trivial
    | _ => trivial

/-- `subscribe` was called for the channel with this callback. -/
def Given (tr : List (Label Callback)) (c : Bytes) (cb : Callback) : Prop :=
  ∃ i, Label.call i (.subscribe c cb) ∈ tr

theorem Given.snoc {tr : List (Label Callback)} {c : Bytes} {cb : Callback} (h : Given tr c cb)
    (a : Label Callback) : Given (tr ++ [a]) c cb :=
  h.imp fun _ => List.mem_append_left _

/-- What is stored was given to the call that stores it. -/
theorem given_of_setCallback {tr : List (Label Callback)} (h : channel.Run initial tr s) {i : ℕ}
    {c : Bytes} {cb : Callback} (hhead : s.head? i = some (.setCallback c cb)) :
    ∃ call, s.callers i = some call ∧ call.operation = .subscribe c cb ∧ Given tr c cb := by
  obtain ⟨call, hcall, ha⟩ := State.exists_call_of_head? hhead
  obtain ⟨hstores, hmem⟩ := storesOwn h hcall
  have hop : call.operation = .subscribe c cb := hstores.allowed ha
  exact ⟨call, hcall, hop, i, hop ▸ hmem⟩

/-- **A callback in the map** was given to a call of `subscribe` for its channel. -/
theorem given_of_lookup {tr : List (Label Callback)} (h : channel.Run initial tr s) {c : Bytes}
    {cb : Callback} (hcb : s.shared.callbacks.lookup c = some cb) : Given tr c cb := by
  revert c cb
  refine h.induct (P := fun tr s => ∀ {c cb}, s.shared.callbacks.lookup c = some cb →
    Given tr c cb) (fun hnone => by cases hnone) ?_
  intro tr s a hr ih ha c cb hcb
  rcases lookup_next ha hcb with hold | ⟨j, rfl⟩
  · exact (ih hold).snoc _
  · obtain ⟨-, -, -, hgiven⟩ := given_of_setCallback hr ha.1
    exact hgiven.snoc _

/-! ## Where a callback ends -/

/-- The actions by which `unsubscribe` removes channel `c`, or finds it removed. -/
def Action.removes (c : Bytes) : Action Callback → Bool
  | .eraseCallback c' | .findCallback c' => c' = c
  | .clearCallbacks => true
  | _ => false

/-- The local state says whether channel `c` was removed. -/
def removing (c : Bytes) : Protocol (Action Callback) Answer Bool where
  Allowed _ _ := True
  Possible _ _ _ := True
  after removed
    | .eraseCallback c', _ => removed || c' = c
    | .findCallback c', found => if c' = c then !found else removed
    | .clearCallbacks, _ => true
    | _, _ => removed

/-- A call that returns has removed the channel. -/
def EndsRemoved (outcome : Outcome) (removed : Bool) : Prop :=
  ∀ r, outcome = .returned r → removed = true

section Removing

variable {c : Bytes} {removed : Bool}

theorem ignores_removing {a : Action Callback} (ha : a.removes c = false) :
    Ignores (removing c) a := by
  refine fun removed => ⟨trivial, fun r => ?_⟩
  cases a with
  | eraseCallback c' =>
    show (removed || decide (c' = c)) = removed
    rw [show decide (c' = c) = false from ha, Bool.or_false]
  | findCallback c' => exact if_neg (of_decide_eq_false ha)
  | clearCallbacks => exact absurd ha nofun
  | _ => rfl

theorem ignoresClient_removing :
    IgnoresClient (removing c : Protocol (Action Callback) Answer Bool) := by
  intro a ha
  refine ignores_removing ?_
  cases a with
  | lock m => rfl
  | unlock m => rfl
  | ping => rfl
  | connect => rfl
  | redis => rfl
  | _ => exact absurd ha (by simp [Action.ofClient])

theorem unsubscribeAll_removing :
    (unsubscribeAll : Procedure Callback Outcome).Obeys (removing c) EndsRemoved removed := by
  have hend : ∀ removed, ((issue (.unlock .callbacksMutex) : Procedure Callback Unit) >>= fun _ =>
      issue .clearCallbacks >>= fun _ => pure done).Obeys (removing c) EndsRemoved removed :=
    fun removed => issue_bind_ignored (ignoresClient_removing _ rfl) fun _ =>
      obeys_act_ret_bind.mpr ⟨trivial, fun _ _ _ _ => rfl⟩
  refine issue_bind_ignored (ignores_removing rfl) fun _ => ?_
  refine issue_bind_ignored (ignores_removing rfl) fun _ => ?_
  refine issue_bind_ignored (ignores_removing rfl) fun keys => obeys_bind.mpr ?_
  refine forEach_ignored ignoresClient_removing (I := fun _ _ => True) (fun t _ => hend t) ?_ keys
    trivial
  intro key keys t _
  refine issue_ignored (ignores_removing rfl) fun ok => ?_
  cases ok with
  | true => exact trivial
  | false => exact hend t

/-- The end of `unsubscribe` for one channel. -/
theorem stopIfEmpty_removing :
    (stopIfEmpty : Procedure Callback Outcome).Obeys (removing c) EndsRemoved true := by
  refine issue_bind_ignored (ignores_removing rfl) fun empty => ?_
  cases empty with
  | false => exact fun _ _ => rfl
  | true => exact issue_bind_ignored (ignores_removing rfl) fun _ _ _ => rfl

theorem unsubscribeOne_removing :
    (unsubscribeOne c : Procedure Callback Outcome).Obeys (removing c) EndsRemoved removed := by
  refine obeys_act_ret_bind.mpr ⟨trivial, fun found _ => ?_⟩
  rw [show (removing c : Protocol (Action Callback) Answer Bool).after removed (.findCallback c)
    found = !found from if_pos rfl]
  cases found with
  | false => exact stopIfEmpty_removing
  | true =>
    have hend : ∀ ok : Bool, (if ok = true then
        ((issue (.eraseCallback c) : Procedure Callback Unit) >>= fun _ => stopIfEmpty)
        else pure .threw).Obeys (removing c) EndsRemoved false := by
      rintro (_ | _)
      · exact fun _ h => absurd h nofun
      · refine obeys_act_ret_bind.mpr ⟨trivial, fun _ _ => ?_⟩
        rw [show (removing c : Protocol (Action Callback) Answer Bool).after false
          (.eraseCallback c) () = true from decide_eq_true rfl]
        exact stopIfEmpty_removing
    refine obeys_bind.mpr (issue_bind_ignored (ignores_removing rfl) fun running => ?_)
    cases running with
    | false => exact hend true
    | true =>
      exact underLock_ignored ignoresClient_removing (issue_ignored (ignores_removing rfl) hend)

theorem unsubscribe_removing :
    (unsubscribe c : Procedure Callback Outcome).Obeys (removing c) EndsRemoved removed := by
  cases c with
  | cons b bs => exact unsubscribeOne_removing
  | nil =>
    refine issue_bind_ignored (ignores_removing rfl) fun running => ?_
    cases running with
    | false => exact unsubscribeOne_removing
    | true => exact unsubscribeAll_removing

end Removing

/-! ## From a call to its return -/

section History

variable {c : Bytes} {i : ℕ} {tr : List (Label Callback)}

/-- Caller `i` removes channel `c`, or finds it removed. -/
def Label.removal (i : ℕ) (c : Bytes) : Label Callback → Bool
  | act j b _ => j = i && b.removes c
  | _ => false

/-- The labels since caller `i` last removed channel `c`, or found it removed. -/
def sinceRemoval (i : ℕ) (c : Bytes) (tr : List (Label Callback)) : List (Label Callback) :=
  tr.rtakeWhile fun a => !a.removal i c

theorem sinceRemoval_snoc (ha : a.removal i c = false) :
    sinceRemoval i c (tr ++ [a]) = sinceRemoval i c tr ++ [a] :=
  List.rtakeWhile_concat_pos _ _ _ (by simp [ha])

/-- Whatever is stored for channel `c` was stored since caller `i` removed it. -/
def Removed (i : ℕ) (c : Bytes) (tr : List (Label Callback)) (s : State Callback) : Prop :=
  ∀ cb, s.shared.callbacks.lookup c = some cb →
    ∃ j, Label.act j (.setCallback c cb) .ok ∈ sinceRemoval i c tr

theorem Removed.next (h : Enabled a s) (hs : Removed i c tr s) (ha : a.removal i c = false) :
    Removed i c (tr ++ [a]) (next a s) := by
  intro cb hcb
  rw [sinceRemoval_snoc ha]
  rcases lookup_next h hcb with hold | ⟨j, rfl⟩
  · obtain ⟨j, hmem⟩ := hs cb hold
    exact ⟨j, List.mem_append_left _ hmem⟩
  · exact ⟨j, List.mem_append_right _ (List.mem_singleton_self _)⟩

/-- An action that removes the channel, or finds it removed, leaves nothing stored. -/
theorem lookup_of_removes {b : Action Callback} (h : Enabled (.act i b .ok) s)
    (hb : b.removes c = true) {removed : Bool}
    (hremoved : (removing c).after removed b (answer s.shared .ok b) = true) :
    (next (.act i b .ok) s).shared.callbacks.lookup c = none := by
  cases b with
  | eraseCallback c' =>
    obtain rfl : c' = c := of_decide_eq_true hb
    exact AList.lookup_erase _ _
  | findCallback c' =>
    obtain rfl : c' = c := of_decide_eq_true hb
    have hlookup : (if c' = c' then !(s.shared.callbacks.lookup c').isSome else removed) =
      true := hremoved
    rw [if_pos rfl, Bool.not_eq_true', Option.isSome_eq_false_iff, Option.isNone_iff_eq_none]
      at hlookup
    exact hlookup
  | clearCallbacks => exact AList.lookup_empty c
  | _ => exact absurd hb nofun

/-- **Along a run** every call of `unsubscribe` is on its way: if it has removed its
channel, what is stored for it was stored since. -/
theorem removing_of_run (h : channel.Run initial tr s) :
    ∀ i c call, s.callers i = some call → call.operation = .unsubscribe c →
      ∃ removed, call.rest.Obeys (removing c) EndsRemoved removed ∧
        (removed = true → Removed i c tr s) := by
  refine h.induct (P := fun tr s => ∀ i c call, s.callers i = some call →
    call.operation = .unsubscribe c → ∃ removed, call.rest.Obeys (removing c) EndsRemoved removed ∧
      (removed = true → Removed i c tr s)) (fun i c call hnone => by cases hnone) ?_
  intro tr s a hr ih ha i c call hcall hop
  rcases call_next ha hcall with ⟨hne, hold⟩ | ⟨op, rfl, -, rfl⟩ |
    ⟨call', b, choice, rfl, hold, hhead, hpossible, rfl⟩
  · obtain ⟨removed, hobeys, hremoved⟩ := ih i c call hold hop
    refine ⟨removed, hobeys, fun htrue => (hremoved htrue).next ha ?_⟩
    cases a with
    | act j b choice =>
      have hj : j ≠ i := fun hj => hne (by rw [hj]; rfl)
      simp [Label.removal, hj]
    | _ => rfl
  · -- the call begins
    have hop' : op = .unsubscribe c := hop
    subst hop'
    exact ⟨false, unsubscribe_removing, nofun⟩
  · obtain ⟨removed, hobeys, hremoved⟩ := ih i c call' hold hop
    refine ⟨_, hobeys.step hhead trivial, fun htrue => ?_⟩
    by_cases hb : b.removes c = true
    · obtain rfl : choice = .ok := by
        cases b with
        | eraseCallback c' => exact hpossible
        | findCallback c' => exact hpossible
        | clearCallbacks => exact hpossible
        | _ => exact absurd hb nofun
      intro cb hcb
      exact absurd (hcb.symm.trans (lookup_of_removes ha hb htrue)) nofun
    · have hb' : b.removes c = false := by simpa using hb
      rw [(ignores_removing hb' removed).2] at htrue
      refine (hremoved htrue).next ha ?_
      simp [Label.removal, hb']

/-- **When a call of `unsubscribe` returns**, what is stored for its channel was stored
since it removed the channel. -/
theorem removed_of_unsubscribe (h : channel.Run initial tr s) {r : RedisStorage.Result}
    (hend : s.result? i = some (.unsubscribe c, .returned r)) : Removed i c tr s := by
  obtain ⟨call, hcall, hop, hresult⟩ := State.exists_call_of_result? hend
  obtain ⟨removed, hobeys, hremoved⟩ := removing_of_run h i c call hcall hop
  exact hremoved (hobeys.result hresult r rfl)

end History

end RedisChannel
