/-
# What `unsubscribe()` forgets

`unsubscribe()` is meant to forget every subscription.  It empties `callbacks_` if it
finds `running_` set; otherwise it takes the branch for one channel, and erases the
key `""` only (`empty_iff`).  Once `callbacks_` is empty nothing brings a channel back
but a call of `subscribe` for it (`Forgotten`, `forgotten_of_empty`).
-/
import RedisStateManager.ChannelCallbacks

namespace RedisChannel

open Redis Program

variable {Callback : Type}

/-! ## The keys at the end of the call -/

section Meets

variable {C : Shared Callback → Action Callback → Choice → Prop} {i : ℕ} {K : Finset Bytes}
  {v : View Callback}

/-- The call has ended normally, and `K` are the keys of `callbacks_`. -/
def EndsWithKeys (K : Finset Bytes) (outcome : Outcome) (v : View Callback) : Prop :=
  outcome = done ∧ v.HasKeys K

/-- Whatever the loop does, `callbacks_` is cleared. -/
theorem unsubscribeAll_leaves (v : View Callback) :
    (unsubscribeAll : Procedure Callback Outcome).Meets (environment C i) (EndsWithKeys ∅) v := by
  have htrue : (environment C i).Stable fun _ : View Callback => True :=
    Environment.stable_const True
  have hend : ∀ v : View Callback, True →
      ((issue (.unlock .callbacksMutex) : Procedure Callback Unit) >>= fun _ =>
        issue .clearCallbacks >>= fun _ => pure done).Meets (environment C i)
          (EndsWithKeys ∅) v := by
    refine fun v _ => meets_issue htrue trivial fun v _ _ _ _ => ?_
    refine meets_issue htrue trivial fun v choice _ hpossible _ => ?_
    obtain rfl : choice = .ok := hpossible
    have hcleared : View.HasKeys ∅ ⟨v.shared.perform i .clearCallbacks .ok, v.failed⟩ := rfl
    exact meets_ret stable_hasKeys hcleared fun v hv => ⟨rfl, hv⟩
  refine meets_issue htrue trivial fun v _ _ _ _ => meets_issue htrue trivial fun v _ _ _ _ => ?_
  refine meets_issue htrue trivial fun v choice _ _ _ => ?_
  refine meets_bind (forEach_meets (P := fun _ _ => True) (fun _ => htrue) htrue
    (fun key keys v _ => ?_) hend hend _ trivial)
  exact meets_issue_ret htrue trivial (fun _ => htrue) (fun _ _ _ => by split <;> trivial)
    fun _ _ _ _ _ => trivial

theorem stopIfEmpty_leaves (hv : v.HasKeys K) :
    (stopIfEmpty : Procedure Callback Outcome).Meets (environment C i) (EndsWithKeys K) v := by
  refine meets_quiet rfl stable_hasKeys hv fun empty v hv => ?_
  cases empty with
  | false => exact meets_ret stable_hasKeys hv fun v hv => ⟨rfl, hv⟩
  | true =>
    refine meets_issue stable_hasKeys hv fun v choice hv hpossible _ => ?_
    obtain rfl : choice = .ok := hpossible
    have hkeys : View.HasKeys K ⟨v.shared.perform i (.storeRunning false) .ok, v.failed⟩ := hv
    exact meets_ret stable_hasKeys hkeys fun v hv => ⟨rfl, hv⟩

/-- A channel that is not running is erased without a command. -/
theorem unsubscribeOne_leaves (c : Bytes) (hv : v.HasKeys K ∧ v.Stopped) :
    (unsubscribeOne c : Procedure Callback Outcome).Meets (environment C i)
      (EndsWithKeys (K.erase c)) v := by
  have hstopped : (environment C i).Stable fun v : View Callback => v.HasKeys K ∧ v.Stopped :=
    stable_hasKeys.and stable_stopped
  refine meets_issue hstopped hv fun v choice hv hpossible _ => ?_
  obtain rfl : choice = .ok := hpossible
  show Meets _ _ (if (v.shared.callbacks.lookup c).isSome = true then _ else _) _
  by_cases hfound : (v.shared.callbacks.lookup c).isSome = true
  · rw [if_pos hfound]
    refine meets_bind (meets_issue hstopped hv fun v choice hv hpossible _ => ?_)
    obtain rfl : choice = .ok := hpossible
    show Meets _ _ (if v.shared.running = true then _ else _) _
    rw [if_neg (by rw [show v.shared.running = false from hv.2]; exact Bool.false_ne_true)]
    refine meets_ret hstopped hv fun v hv => ?_
    refine meets_issue hstopped hv fun v choice hv hpossible _ => ?_
    obtain rfl : choice = .ok := hpossible
    have herase : View.HasKeys (K.erase c)
        ⟨v.shared.perform i (.eraseCallback c) .ok, v.failed⟩ := by
      show (effect i v.shared (.eraseCallback c)).keys = _
      rw [Shared.keys_eraseCallback, show v.shared.keys = K from hv.1]
    exact stopIfEmpty_leaves herase
  · rw [if_neg hfound]
    have hc : c ∉ K := by
      rw [← show v.shared.keys = K from hv.1, Shared.mem_keys]
      exact fun hmem => hfound (AList.lookup_isSome.mpr hmem)
    rw [Finset.erase_eq_of_notMem hc]
    exact stopIfEmpty_leaves hv.1

end Meets

/-! ## What an empty map forgets -/

section Forget

variable {c : Bytes} {s : State Callback}

/-- A call that has nothing to do with channel `c`. -/
abbrev avoiding (c : Bytes) : Protocol (Action Callback) Answer Unit :=
  keeping (fun c' _ => c' ≠ c) (· ≠ c)

/-- Channel `c` is forgotten: it has no callback, and no call in progress is going
to give it one. -/
def Forgotten (c : Bytes) (s : State Callback) : Prop :=
  c ∉ s.shared.callbacks ∧ Tracks (avoiding c) (fun _ _ _ => True) (fun _ _ _ => True) s

/-- A step that registers channel `c`, or subscribes to it. -/
def Label.Revives (c : Bytes) (a : Label Callback) : Prop :=
  ∃ j choice, a = .act j (.subscribe c) choice ∨ ∃ cb, a = .act j (.setCallback c cb) choice

/-- A call that is none of channel `c`'s does not revive it. -/
theorem Forgotten.not_revives {a : Label Callback} (h : Enabled a s) (hs : Forgotten c s) :
    ¬ a.Revives c := by
  rintro ⟨j, choice, rfl | ⟨cb, rfl⟩⟩
  · obtain ⟨_, hallowed, -⟩ := hs.2.allowed h.1
    exact hallowed rfl
  · obtain ⟨_, hallowed, -⟩ := hs.2.allowed h.1
    exact hallowed rfl

theorem Forgotten.next {a : Label Callback} (h : Enabled a s) (hs : Forgotten c s)
    (ha : ∀ j cb, a ≠ .call j (.subscribe c cb)) : Forgotten c (next a s) := by
  have htracks : Tracks (avoiding c) (fun _ _ _ => True) (fun _ _ _ => True)
      (RedisChannel.next a s) := by
    refine hs.2.next h ?_ ?_ fun _ _ _ _ _ _ => trivial
    · rintro i op rfl
      refine ⟨(), op.keeping ?_, trivial⟩
      rintro c' cb rfl
      have hne : c' ≠ c := by
        rintro rfl
        exact ha i cb rfl
      exact ⟨hne, hne⟩
    · intro i b choice t _ _ _ hpossible
      refine ⟨?_, trivial⟩
      cases b with
      | callbackKeys =>
        -- the loop finds the keys of the map
        cases choice with
        | order keys =>
          rintro c' hmem rfl
          exact hs.1 (AList.mem_keys.mpr (hpossible.subset hmem))
        | _ => exact absurd hpossible id
      | _ => trivial
  refine ⟨?_, htracks⟩
  intro hmem
  obtain ⟨cb, hcb⟩ := Option.isSome_iff_exists.mp (AList.lookup_isSome.mpr hmem)
  rcases lookup_next h hcb with hold | ⟨j, rfl⟩
  · exact hs.1 (AList.lookup_isSome.mp (Option.isSome_of_eq_some hold))
  · exact hs.not_revives h ⟨j, .ok, Or.inr ⟨cb, rfl⟩⟩

/-- **A forgotten channel stays forgotten**, until `subscribe` is called for it. -/
theorem Forgotten.run {tr : List (Label Callback)} {s' : State Callback} (hs : Forgotten c s)
    (hr : channel.Run s tr s') (hcall : ∀ j cb, Label.call j (.subscribe c cb) ∉ tr) :
    Forgotten c s' ∧ ∀ a ∈ tr, ¬ a.Revives c := by
  revert hcall
  refine hr.induct (P := fun tr s' => (∀ j cb, Label.call j (.subscribe c cb) ∉ tr) →
    Forgotten c s' ∧ ∀ a ∈ tr, ¬ a.Revives c) (fun _ => ⟨hs, fun _ h => absurd h List.not_mem_nil⟩)
    ?_
  intro tr u a _ ih ha hcall
  obtain ⟨hforgotten, hold⟩ := ih fun j cb hmem => hcall j cb (List.mem_append_left _ hmem)
  refine ⟨hforgotten.next ha fun j cb heq =>
    hcall j cb (List.mem_append_right _ (List.mem_singleton.mpr heq.symm)), fun b hb => ?_⟩
  rcases List.mem_append.mp hb with hb | hb
  · exact hold b hb
  · obtain rfl := List.mem_singleton.mp hb
    exact hforgotten.not_revives ha

/-- **An empty map forgets**, if no call is in progress. -/
theorem forgotten_of_empty (hempty : s.shared.callbacks = ∅) (hidle : ∀ i, s.callers i = none) :
    Forgotten c s := by
  refine ⟨?_, fun i call hi => absurd ((hidle i).symm.trans hi) nofun⟩
  rw [hempty]
  exact AList.notMem_empty c

end Forget

/-! ## When `unsubscribe()` forgets -/

/-- Any sequence of calls, with any failures. -/
abbrev InSequence : List (Label Callback) → State Callback → Label Callback → Prop :=
  Sequenced fun _ _ _ _ => True

theorem Shared.keys_eq_empty {s : Shared Callback} : s.keys = ∅ ↔ s.callbacks = ∅ := by
  constructor
  · intro h
    have hkeys : s.callbacks.entries.map Sigma.fst = [] := List.toFinset_eq_empty_iff _ |>.mp h
    exact AList.ext (List.map_eq_nil_iff.mp hkeys)
  · intro h
    rw [keys, h]
    rfl

/-- What the call leaves, by the branch it takes. -/
theorem leaves_of_unsubscribe {i : ℕ} {pre tr : List (Label Callback)} {u s : State Callback}
    (hpre : channel.RunBy InSequence initial pre u)
    (hcall : u.callers i = some ⟨.unsubscribe [], (Operation.unsubscribe []).procedure⟩)
    (hrun : channel.RunBy InSequence u (.act i .loadRunning .ok :: tr) s)
    (hret : ∀ outcome, Label.ret i (.unsubscribe []) outcome ∉ tr) {outcome : Outcome}
    (hend : s.result? i = some (.unsubscribe [], outcome)) :
    (∀ j, j ≠ i → s.callers j = none) ∧
      s.shared.keys = if u.shared.running = true then ∅ else u.shared.keys.erase [] := by
  have hsplit : channel.RunBy InSequence u ([] ++ .act i .loadRunning .ok :: tr) s := hrun
  obtain ⟨w, hnil, hload, -, htr⟩ := hsplit.split_cons
  obtain rfl : u = w := TransitionSystem.Run.unique .nil hnil.run
  have hin : Inside (fun _ _ _ _ => True) i (.unsubscribe [])
      (EndsWithKeys (if u.shared.running = true then ∅ else u.shared.keys.erase [])) false
      (next (.act i .loadRunning .ok) u) := by
    refine ⟨fun j hj => (Function.update_of_ne hj _ _).trans (alone hpre hcall j hj),
      ⟨.unsubscribe [], (Operation.unsubscribe []).procedure.step (answer u.shared .ok)⟩,
      callers_act hcall .loadRunning .ok, rfl, ?_⟩
    show Meets _ _ (if u.shared.running = true then unsubscribeAll else unsubscribeOne []) _
    by_cases hset : u.shared.running = true
    · rw [if_pos hset, if_pos hset]
      exact unsubscribeAll_leaves _
    · rw [if_neg hset, if_neg hset]
      have hstopped : u.shared.running = false := by simpa using hset
      exact unsubscribeOne_leaves [] ⟨rfl, hstopped⟩
  obtain ⟨f, hidle, call, hi, -, hmeets⟩ := hin.run (hpre.run.snoc hload) htr hret
  obtain ⟨call', hi', -, hresult⟩ := State.exists_call_of_result? hend
  obtain rfl : call = call' := Option.some.inj (hi.symm.trans hi')
  exact ⟨hidle, (hmeets.result hresult).2⟩

/-- The keys are gone if and only if the call finds `running_` set, or there is no key but
`""`. -/
theorem empty_iff {i : ℕ} {pre tr : List (Label Callback)} {u s : State Callback}
    (hpre : channel.RunBy InSequence initial pre u)
    (hcall : u.callers i = some ⟨.unsubscribe [], (Operation.unsubscribe []).procedure⟩)
    (hrun : channel.RunBy InSequence u (.act i .loadRunning .ok :: tr) s)
    (hret : ∀ outcome, Label.ret i (.unsubscribe []) outcome ∉ tr) {outcome : Outcome}
    (hend : s.result? i = some (.unsubscribe [], outcome)) :
    s.shared.callbacks = ∅ ↔ u.shared.running = true ∨ ∀ c ∈ u.shared.keys, c = [] := by
  obtain ⟨-, hkeys⟩ := leaves_of_unsubscribe hpre hcall hrun hret hend
  rw [← Shared.keys_eq_empty, hkeys]
  by_cases hset : u.shared.running = true
  · rw [if_pos hset]
    exact iff_of_true rfl (Or.inl hset)
  · rw [if_neg hset, Finset.erase_eq_empty_iff, ← Finset.subset_singleton_iff, or_iff_right hset]
    exact ⟨fun h c hc => Finset.mem_singleton.mp (h hc),
      fun h c hc => Finset.mem_singleton.mpr (h c hc)⟩

end RedisChannel
