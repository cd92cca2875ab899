/-
# Calls of `subscribe` that do nothing

A call of `subscribe` takes one of two ways: it claims `running_`, creates the
subscriber and subscribes to every key, or it finds the channel running and
subscribes to its own.  `serving` follows a call to the `SUBSCRIBE` of its channel;
where it is lost on the way, `running_` was cleared between two loads, or somebody
else has erased the key (`KeepsServing`).  `Attended` says that there is a consumer
thread for the subscription, or that one is about to be started.
-/
import RedisStateManager.ChannelCalls

namespace RedisChannel

open Redis Program

variable {Callback : Type}

/-! ## The way of one call -/

/-- How far a call of `subscribe` has come. -/
inductive Stage
  /-- `callbacks_[channel] = callback` is still to come -/
  | storing
  | claiming
  /-- `running_` is loaded once more -/
  | checking
  /-- on the way to `SUBSCRIBE` -/
  | committed
  | served
  /-- a failure was logged and `running_` cleared -/
  | reported
  /-- `running_` was found cleared after all -/
  | skipped
  deriving DecidableEq, Repr

/-- The actions of `subscribe(c, cb)`, as long as the loop of `initializeSubscriber`
finds the key `c`; once the way is settled, `running_` is not loaded again. -/
def serving (c : Bytes) (cb : Callback) : Protocol (Action Callback) Answer Stage where
  Allowed
    | .storing, .setCallback c' cb' => c' = c ∧ cb' = cb
    | .skipped, .compareExchange | .committed, .loadRunning => False
    | _, _ => True
  Possible
    | _, .callbackKeys, keys => c ∈ keys
    | _, _, _ => True
  after
    | .storing, .setCallback .., _ => .claiming
    | .claiming, .loadRunning, running => if running = true then .checking else .claiming
    | .claiming, .compareExchange, first => if first = true then .committed else .checking
    | .checking, .loadRunning, running => if running = true then .committed else .skipped
    | .committed, .subscribe c', ok => if ok = true ∧ c' = c then .served else .committed
    | .committed, .storeRunning false, _ => .reported
    | t, _, _ => t

/-- A call that returns has come to an end of its way. -/
def Arrived (outcome : Outcome) (t : Stage) : Prop :=
  ∀ r, outcome = .returned r → t = .served ∨ t = .reported ∨ t = .skipped

section Serving

variable {c : Bytes} {cb : Callback}

end Serving

/-! ## Who consumes -/

/-- Caller `i` has claimed `running_`, and starts a consumer thread unless a command
throws. -/
def State.Starting (s : State Callback) (i : ℕ) : Prop :=
  ∃ call, s.callers i = some call ∧
    call.rest.Obeys RedisChannel.claiming (fun _ claimed => claimed = false) true

/-- A consumer thread is in its loop, or a call is about to start one. -/
def State.Attended (s : State Callback) : Prop := (∃ w, s.shared.Alive w) ∨ ∃ j, s.Starting j

/-- A call claims `running_`. -/
def Claims (s : State Callback) : Label Callback → Prop
  | .act _ .compareExchange _ => s.shared.running = false
  | _ => False

/-- A consumer thread finds `running_` cleared, and leaves its loop. -/
def Leaves (s : State Callback) : Label Callback → Prop
  | .consumer _ .testRunning => s.shared.running = false
  | _ => False

/-- A command of a call that has claimed `running_` throws, and the call will start
no consumer thread. -/
def Fails (s : State Callback) : Label Callback → Prop
  | .act i b .threw => s.Starting i ∧ ¬ (next (.act i b .threw) s).Starting i
  | _ => False

/-- Caller `i` loads `running_`, or `running_` is claimed. -/
def LoadsOrClaims (i : ℕ) (s : State Callback) (a : Label Callback) : Prop :=
  (∃ choice, a = .act i .loadRunning choice) ∨ Claims s a

/-- **The steps on which no subscription is lost**: `subscribe` does not find
`running_` cleared unless it goes on to claim it; its loop finds its key; and the
`SUBSCRIBE` of a call that has found the channel running takes effect only if, since
`running_` was last claimed, no initialisation has failed, and no consumer thread has
left its loop after the call's own load of `running_`. -/
def KeepsServing (tr : List (Label Callback)) (s : State Callback) : Label Callback → Prop
  | .act i (.subscribe _) .ok => ¬ s.Starting i →
    ¬ channel.Since Leaves (LoadsOrClaims i) initial tr ∧ ¬ channel.Since Fails Claims initial tr
  | .act i .loadRunning .ok => s.shared.running = false → ∀ call c cb, s.callers i = some call →
    call.operation = .subscribe c cb →
      (call.rest.step (answer s.shared .ok)).head? = some .compareExchange
  | .act i .callbackKeys (.order _) => ∀ call c cb, s.callers i = some call →
    call.operation = .subscribe c cb → c ∈ s.shared.keys
  | _ => True

section Attended

variable {s : State Callback} {a : Label Callback}

/-- Every call keeps to the protocol of those that claim `running_`. -/
theorem tracks_claiming {tr : List (Label Callback)} (h : channel.Run initial tr s) :
    Tracks claiming (fun _ _ claimed => claimed = false) (fun _ _ _ => True) s := by
  refine h.invariant (I := Tracks claiming (fun _ _ claimed => claimed = false) fun _ _ _ => True)
    (fun _ _ hnone => by cases hnone) fun a s hs ha => ?_
  refine hs.next ha (fun i op _ => ⟨false, op.claiming fun _ => rfl, trivial⟩) ?_ ?_
  · exact fun _ _ _ _ _ _ _ _ => ⟨trivial, trivial⟩
  · exact fun _ _ _ _ _ _ => trivial

/-- A call that somebody else's step does not touch. -/
theorem State.Starting.of_ne {i : ℕ} (hs : s.Starting i) (ha : a.caller? ≠ some i) :
    (next a s).Starting i := by
  obtain ⟨call, hcall, hobeys⟩ := hs
  exact ⟨call, (callers_next_of_ne ha s).trans hcall, hobeys⟩

/-- The call goes on to start a consumer thread. -/
theorem starting_of_after {i : ℕ} {b : Action Callback} {choice : Choice} {call : Call Callback}
    {claimed : Bool} (hcall : s.callers i = some call) (hhead : call.rest.head? = some b)
    (hobeys : call.rest.Obeys RedisChannel.claiming (fun _ claimed => claimed = false) claimed)
    (hafter : claiming.after claimed b (answer s.shared choice b) = true) :
    (next (.act i b choice) s).Starting i := by
  refine ⟨_, callers_act hcall b choice, ?_⟩
  rw [← hafter]
  exact hobeys.step hhead trivial

/-- No action of a call ends a thread. -/
theorem Shared.Alive.perform {s : Shared Callback} {w : ℕ} (h : s.Alive w) (i : ℕ)
    (b : Action Callback) (choice : Choice) : (s.perform i b choice).Alive w := by
  obtain ⟨pc, hpc, hne⟩ := h
  refine ⟨pc, ?_, hne⟩
  unfold Shared.perform
  split
  · exact hpc
  · cases b with
    | startThread =>
      show (s.consumers ++ [.testRunning])[w]? = some pc
      rw [List.getElem?_append_left (List.getElem?_eq_some_iff.mp hpc).1]
      exact hpc
    | _ => exact hpc

/-- Who sets `running_` is about to start a consumer thread. -/
theorem starting_of_running {i : ℕ} {b : Action Callback} {choice : Choice}
    (ha : Enabled (.act i b choice) s)
    (hs : Tracks claiming (fun _ _ claimed => claimed = false) (fun _ _ _ => True) s)
    (hbefore : s.shared.running = false) (hrun : (s.shared.perform i b choice).running = true) :
    (next (.act i b choice) s).Starting i := by
  obtain ⟨call, hcall, hhead⟩ := State.exists_call_of_head? ha.1
  obtain ⟨claimed, hobeys, -⟩ := hs i call hcall
  refine starting_of_after hcall hhead hobeys ?_
  have hsame : ∀ {p : Prop}, s.shared.running = true → p :=
    fun hset => absurd (hset.symm.trans hbefore) nofun
  unfold Shared.perform at hrun
  split at hrun
  · exact hsame hrun
  · cases b with
    | compareExchange =>
      show (!s.shared.running) = true
      rw [hbefore, Bool.not_false]
    | storeRunning set =>
      obtain rfl : set = true := hrun
      exact hobeys.allowed hhead
    | _ => exact hsame hrun

/-- A call about to start a consumer thread goes on, has started it, or a command
of it has thrown. -/
theorem State.Starting.act {i : ℕ} {b : Action Callback} {choice : Choice} (hs : s.Starting i)
    (ha : Enabled (.act i b choice) s) :
    (next (.act i b choice) s).Attended ∨ choice = .threw := by
  obtain ⟨call, hcall, hobeys⟩ := hs
  obtain ⟨call', hcall', hhead⟩ := State.exists_call_of_head? ha.1
  obtain rfl : call = call' := Option.some.inj (hcall.symm.trans hcall')
  by_cases hafter : claiming.after true b (answer s.shared choice b) = true
  · exact Or.inl (Or.inr ⟨i, starting_of_after hcall hhead hobeys hafter⟩)
  · cases b with
    | compareExchange =>
      have hallowed : true = false := hobeys.allowed hhead
      exact absurd hallowed nofun
    | startThread =>
      obtain ⟨rfl, -⟩ : choice = .ok ∧ _ := ha.2
      exact Or.inl (Or.inl ⟨_, .testRunning, List.getElem?_concat_length, rfl⟩)
    | createSubscriber g => exact Or.inr (by simpa [claiming, answer] using hafter)
    | onMessage => exact Or.inr (by simpa [claiming, answer] using hafter)
    | subscribe c => exact Or.inr (by simpa [claiming, answer] using hafter)
    | _ => exact absurd rfl hafter

/-- Who claims `running_` is about to start a consumer thread. -/
theorem attended_of_claims (ha : Enabled a s)
    (htracks : Tracks claiming (fun _ _ claimed => claimed = false) (fun _ _ _ => True) s)
    (hclaims : Claims s a) : (next a s).Attended := by
  cases a with
  | act i b choice =>
    cases b with
    | compareExchange =>
      obtain rfl : choice = .ok := ha.2
      exact Or.inr ⟨i, starting_of_running ha htracks hclaims rfl⟩
    | _ => exact absurd hclaims id
  | _ => exact absurd hclaims id

/-- Who creates a subscriber is about to start a consumer thread for it. -/
theorem starting_of_create {i g : ℕ} (ha : Enabled (.act i (.createSubscriber g) .ok) s)
    (htracks : Tracks claiming (fun _ _ claimed => claimed = false) (fun _ _ _ => True) s) :
    (next (.act i (.createSubscriber g) .ok) s).Starting i := by
  obtain ⟨call, hcall, hhead⟩ := State.exists_call_of_head? ha.1
  obtain ⟨claimed, hobeys, -⟩ := htracks i call hcall
  obtain rfl : claimed = true := hobeys.allowed hhead
  exact starting_of_after hcall hhead hobeys rfl

/-- There is no subscriber, or its connection is broken. -/
def Shared.cutOff (s : Shared Callback) : Bool := s.subscriber.all (·.broken)

/-- Only a new subscriber has a connection that works. -/
theorem Shared.cutOff_perform {s : Shared Callback} (h : s.cutOff = true) {i : ℕ}
    {b : Action Callback} {choice : Choice} (hb : ∀ g, b ≠ .createSubscriber g ∨ choice = .threw) :
    (s.perform i b choice).cutOff = true := by
  have hmap : ∀ f : Subscriber → Subscriber, (∀ u, (f u).broken = u.broken) →
      (s.subscriber.map f).all (·.broken) = true := by
    intro f hf
    simp only [Option.all_map, hf]
    exact h
  unfold perform
  split
  · exact h
  · rename_i hchoice
    cases b with
    | createSubscriber g => exact absurd ((hb g).resolve_left (not_not_intro rfl)) hchoice
    | resetSubscriber => rfl
    | subscribe c => exact hmap _ fun _ => rfl
    | unsubscribe c => exact hmap _ fun _ => rfl
    | publish g c payload => exact hmap _ fun u => (u.receive_frame _).2
    | _ => exact h

theorem Shared.cutOff_consumer {s : Shared Callback} {w : ℕ} {b : ConsumerAct Callback}
    (h : s.cutOff = true ∨ b = .fail) : (s.consumer w b).cutOff = true := by
  rcases h with h | rfl
  · cases b with
    | receive m => exact (Option.all_map ..).trans h
    | fail =>
      show (s.subscriber.map _).all _ = true
      cases s.subscriber <;> rfl
    | _ => exact h
  · show (s.subscriber.map _).all _ = true
    cases s.subscriber <;> rfl

/-- A consumer thread stays in its loop until `running_` is cleared or its connection
breaks. -/
theorem alive_next {v : ℕ} (ha : Enabled a s) (hv : s.shared.Alive v) :
    ((next a s).shared.Alive v ∨ (next a s).shared.cutOff = true) ∨ Leaves s a := by
  cases a with
  | consumer w b =>
    by_cases hfail : b = .fail
    · exact Or.inl (Or.inr (Shared.cutOff_consumer (Or.inr hfail)))
    by_cases hleaves : b = .testRunning ∧ s.shared.running = false
    · obtain ⟨rfl, hcleared⟩ := hleaves
      exact Or.inr hcleared
    · refine Or.inl (Or.inl (Shared.alive_consumer hfail ha.1 (fun hb => ?_) hv))
      simpa [hb] using hleaves
  | act i b choice => exact Or.inl (Or.inl (hv.perform i b choice))
  | call i op => exact Or.inl (Or.inl hv)
  | ret i op outcome => exact Or.inl (Or.inl hv)
  | publish c payload => exact Or.inl (Or.inl hv)

/-- A call goes on to start a consumer thread unless a command of it throws. -/
theorem State.Starting.next {j : ℕ} (hj : s.Starting j) (ha : Enabled a s) :
    (RedisChannel.next a s).Attended ∨ Fails s a := by
  by_cases hcaller : a.caller? = some j
  · cases a with
    | call i op =>
      obtain rfl : i = j := Option.some.inj hcaller
      obtain ⟨call, hcall, -⟩ := hj
      exact absurd (hcall.symm.trans ha) nofun
    | ret i op outcome =>
      -- a call does not end before it has started the thread
      obtain rfl : i = j := Option.some.inj hcaller
      obtain ⟨call, hcall, hobeys⟩ := hj
      obtain ⟨call', hcall', -, hresult⟩ := State.exists_call_of_result? ha
      obtain rfl : call = call' := Option.some.inj (hcall.symm.trans hcall')
      exact absurd (hobeys.result hresult) nofun
    | act i b choice =>
      obtain rfl : i = j := Option.some.inj hcaller
      rcases hj.act ha with hattended | rfl
      · exact Or.inl hattended
      · by_cases hgoes : (RedisChannel.next (.act i b .threw) s).Starting i
        · exact Or.inl (Or.inr ⟨i, hgoes⟩)
        · exact Or.inr ⟨hj, hgoes⟩
    | consumer w b => exact absurd hcaller nofun
    | publish c payload => exact absurd hcaller nofun
  · exact Or.inl (Or.inr ⟨j, hj.of_ne hcaller⟩)

/-- Only who is about to start a consumer thread connects the channel anew. -/
theorem cutOff_next (ha : Enabled a s)
    (htracks : Tracks claiming (fun _ _ claimed => claimed = false) (fun _ _ _ => True) s)
    (hcut : s.shared.cutOff = true) :
    (next a s).Attended ∨ (next a s).shared.cutOff = true := by
  cases a with
  | act i b choice =>
    by_cases hcreate : ∃ g, b = .createSubscriber g ∧ choice = .ok
    · obtain ⟨g, rfl, rfl⟩ := hcreate
      exact Or.inl (Or.inr ⟨i, starting_of_create ha htracks⟩)
    · refine Or.inr (Shared.cutOff_perform hcut fun g => ?_)
      by_contra hneither
      obtain ⟨hb, hchoice⟩ := not_or.mp hneither
      obtain rfl := not_not.mp hb
      exact hcreate ⟨g, rfl, ha.2.resolve_right hchoice⟩
  | consumer w b => exact Or.inr (Shared.cutOff_consumer (Or.inl hcut))
  | publish c payload =>
    have hkept : (s.shared.perform 0 (.publish 0 c payload) .ok).cutOff = true :=
      Shared.cutOff_perform hcut fun _ => Or.inl nofun
    exact Or.inr hkept
  | call i op => exact Or.inr hcut
  | ret i op outcome => exact Or.inr hcut

/-- **One step**: an attended channel stays so until its connection breaks, a consumer
thread leaves, or an initialisation fails; and until then it is not connected anew. -/
theorem attended_next (ha : Enabled a s)
    (htracks : Tracks claiming (fun _ _ claimed => claimed = false) (fun _ _ _ => True) s)
    (hs : s.Attended ∨ s.shared.cutOff = true) :
    ((next a s).Attended ∨ (next a s).shared.cutOff = true) ∨ Leaves s a ∨ Fails s a := by
  rcases hs with (⟨v, hv⟩ | ⟨j, hj⟩) | hcut
  · rcases alive_next ha hv with (halive | hcut) | hleaves
    · exact Or.inl (Or.inl (Or.inl ⟨v, halive⟩))
    · exact Or.inl (Or.inr hcut)
    · exact Or.inr (Or.inl hleaves)
  · rcases hj.next ha with hattended | hfails
    · exact Or.inl (Or.inl hattended)
    · exact Or.inr (Or.inr hfails)
  · exact Or.inl (cutOff_next ha htracks hcut)

/-- **While `running_` is set** the channel is attended or cut off, unless an
initialisation has failed since it was claimed. -/
theorem attended_of_running {tr : List (Label Callback)} (h : channel.Run initial tr s)
    (hrun : s.shared.running = true) :
    (s.Attended ∨ s.shared.cutOff = true) ∨ channel.Since Fails Claims initial tr := by
  revert hrun
  refine h.induct (P := fun tr s => s.shared.running = true →
    (s.Attended ∨ s.shared.cutOff = true) ∨ channel.Since Fails Claims initial tr)
    (fun hset => absurd hset Bool.false_ne_true) ?_
  intro tr s a hr ih ha hrun
  have htracks := tracks_claiming hr
  by_cases hbefore : s.shared.running = true
  · rcases ih hbefore with hs | hsince
    · rcases attended_next ha htracks hs with hs' | hleaves | hfails
      · exact Or.inl hs'
      · unfold Leaves at hleaves
        split at hleaves
        · exact absurd (hbefore.symm.trans hleaves) nofun
        · exact absurd hleaves id
      · exact Or.inr (hr.since_snoc.mpr (Or.inl hfails))
    · refine Or.inr (hr.since_snoc.mpr (Or.inr ⟨hsince, fun hclaims => ?_⟩))
      unfold Claims at hclaims
      split at hclaims
      · exact absurd (hbefore.symm.trans hclaims) nofun
      · exact hclaims
  · have hcleared : s.shared.running = false := by simpa using hbefore
    cases a with
    | act i b choice =>
      exact Or.inl (Or.inl (Or.inr ⟨i, starting_of_running ha htracks hcleared hrun⟩))
    | consumer w b =>
      have hrun' : (s.shared.consumer w b).running = true := hrun
      cases b with
      | storeRunning => exact absurd hrun' nofun
      | _ => exact absurd (hcleared.symm.trans hrun') nofun
    | _ => exact absurd (hcleared.symm.trans hrun) nofun

/-- What caller `i` relies on after it has found the channel running: it is attended
or cut off, unless a thread has left it, or an initialisation has failed. -/
def Relied (i : ℕ) (tr : List (Label Callback)) (s : State Callback) : Prop :=
  (s.Attended ∨ s.shared.cutOff = true) ∨
    channel.Since Leaves (LoadsOrClaims i) initial tr ∨ channel.Since Fails Claims initial tr

theorem Relied.next {i : ℕ} {tr : List (Label Callback)} (hs : Relied i tr s)
    (hr : channel.Run initial tr s) (ha : Enabled a s)
    (hload : ∀ choice, a ≠ .act i .loadRunning choice) : Relied i (tr ++ [a]) (next a s) := by
  have htracks := tracks_claiming hr
  by_cases hclaims : Claims s a
  · exact Or.inl (Or.inl (attended_of_claims ha htracks hclaims))
  rcases hs with hs | hleft | hfailed
  · rcases attended_next ha htracks hs with hs' | hleaves | hfails
    · exact Or.inl hs'
    · exact Or.inr (Or.inl (hr.since_snoc.mpr (Or.inl hleaves)))
    · exact Or.inr (Or.inr (hr.since_snoc.mpr (Or.inl hfails)))
  · refine Or.inr (Or.inl (hr.since_snoc.mpr (Or.inr ⟨hleft, ?_⟩)))
    rintro (⟨choice, rfl⟩ | hclaims')
    · exact hload choice rfl
    · exact hclaims hclaims'
  · exact Or.inr (Or.inr (hr.since_snoc.mpr (Or.inr ⟨hfailed, hclaims⟩)))

end Attended

/-! ## From a call to its return -/

/-- What an action does to the stage of its call. -/
inductive Advances (c : Bytes) (s : Shared Callback) (choice : Choice) :
    Stage → Action Callback → Stage → Prop
  | stay {t b} : Advances c s choice t b t
  | store {c' cb'} : Advances c s choice .storing (.setCallback c' cb') .claiming
  | check {b} : Advances c s choice .claiming b .checking
  | claim (hs : s.running = false) : Advances c s choice .claiming .compareExchange .committed
  | commit (hs : s.running = true) : Advances c s choice .checking .loadRunning .committed
  | skip (hs : s.running = false) : Advances c s choice .checking .loadRunning .skipped
  | serve (hok : choice ≠ .threw) : Advances c s choice .committed (.subscribe c) .served
  | report : Advances c s choice .committed (.storeRunning false) .reported

section History

variable {c : Bytes} {cb : Callback} {i : ℕ} {pre mid : List (Label Callback)} {s : State Callback}
  {a : Label Callback}

theorem advances (c : Bytes) (cb : Callback) (s : Shared Callback) (choice : Choice) (t : Stage)
    (b : Action Callback) :
    Advances c s choice t b ((serving c cb).after t b (answer s choice b)) := by
  cases t with
  | storing => cases b <;> first | exact .store | exact .stay
  | claiming =>
    cases b with
    | loadRunning =>
      show Advances c s choice _ _ (if s.running = true then _ else _)
      split
      · exact .check
      · exact .stay
    | compareExchange =>
      show Advances c s choice _ _ (if (!s.running) = true then _ else _)
      split
      · rename_i hs
        exact .claim (by simpa using hs)
      · exact .check
    | _ => exact .stay
  | checking =>
    cases b with
    | loadRunning =>
      show Advances c s choice _ _ (if s.running = true then _ else _)
      split
      · rename_i hs
        exact .commit hs
      · rename_i hs
        exact .skip (by simpa using hs)
    | _ => exact .stay
  | committed =>
    cases b with
    | subscribe c' =>
      show Advances c s choice _ _ (if decide (choice ≠ .threw) = true ∧ c' = c then _ else _)
      split
      · rename_i h
        obtain ⟨hok, rfl⟩ := h
        exact .serve (of_decide_eq_true hok)
      · exact .stay
    | storeRunning set =>
      cases set with
      | true => exact .stay
      | false => exact .report
    | _ => exact .stay
  | served => exact .stay
  | reported => exact .stay
  | skipped => exact .stay

/-- **A moment of the call**, whose labels are `mid`, at which its callback was
stored, its channel subscribed on the subscriber, and the channel attended. -/
def Served (i : ℕ) (c : Bytes) (cb : Callback) (pre mid : List (Label Callback)) : Prop :=
  ∃ mid₁ mid₂ u, mid = mid₁ ++ mid₂ ∧ Label.act i (.setCallback c cb) .ok ∈ mid₁ ∧
    channel.Run initial (pre ++ .call i (.subscribe c cb) :: mid₁) u ∧
    (∃ x, u.shared.subscriber = some x ∧ c ∈ x.subscribed) ∧ u.Attended

theorem Served.snoc (h : Served i c cb pre mid) (a : Label Callback) :
    Served i c cb pre (mid ++ [a]) := by
  obtain ⟨mid₁, mid₂, u, rfl, hset, hr, hsub, hatt⟩ := h
  exact ⟨mid₁, mid₂ ++ [a], u, List.append_assoc .., hset, hr, hsub, hatt⟩

/-- Caller `i` is in a call of `subscribe(c, cb)`, whose labels so far are `mid`. -/
structure OnItsWay (i : ℕ) (c : Bytes) (cb : Callback) (pre mid : List (Label Callback))
    (s : State Callback) (call : Call Callback) (t : Stage) : Prop where
  caller : s.callers i = some call
  operation : call.operation = .subscribe c cb
  obeys : call.rest.Obeys (serving c cb) Arrived t
  notSkipped : t ≠ .skipped
  stored : t ≠ .storing → Label.act i (.setCallback c cb) .ok ∈ mid
  served : t = .served → Served i c cb pre mid
  reported : t = .reported → ∃ choice, Label.act i (.storeRunning false) choice ∈ mid
  relied : t = .committed → Relied i (pre ++ .call i (.subscribe c cb) :: mid) s

/-- The labels of a call, and one more. -/
theorem append_call_snoc (pre mid : List (Label Callback)) (i : ℕ) (op : Operation Callback)
    (a : Label Callback) :
    pre ++ .call i op :: (mid ++ [a]) = pre ++ .call i op :: mid ++ [a] := by
  rw [List.append_assoc, List.cons_append]

/-- The `SUBSCRIBE` of the call takes effect. -/
theorem served_of_subscribe {choice : Choice} (ha : Enabled (.act i (.subscribe c) choice) s)
    (hr : channel.Run initial (pre ++ .call i (.subscribe c cb) :: mid) s)
    (hset : Label.act i (.setCallback c cb) .ok ∈ mid) (hok : choice ≠ .threw)
    (hC : KeepsServing (pre ++ .call i (.subscribe c cb) :: mid) s (.act i (.subscribe c) choice))
    (hrelied : Relied i (pre ++ .call i (.subscribe c cb) :: mid) s) :
    Served i c cb pre (mid ++ [.act i (.subscribe c) choice]) := by
  obtain ⟨hsome, ⟨rfl, hbroken⟩ | rfl⟩ := ha.2
  · obtain ⟨x, hx⟩ := Option.isSome_iff_exists.mp hsome
    have hx' : x.broken = false := by
      have hany : s.shared.subscriber.any (·.broken) = false := hbroken
      rwa [hx] at hany
    have hattended : s.Attended := by
      by_cases hstarting : s.Starting i
      · exact Or.inr ⟨i, hstarting⟩
      -- nothing the call relied on has gone since its load
      obtain ⟨hnoneLeft, hnoneFailed⟩ := hC hstarting
      rcases hrelied with (hattended | hcut) | hleft | hfailed
      · exact hattended
      · have hall : s.shared.subscriber.all (·.broken) = true := hcut
        rw [hx] at hall
        exact absurd (hx'.symm.trans hall) nofun
      · exact absurd hleft hnoneLeft
      · exact absurd hfailed hnoneFailed
    refine ⟨mid ++ [.act i (.subscribe c) .ok], [], next (.act i (.subscribe c) .ok) s,
      (List.append_nil _).symm, List.mem_append_left _ hset, ?_, ⟨x.subscribe c, ?_, ?_⟩, ?_⟩
    · rw [← List.cons_append, ← List.append_assoc]
      exact hr.snoc ha
    · show s.shared.subscriber.map _ = _
      rw [hx]
      rfl
    · show c ∈ (x.subscribe c).subscribed
      rw [Subscriber.subscribed, if_neg (by rw [show (x.subscribe c).broken = false from hx']
                                            exact Bool.false_ne_true)]
      exact Finset.mem_insert_self c x.channels
    · rcases hattended with ⟨w, hw⟩ | ⟨j, hj⟩
      · exact Or.inl ⟨w, hw.perform i _ _⟩
      by_cases hji : j = i
      · subst hji
        exact (hj.act ha).resolve_right hok
      · exact Or.inr ⟨j, hj.of_ne fun heq => hji (Option.some.inj heq).symm⟩
  · exact absurd rfl hok

/-- Whatever the state answers, the loop finds the key of the call. -/
theorem possible_of_keepsServing {call : Call Callback} {t : Stage} {b : Action Callback}
    {choice : Choice} (h : OnItsWay i c cb pre mid s call t)
    (ha : Enabled (.act i b choice) s)
    (hC : KeepsServing (pre ++ .call i (.subscribe c cb) :: mid) s (.act i b choice)) :
    (serving c cb).Possible t b (answer s.shared choice b) := by
  cases b with
  | callbackKeys =>
    obtain ⟨keys, rfl, hkeys⟩ := exists_order ha.2
    have hc : c ∈ s.shared.keys := hC call c cb h.caller h.operation
    rw [← hkeys, List.mem_toFinset] at hc
    exact hc
  | _ => trivial

/-- A step of the call itself. -/
theorem OnItsWay.next {call : Call Callback} {t : Stage} {b : Action Callback} {choice : Choice}
    (h : OnItsWay i c cb pre mid s call t) (ha : Enabled (.act i b choice) s)
    (hr : channel.Run initial (pre ++ .call i (.subscribe c cb) :: mid) s)
    (hC : KeepsServing (pre ++ .call i (.subscribe c cb) :: mid) s (.act i b choice)) :
    ∃ call' t', OnItsWay i c cb pre (mid ++ [.act i b choice]) (next (.act i b choice) s)
      call' t' := by
  obtain ⟨call', hcall', hhead⟩ := State.exists_call_of_head? ha.1
  obtain rfl : call = call' := Option.some.inj (h.caller.symm.trans hcall')
  have hallowed := h.obeys.allowed hhead
  have hobeys := h.obeys.step hhead (possible_of_keepsServing h ha hC)
  have hadvances := advances c cb s.shared choice t b
  generalize (serving c cb).after t b (answer s.shared choice b) = t' at hobeys hadvances
  have hcaller := callers_act h.caller b choice
  have hmem : ∀ {x : Label Callback}, x ∈ mid → x ∈ mid ++ [.act i b choice] :=
    fun hx => List.mem_append_left _ hx
  have hlast : Label.act i b choice ∈ mid ++ [.act i b choice] :=
    List.mem_append_right _ (List.mem_singleton_self _)
  refine ⟨_, t', hcaller, h.operation, hobeys, ?_, ?_, ?_, ?_, ?_⟩
  · -- a call that finds `running_` cleared goes on to claim it
    rintro rfl
    cases hadvances with
    | stay => exact h.notSkipped rfl
    | skip hs =>
      obtain rfl : choice = .ok := ha.2
      exact hobeys.allowed (hC hs call c cb h.caller h.operation)
  · intro ht'
    by_cases ht : t = .storing
    · subst ht
      cases hadvances with
      | stay => exact absurd rfl ht'
      | store =>
        obtain ⟨rfl, rfl⟩ := hallowed
        obtain rfl : choice = .ok := ha.2
        exact hlast
    · exact hmem (h.stored ht)
  · rintro rfl
    cases hadvances with
    | stay => exact (h.served rfl).snoc _
    | serve hok => exact served_of_subscribe ha hr (h.stored nofun) hok hC (h.relied rfl)
  · rintro rfl
    cases hadvances with
    | stay => exact (h.reported rfl).imp fun _ => hmem
    | report => exact ⟨choice, hlast⟩
  · rintro rfl
    rw [append_call_snoc]
    cases hadvances with
    | stay =>
      refine (h.relied rfl).next hr ha ?_
      rintro choice ⟨⟩
      exact hallowed
    | claim hs => exact Or.inl (Or.inl (attended_of_claims ha (tracks_claiming hr) hs))
    | commit hs =>
      -- the load has found the channel running
      obtain rfl : choice = .ok := ha.2
      have hr' := hr.snoc (show channel.Enabled (.act i .loadRunning .ok) s from ha)
      exact (attended_of_running hr' hs).imp_right Or.inr

end History

/-! ## A call between two loads -/

/-- A second call of `subscribe`, which finds the channel running, up to the load
that decides whether it subscribes. -/
def secondRun (i : ℕ) (c : Bytes) (cb : Callback) : List (Label Callback) :=
  [.act i (.lock .callbacksMutex) .ok, .act i (.setCallback c cb) .ok,
    .act i (.unlock .callbacksMutex) .ok, .act i .loadRunning .ok]

section Here

variable {throws : Bool} {s : State Unit} {a : Label Unit}

end Here

/-- The connection of the consumer thread breaks between the two loads. -/
def lostRun : List (Label Unit) :=
  secondRun 0 [98] () ++ [.consumer 0 .fail, .consumer 0 .storeRunning, .act 0 .loadRunning .ok]

end RedisChannel
