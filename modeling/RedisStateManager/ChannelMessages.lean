/-
# The messages of a run

Every published message has a number.  What `consume` returned has been looked up
by `on_message`, but for the message that the consumer thread has in hand, and
messages are returned in the order of their publication, each at most once
(`accounted`).  The callback that was found is copied for one message after the
other, for each at most once (`copied_sublist`).
-/
import RedisStateManager.ChannelState

namespace RedisChannel

open Redis

variable {Callback : Type}

/-! ## What a run received and looked up -/

/-- The message that the consumer thread has in hand and has not looked up. -/
def ConsumerPc.message? : ConsumerPc Callback → Option Message
  | .lockCallbacks m | .find m => some m
  | _ => none

/-- The message whose callback the consumer thread has found and not copied. -/
def ConsumerPc.toCopy? : ConsumerPc Callback → Option Message
  | .copy m => some m
  | _ => none

def Label.received? : Label Callback → Option Message
  | .consumer _ (.receive m) => some m
  | _ => none

def Label.dispatched? : Label Callback → Option Message
  | .consumer _ (.find m) => some m
  | _ => none

def Label.copied? : Label Callback → Option Message
  | .consumer _ (.copy _ m) => some m
  | _ => none

/-- The messages returned by `consume`, in order. -/
def received (tr : List (Label Callback)) : List Message := tr.filterMap Label.received?

/-- The messages that `on_message` has looked up, in order. -/
def dispatched (tr : List (Label Callback)) : List Message := tr.filterMap Label.dispatched?

/-- The messages whose callback `on_message` has copied, in order. -/
def copied (tr : List (Label Callback)) : List Message := tr.filterMap Label.copied?

namespace Shared

variable {s : Shared Callback}

/-- What the consumer thread has in hand, read off its control point. -/
def atHand {β : Type} (s : Shared Callback) (f : ConsumerPc Callback → Option β) : Option β :=
  (s.subscriptionThread.bind (s.consumers[·]?)).bind f

def inFlight (s : Shared Callback) : Option Message := s.atHand ConsumerPc.message?

def toCopy (s : Shared Callback) : Option Message := s.atHand ConsumerPc.toCopy?

/-- **A dangling iterator**: the consumer thread has found the entry of channel `c`, and
the entry has been removed before the thread copies the callback. -/
def Dangling (s : Shared Callback) (c : Bytes) : Prop :=
  ∃ m ∈ s.toCopy, m.channel = c ∧ c ∉ s.callbacks

/-- The messages received by the connection that `consume` has not returned. -/
def buffered (s : Shared Callback) : List Message := (s.subscriber.map (·.buffer)).getD []

theorem buffered_publish (c payload : Bytes) :
    (s.publish c payload).buffered = s.buffered ∨
      (s.publish c payload).buffered = s.buffered ++ [⟨s.published, c, payload⟩] := by
  show ((s.subscriber.map _).map _).getD [] = (s.subscriber.map _).getD [] ∨
    ((s.subscriber.map _).map _).getD [] = (s.subscriber.map _).getD [] ++ _
  cases s.subscriber with
  | none => exact Or.inl rfl
  | some u =>
    show (u.receive _).buffer = u.buffer ∨ (u.receive _).buffer = u.buffer ++ _
    unfold Subscriber.receive
    split
    · exact Or.inr rfl
    · exact Or.inl rfl

/-- Only a publication adds to what is buffered. -/
theorem buffered_perform (i : ℕ) (a : Action Callback) (choice : Choice) :
    ((s.perform i a choice).buffered.Sublist s.buffered ∧
      (s.perform i a choice).published = s.published) ∨
    ∃ c payload, s.perform i a choice = s.publish c payload := by
  unfold perform
  split
  · exact Or.inl ⟨List.Sublist.refl _, rfl⟩
  · cases a with
    | publish g c payload => exact Or.inr ⟨c, payload, rfl⟩
    | createSubscriber client => exact Or.inl ⟨List.nil_sublist _, rfl⟩
    | resetSubscriber => exact Or.inl ⟨List.nil_sublist _, rfl⟩
    | subscribe c =>
      refine Or.inl ⟨?_, rfl⟩
      show (((s.subscriber.map _).map _).getD []).Sublist ((s.subscriber.map _).getD [])
      cases s.subscriber <;> exact List.Sublist.refl _
    | unsubscribe c =>
      refine Or.inl ⟨?_, rfl⟩
      show (((s.subscriber.map _).map _).getD []).Sublist ((s.subscriber.map _).getD [])
      cases s.subscriber <;> exact List.Sublist.refl _
    | _ => exact Or.inl ⟨List.Sublist.refl _, rfl⟩

section AtHand

variable {β : Type} {f : ConsumerPc Callback → Option β}

/-- A thread that has something in hand stands where the control table says. -/
theorem exists_of_atHand {x : β} (h : x ∈ s.atHand f) :
    ∃ (w : ℕ) (pc : ConsumerPc Callback), s.consumers[w]? = some pc ∧ f pc = some x := by
  obtain ⟨pc, hpc, hx⟩ := Option.bind_eq_some_iff.mp h
  obtain ⟨w, -, hw⟩ := Option.bind_eq_some_iff.mp hpc
  exact ⟨w, pc, hw, hx⟩

theorem atHand_congr {g : ConsumerPc Callback → Option β}
    (h : ∀ pc, s.subscriptionThread.bind (s.consumers[·]?) = some pc → f pc = g pc) :
    s.atHand f = s.atHand g :=
  Option.bind_congr h

theorem exists_of_toCopy {m : Message} (h : m ∈ s.toCopy) :
    ∃ w : ℕ, s.consumers[w]? = some (.copy m) := by
  obtain ⟨w, pc, hw, hm⟩ := exists_of_atHand h
  cases pc with
  | copy m' =>
    cases hm
    exact ⟨w, hw⟩
  | _ => cases hm

/-- A thread that is joined, or has just started, has nothing in hand. -/
theorem atHand_perform {i : ℕ} {a : Action Callback} {choice : Choice}
    (h : Possible i s choice a) (hexited : f .exited = none) (hstarted : f .testRunning = none) :
    (s.perform i a choice).atHand f = s.atHand f := by
  by_cases hjoin : a = .join
  · subst hjoin
    obtain ⟨rfl, hthread⟩ := h
    show none = s.atHand f
    rw [atHand, hthread]
    exact hexited.symm
  by_cases hstart : a = .startThread
  · subst hstart
    obtain ⟨rfl, hnone⟩ := h
    show ((s.consumers ++ [.testRunning])[s.consumers.length]?).bind f = s.atHand f
    rw [atHand, hnone, List.getElem?_concat_length]
    exact hstarted
  · obtain ⟨hcons, hthread⟩ := s.threads_perform (i := i) choice hjoin hstart
    rw [atHand, atHand, hcons, hthread]

/-- The thread that makes a step is the one that has something in hand. -/
theorem atHand_consumer {w : ℕ} {a : ConsumerAct Callback} (hone : s.OneConsumer)
    (hsrc : s.consumers[w]? = some (consumerMove w s a).source) :
    s.atHand f = f (consumerMove w s a).source ∧
      (s.consumer w a).atHand f = f (consumerMove w s a).target := by
  have hthread : s.subscriptionThread = some w := hone w ⟨_, hsrc, source_ne_exited w s a⟩
  constructor
  · rw [atHand, hthread]
    show (s.consumers[w]?).bind f = _
    rw [hsrc]
    rfl
  · rw [atHand, subscriptionThread_consumer, hthread]
    show ((s.consumer w a).consumers[w]?).bind f = _
    rw [getElem?_consumer_self hsrc]
    rfl

/-- No call ends the handling of an error. -/
theorem failing_perform {i : ℕ} {a : Action Callback} {choice : Choice}
    (h : Possible i s choice a) : (s.perform i a choice).failing = s.failing := by
  have heq : ∀ s : Shared Callback,
      s.failing = (s.atHand fun pc => if pc.isFailed then some () else none).isSome := by
    intro s
    unfold failing atHand
    cases s.subscriptionThread.bind (s.consumers[·]?) with
    | none => rfl
    | some pc => cases hpc : pc.isFailed <;> simp [hpc]
  rw [heq, heq, atHand_perform h rfl rfl]

end AtHand

/-- What `consume` returns is the oldest message. -/
theorem buffered_receive {w : ℕ} {m : Message} (h : s.nextMessage = some m) :
    s.buffered = m :: (s.consumer w (.receive m)).buffered := by
  obtain ⟨u, hu, hm⟩ := Option.bind_eq_some_iff.mp h
  show (s.subscriber.map _).getD [] = m :: ((s.subscriber.map _).map _).getD []
  rw [hu]
  split at hm
  · exact absurd hm nofun
  · exact (List.cons_head?_tail hm).symm

theorem buffered_consumer {w : ℕ} {a : ConsumerAct Callback} (ha : ∀ m, a ≠ .receive m) :
    (s.consumer w a).buffered = s.buffered := by
  cases a with
  | receive m => exact absurd rfl (ha m)
  | fail =>
    show ((s.subscriber.map _).map _).getD [] = (s.subscriber.map _).getD []
    cases s.subscriber <;> rfl
  | _ => rfl

theorem published_consumer (w : ℕ) (a : ConsumerAct Callback) :
    (s.consumer w a).published = s.published := by
  cases a <;> rfl

end Shared

/-- **Every message is accounted for**: what `consume` returned has been looked up,
but for the message in hand; messages are returned in the order of their
publication, and so will be those still buffered. -/
structure Accounted (tr : List (Label Callback)) (s : Shared Callback) : Prop where
  inFlight : received tr = dispatched tr ++ s.inFlight.toList
  ordered : (received tr ++ s.buffered).Pairwise (·.id < ·.id)
  numbered : ∀ m ∈ received tr ++ s.buffered, m.id < s.published

section Accounts

variable {tr : List (Label Callback)} {s : Shared Callback}

theorem received_snoc (tr : List (Label Callback)) (a : Label Callback) :
    received (tr ++ [a]) = received tr ++ a.received?.toList := by
  rw [received, List.filterMap_append]
  cases h : a.received? <;> simp [received, h]

theorem dispatched_snoc (tr : List (Label Callback)) (a : Label Callback) :
    dispatched (tr ++ [a]) = dispatched tr ++ a.dispatched?.toList := by
  rw [dispatched, List.filterMap_append]
  cases h : a.dispatched? <;> simp [dispatched, h]

/-- A step that neither receives, looks up nor publishes a message. -/
theorem Accounted.quiet {s' : Shared Callback} {a : Label Callback} (hs : Accounted tr s)
    (hreceived : a.received? = none) (hdispatched : a.dispatched? = none)
    (hflight : s'.inFlight = s.inFlight) (hbuffered : s'.buffered.Sublist s.buffered)
    (hpublished : s'.published = s.published) : Accounted (tr ++ [a]) s' := by
  have htr : received (tr ++ [a]) = received tr := by
    rw [received_snoc, hreceived, Option.toList_none, List.append_nil]
  have htr' : dispatched (tr ++ [a]) = dispatched tr := by
    rw [dispatched_snoc, hdispatched, Option.toList_none, List.append_nil]
  have hsub : (received tr ++ s'.buffered).Sublist (received tr ++ s.buffered) :=
    (List.Sublist.refl _).append hbuffered
  refine ⟨?_, ?_, fun m hm => ?_⟩
  · rw [htr, htr', hflight]
    exact hs.inFlight
  · rw [htr]
    exact hs.ordered.sublist hsub
  · rw [htr] at hm
    rw [hpublished]
    exact hs.numbered m (hsub.subset hm)

/-- A publication has the number that comes next. -/
theorem Accounted.publish {a : Label Callback} (hs : Accounted tr s)
    (hreceived : a.received? = none) (hdispatched : a.dispatched? = none) (c payload : Bytes) :
    Accounted (tr ++ [a]) (s.publish c payload) := by
  have htr : received (tr ++ [a]) = received tr := by
    rw [received_snoc, hreceived, Option.toList_none, List.append_nil]
  have htr' : dispatched (tr ++ [a]) = dispatched tr := by
    rw [dispatched_snoc, hdispatched, Option.toList_none, List.append_nil]
  refine ⟨?_, ?_, ?_⟩
  · rw [htr, htr']
    exact hs.inFlight
  · rw [htr]
    rcases s.buffered_publish c payload with h | h
    · rw [h]
      exact hs.ordered
    · rw [h, ← List.append_assoc, List.pairwise_append]
      refine ⟨hs.ordered, List.pairwise_singleton _ _, fun m hm m' hm' => ?_⟩
      obtain rfl := List.mem_singleton.mp hm'
      exact hs.numbered m hm
  · rw [htr]
    intro m hm
    show m.id < s.published + 1
    rcases s.buffered_publish c payload with h | h
    · rw [h] at hm
      exact Nat.lt_succ_of_lt (hs.numbered m hm)
    · rw [h, ← List.append_assoc, List.mem_append, List.mem_singleton] at hm
      rcases hm with hm | rfl
      · exact Nat.lt_succ_of_lt (hs.numbered m hm)
      · exact Nat.lt_succ_self _

theorem Accounted.consumer {w : ℕ} {a : ConsumerAct Callback} (hs : Accounted tr s)
    (hone : s.OneConsumer) (hsrc : s.consumers[w]? = some (consumerMove w s a).source)
    (hguard : (consumerMove w s a).guard) :
    Accounted (tr ++ [.consumer w a]) (s.consumer w a) := by
  obtain ⟨hbefore, hafter⟩ : s.inFlight = (consumerMove w s a).source.message? ∧
      (s.consumer w a).inFlight = (consumerMove w s a).target.message? :=
    Shared.atHand_consumer hone hsrc
  cases a with
  | receive m =>
    -- the oldest buffered message is now in hand
    have hbuffered : s.buffered = m :: (s.consumer w (.receive m)).buffered :=
      Shared.buffered_receive hguard
    have hsplit : received (tr ++ [.consumer w (.receive m)]) ++
        (s.consumer w (.receive m)).buffered = received tr ++ s.buffered := by
      rw [received_snoc, hbuffered, List.append_assoc]
      rfl
    refine ⟨?_, ?_, ?_⟩
    · have hnone : s.inFlight.toList = [] := congrArg Option.toList hbefore
      rw [received_snoc, dispatched_snoc, hafter, hs.inFlight, hnone, List.append_nil]
      exact congrArg (· ++ [m]) (List.append_nil _).symm
    · rw [hsplit]
      exact hs.ordered
    · rw [hsplit]
      exact hs.numbered
  | find m =>
    have hbuffered : (s.consumer w (.find m)).buffered = s.buffered :=
      Shared.buffered_consumer fun _ => nofun
    refine ⟨?_, ?_, ?_⟩
    · have hsome : s.inFlight.toList = [m] := congrArg Option.toList hbefore
      have hnone : (s.consumer w (.find m)).inFlight = none := by
        rw [hafter]
        show ConsumerPc.message? (if _ then _ else _) = _
        split <;> rfl
      rw [received_snoc, dispatched_snoc, hnone, hs.inFlight, hsome]
      exact (List.append_nil _).trans (List.append_nil _).symm
    · rw [received_snoc, hbuffered]
      exact (List.append_nil (received tr)).symm ▸ hs.ordered
    · rw [received_snoc, hbuffered, Shared.published_consumer]
      exact (List.append_nil (received tr)).symm ▸ hs.numbered
  | testRunning =>
    -- the loop goes on or ends, with no message in hand
    refine hs.quiet rfl rfl (hafter.trans ?_) (List.Sublist.refl _) rfl
    rw [hbefore]
    show ConsumerPc.message? (if s.running then _ else _) = _
    cases s.running <;> rfl
  | _ =>
    refine hs.quiet rfl rfl (hafter.trans hbefore.symm) ?_ (Shared.published_consumer w _)
    rw [Shared.buffered_consumer]
    exact fun _ => nofun

/-- **Every run accounts for its messages.** -/
theorem accounted {s : State Callback} (h : channel.Run initial tr s) : Accounted tr s.shared := by
  refine h.induct (P := fun tr s => Accounted tr s.shared)
    ⟨rfl, .nil, fun _ hm => absurd hm List.not_mem_nil⟩ fun tr s a hr hs ha => ?_
  cases a with
  | act i b choice =>
    rcases Shared.buffered_perform i b choice with ⟨hbuffered, hpublished⟩ | ⟨c, payload, heq⟩
    · exact hs.quiet rfl rfl (Shared.atHand_perform ha.2 rfl rfl) hbuffered hpublished
    · show Accounted _ (s.shared.perform i b choice)
      rw [heq]
      exact hs.publish rfl rfl c payload
  | consumer w b => exact hs.consumer (oneConsumer hr) ha.1 ha.2
  | publish c payload => exact hs.publish rfl rfl c payload
  | _ => exact hs.quiet rfl rfl rfl (List.Sublist.refl _) rfl

/-- Messages are looked up in the order of their publication. -/
theorem dispatched_ordered {s : State Callback} (h : channel.Run initial tr s) :
    (dispatched tr).Pairwise (·.id < ·.id) := by
  -- what was looked up is a prefix of what was received
  refine (accounted h).ordered.sublist ?_
  rw [(accounted h).inFlight, List.append_assoc]
  exact List.sublist_append_left _ _

theorem copied_snoc (tr : List (Label Callback)) (a : Label Callback) :
    copied (tr ++ [a]) = copied tr ++ a.copied?.toList := by
  rw [copied, List.filterMap_append]
  cases h : a.copied? <;> simp [copied, h]

/-- **One step** leaves the callbacks that were found to be copied in turn. -/
theorem copied_next {s : State Callback} (hone : s.shared.OneConsumer) {a : Label Callback}
    (ha : Enabled a s) :
    (a.copied?.toList ++ (next a s).shared.toCopy.toList).Sublist
      (s.shared.toCopy.toList ++ a.dispatched?.toList) := by
  cases a with
  | act i b choice =>
    show ((s.shared.perform i b choice).toCopy.toList).Sublist _
    rw [Shared.toCopy, Shared.atHand_perform ha.2 rfl rfl]
    exact List.sublist_append_left _ _
  | consumer w b =>
    obtain ⟨hbefore, hafter⟩ := Shared.atHand_consumer (f := ConsumerPc.toCopy?) hone ha.1
    show (_ ++ ((s.shared.consumer w b).atHand _).toList).Sublist ((s.shared.atHand _).toList ++ _)
    rw [hbefore, hafter]
    cases b with
    | testRunning =>
      show (ConsumerPc.toCopy? (if s.shared.running then _ else _)).toList.Sublist []
      cases s.shared.running <;> exact .slnil
    | find m =>
      -- the message is to be copied if its callback has been found
      show (ConsumerPc.toCopy? (if _ then _ else _)).toList.Sublist [m]
      split
      · exact .refl _
      · exact List.nil_sublist _
    | copy cb m => exact .refl _
    | _ => exact .slnil
  | _ => exact List.sublist_append_left _ _

/-- **Callbacks are copied** for messages that were looked up, in this order. -/
theorem copied_sublist {s : State Callback} (h : channel.Run initial tr s) :
    (copied tr ++ s.shared.toCopy.toList).Sublist (dispatched tr) := by
  refine h.induct (P := fun tr s => (copied tr ++ s.shared.toCopy.toList).Sublist (dispatched tr))
    .slnil fun tr s a hr hs ha => ?_
  rw [copied_snoc, dispatched_snoc, List.append_assoc]
  have hstep := (copied_next (oneConsumer hr) ha).append_left (copied tr)
  rw [← List.append_assoc (copied tr) s.shared.toCopy.toList] at hstep
  exact hstep.trans (hs.append_right _)

end Accounts

end RedisChannel
