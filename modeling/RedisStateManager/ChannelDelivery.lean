/-
# Delivery

What the channel is for: a last-writer-wins map from channels to callbacks, and
one task for each message consumed on a channel of the map (`Registry`).  A
sequence of calls refines it (`Linearizes`, `refines`): every call takes effect
once between its beginning and its return, and every look-up is one consumption.
So a message that is looked up while its channel is registered is handed over
exactly once (`count_of_registered`); and after a connection error the next
`subscribe` subscribes every registered channel again (`resubscribed`).  Two windows
are to be left alone (`Heeds`): an entry must not be erased between `on_message`'s
look-up and its copy, nor `running_` be read between a connection error and the store
of its handler (`not_delivers_unheardRun`).
-/
import RedisStateManager.ChannelMessages

namespace RedisChannel

open Redis Program

variable {Callback : Type}

/-! ## The abstract channel -/

/-- The registered callbacks and the tasks handed to the pool. -/
structure Registry (Callback : Type) where
  callbacks : Bytes → Option Callback
  tasks : List (Callback × Message)

inductive Event (Callback : Type)
  | operation (op : Operation Callback)
  | consume (m : Message)

/-- What an operation does to the registered callbacks. -/
def Operation.apply (callbacks : Bytes → Option Callback) :
    Operation Callback → Bytes → Option Callback
  | subscribe c cb => Function.update callbacks c (some cb)
  | unsubscribe [] => fun _ => none
  | unsubscribe c => Function.update callbacks c none
  | publish _ _ | storage _ => callbacks

namespace Registry

def empty : Registry Callback := ⟨fun _ => none, []⟩

/-- A consumed message becomes one task if its channel is registered. -/
def step (r : Registry Callback) : Event Callback → Registry Callback
  | .operation op => { r with callbacks := op.apply r.callbacks }
  | .consume m =>
    { r with tasks := r.tasks ++ ((r.callbacks m.channel).map (·, m)).toList }

def run (ev : List (Event Callback)) : Registry Callback := ev.foldl step empty

theorem run_concat (ev : List (Event Callback)) (e : Event Callback) :
    run (ev ++ [e]) = (run ev).step e := by
  simp [run]

end Registry

/-- A label that is neither the beginning nor the end of a call, nor a look-up. -/
def Label.silent : Label Callback → Bool
  | .call .. | .ret .. | .consumer _ (.find _) => false
  | _ => true

/-- `Linearizes tr ev now`: in the history `tr`, every call takes effect once
between its beginning and its return, and every look-up is a consumption, in the
order `ev`; `now` is the call in progress, and whether it has taken effect. -/
inductive Linearizes :
    List (Label Callback) → List (Event Callback) → Option (Operation Callback × Bool) → Prop
  | nil : Linearizes [] [] none
  | call {tr : List (Label Callback)} {ev : List (Event Callback)} (i : ℕ)
      (op : Operation Callback) :
      Linearizes tr ev none → Linearizes (tr ++ [.call i op]) ev (some (op, false))
  | effect {tr : List (Label Callback)} {ev : List (Event Callback)} {op : Operation Callback} :
      Linearizes tr ev (some (op, false)) →
      Linearizes tr (ev ++ [.operation op]) (some (op, true))
  | ret {tr : List (Label Callback)} {ev : List (Event Callback)} {op : Operation Callback} (i : ℕ)
      (outcome : Outcome) :
      Linearizes tr ev (some (op, true)) → Linearizes (tr ++ [.ret i op outcome]) ev none
  | consume {tr : List (Label Callback)} {ev : List (Event Callback)}
      {now : Option (Operation Callback × Bool)} (w : ℕ) (m : Message) :
      Linearizes tr ev now →
      Linearizes (tr ++ [.consumer w (.find m)]) (ev ++ [.consume m]) now
  | silent {tr : List (Label Callback)} {ev : List (Event Callback)}
      {now : Option (Operation Callback × Bool)} {a : Label Callback} (ha : a.silent = true) :
      Linearizes tr ev now → Linearizes (tr ++ [a]) ev now

/-! ## What is handed over -/

/-- The callback and the message that the consumer thread is about to give to `addTask`. -/
def ConsumerPc.handing? (callbacks : AList fun _ : Bytes => Callback) :
    ConsumerPc Callback → Option (Callback × Message)
  | .copy m => (callbacks.lookup m.channel).map (·, m)
  | .handOver cb m => some (cb, m)
  | _ => none

/-- The tasks handed to the pool, and the one on its way there. -/
def Shared.handing (s : Shared Callback) : List (Callback × Message) :=
  s.tasks ++ (s.atHand (ConsumerPc.handing? s.callbacks)).toList

/-- What a look-up finds. -/
def Label.found? (s : Shared Callback) : Label Callback → Option (Callback × Message)
  | .consumer _ (.find m) => (s.callbacks.lookup m.channel).map (·, m)
  | _ => none

/-- **The two windows**: no entry is removed that `on_message` has found and not copied
yet, and no call reads `running_` as set when the handler of a connection error is about
to clear it. -/
def Heeds (s : State Callback) : Label Callback → Prop
  | .act _ (.eraseCallback c) _ => ∀ m ∈ s.shared.toCopy, m.channel ≠ c
  | .act _ .clearCallbacks _ => s.shared.toCopy = none
  | .act _ .loadRunning _ => s.shared.running = true → s.shared.failing = false
  | _ => True

section Handing

variable {s : State Callback} {i : ℕ} {b : Action Callback} {choice : Choice}

/-- While `on_message` has found an entry, no call adds to `callbacks_`. -/
theorem setCallback_ne_of_toCopy (hs : Ordered s) {m : Message} (hm : m ∈ s.shared.toCopy)
    (ha : Enabled (.act i b choice) s) (c : Bytes) (cb : Callback) : b ≠ .setCallback c cb := by
  rintro rfl
  obtain ⟨w, hw⟩ := Shared.exists_of_toCopy hm
  have hconsumer : s.shared.owner .callbacksMutex = some (.consumer w) := by
    refine heldBy_has.mp ?_
    rw [hs.consumer w, hw]
    rfl
  obtain ⟨call, hcall, hhead⟩ := State.exists_call_of_head? ha.1
  have hcaller : s.shared.owner .callbacksMutex = some (.caller i) :=
    heldBy_has.mp ((hs.caller i call hcall).allowed hhead)
  exact absurd (hconsumer.symm.trans hcaller) nofun

/-- The entry that was found stays as it is. -/
theorem lookup_of_toCopy (hs : Ordered s) (ha : Enabled (.act i b choice) s)
    (hc : Heeds s (.act i b choice)) {m : Message} (hm : m ∈ s.shared.toCopy) :
    (s.shared.perform i b choice).callbacks.lookup m.channel =
      s.shared.callbacks.lookup m.channel := by
  have hset := setCallback_ne_of_toCopy hs hm ha
  unfold Shared.perform
  split
  · rfl
  · cases b with
    | setCallback c cb => exact absurd rfl (hset c cb)
    | eraseCallback c => exact AList.lookup_erase_ne (hc m hm)
    | clearCallbacks =>
      have hnone : s.shared.toCopy = none := hc
      exact absurd (hnone.symm.trans hm) nofun
    | _ => rfl

theorem handing_act (hs : Ordered s) (ha : Enabled (.act i b choice) s)
    (hc : Heeds s (.act i b choice)) :
    (s.shared.perform i b choice).handing = s.shared.handing := by
  rw [Shared.handing, Shared.handing, Shared.tasks_perform, Shared.atHand_perform ha.2 rfl rfl]
  refine congrArg (s.shared.tasks ++ Option.toList ·) (Shared.atHand_congr fun pc hpc => ?_)
  cases pc with
  | copy m =>
    have hm : m ∈ s.shared.toCopy := Option.bind_eq_some_iff.mpr ⟨_, hpc, rfl⟩
    exact congrArg (Option.map (·, m)) (lookup_of_toCopy hs ha hc hm)
  | _ => rfl

theorem handing_consumer {s : Shared Callback} (hone : s.OneConsumer) {w : ℕ}
    {b : ConsumerAct Callback} (hsrc : s.consumers[w]? = some (consumerMove w s b).source)
    (hguard : (consumerMove w s b).guard) :
    (s.consumer w b).handing = s.handing ++ ((Label.consumer w b).found? s).toList := by
  obtain ⟨hbefore, hafter⟩ :=
    Shared.atHand_consumer (f := ConsumerPc.handing? s.callbacks) hone hsrc
  rw [Shared.handing, Shared.callbacks_consumer, hafter, Shared.handing, hbefore]
  cases b with
  | find m =>
    -- the entry, if there is one, is what the thread goes on with
    show s.tasks ++ (ConsumerPc.handing? _ (if _ then _ else _)).toList = s.tasks ++ [] ++
      ((s.callbacks.lookup m.channel).map (·, m)).toList
    rw [List.append_nil]
    cases hlookup : s.callbacks.lookup m.channel with
    | none => rfl
    | some cb => simp [ConsumerPc.handing?, hlookup]
  | copy cb m =>
    have hlookup : s.callbacks.lookup m.channel = some cb := hguard
    show s.tasks ++ [(cb, m)] = s.tasks ++ ((s.callbacks.lookup m.channel).map (·, m)).toList ++ []
    rw [hlookup]
    exact (List.append_nil _).symm
  | testRunning =>
    show s.tasks ++ (ConsumerPc.handing? _ (if s.running then _ else _)).toList =
      s.tasks ++ [] ++ []
    cases s.running <;> simp [ConsumerPc.handing?]
  | handOver cb m => rfl
  | _ => exact (List.append_nil _).symm

/-- **What a step adds**: the callback and the message that a look-up has found. -/
theorem handing_next {tr : List (Label Callback)} {a : Label Callback}
    (h : channel.Run initial tr s) (ha : Enabled a s) (hc : Heeds s a) :
    (next a s).shared.handing = s.shared.handing ++ (a.found? s.shared).toList := by
  cases a with
  | act i b choice => exact (handing_act (ordered h) ha hc).trans (List.append_nil _).symm
  | consumer w b => exact handing_consumer (oneConsumer h) ha.1 ha.2
  | _ => exact (List.append_nil _).symm

end Handing

/-! ## Facts about histories -/

/-- A call that takes channel `c` out of the map. -/
def Operation.unsubscribes (c : Bytes) : Operation Callback → Bool
  | unsubscribe c' => decide (c' = c) || c'.isEmpty
  | _ => false

def Label.registers (c : Bytes) (b : Bool) : Label Callback → Bool
  | .ret _ (.subscribe c' _) _ => b || decide (c' = c)
  | .call _ op => b && !op.unsubscribes c
  | _ => b

/-- Whether a call of `subscribe(c)` has returned, and no `unsubscribe` of `c` has
begun since. -/
def registered (c : Bytes) (tr : List (Label Callback)) : Bool := tr.foldl (Label.registers c) false

theorem registered_snoc (c : Bytes) (tr : List (Label Callback)) (a : Label Callback) :
    registered c (tr ++ [a]) = a.registers c (registered c tr) := by
  simp [registered]

theorem Operation.apply_isSome {op : Operation Callback} {c : Bytes}
    (hop : op.unsubscribes c = false) {callbacks : Bytes → Option Callback}
    (h : (callbacks c).isSome = true) : (op.apply callbacks c).isSome = true := by
  cases op with
  | subscribe c' cb =>
    show (Function.update callbacks c' (some cb) c).isSome = true
    by_cases hc : c = c'
    · subst hc
      rw [Function.update_self]
      rfl
    · rwa [Function.update_of_ne hc]
  | unsubscribe c' =>
    cases c' with
    | nil => exact absurd hop (by simp [unsubscribes])
    | cons b bs =>
      have hne : c ≠ b :: bs := by
        rintro rfl
        exact absurd hop (by simp [unsubscribes])
      show (Function.update callbacks (b :: bs) none c).isSome = true
      rwa [Function.update_of_ne hne]
  | publish c' payload => exact h
  | storage o => exact h

section Histories

variable {tr : List (Label Callback)} {ev : List (Event Callback)}
  {now : Option (Operation Callback × Bool)}

/-- A channel that the history registers has a callback, and the call in progress
does not take it out. -/
theorem Linearizes.isSome_of_registered (h : Linearizes tr ev now) (c : Bytes) :
    (registered c tr = true → ((Registry.run ev).callbacks c).isSome = true ∧
      ∀ op t, now = some (op, t) → op.unsubscribes c = false) ∧
    ∀ cb, now = some (.subscribe c cb, true) → ((Registry.run ev).callbacks c).isSome = true := by
  induction h with
  | nil => exact ⟨nofun, nofun⟩
  | @call tr ev i op h ih =>
    refine ⟨fun hreg => ?_, nofun⟩
    rw [registered_snoc] at hreg
    obtain ⟨hbefore, hop⟩ := (Bool.and_eq_true_iff).mp hreg
    refine ⟨(ih.1 hbefore).1, ?_⟩
    rintro op' t ⟨⟩
    simpa using hop
  | @effect tr ev op h ih =>
    rw [Registry.run_concat]
    refine ⟨fun hreg => ?_, ?_⟩
    · obtain ⟨hsome, hop⟩ := ih.1 hreg
      refine ⟨Operation.apply_isSome (hop _ _ rfl) hsome, ?_⟩
      rintro op' t ⟨⟩
      exact hop _ _ rfl
    · rintro cb ⟨⟩
      show (((Operation.subscribe c cb).apply (Registry.run ev).callbacks) c).isSome = true
      rw [Operation.apply, Function.update_self]
      rfl
  | @ret tr ev op i outcome h ih =>
    refine ⟨fun hreg => ⟨?_, nofun⟩, nofun⟩
    rw [registered_snoc] at hreg
    cases op with
    | subscribe c' cb =>
      rcases (Bool.or_eq_true_iff).mp hreg with hbefore | hc
      · exact (ih.1 hbefore).1
      · obtain rfl : c' = c := of_decide_eq_true hc
        exact ih.2 cb rfl
    | _ => exact (ih.1 hreg).1
  | @consume tr ev now w m h ih =>
    rw [Registry.run_concat]
    refine ⟨fun hreg => ih.1 ?_, ih.2⟩
    rwa [registered_snoc] at hreg
  | @silent tr ev now a ha h ih =>
    refine ⟨fun hreg => ih.1 ?_, ih.2⟩
    rw [registered_snoc] at hreg
    cases a with
    | call i op => exact absurd ha nofun
    | ret i op outcome => exact absurd ha nofun
    | _ => exact hreg

/-- There is at most one task for each look-up. -/
theorem Linearizes.tasks_sublist (h : Linearizes tr ev now) :
    ((Registry.run ev).tasks.map Prod.snd).Sublist (dispatched tr) := by
  induction h with
  | nil => exact List.Sublist.refl _
  | effect h ih => rwa [Registry.run_concat]
  | @consume tr ev now w m h ih =>
    rw [Registry.run_concat, dispatched_snoc]
    show (List.map Prod.snd ((Registry.run ev).tasks ++ _)).Sublist (dispatched tr ++ [m])
    rw [List.map_append]
    refine ih.append ?_
    cases (Registry.run ev).callbacks m.channel with
    | none => exact List.nil_sublist _
    | some cb => exact List.Sublist.refl _
  | call i op h ih | ret i outcome h ih | silent ha h ih =>
    rw [dispatched_snoc]
    exact ih.trans (List.sublist_append_left _ _)

end Histories

/-! ## Where a call takes effect -/

/-- The call erases the callback of channel `c`, if there is one. -/
def Operation.erases (c : Bytes) : Operation Callback → Bool
  | unsubscribe c' => decide (c' = c ∧ c ≠ [])
  | _ => false

def Operation.isSubscribe : Operation Callback → Bool
  | subscribe _ _ => true
  | _ => false

/-- A call changes `callbacks_` once, as its operation says; `true` means that it
has.  Only `subscribe` sets `running_`.  No command throws, and a call of
`unsubscribe()` finds `running_` set. -/
def commitProtocol (op : Operation Callback) : Protocol (Action Callback) Answer Bool where
  Allowed t
    | .setCallback c cb => t = false ∧ op = .subscribe c cb
    | .eraseCallback c => t = false ∧ op.erases c = true
    | .clearCallbacks => t = false ∧ op = .unsubscribe []
    | .storeRunning true | .compareExchange => op.isSubscribe = true
    | _ => True
  Possible _
    | .loadRunning, running => op = .unsubscribe [] → running = true
    | .createSubscriber _, ok | .onMessage, ok | .subscribe _, ok | .unsubscribe _, ok => ok = true
    | _, _ => True
  after t
    | .setCallback _ _, _ | .eraseCallback _, _ | .clearCallbacks, _ => true
    | .findCallback c, found => if found = false ∧ op.erases c = true then true else t
    | _, _ => t

section Calls

variable {op : Operation Callback} {t : Bool}

theorem getClient_commits {post : ℕ → Bool → Prop} (h : ∀ g, post g t) :
    (getClient : Procedure Callback ℕ).Obeys (commitProtocol op) post t := by
  refine ⟨trivial, fun _ _ => ⟨trivial, fun _ _ => ⟨trivial, fun alive _ => ?_⟩⟩⟩
  refine ⟨trivial, fun _ _ => ?_⟩
  cases alive with
  | true => exact ⟨trivial, fun g _ => ⟨trivial, fun _ _ => h g⟩⟩
  | false =>
    exact ⟨trivial, fun _ _ => ⟨trivial, fun _ _ => ⟨trivial, fun _ _ =>
      ⟨trivial, fun g _ => ⟨trivial, fun _ _ => h g⟩⟩⟩⟩⟩

theorem underLock_commits {command : Procedure Callback Bool} {post : Bool → Bool → Prop}
    (hcommand : command.Obeys (commitProtocol op) (fun ok t' => ok = true ∧ t' = t) t)
    (h : post true t) :
    (underLock command).Obeys (commitProtocol op) post t := by
  refine obeys_bind.mpr ⟨trivial, fun _ _ => ⟨trivial, fun _ _ => ⟨trivial, fun _ _ => ?_⟩⟩⟩
  refine obeys_bind.mpr (hcommand.mono ?_)
  rintro _ _ ⟨rfl, rfl⟩
  exact ⟨trivial, fun _ _ => h⟩

theorem forEach_commits {command : Bytes → Procedure Callback Bool} {post : Bool → Bool → Prop}
    (hcommand : ∀ key, (command key).Obeys (commitProtocol op) (fun ok t' => ok = true ∧ t' = t) t)
    (h : post true t) (keys : List Bytes) :
    (forEach command keys).Obeys (commitProtocol op) post t := by
  induction keys with
  | nil => exact h
  | cons key keys ih => exact obeys_bind.mpr (underLock_commits (hcommand key) ih)

theorem startConsumeThread_commits {post : Unit → Bool → Prop} (hop : op.isSubscribe = true)
    (h : post () t) :
    (startConsumeThread : Procedure Callback Unit).Obeys (commitProtocol op) post t := by
  refine ⟨trivial, fun started _ => ?_⟩
  cases started with
  | true => exact ⟨trivial, fun _ _ => ⟨hop, fun _ _ => ⟨trivial, fun _ _ => h⟩⟩⟩
  | false => exact ⟨hop, fun _ _ => ⟨trivial, fun _ _ => h⟩⟩

theorem initializeSubscriber_commits {post : Option Bool → Bool → Prop}
    (hop : op.isSubscribe = true) (h : post (some true) t) :
    (initializeSubscriber : Procedure Callback (Option Bool)).Obeys (commitProtocol op) post t := by
  refine obeys_bind.mpr (getClient_commits fun client => ?_)
  refine obeys_bind.mpr (underLock_commits ⟨trivial, fun ok hok => ⟨hok, rfl⟩⟩ ?_)
  refine obeys_bind.mpr (underLock_commits ⟨trivial, fun ok hok => ⟨hok, rfl⟩⟩ ?_)
  refine obeys_act_ret_bind.mpr ⟨trivial, fun _ _ => ?_⟩
  refine obeys_act_ret_bind.mpr ⟨trivial, fun keys _ => ?_⟩
  refine obeys_bind.mpr (forEach_commits ?_ ?_ keys)
  · exact fun key => ⟨trivial, fun ok hok => ⟨hok, rfl⟩⟩
  · exact obeys_act_ret_bind.mpr ⟨trivial, fun _ _ =>
      obeys_bind.mpr (startConsumeThread_commits hop h)⟩

/-- What every call leaves: it has taken effect. -/
def committed (_ : Outcome) (t : Bool) : Prop := t = true

theorem subscribe_commits (c : Bytes) (cb : Callback) :
    (subscribe c cb).Obeys (commitProtocol (.subscribe c cb)) committed false := by
  refine obeys_act_ret_bind.mpr ⟨trivial, fun _ _ => ?_⟩
  refine obeys_act_ret_bind.mpr ⟨⟨rfl, rfl⟩, fun _ _ => ?_⟩
  refine obeys_act_ret_bind.mpr ⟨trivial, fun _ _ => ?_⟩
  have hrunning : (subscribeRunning c).Obeys (commitProtocol (.subscribe c cb)) committed true := by
    refine obeys_act_ret_bind.mpr ⟨trivial, fun running _ => ?_⟩
    cases running with
    | false => exact rfl
    | true => exact obeys_bind.mpr (underLock_commits ⟨trivial, fun ok hok => ⟨hok, rfl⟩⟩ rfl)
  -- both branches come after `callbacks_[channel] = callback`
  refine obeys_bind.mpr (obeys_act_ret_bind.mpr ⟨trivial, fun running _ => ?_⟩)
  cases running with
  | true => exact hrunning
  | false =>
    refine ⟨rfl, fun first _ => ?_⟩
    cases first with
    | false => exact hrunning
    | true => exact obeys_bind.mpr (initializeSubscriber_commits rfl rfl)

theorem stopIfEmpty_commits :
    (stopIfEmpty : Procedure Callback Outcome).Obeys (commitProtocol op) committed true := by
  refine obeys_act_ret_bind.mpr ⟨trivial, fun empty _ => ?_⟩
  cases empty with
  | false => exact rfl
  | true => exact ⟨trivial, fun _ _ => rfl⟩

theorem unsubscribeAll_commits :
    (unsubscribeAll : Procedure Callback Outcome).Obeys (commitProtocol (.unsubscribe [])) committed
      false := by
  refine obeys_act_ret_bind.mpr ⟨trivial, fun _ _ => ?_⟩
  refine obeys_act_ret_bind.mpr ⟨trivial, fun _ _ => ?_⟩
  refine obeys_act_ret_bind.mpr ⟨trivial, fun keys _ => ?_⟩
  refine obeys_bind.mpr (forEach_commits ?_ ?_ keys)
  · exact fun key => ⟨trivial, fun ok hok => ⟨hok, rfl⟩⟩
  · exact ⟨trivial, fun _ _ => ⟨⟨rfl, rfl⟩, fun _ _ => rfl⟩⟩

theorem unsubscribeOne_commits {c : Bytes} (hc : c ≠ []) :
    (unsubscribeOne c : Procedure Callback Outcome).Obeys (commitProtocol (.unsubscribe c))
      committed false := by
  have herases : (Operation.unsubscribe c : Operation Callback).erases c = true :=
    decide_eq_true ⟨rfl, hc⟩
  have herase : ((issue (.eraseCallback c) : Procedure Callback Unit) >>= fun _ =>
      stopIfEmpty).Obeys (commitProtocol (.unsubscribe c)) committed false :=
    obeys_act_ret_bind.mpr ⟨⟨rfl, herases⟩, fun _ _ => stopIfEmpty_commits⟩
  refine obeys_act_ret_bind.mpr ⟨trivial, fun found _ => ?_⟩
  cases found with
  | false =>
    -- nothing to erase: the call takes effect at the look-up
    have hafter : (commitProtocol (.unsubscribe c : Operation Callback)).after false
        (.findCallback c) false = true := if_pos ⟨rfl, herases⟩
    rw [hafter]
    exact stopIfEmpty_commits
  | true =>
    refine obeys_bind.mpr (obeys_act_ret_bind.mpr ⟨trivial, fun running _ => ?_⟩)
    cases running with
    | false => exact herase
    | true => exact underLock_commits ⟨trivial, fun ok hok => ⟨hok, rfl⟩⟩ herase

theorem unsubscribe_commits (c : Bytes) :
    (unsubscribe c : Procedure Callback Outcome).Obeys (commitProtocol (.unsubscribe c)) committed
      false := by
  cases c with
  | cons b bs => exact unsubscribeOne_commits (List.cons_ne_nil b bs)
  | nil =>
    refine obeys_act_ret_bind.mpr ⟨trivial, fun running hrunning => ?_⟩
    obtain rfl : running = true := hrunning rfl
    exact unsubscribeAll_commits

theorem publish_commits (c payload : Bytes) :
    (publish c payload : Procedure Callback Outcome).Obeys (commitProtocol op) committed true := by
  refine obeys_bind.mpr (getClient_commits fun client => ?_)
  refine obeys_bind.mpr ⟨trivial, fun _ _ => ⟨trivial, fun _ _ => ⟨trivial, fun _ _ =>
    ⟨trivial, fun ok _ => ⟨trivial, fun _ _ => rfl⟩⟩⟩⟩⟩

end Calls

/-! ## The refinement -/

/-- A call of `unsubscribe()` finds `running_` set. -/
def ClearsRunning (s : State Callback) : Label Callback → Prop
  | .act i .loadRunning _ =>
    (s.callers i).map (·.operation) = some (.unsubscribe []) → s.shared.running = true
  | _ => True

/-- **The runs of the refinement**: one operation of the channel after the other,
in which no command other than `consume` fails and `unsubscribe()` finds
`running_` set. -/
def Faultless (tr : List (Label Callback)) (s : State Callback) (a : Label Callback) : Prop :=
  Sequenced (fun _ _ _ choice => choice ≠ .threw) tr s a ∧ ClearsRunning s a

/-- The call in progress, if any, is the one of the history, and will take effect
once if it has not. -/
def InProgress (s : State Callback) : Option (Operation Callback × Bool) → Prop
  | none => ∀ i, s.callers i = none
  | some (op, t) => ∃ i rest, s.callers i = some ⟨op, rest⟩ ∧ (∀ j, j ≠ i → s.callers j = none) ∧
    rest.Obeys (commitProtocol op) committed t

/-- The condition of delivery: a faultless run in which both windows are left alone. -/
def KeepsDelivering (tr : List (Label Callback)) (s : State Callback) (a : Label Callback) :
    Prop :=
  Faultless tr s a ∧ Heeds s a

/-- **The refinement relation**: the history takes the abstract channel to the
callbacks and the tasks of the concrete one. -/
def Refines (tr : List (Label Callback)) (s : State Callback) : Prop :=
  ∃ ev now, Linearizes tr ev now ∧
    (Registry.run ev).callbacks = (fun c => s.shared.callbacks.lookup c) ∧
    (Registry.run ev).tasks = s.shared.handing ∧ InProgress s now

theorem Operation.apply_of_erases {op : Operation Callback} {c : Bytes} (h : op.erases c = true)
    (callbacks : Bytes → Option Callback) :
    op.apply callbacks = Function.update callbacks c none := by
  cases op with
  | unsubscribe c' =>
    obtain ⟨rfl, hc⟩ := of_decide_eq_true h
    cases c' with
    | nil => exact absurd rfl hc
    | cons b bs => rfl
  | _ => exact absurd h nofun

/-- A publication takes effect at once; the other operations have yet to. -/
theorem Operation.commits (op : Operation Callback) (hop : op.isChannel = true) :
    op.procedure.Obeys (commitProtocol op) committed false ∨
      ((∀ callbacks, op.apply callbacks = callbacks) ∧
        op.procedure.Obeys (commitProtocol op) committed true) := by
  cases op with
  | subscribe c cb => exact Or.inl (subscribe_commits c cb)
  | unsubscribe c => exact Or.inl (unsubscribe_commits c)
  | publish c payload => exact Or.inr ⟨fun _ => rfl, publish_commits c payload⟩
  | storage o => exact absurd hop nofun

/-! ### One action -/

theorem lookup_insert (callbacks : AList fun _ : Bytes => Callback) (c : Bytes) (cb : Callback) :
    (fun k => (callbacks.insert c cb).lookup k) =
      Function.update (fun k => callbacks.lookup k) c (some cb) := by
  funext k
  by_cases hk : k = c
  · subst hk
    rw [AList.lookup_insert, Function.update_self]
  · rw [AList.lookup_insert_ne hk, Function.update_of_ne hk]

theorem lookup_erase (callbacks : AList fun _ : Bytes => Callback) (c : Bytes) :
    (fun k => (callbacks.erase c).lookup k) =
      Function.update (fun k => callbacks.lookup k) c none := by
  funext k
  by_cases hk : k = c
  · subst hk
    rw [AList.lookup_erase, Function.update_self]
  · rw [AList.lookup_erase_ne hk, Function.update_of_ne hk]

section Step

variable {op : Operation Callback} {t : Bool} {i : ℕ} {a : Action Callback} {choice : Choice}
  {s : Shared Callback}

/-- An allowed action leaves the callbacks alone, or does to them what the
operation does to the abstract ones. -/
theorem commit_perform (hallowed : (commitProtocol op).Allowed t a) (hchoice : choice ≠ .threw) :
    ((commitProtocol op).after t a (answer s choice a) = t ∧
      (s.perform i a choice).callbacks = s.callbacks) ∨
    (t = false ∧ (commitProtocol op).after t a (answer s choice a) = true ∧
      (fun c => (s.perform i a choice).callbacks.lookup c) =
        op.apply fun c => s.callbacks.lookup c) := by
  have heffect : s.perform i a choice = effect i s a := if_neg hchoice
  rw [heffect]
  cases a with
  | setCallback c cb =>
    obtain ⟨rfl, rfl⟩ := hallowed
    exact Or.inr ⟨rfl, rfl, lookup_insert s.callbacks c cb⟩
  | eraseCallback c =>
    obtain ⟨rfl, herases⟩ := hallowed
    refine Or.inr ⟨rfl, rfl, ?_⟩
    rw [Operation.apply_of_erases herases]
    exact lookup_erase s.callbacks c
  | clearCallbacks =>
    obtain ⟨rfl, rfl⟩ := hallowed
    exact Or.inr ⟨rfl, rfl, rfl⟩
  | findCallback c =>
    -- a missing channel is what `unsubscribe` leaves
    by_cases hmissing : (s.callbacks.lookup c).isSome = false ∧ op.erases c = true
    · have hafter : (commitProtocol op).after t (.findCallback c)
          (answer s choice (.findCallback c)) = true := if_pos hmissing
      cases t with
      | true => exact Or.inl ⟨hafter, rfl⟩
      | false =>
        refine Or.inr ⟨rfl, hafter, ?_⟩
        have hnone : s.callbacks.lookup c = none := by simpa using hmissing.1
        rw [Operation.apply_of_erases hmissing.2]
        exact (Function.update_eq_self_iff.mpr hnone.symm).symm
    · exact Or.inl ⟨if_neg hmissing, rfl⟩
  | _ => exact Or.inl ⟨rfl, rfl⟩

theorem possible_of_possible (h : Possible i s choice a) (hchoice : choice ≠ .threw)
    (hrunning : a = .loadRunning → op = .unsubscribe [] → s.running = true) :
    (commitProtocol op).Possible t a (answer s choice a) := by
  cases a with
  | loadRunning => exact hrunning rfl
  | createSubscriber client => exact decide_eq_true hchoice
  | onMessage => exact decide_eq_true hchoice
  | subscribe c => exact decide_eq_true hchoice
  | unsubscribe c => exact decide_eq_true hchoice
  | _ => exact trivial

end Step

/-! ### One step -/

section Run

variable {tr : List (Label Callback)} {s : State Callback} {a : Label Callback}

/-- The call in progress is the one of the history. -/
theorem InProgress.of_call {now : Option (Operation Callback × Bool)} (h : InProgress s now)
    {i : ℕ} {call : Call Callback} (hcall : s.callers i = some call) :
    ∃ t, now = some (call.operation, t) ∧ (∀ j, j ≠ i → s.callers j = none) ∧
      call.rest.Obeys (commitProtocol call.operation) committed t := by
  rcases now with _ | ⟨op, t⟩
  · exact absurd ((h i).symm.trans hcall) nofun
  · obtain ⟨j, rest, hj, hidle, hrest⟩ := h
    obtain rfl : i = j := by
      by_contra hne
      exact absurd ((hidle i hne).symm.trans hcall) nofun
    obtain rfl : call = ⟨op, rest⟩ := Option.some.inj (hcall.symm.trans hj)
    exact ⟨t, rfl, hidle, hrest⟩

theorem InProgress.eq_none {now : Option (Operation Callback × Bool)} (h : InProgress s now)
    (hidle : ∀ i, s.callers i = none) : now = none := by
  rcases now with _ | ⟨op, t⟩
  · rfl
  · obtain ⟨i, rest, hi, -⟩ := h
    exact absurd ((hidle i).symm.trans hi) nofun

/-- An action of the call in progress. -/
theorem Refines.act {i : ℕ} {b : Action Callback} {choice : Choice} (hs : Refines tr s)
    (h : channel.Run initial tr s) (ha : Enabled (.act i b choice) s)
    (hc : KeepsDelivering tr s (.act i b choice)) :
    Refines (tr ++ [.act i b choice]) (next (.act i b choice) s) := by
  obtain ⟨ev, now, hlin, hcallbacks, htasks, hnow⟩ := hs
  obtain ⟨call, hcall, hhead⟩ := State.exists_call_of_head? ha.1
  obtain ⟨t, rfl, hidle, hrest⟩ := hnow.of_call hcall
  have hchoice : choice ≠ .threw := hc.1.1
  have hpossible : (commitProtocol call.operation).Possible t b (answer s.shared choice b) := by
    refine possible_of_possible ha.2 hchoice ?_
    rintro rfl hop
    refine hc.1.2 ?_
    rw [hcall, Option.map_some, hop]
  have hprogress : InProgress (next (.act i b choice) s) (some (call.operation,
      (commitProtocol call.operation).after t b (answer s.shared choice b))) := by
    exact ⟨i, call.rest.step (answer s.shared choice), callers_act hcall b choice,
      fun j hj => (Function.update_of_ne hj _ _).trans (hidle j hj), hrest.step hhead hpossible⟩
  have htasks' : (Registry.run ev).tasks = (s.shared.perform i b choice).handing :=
    htasks.trans (handing_act (ordered h) ha hc.2).symm
  -- the action itself is no event; the call may take effect right after it
  have hsilent : Linearizes (tr ++ [.act i b choice]) ev (some (call.operation, t)) :=
    .silent rfl hlin
  rcases commit_perform (s := s.shared) (i := i) (hrest.allowed hhead) hchoice with
    ⟨hafter, hsame⟩ | ⟨rfl, hafter, hdone⟩
  · rw [hafter] at hprogress
    refine ⟨ev, _, hsilent, ?_, htasks', hprogress⟩
    show _ = fun c => (s.shared.perform i b choice).callbacks.lookup c
    rw [hsame]
    exact hcallbacks
  · rw [hafter] at hprogress
    refine ⟨_, _, hsilent.effect, ?_, ?_, hprogress⟩
    · rw [Registry.run_concat]
      show call.operation.apply (Registry.run ev).callbacks = _
      rw [hcallbacks]
      exact hdone.symm
    · rw [Registry.run_concat]
      exact htasks'

/-- A step of the consumer thread. -/
theorem Refines.consumer {w : ℕ} {b : ConsumerAct Callback} (hs : Refines tr s)
    (h : channel.Run initial tr s) (ha : Enabled (.consumer w b) s) :
    Refines (tr ++ [.consumer w b]) (next (.consumer w b) s) := by
  obtain ⟨ev, now, hlin, hcallbacks, htasks, hnow⟩ := hs
  have hcallbacks' : (Registry.run ev).callbacks =
      fun c => (s.shared.consumer w b).callbacks.lookup c := by
    rw [Shared.callbacks_consumer]
    exact hcallbacks
  have hhanding := handing_consumer (oneConsumer h) ha.1 ha.2
  cases b with
  | find m =>
    refine ⟨_, _, hlin.consume w m, ?_, ?_, hnow⟩
    · rw [Registry.run_concat]
      exact hcallbacks'
    · rw [Registry.run_concat]
      show (Registry.run ev).tasks ++ _ = (s.shared.consumer w (.find m)).handing
      rw [hhanding, htasks, hcallbacks]
      rfl
  | _ => exact ⟨ev, now, .silent rfl hlin, hcallbacks',
      htasks.trans ((List.append_nil _).symm.trans hhanding.symm), hnow⟩

/-- **One step of the refinement.** -/
theorem Refines.next (hs : Refines tr s) (h : channel.Run initial tr s) (ha : Enabled a s)
    (hc : KeepsDelivering tr s a) : Refines (tr ++ [a]) (RedisChannel.next a s) := by
  cases a with
  | act i b choice => exact hs.act h ha hc
  | consumer w b => exact hs.consumer h ha
  | call i op =>
    obtain ⟨ev, now, hlin, hcallbacks, htasks, hnow⟩ := hs
    obtain ⟨hidle, hop⟩ := hc.1.1
    obtain rfl := hnow.eq_none hidle
    have hprogress : ∀ t, op.procedure.Obeys (commitProtocol op) committed t →
        InProgress (RedisChannel.next (.call i op) s) (some (op, t)) :=
      fun t ht => ⟨i, op.procedure, Function.update_self .., fun j hj =>
        (Function.update_of_ne hj _ _).trans (hidle j), ht⟩
    -- a publication leaves the callbacks alone, so it may take effect at its call
    rcases op.commits hop with hbegins | ⟨hsame, hdone⟩
    · exact ⟨ev, _, hlin.call i op, hcallbacks, htasks, hprogress _ hbegins⟩
    · refine ⟨_, _, (hlin.call i op).effect, ?_, ?_, hprogress _ hdone⟩
      · rw [Registry.run_concat]
        exact (hsame _).trans hcallbacks
      · rw [Registry.run_concat]
        exact htasks
  | ret i op outcome =>
    obtain ⟨ev, now, hlin, hcallbacks, htasks, hnow⟩ := hs
    obtain ⟨call, hcall, rfl, hresult⟩ := State.exists_call_of_result? ha
    obtain ⟨t, rfl, hidle, hrest⟩ := hnow.of_call hcall
    -- a call does not return before it has taken effect
    obtain rfl : t = true := hrest.result hresult
    refine ⟨ev, none, hlin.ret i outcome, hcallbacks, htasks, fun j => ?_⟩
    by_cases hj : j = i
    · subst hj
      exact Function.update_self ..
    · exact (Function.update_of_ne hj _ _).trans (hidle j hj)
  | publish c payload =>
    obtain ⟨ev, now, hlin, hcallbacks, htasks, hnow⟩ := hs
    exact ⟨ev, now, .silent rfl hlin, hcallbacks, htasks, hnow⟩

/-- **The channel refines its registry** along every run that meets the condition. -/
theorem refines (h : channel.RunBy KeepsDelivering initial tr s) : Refines tr s :=
  TransitionSystem.RunBy.induct (P := Refines) ⟨[], none, .nil, rfl, rfl, fun _ => rfl⟩
    (fun _ _ _ hr hs ha hc => hs.next hr.run ha hc) h

/-! ## Exactly one task -/

/-- No message is handed over twice. -/
theorem nodup_handing (h : channel.RunBy KeepsDelivering initial tr s) :
    (s.shared.handing.map Prod.snd).Nodup := by
  obtain ⟨ev, now, hlin, -, htasks, -⟩ := refines h
  rw [← htasks]
  refine ((dispatched_ordered h.run).imp ?_).sublist hlin.tasks_sublist
  rintro m _ hlt rfl
  exact lt_irrefl _ hlt

/-- What is handed over stays so. -/
theorem mem_handing_of_runBy {p q : List (Label Callback)} {u : State Callback}
    {task : Callback × Message} (hp : channel.Run initial p u)
    (hq : channel.RunBy (fun _ => Heeds) u q s) (h : task ∈ u.shared.handing) :
    task ∈ s.shared.handing := by
  refine TransitionSystem.RunBy.induct (P := fun _ s => task ∈ s.shared.handing) h ?_ hq
  intro q s a hr hs ha hc
  rw [show ((channel.next a s).shared).handing = _ from handing_next (hp.append hr.run) ha hc]
  exact List.mem_append_left _ hs

/-- **A message of a registered channel is handed over exactly once.** -/
theorem count_of_registered {p q : List (Label Callback)} {w : ℕ} {m : Message}
    (h : channel.RunBy KeepsDelivering initial (p ++ .consumer w (.find m) :: q) s)
    (hregistered : registered m.channel p = true) :
    (s.shared.handing.map Prod.snd).count m = 1 := by
  obtain ⟨u, hu, ha, hc, hq⟩ := h.split_cons
  have hfind : Enabled (.consumer w (.find m)) u := ha
  obtain ⟨ev, now, hlin, hcallbacks, -, -⟩ := refines hu
  have hsome := ((hlin.isSome_of_registered m.channel).1 hregistered).1
  rw [hcallbacks] at hsome
  obtain ⟨cb, hcb⟩ := Option.isSome_iff_exists.mp hsome
  have hcb : u.shared.callbacks.lookup m.channel = some cb := hcb
  have hfound : (cb, m) ∈ (next (.consumer w (.find m)) u).shared.handing := by
    rw [handing_next hu.run hfind hc.2]
    refine List.mem_append_right _ ?_
    show (cb, m) ∈ ((u.shared.callbacks.lookup m.channel).map (·, m)).toList
    rw [hcb]
    exact List.mem_singleton_self _
  -- the rest of the run keeps it
  have hmem := mem_handing_of_runBy (hu.run.snoc ha) (hq.mono fun _ _ _ _ hc => hc.2) hfound
  exact List.count_eq_one_of_mem (nodup_handing h) (List.mem_map_of_mem hmem)

end Run

/-! ## After a connection error -/

def Label.isRet : Label Callback → Bool
  | .ret .. => true
  | _ => false

/-- Whether a connection error has occurred since `subscribe` last was called or
returned. -/
def Label.breaks (b : Bool) : Label Callback → Bool
  | .consumer _ .fail => true
  | .call _ op | .ret _ op _ => b && !op.isSubscribe
  | _ => b

def down (tr : List (Label Callback)) : Bool := tr.foldl Label.breaks false

theorem down_snoc (tr : List (Label Callback)) (a : Label Callback) :
    down (tr ++ [a]) = a.breaks (down tr) := by
  simp [down]

section Resubscription

variable {tr p q : List (Label Callback)} {s : State Callback} {i : ℕ}
  {op : Operation Callback}

/-- Only `subscribe` sets `running_`, and no call ends the handling of an error. -/
theorem up_perform {t : Bool} {b : Action Callback} {choice : Choice} {s : Shared Callback}
    (hallowed : (commitProtocol op).Allowed t b) (hop : op.isSubscribe = false)
    (hpossible : Possible i s choice b) (h : s.up = false) :
    (s.perform i b choice).up = false := by
  have hrunning : (s.perform i b choice).running = true → s.running = true := by
    unfold Shared.perform
    split
    · exact id
    · cases b with
      | storeRunning b =>
        cases b with
        | true => exact absurd (hop.symm.trans hallowed) nofun
        | false => exact nofun
      | compareExchange => exact absurd (hop.symm.trans hallowed) nofun
      | _ => exact id
  by_contra hup
  obtain ⟨hrun, hfailing⟩ := Shared.up_eq_true.mp (Bool.eq_true_of_not_eq_false hup)
  rw [Shared.failing_perform hpossible] at hfailing
  exact absurd (h.symm.trans (Shared.up_eq_true.mpr ⟨hrunning hrun, hfailing⟩)) nofun

/-- No step of the consumer thread brings the channel back up. -/
theorem up_consumer {w : ℕ} {b : ConsumerAct Callback} {s : Shared Callback}
    (hthread : s.subscriptionThread = some w)
    (hsrc : s.consumers[w]? = some (consumerMove w s b).source) (h : b ≠ .fail → s.up = false) :
    (s.consumer w b).up = false := by
  by_cases hfail : b = .fail
  · subst hfail
    exact Shared.up_of_failing (Shared.failing_fail hthread hsrc)
  by_cases hstore : b = .storeRunning
  · subst hstore
    exact Shared.up_of_stopped rfl
  rw [Shared.up, Shared.running_consumer hstore, Shared.failing_consumer hfail hstore hsrc]
  exact h hfail

/-- After a connection error `running_` is cleared, or about to be, up to the next
`subscribe`. -/
theorem up_of_down (h : channel.RunBy KeepsDelivering initial tr s) (hdown : down tr = true)
    (hcall : ∀ i call, s.callers i = some call → call.operation.isSubscribe = false) :
    s.shared.up = false := by
  refine TransitionSystem.RunBy.induct (P := fun tr s => down tr = true →
    (∀ i call, s.callers i = some call → call.operation.isSubscribe = false) →
    s.shared.up = false) nofun ?_ h hdown hcall
  intro tr s a hr ih ha hc hdown hcall
  rw [down_snoc] at hdown
  cases a with
  | call i op =>
    obtain ⟨hbefore, -⟩ := (Bool.and_eq_true_iff).mp hdown
    exact ih hbefore fun j call hj => absurd ((hc.1.1.1 j).symm.trans hj) nofun
  | ret i op outcome =>
    obtain ⟨call, hi, rfl, -⟩ := State.exists_call_of_result? ha
    obtain ⟨hbefore, hop⟩ := (Bool.and_eq_true_iff).mp hdown
    refine ih hbefore fun j call' hj => ?_
    by_cases hji : j = i
    · subst hji
      obtain rfl : call = call' := Option.some.inj (hi.symm.trans hj)
      simpa using hop
    · exact hcall j call' ((Function.update_of_ne hji _ _).trans hj)
  | act i b choice =>
    -- the call in progress is not `subscribe`, and keeps to its protocol
    obtain ⟨call, hi, hhead⟩ := State.exists_call_of_head? ha.1
    obtain ⟨ev, now, -, -, -, hnow⟩ := refines hr
    obtain ⟨t, -, hidle, hrest⟩ := hnow.of_call hi
    have hop := hcall i { call with rest := call.rest.step (answer s.shared choice) }
      (callers_act hi b choice)
    refine up_perform (hrest.allowed hhead) hop ha.2 (ih hdown fun j call' hj => ?_)
    by_cases hji : j = i
    · subst hji
      obtain rfl : call = call' := Option.some.inj (hi.symm.trans hj)
      exact hop
    · exact absurd ((hidle j hji).symm.trans hj) nofun
  | consumer w b =>
    have hsrc : s.shared.consumers[w]? = some (consumerMove w s.shared b).source := ha.1
    have hthread := oneConsumer hr.run w ⟨_, hsrc, Shared.source_ne_exited w s.shared b⟩
    refine up_consumer hthread hsrc fun hfail => ih ?_ hcall
    cases b with
    | fail => exact absurd rfl hfail
    | _ => exact hdown
  | publish c payload => exact ih hdown hcall

/-- How the actions of a call turn out: no command throws, and `running_` is not read as
set while the handler of an error is about to clear it. -/
def Careful (_ : ℕ) (s : Shared Callback) (a : Action Callback) (choice : Choice) : Prop :=
  choice ≠ .threw ∧ (a = .loadRunning → s.running = true → s.failing = false)

theorem KeepsDelivering.sequenced {a : Label Callback} (hc : KeepsDelivering tr s a) :
    Sequenced Careful tr s a := by
  cases a with
  | act i b choice =>
    refine ⟨hc.1.1, ?_⟩
    rintro rfl
    exact hc.2
  | call i op => exact hc.1.1
  | _ => trivial

/-- The assumptions of `subscribe` in a run without failing commands. -/
theorem careful_assumes (i : ℕ) :
    Assumes (Careful i : Shared Callback → Action Callback → Choice → Prop) i False True where
  loop _ _ h _ := absurd rfl h.1
  start h := h.elim
  load _ _ _ h hrun := h.2 rfl hrun
  strict _ _ _ _ h := h.1

/-- A call that has not returned is still in progress. -/
theorem inCall_of_runBy {C : ℕ → Shared Callback → Action Callback → Choice → Prop}
    {Q strict : Prop} (hC : ∀ i, Assumes (C i) i Q strict) (hq : ∀ a ∈ q, a.isRet = false)
    (h : channel.RunBy (Sequenced C) initial (p ++ .call i op :: q) s) :
    ∃ u, channel.RunBy (Sequenced C) initial p u ∧ (∀ i, u.callers i = none) ∧
      InCall C Q strict i op u.shared.up (q.any Label.fails) s := by
  -- the last step first: the call began with `q` empty
  induction q using List.reverseRecOn generalizing s with
  | nil =>
    obtain ⟨u, hu, ha, hc, rfl⟩ := h.snoc_inv
    rcases between_or_inCall hC hu with hs | ⟨j, op', was, f, -, call, hcall, -⟩
    · exact ⟨u, hu, hc.1, hs.call hC hc.2⟩
    · exact absurd ((hc.1 j).symm.trans hcall) nofun
  | append_singleton q a ih =>
    rw [← List.cons_append, ← List.append_assoc] at h
    obtain ⟨v, hv, ha, hc, rfl⟩ := h.snoc_inv
    obtain ⟨u, hu, hidle, hin⟩ := ih (fun b hb => hq b (List.mem_append_left _ hb)) hv
    refine ⟨u, hu, hidle, ?_⟩
    rcases hin.next (oneConsumer hv.run) ha hc with ⟨outcome, rfl, -⟩ | hin'
    · exact absurd (hq _ (List.mem_append_right _ (List.mem_singleton_self _))) nofun
    · rwa [List.any_append, List.any_cons, List.any_nil, Bool.or_false]

/-- What a call leaves. -/
theorem post_of_runBy {C : ℕ → Shared Callback → Action Callback → Choice → Prop}
    {Q strict : Prop} (hC : ∀ i, Assumes (C i) i Q strict) (hq : ∀ a ∈ q, a.isRet = false)
    {outcome : Outcome}
    (h : channel.RunBy (Sequenced C) initial (p ++ .call i op :: (q ++ [.ret i op outcome])) s) :
    ∃ u, channel.RunBy (Sequenced C) initial p u ∧ (∀ i, u.callers i = none) ∧
      CallPost Q strict u.shared.up op ⟨s.shared, q.any Label.fails⟩ := by
  rw [← List.cons_append, ← List.append_assoc] at h
  obtain ⟨v, hv, ha, hc, rfl⟩ := h.snoc_inv
  obtain ⟨u, hu, hidle, hin⟩ := inCall_of_runBy hC hq hv
  refine ⟨u, hu, hidle, ?_⟩
  have ha : Enabled (.ret i op outcome) v := ha
  rcases hin.next (oneConsumer hv.run) ha hc with ⟨outcome', -, hpost, -⟩ | ⟨-, call, hcall, -⟩
  · exact hpost
  · have hnone : (next (.ret i op outcome) v).callers i = none := Function.update_self ..
    exact absurd (hnone.symm.trans hcall) nofun

/-- **After a connection error** the next `subscribe` subscribes every registered
channel again; and so does every `subscribe` in which no connection error occurs,
which leaves the channel running. -/
theorem resubscribed {c : Bytes} {cb : Callback} {outcome : Outcome}
    (h : channel.RunBy KeepsDelivering initial
      (p ++ .call i (.subscribe c cb) :: (q ++ [.ret i (.subscribe c cb) outcome])) s)
    (hq : ∀ a ∈ q, a.isRet = false) (herror : down p = true ∨ q.any Label.fails = false) :
    s.shared.channels = some s.shared.keys ∧
      (q.any Label.fails = false → s.shared.running = true ∧ s.shared.broken = false ∧
        ∃ w, s.shared.subscriptionThread = some w ∧ s.shared.Alive w) := by
  have hsequenced := h.mono fun _ _ _ _ hc => hc.sequenced
  obtain ⟨u, hu, hidle, K, hkeys, hserved, hpost⟩ := post_of_runBy careful_assumes hq hsequenced
  obtain ⟨hanew, hrunning, hsound⟩ := hpost trivial
  have hkeys : s.shared.keys = K := hkeys
  rw [hkeys]
  refine ⟨?_, fun hfails => ?_⟩
  · rcases herror with hdown | hfails
    · refine hanew ?_
      obtain ⟨v, hv, -⟩ := h.split
      obtain rfl : u = v := hu.run.unique hv.run
      exact up_of_down hv hdown fun j call hj => absurd ((hidle j).symm.trans hj) nofun
    · exact (hserved (hrunning hfails)).1
  · exact ⟨(Shared.up_eq_true.mp (hrunning hfails)).1, hsound hfails,
      (hserved (hrunning hfails)).2.1⟩

/-- **The channel delivers**: the callbacks and the tasks are those of the registry
after the history, the last task being perhaps on its way to the pool; what `consume`
returned has been looked up, but for the message in hand, in the order of publication;
a message looked up while its channel is registered is handed over exactly once; and
the next `subscribe` after a connection error, like every `subscribe` without one,
leaves every registered channel subscribed. -/
structure Delivers (tr : List (Label Callback)) (s : State Callback) : Prop where
  refines : ∃ ev now, Linearizes tr ev now ∧
    (Registry.run ev).callbacks = (fun c => s.shared.callbacks.lookup c) ∧
    (Registry.run ev).tasks = s.shared.handing
  consumed : received tr = dispatched tr ++ s.shared.inFlight.toList ∧
    (received tr).Pairwise (·.id < ·.id)
  once : ∀ p w m q, tr = p ++ .consumer w (.find m) :: q → registered m.channel p = true →
    (s.shared.handing.map Prod.snd).count m = 1
  resubscribed : ∀ p i c cb q outcome,
    tr = p ++ .call i (.subscribe c cb) :: (q ++ [.ret i (.subscribe c cb) outcome]) →
    (∀ a ∈ q, a.isRet = false) → down p = true ∨ q.any Label.fails = false →
    s.shared.channels = some s.shared.keys ∧
      (q.any Label.fails = false → s.shared.running = true ∧ s.shared.broken = false ∧
        ∃ w, s.shared.subscriptionThread = some w ∧ s.shared.Alive w)

/-- **Delivery.**  In every faultless run that leaves both windows alone the channel
delivers. -/
theorem delivery (h : channel.RunBy KeepsDelivering initial tr s) : Delivers tr s where
  refines := by
    obtain ⟨ev, now, hlin, hcallbacks, htasks, -⟩ := RedisChannel.refines h
    exact ⟨ev, now, hlin, hcallbacks, htasks⟩
  consumed :=
    ⟨(accounted h.run).inFlight,
      (accounted h.run).ordered.sublist (List.sublist_append_left _ _)⟩
  once := by
    rintro p w m q rfl hregistered
    exact count_of_registered h hregistered
  resubscribed := by
    rintro p i c cb q outcome rfl hq herror
    exact RedisChannel.resubscribed h hq herror

end Resubscription

/-! ## A message and a connection error -/

/-- The first `subscribe`, and a message. -/
def deliveredRun : List (Label ℕ) :=
  subscribeRun 0 [97] 1 ++ consumeRun 0 ++ [.publish [97] [],
    .consumer 0 (.receive ⟨0, [97], []⟩), .consumer 0 (.lockCallbacks ⟨0, [97], []⟩)]

/-- The message is handed over; then the connection breaks. -/
def brokenRun : List (Label ℕ) :=
  [.consumer 0 (.copy 1 ⟨0, [97], []⟩), .consumer 0 (.handOver 1 ⟨0, [97], []⟩),
    .consumer 0 .unlockCallbacks, .consumer 0 .unlockRedis] ++ consumeRun 0 ++
  [.consumer 0 .fail, .consumer 0 .storeRunning]

/-- The next `subscribe`, between its beginning and its return. -/
def resubscribeRun : List (Label ℕ) :=
  (startRun 0 [98] 2).tail.dropLast ++ [.act 0 .callbackKeys (.order [[98], [97]])] ++
  lockedRun 0 (.subscribe [98]) .ok ++ lockedRun 0 (.subscribe [97]) .ok ++
  [.act 0 (.unlock .callbacksMutex) .ok, .act 0 .joinable .ok, .act 0 .join .ok,
    .act 0 (.storeRunning true) .ok, .act 0 .startThread .ok]

/-- The message is handed over, and both channels are subscribed in the end. -/
def restartRun : List (Label ℕ) :=
  deliveredRun ++ .consumer 0 (.find ⟨0, [97], []⟩) :: brokenRun ++
  .call 0 (.subscribe [98] 2) :: (resubscribeRun ++ [.ret 0 (.subscribe [98] 2) done])

instance [DecidableEq Callback] (s : State Callback) :
    ∀ a : Label Callback, Decidable (ClearsRunning s a)
  | .act i a _ => by
    unfold ClearsRunning
    cases a <;> infer_instance
  | .call .. | .ret .. | .consumer .. | .publish .. => isTrue trivial

instance (s : State Callback) : ∀ a : Label Callback, Decidable (Heeds s a)
  | .act i a _ => by
    unfold Heeds
    cases a <;> infer_instance
  | .call .. | .ret .. | .consumer .. | .publish .. => isTrue trivial

theorem faultless_of_legal [DecidableEq Callback] {tr : List (Label Callback)}
    (h : (channel.restrict (SingleCaller fun _ _ _ choice => choice ≠ .threw)).Legal tr initial)
    (h' : (channel.restrict ClearsRunning).Legal tr initial) :
    channel.RunBy Faultless initial tr (channel.after tr initial) :=
  (sequenced_of_singleCaller h).1.and (TransitionSystem.runBy_of_legal (fun _ _ _ h => h) h')

set_option maxRecDepth 8000 in
theorem delivery_restartRun :
    ((channel.after restartRun initial).shared.handing.map Prod.snd).count ⟨0, [97], []⟩ = 1 ∧
      (channel.after restartRun initial).shared.channels =
        some (channel.after restartRun initial).shared.keys := by
  have hfaultless : channel.RunBy Faultless initial restartRun _ :=
    faultless_of_legal (by decide) (by decide)
  have hheeds : channel.RunBy (fun _ => Heeds) initial restartRun _ :=
    TransitionSystem.runBy_of_legal (fun _ _ _ h => h)
      (show (channel.restrict Heeds).Legal restartRun initial by decide)
  have hdelivers := delivery (hfaultless.and hheeds)
  exact ⟨hdelivers.once deliveredRun 0 ⟨0, [97], []⟩ _ (List.append_assoc ..) (by decide),
    (hdelivers.resubscribed _ 0 [98] 2 resubscribeRun done rfl (by decide)
      (Or.inl (by decide))).1⟩

/-! ## A connection error that a call does not hear of -/

/-- A first `subscribe`, whose connection breaks in `consume`. -/
def reportingRun : List (Label ℕ) :=
  subscribeRun 0 [97] 1 ++ consumeRun 0 ++ [.consumer 0 .fail]

/-- `subscribe` finds `running_` set, and cleared when it looks again. -/
def unheardCall : List (Label ℕ) :=
  [.act 0 (.lock .callbacksMutex) .ok, .act 0 (.setCallback [98] 2) .ok,
    .act 0 (.unlock .callbacksMutex) .ok, .act 0 .loadRunning .ok, .consumer 0 .storeRunning,
    .act 0 .loadRunning .ok]

/-- The next `subscribe` after a connection error, which begins before the handler of the
error has cleared `running_`. -/
def unheardRun : List (Label ℕ) :=
  reportingRun ++ .call 0 (.subscribe [98] 2) ::
    (unheardCall ++ [.ret 0 (.subscribe [98] 2) done])

set_option maxRecDepth 8000 in
/-- **A connection error unheard of**: the next `subscribe` returns without having
subscribed anything. -/
theorem not_delivers_unheardRun : ¬ ∀ (tr : List (Label ℕ)) (s : State ℕ),
    channel.RunBy Faultless initial tr s → Delivers tr s := by
  intro h
  have hdelivers := h unheardRun _ (faultless_of_legal (by decide) (by decide))
  obtain ⟨hchannels, -⟩ := hdelivers.resubscribed reportingRun 0 [98] 2 unheardCall done rfl
    (by decide) (Or.inl (by decide))
  exact absurd hchannels (by decide)

end RedisChannel
