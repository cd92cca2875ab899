/-
# Every message is delivered once, by itself

The tasks of the pool are the messages for which the consumer thread found a
callback, in this order (`handed_eq`); a worker that has executed a task has invoked
the user's callback exactly once or not at all, as the message and the template say
(`delivery_isolated`).  What keeps the tasks apart is who may write to an object:
the template of a closure has no writer, a clone has one (`Apart`).
-/
import RedisStateManager.ChannelMessages
import RedisStateManager.Subscription

namespace Subscription

open Redis (Bytes)
open StateManager (Json JsonLibrary StateObj)

variable {T : Type} {lib : JsonLibrary} {cls : StateObj T} {up down : UInt32 → UInt32 → Bool}
  {tr : List (Label T)} {s : State T} {a : Label T}

/-! ## The parts of a step -/

/-- The steps of a component, read off the labels of the system. -/
theorem filterMap_part {ℓ β : Type} (part : Label T → Option ℓ) (f : ℓ → Option β)
    (tr : List (Label T)) (a : Label T) :
    ((tr ++ [a]).filterMap part).filterMap f =
      (tr.filterMap part).filterMap f ++ ((part a).bind f).toList := by
  rw [List.filterMap_append, List.filterMap_append]
  cases hpart : part a with
  | none => simp [hpart]
  | some b => cases hb : f b <;> simp [hpart, hb]

theorem pushed_poolPart (tr : List (Label T)) (a : Label T) :
    ThreadPool.pushed (poolPart (tr ++ [a])) =
      ThreadPool.pushed (poolPart tr) ++ (a.pool?.bind ThreadPool.Label.push?).toList :=
  filterMap_part _ _ tr a

theorem steps_poolPart (f : ThreadPool.WorkerAct Wrapped → Option (ThreadPool.Entry Wrapped))
    (tr : List (Label T)) (a : Label T) :
    ThreadPool.steps f (poolPart (tr ++ [a])) =
      ThreadPool.steps f (poolPart tr) ++ (a.pool?.bind (ThreadPool.Label.at f)).toList :=
  filterMap_part _ _ tr a

/-- **What a step does to the channel**: nothing, or a step of the channel. -/
theorem channel_next (ha : (system lib cls).Enabled a s) :
    (a.channel? = none ∧ ((system lib cls).next a s).channel = s.channel) ∨
    ∃ b, a.channel? = some b ∧ RedisChannel.Enabled b s.channel ∧
      ((system lib cls).next a s).channel = RedisChannel.next b s.channel := by
  have hnext : ((system lib cls).next a s).channel =
      RedisChannel.channel.nextOn a.channel? s.channel := rfl
  cases hchannel : a.channel? with
  | none =>
    rw [hchannel] at hnext
    exact Or.inl ⟨rfl, hnext⟩
  | some b =>
    rw [hchannel] at hnext
    exact Or.inr ⟨b, rfl, ha.1 b hchannel, hnext⟩

/-- **What a step does to the pool**: nothing, or a step of the pool. -/
theorem pool_next (ha : (system lib cls).Enabled a s) :
    (a.pool? = none ∧ ((system lib cls).next a s).pool = s.pool) ∨
    ∃ b, a.pool? = some b ∧ ThreadPool.Enabled b s.pool ∧
      ((system lib cls).next a s).pool = ThreadPool.next b s.pool := by
  have hnext : ((system lib cls).next a s).pool =
      (ThreadPool.pool Wrapped).nextOn a.pool? s.pool := rfl
  cases hpool : a.pool? with
  | none =>
    rw [hpool] at hnext
    exact Or.inl ⟨rfl, hnext⟩
  | some b =>
    rw [hpool] at hnext
    exact Or.inr ⟨b, rfl, ha.2.1 b hpool, hnext⟩

/-- A step of a worker of the pool is nothing else. -/
theorem eq_of_pool?_worker {w : ℕ} {b : ThreadPool.WorkerAct Wrapped}
    (h : a.pool? = some (.worker w b)) : a = .pool (.worker w b) := by
  cases a with
  | pool b => exact congrArg Label.pool (Option.some.inj h)
  | _ => cases h

/-- Every label of a run was ready when its turn came. -/
theorem ready_of_mem {s₀ : State T} (h : (system lib cls).Run s₀ tr s) (ha : a ∈ tr) :
    ∃ u : State T, Ready a u := by
  obtain ⟨pre, post, rfl⟩ := List.append_of_mem ha
  obtain ⟨u, -, hu, -⟩ := h.split_cons
  exact ⟨u, hu.2.2⟩

/-! ## Messages and tasks -/

/-- The closure and the message that a step passes to `addTask`. -/
def Label.handed? : Label T → Option (Wrapped × RedisChannel.Message)
  | dispatch _ m f => some (f, m)
  | _ => none

/-- The messages passed to `addTask`, with their closures, in this order. -/
def handed (tr : List (Label T)) : List (Wrapped × RedisChannel.Message) :=
  tr.filterMap Label.handed?

theorem handed_snoc (tr : List (Label T)) (a : Label T) :
    handed (tr ++ [a]) = handed tr ++ a.handed?.toList := by
  rw [handed, List.filterMap_append]
  cases h : a.handed? <;> simp [handed, h]

/-- The task of a call of `addTask` that has not pushed it yet. -/
def adding? : ThreadPool.ProducerPc Wrapped → Option (ThreadPool.WorkerTask Wrapped)
  | .lock t | .push t => some t
  | _ => none

def State.Adding (s : State T) (t : ThreadPool.WorkerTask Wrapped) : Prop :=
  ∃ w, adding? (s.pool.producers w) = some t

/-- A consumer thread that calls `addTask` hands over the callback of a message. -/
def State.InOnMessage (s : State T) : Prop :=
  ∀ w, s.pool.producers w ≠ .idle →
    ∃ f m, s.channel.shared.consumers[w]? = some (.handOver f m)

/-- `callbacks_mutex_` keeps consumer threads from each other. -/
theorem consumer_unique {c : RedisChannel.State Wrapped} (hc : RedisChannel.Ordered c)
    {v w : ℕ} {pc pc' : RedisChannel.ConsumerPc Wrapped}
    (hv : c.shared.consumers[v]? = some pc) (hw : c.shared.consumers[w]? = some pc')
    (hpc : pc.held.callbacks = true) (hpc' : pc'.held.callbacks = true) : v = w := by
  have howner : ∀ {u : ℕ} {pc : RedisChannel.ConsumerPc Wrapped},
      c.shared.consumers[u]? = some pc → pc.held.callbacks = true →
        c.shared.owner .callbacksMutex = some (.consumer u) := by
    intro u pc hu hpc
    refine RedisChannel.heldBy_has.mp ?_
    rw [hc.consumer u, hu]
    exact hpc
  have heq := (howner hv hpc).symm.trans (howner hw hpc')
  cases heq
  rfl

/-- A consumer thread stays at `addTask` until its own step. -/
theorem handOver_next {b : RedisChannel.Label Wrapped} {c : RedisChannel.State Wrapped}
    (hb : RedisChannel.Enabled b c) {w : ℕ} {f : Wrapped} {m : RedisChannel.Message}
    (hw : c.shared.consumers[w]? = some (.handOver f m)) (hne : b ≠ .consumer w (.handOver f m)) :
    (RedisChannel.next b c).shared.consumers[w]? = some (.handOver f m) := by
  cases b with
  | act i b choice =>
    show (c.shared.perform i b choice).consumers[w]? = _
    rcases RedisChannel.Shared.consumers_perform (s := c.shared) i b choice with h | h <;> rw [h]
    · exact hw
    · rw [List.getElem?_append_left (List.getElem?_eq_some_iff.mp hw).1]
      exact hw
  | consumer v b =>
    have hv : v ≠ w := by
      rintro rfl
      have hsource := Option.some.inj (hw.symm.trans hb.1)
      cases b with
      | handOver f' m' =>
        cases hsource
        exact hne rfl
      | _ => cases hsource
    exact (RedisChannel.Shared.getElem?_consumer_of_ne hv).trans hw
  | _ => exact hw

theorem State.InOnMessage.next (hs : s.InOnMessage) (ha : (system lib cls).Enabled a s) :
    ((system lib cls).next a s).InOnMessage := by
  intro w hw
  cases a with
  | channel b =>
    obtain ⟨f, m, hpc⟩ := hs w hw
    refine ⟨f, m, handOver_next (ha.1 b rfl) hpc ?_⟩
    rintro rfl
    exact hw ha.2.2
  | dispatch v m f =>
    have hv : s.channel.shared.consumers[v]? = some (.copy m) := (ha.1 _ rfl).1
    rcases eq_or_ne v w with rfl | hne
    · exact ⟨f, m, RedisChannel.Shared.getElem?_consumer_self (a := .copy f m) hv⟩
    · have hsame : (ThreadPool.next (.producer v (.call (handOver f m))) s.pool).producers w =
          s.pool.producers w := ThreadPool.producers_next fun b hb => hne (by injection hb)
      obtain ⟨f', m', hpc⟩ := hs w (hsame ▸ hw)
      exact ⟨f', m', (RedisChannel.Shared.getElem?_consumer_of_ne (a := .copy f m) hne).trans hpc⟩
  | pool b =>
    by_cases hb : ∃ b', b = .producer w b'
    · obtain ⟨b', rfl⟩ := hb
      refine hs w fun hidle => ?_
      have hsource := hidle.symm.trans (ha.2.1 _ rfl).1
      cases b' with
      | call t => exact ha.2.2
      | _ => cases hsource
    · have hsame : (ThreadPool.next b s.pool).producers w = s.pool.producers w :=
        ThreadPool.producers_next fun b' heq => hb ⟨b', heq⟩
      refine hs w ?_
      rw [← hsame]
      exact hw
  | _ => exact hs w hw

theorem inOnMessage (h : (system lib cls).Run (initial T up down) tr s) : s.InOnMessage :=
  h.invariant (I := State.InOnMessage) (fun _ hw => absurd rfl hw) fun _ _ hs ha => hs.next ha

/-- Two tasks are not being added at a time. -/
theorem adding_unique (h : (system lib cls).Run (initial T up down) tr s) {v w : ℕ}
    (hv : s.pool.producers v ≠ .idle) (hw : s.pool.producers w ≠ .idle) : v = w := by
  obtain ⟨f, m, hpc⟩ := inOnMessage h v hv
  obtain ⟨f', m', hpc'⟩ := inOnMessage h w hw
  exact consumer_unique (RedisChannel.ordered (channel_run h)) hpc hpc' rfl rfl

/-- A call of `addTask` keeps its task until it pushes it. -/
theorem adding?_next {b : ThreadPool.Label Wrapped} {p : ThreadPool.State Wrapped}
    (hb : ThreadPool.Enabled b p) (hcall : ∀ w t, b ≠ .producer w (.call t))
    (hpush : b.push? = none) (w : ℕ) :
    adding? ((ThreadPool.next b p).producers w) = adding? (p.producers w) := by
  by_cases hw : ∃ b', b = .producer w b'
  · obtain ⟨b', rfl⟩ := hw
    have htarget : (ThreadPool.next (.producer w b') p).producers w =
        (ThreadPool.producerMove w b' p).target := Function.update_self ..
    rw [htarget, hb.1]
    cases b' with
    | call t => exact absurd rfl (hcall w t)
    | push e => exact absurd hpush nofun
    | _ => rfl
  · rw [ThreadPool.producers_next fun b' heq => hw ⟨b', heq⟩]

/-- The task being added, if there is one. -/
def State.AddingOnly (s : State T) (t : Option (ThreadPool.WorkerTask Wrapped)) : Prop :=
  ∀ x, s.Adding x ↔ t = some x

/-- Nothing was being added before a message is handed over. -/
theorem addingOnly_dispatch (h : (system lib cls).Run (initial T up down) tr s) {v : ℕ}
    {m : RedisChannel.Message} {f : Wrapped}
    (ha : (system lib cls).Enabled (.dispatch v m f) s)
    {t : Option (ThreadPool.WorkerTask Wrapped)} (ht : s.AddingOnly t) :
    t = none ∧
      ((system lib cls).next (.dispatch v m f) s).AddingOnly (some (handOver f m)) := by
  have hidle : s.pool.producers v = .idle := (ha.2.1 _ rfl).1
  have hconsumer : s.channel.shared.consumers[v]? = some (.copy m) := (ha.1 _ rfl).1
  -- no other thread is inside `on_message`
  have hothers : ∀ w, s.pool.producers w = .idle := by
    intro w
    by_contra hw
    obtain ⟨f', m', hpc⟩ := inOnMessage h w hw
    obtain rfl := consumer_unique (RedisChannel.ordered (channel_run h)) hconsumer hpc rfl rfl
    exact hw hidle
  have hproducers : ∀ w, ((system lib cls).next (.dispatch v m f) s).pool.producers w =
      Function.update s.pool.producers v (.lock (handOver f m)) w := fun _ => rfl
  constructor
  · refine Option.eq_none_iff_forall_not_mem.mpr fun x hx => ?_
    obtain ⟨w, hw⟩ := (ht x).mpr hx
    rw [hothers w] at hw
    exact absurd hw nofun
  intro x
  constructor
  · rintro ⟨w, hw⟩
    rw [hproducers] at hw
    rcases eq_or_ne w v with rfl | hne
    · rwa [Function.update_self] at hw
    · rw [Function.update_of_ne hne, hothers w] at hw
      exact absurd hw nofun
  · intro hx
    refine ⟨v, ?_⟩
    rw [hproducers, Function.update_self]
    exact hx

/-- What is pushed is what was being added. -/
theorem addingOnly_push (h : (system lib cls).Run (initial T up down) tr s) {v : ℕ}
    {e : ThreadPool.Entry Wrapped} (ha : (system lib cls).Enabled (.pool (.producer v (.push e))) s)
    {t : Option (ThreadPool.WorkerTask Wrapped)} (ht : s.AddingOnly t) :
    t = some e.work ∧
      ((system lib cls).next (.pool (.producer v (.push e))) s).AddingOnly none := by
  have hsource : s.pool.producers v = .push e.work := (ha.2.1 _ rfl).1
  refine ⟨(ht e.work).mp ⟨v, by rw [hsource]; rfl⟩, fun x => ⟨?_, nofun⟩⟩
  rintro ⟨w, hw⟩
  have hproducers : ((system lib cls).next (.pool (.producer v (.push e))) s).pool.producers w =
      Function.update s.pool.producers v .unlock w := rfl
  rw [hproducers] at hw
  rcases eq_or_ne w v with rfl | hne
  · rw [Function.update_self] at hw
    exact absurd hw nofun
  · rw [Function.update_of_ne hne] at hw
    have hwv : w = v := by
      refine adding_unique h (fun hidle => ?_) ?_
      · rw [hidle] at hw
        exact absurd hw nofun
      · rw [hsource]
        exact nofun
    exact absurd hwv hne

/-- What a step adds to the messages handed over, to the queue and to what is in
between. -/
theorem handed_next (h : (system lib cls).Run (initial T up down) tr s)
    (ha : (system lib cls).Enabled a s) {t : Option (ThreadPool.WorkerTask Wrapped)}
    (ht : s.AddingOnly t) :
    ∃ t', t.toList ++ a.handed?.toList.map (fun p => handOver p.1 p.2) =
        (a.pool?.bind ThreadPool.Label.push?).toList.map ThreadPool.Entry.work ++ t'.toList ∧
      ((system lib cls).next a s).AddingOnly t' := by
  by_cases hhanded : a.handed? = none
  · by_cases hpush : a.pool?.bind ThreadPool.Label.push? = none
    · refine ⟨t, by rw [hhanded, hpush]; simp, fun x => ?_⟩
      have hsame : ∀ w, adding? (((system lib cls).next a s).pool.producers w) =
          adding? (s.pool.producers w) := by
        intro w
        cases a with
        | pool b =>
          exact adding?_next (ha.2.1 b rfl) (fun w t heq => by subst heq; exact ha.2.2) hpush w
        | dispatch v m f => exact absurd hhanded nofun
        | _ => rfl
      rw [← ht x]
      simp only [State.Adding, hsame]
    · obtain ⟨v, e, rfl⟩ : ∃ v e, a = .pool (.producer v (.push e)) := by
        cases a with
        | pool b =>
          cases b with
          | producer v b =>
            cases b with
            | push e => exact ⟨v, e, rfl⟩
            | _ => exact absurd rfl hpush
          | _ => exact absurd rfl hpush
        | _ => exact absurd rfl hpush
      obtain ⟨rfl, hnone⟩ := addingOnly_push h ha ht
      exact ⟨none, rfl, hnone⟩
  · obtain ⟨v, m, f, rfl⟩ : ∃ v m f, a = .dispatch v m f := by
      cases a with
      | dispatch v m f => exact ⟨v, m, f, rfl⟩
      | _ => exact absurd rfl hhanded
    obtain ⟨rfl, hsome⟩ := addingOnly_dispatch h ha ht
    exact ⟨some (handOver f m), rfl, hsome⟩

/-- **The tasks of the pool** are the messages handed over, with their closures, in
this order; the last one may not have been pushed yet. -/
theorem handed_eq (h : (system lib cls).Run (initial T up down) tr s) :
    ∃ t, (handed tr).map (fun p => handOver p.1 p.2) =
      (ThreadPool.pushed (poolPart tr)).map ThreadPool.Entry.work ++ t.toList ∧ s.AddingOnly t := by
  refine h.induct (P := fun tr s => ∃ t, (handed tr).map (fun p => handOver p.1 p.2) =
      (ThreadPool.pushed (poolPart tr)).map ThreadPool.Entry.work ++ t.toList ∧ s.AddingOnly t)
    ⟨none, rfl, fun x => ⟨fun ⟨_, hw⟩ => absurd hw nofun, nofun⟩⟩ ?_
  rintro tr s a hr ⟨t, heq, ht⟩ ha
  obtain ⟨t', heq', ht'⟩ := handed_next hr ha ht
  refine ⟨t', ?_, ht'⟩
  rw [handed_snoc, pushed_poolPart, List.map_append, List.map_append, heq, List.append_assoc,
    List.append_assoc, heq']

/-- A callback is copied into the arguments of `addTask`. -/
theorem handed_eq_copied (h : (system lib cls).Run (initial T up down) tr s) :
    (handed tr).map Prod.snd = RedisChannel.copied (channelPart tr) := by
  refine h.induct
    (P := fun tr _ => (handed tr).map Prod.snd = RedisChannel.copied (channelPart tr)) rfl ?_
  intro tr s a _ ih ha
  have hpart : RedisChannel.copied (channelPart (tr ++ [a])) = _ :=
    filterMap_part Label.channel? RedisChannel.Label.copied? tr a
  rw [handed_snoc, List.map_append, hpart, ih]
  refine congrArg (RedisChannel.copied (channelPart tr) ++ ·) ?_
  cases a with
  | channel b =>
    cases b with
    | consumer w c =>
      cases c with
      | copy f m => exact absurd ha.2.2 id
      | _ => rfl
    | _ => rfl
  | _ => rfl

/-- Messages are handed over in the order of their publication, none of them twice. -/
theorem handed_ordered (h : (system lib cls).Run (initial T up down) tr s) :
    ((handed tr).map Prod.snd).Pairwise (·.id < ·.id) := by
  refine (RedisChannel.dispatched_ordered (channel_run h)).sublist ?_
  rw [handed_eq_copied h]
  exact (List.sublist_append_left _ _).trans (RedisChannel.copied_sublist (channel_run h))

/-! ## Closures -/

/-- `subscribe` has made the closure `f`, with a template of value `v`. -/
def Made (tr : List (Label T)) (f : Wrapped) (v : T) : Prop := ∃ i r, Label.subscribe i f r v ∈ tr

theorem Made.snoc {f : Wrapped} {v : T} (h : Made tr f v) (a : Label T) : Made (tr ++ [a]) f v := by
  obtain ⟨i, r, hmem⟩ := h
  exact ⟨i, r, List.mem_append_left _ hmem⟩

/-- Only a state manager calls `subscribe` of the channel, with a closure for it. -/
theorem eq_subscribe_of_call (hready : Ready a s) {i : ℕ} {c : Bytes} {f : Wrapped}
    (hpart : a.channel? = some (.call i (.subscribe c f))) :
    f.channel = c ∧ ∃ r v, a = .subscribe i f r v := by
  cases a with
  | subscribe i' f' r v =>
    cases hpart
    exact ⟨rfl, r, v, rfl⟩
  | channel b =>
    cases hpart
    exact absurd hready id
  | dispatch w m f' => cases hpart
  | pool b => cases hpart
  | task w e b => cases hpart
  | create v => cases hpart
  | write r v => cases hpart
  | destroy m => cases hpart

/-- The callbacks of the channel are closures. -/
theorem made_of_given (h : (system lib cls).Run (initial T up down) tr s) {c : Bytes} {f : Wrapped}
    (hf : RedisChannel.Given (channelPart tr) c f) : f.channel = c ∧ ∃ v, Made tr f v := by
  obtain ⟨i, hi⟩ := hf
  obtain ⟨a, ha, hpart⟩ := List.mem_filterMap.mp hi
  obtain ⟨u, hready⟩ := ready_of_mem h ha
  obtain ⟨hchannel, r, v, rfl⟩ := eq_subscribe_of_call hready hpart
  exact ⟨hchannel, v, i, r, ha⟩

/-- **A message is handed over** with a closure that was made for its channel. -/
theorem made_of_handed (h : (system lib cls).Run (initial T up down) tr s) {f : Wrapped}
    {m : RedisChannel.Message} (hmem : (f, m) ∈ handed tr) :
    f.channel = m.channel ∧ ∃ v, Made tr f v := by
  obtain ⟨a, ha, hhanded⟩ := List.mem_filterMap.mp hmem
  cases a with
  | dispatch w m' f' =>
    cases hhanded
    obtain ⟨pre, post, rfl⟩ := List.append_of_mem ha
    obtain ⟨u, hpre, hu, -⟩ := h.split_cons
    obtain ⟨hchannel, v, i, r, hmade⟩ :=
      made_of_given hpre (RedisChannel.given_of_lookup (channel_run hpre) (hu.1 _ rfl).2)
    exact ⟨hchannel, v, i, r, List.mem_append_left _ hmade⟩
  | _ => cases hhanded

/-- What is pushed carries a closure. -/
theorem made_of_pushed (h : (system lib cls).Run (initial T up down) tr s)
    {e : ThreadPool.Entry Wrapped} (he : e ∈ ThreadPool.pushed (poolPart tr)) :
    ∃ v, Made tr e.work.task v := by
  obtain ⟨t, heq, -⟩ := handed_eq h
  have hwork : e.work ∈ (handed tr).map fun p => handOver p.1 p.2 := by
    rw [heq]
    exact List.mem_append_left _ (List.mem_map_of_mem he)
  obtain ⟨⟨f, m⟩, hmem, hwork⟩ := List.mem_map.mp hwork
  rw [← hwork]
  exact (made_of_handed h hmem).2

/-! ## Invocations -/

/-- The invocation of a user callback: the worker, the queue element whose closure it
executes, and the object it passes. -/
def Label.invocation? : Label T → Option (ℕ × ThreadPool.Entry Wrapped × T)
  | task w e (.callback x) => some (w, e, x)
  | _ => none

/-- The invocations for the task with number `k`. -/
def invocations (k : ℕ) (tr : List (Label T)) : List (ℕ × ThreadPool.Entry Wrapped × T) :=
  (tr.filterMap Label.invocation?).filter fun p => p.2.1.ticket = k

theorem invocations_snoc (k : ℕ) (tr : List (Label T)) (a : Label T) :
    invocations k (tr ++ [a]) =
      invocations k tr ++ a.invocation?.toList.filter fun p => p.2.1.ticket = k := by
  rw [invocations, List.filterMap_append, List.filter_append]
  cases h : a.invocation? <;> simp [invocations, h]

theorem invocations_snoc_of_ne {k : ℕ} (ha : ∀ w e b, a = .task w e b → e.ticket ≠ k) :
    invocations k (tr ++ [a]) = invocations k tr := by
  rw [invocations_snoc]
  cases a with
  | task w e b =>
    cases b with
    | callback x => simp [Label.invocation?, ha w e _ rfl]
    | _ => exact List.append_nil _
  | _ => exact List.append_nil _

theorem invocations_pool (k : ℕ) (b : ThreadPool.Label Wrapped) :
    invocations k (tr ++ [.pool b]) = invocations k tr :=
  invocations_snoc_of_ne fun _ _ _ heq => by cases heq

/-- A step of the task with number `k`. -/
theorem invocations_task (w : ℕ) (e : ThreadPool.Entry Wrapped) (b : TaskAct T) :
    invocations e.ticket (tr ++ [.task w e b]) =
      invocations e.ticket tr ++ (Label.task w e b).invocation?.toList := by
  rw [invocations_snoc]
  cases b with
  | callback x => simp [Label.invocation?]
  | _ => rfl

/-! ## The objects of a task -/

variable (lib cls) in
/-- **Where a worker stands** inside the closure of `e`, whose template has the value
`v`: what it has invoked, what it has parsed, and the clone that it alone may write. -/
def Follows (heap : List (Cell T)) (w : ℕ) (e : ThreadPool.Entry Wrapped) (v : T)
    (calls : List (ℕ × ThreadPool.Entry Wrapped × T)) : TaskPc → Prop
  | .parse => calls = []
  | .clone json_value => calls = [] ∧ lib.parse e.work.payload = some json_value
  | .fromJson json_value state_obj =>
    calls = [] ∧ lib.parse e.work.payload = some json_value ∧ heap[state_obj]? = some ⟨.task w, v⟩
  | .callback state_obj =>
    calls = [] ∧ ∃ x, heap[state_obj]? = some ⟨.task w, x⟩ ∧
      expected lib cls v e.work.payload = some x
  | .inCallback | .ended _ =>
    calls = (expected lib cls v e.work.payload).toList.map fun x => (w, e, x)

section Heap

variable {heap heap' : List (Cell T)} {w : ℕ} {e : ThreadPool.Entry Wrapped} {v : T}
  {calls : List (ℕ × ThreadPool.Entry Wrapped × T)} {pc : TaskPc}

/-- The worker does not care about the objects of others. -/
theorem Follows.frame (hf : Follows lib cls heap w e v calls pc)
    (hheap : ∀ (r : ℕ) (x : T), heap[r]? = some ⟨.task w, x⟩ → heap'[r]? = some ⟨.task w, x⟩) :
    Follows lib cls heap' w e v calls pc := by
  cases pc with
  | fromJson json_value state_obj => exact ⟨hf.1, hf.2.1, hheap _ _ hf.2.2⟩
  | callback state_obj =>
    obtain ⟨hcalls, x, hx, hexpected⟩ := hf
    exact ⟨hcalls, x, hheap _ _ hx, hexpected⟩
  | _ => exact hf

/-- What a message is expected to give, once it has been parsed. -/
theorem expected_of_parse (cls : StateObj T) (v : T) {message : Bytes} {json_value : Json}
    (h : lib.parse message = some json_value) :
    expected lib cls v message = (cls.from_json v json_value).toOption := by
  rw [expected, h]
  rfl

/-- The message is parsed.  If it is malformed, nothing is invoked, and nothing was to
be. -/
theorem follows_parse (heap : List (Cell T)) (w : ℕ) (e : ThreadPool.Entry Wrapped) (v : T)
    (pc : Option TaskPc) :
    ∃ pc', (takeStep lib cls heap w e .parse pc).2 = some pc' ∧
      Follows lib cls (takeStep lib cls heap w e .parse pc).1 w e v [] pc' := by
  cases hparse : lib.parse e.work.payload with
  | some json_value =>
    refine ⟨.clone json_value, ?_, rfl, hparse⟩
    simp only [takeStep, hparse]
  | none =>
    refine ⟨.ended true, ?_, ?_⟩
    · simp only [takeStep, hparse]
    · show [] = (expected lib cls v e.work.payload).toList.map _
      rw [expected, hparse]
      rfl

/-- The JSON value is read into the clone, or has the wrong shape. -/
theorem follows_fromJson {json_value : Json} {state_obj : ℕ}
    (hparse : lib.parse e.work.payload = some json_value)
    (hcell : heap[state_obj]? = some ⟨.task w, v⟩) :
    ∃ pc', (takeStep lib cls heap w e .fromJson (some (.fromJson json_value state_obj))).2 =
        some pc' ∧
      Follows lib cls (takeStep lib cls heap w e .fromJson
        (some (.fromJson json_value state_obj))).1 w e v [] pc' := by
  have hexpected := expected_of_parse cls v hparse
  have hlt := (List.getElem?_eq_some_iff.mp hcell).1
  cases hfrom : cls.from_json v json_value with
  | ok x =>
    refine ⟨.callback state_obj, ?_, ?_⟩
    · simp only [takeStep, hcell, hfrom]
    · simp only [takeStep, hcell, hfrom]
      rw [hfrom] at hexpected
      exact ⟨rfl, x, List.getElem?_set_self hlt, hexpected⟩
  | error ex =>
    refine ⟨.ended true, ?_, ?_⟩
    · simp only [takeStep, hcell, hfrom]
    · show [] = (expected lib cls v e.work.payload).toList.map _
      rw [hexpected, hfrom]
      rfl

/-- **A step of the closure** leads from where the worker stands to where it should
stand next. -/
theorem Follows.step (hf : Follows lib cls heap w e v calls pc) {b : TaskAct T}
    (hfits : Fits heap e b (some pc))
    (htemplate : heap[e.work.task.template_ptr]? = some ⟨.closure, v⟩) :
    ∃ pc', (takeStep lib cls heap w e b (some pc)).2 = some pc' ∧
      Follows lib cls (takeStep lib cls heap w e b (some pc)).1 w e v
        (calls ++ (Label.task w e b).invocation?.toList) pc' := by
  cases b with
  | parse =>
    cases pc with
    | parse =>
      obtain rfl : calls = [] := hf
      exact follows_parse heap w e v _
    | _ => exact absurd hfits id
  | clone =>
    cases pc with
    | clone json_value =>
      obtain ⟨rfl, hparse⟩ := hf
      refine ⟨.fromJson json_value heap.length, ?_, ?_⟩
      · simp only [takeStep, htemplate]
      · simp only [takeStep, htemplate]
        exact ⟨rfl, hparse, List.getElem?_concat_length⟩
    | _ => exact absurd hfits id
  | fromJson =>
    cases pc with
    | fromJson json_value state_obj =>
      obtain ⟨rfl, hparse, hcell⟩ := hf
      exact follows_fromJson hparse hcell
    | _ => exact absurd hfits id
  | callback y =>
    cases pc with
    | callback state_obj =>
      obtain ⟨rfl, x, hcell, hexpected⟩ := hf
      obtain rfl : x = y := by
        have hval : (heap[state_obj]?).map Cell.value = some y := hfits
        rw [hcell] at hval
        exact Option.some.inj hval
      refine ⟨.inCallback, rfl, ?_⟩
      show [(w, e, x)] = (expected lib cls v e.work.payload).toList.map _
      rw [hexpected]
      rfl
    | _ => exact absurd hfits id
  | finish threw =>
    cases pc with
    | inCallback => exact ⟨.ended threw, rfl, (List.append_nil _).trans hf⟩
    | _ => exact absurd hfits id

/-- A step of the closure writes to the worker's own object only. -/
theorem Follows.getElem?_step (hf : Follows lib cls heap w e v calls pc) {b : TaskAct T}
    (hfits : Fits heap e b (some pc)) {r : ℕ} {c : Cell T} (hr : heap[r]? = some c)
    (howner : c.owner ≠ .task w) : (takeStep lib cls heap w e b (some pc)).1[r]? = some c := by
  -- the worker's object is at another place
  have hset : ∀ {state_obj : ℕ} {x y : T}, heap[state_obj]? = some ⟨.task w, x⟩ → ∀ o,
      (heap.set state_obj ⟨o, y⟩)[r]? = some c := by
    intro state_obj x y hcell o
    rw [List.getElem?_set_ne ?_]
    · exact hr
    · rintro rfl
      rw [hr] at hcell
      cases hcell
      exact howner rfl
  cases b with
  | parse =>
    simp only [takeStep]
    split <;> exact hr
  | clone =>
    cases pc with
    | clone json_value =>
      simp only [takeStep]
      split
      · exact (List.getElem?_append_left (List.getElem?_eq_some_iff.mp hr).1).trans hr
      · exact hr
    | _ => exact absurd hfits id
  | fromJson =>
    cases pc with
    | fromJson json_value state_obj =>
      simp only [takeStep, hf.2.2]
      split
      · exact hset hf.2.2 _
      · exact hr
    | _ => exact absurd hfits id
  | callback y =>
    cases pc with
    | callback state_obj =>
      obtain ⟨-, x, hcell, -⟩ := hf
      exact hset hcell _
    | _ => exact absurd hfits id
  | finish threw => exact hr

end Heap

/-! ## Tasks apart from each other -/

variable (lib cls) in
/-- Worker `w` stands inside the closure of `e` where this task has led it. -/
def AtWork (tr : List (Label T)) (s : State T) (w : ℕ) (e : ThreadPool.Entry Wrapped) : Prop :=
  ∃ pc v, s.tasks w = some pc ∧ Made tr e.work.task v ∧
    Follows lib cls s.heap w e v (invocations e.ticket tr) pc

variable (lib cls) in
/-- **The tasks do not meddle with each other.**  Each closure has its template, as it
was made, each worker stands where its own task has led it, and the invocations for a
task are those of the worker that executes it. -/
structure Apart (tr : List (Label T)) (s : State T) : Prop where
  template : ∀ f v, Made tr f v → s.heap[f.template_ptr]? = some ⟨.closure, v⟩
  executing : ∀ w e, s.pool.workers[w]? = some (.running e) → AtWork lib cls tr s w e
  completed : ∀ w e, (w, e) ∈ ThreadPool.completed (poolPart tr) →
    ∃ v, Made tr e.work.task v ∧
      invocations e.ticket tr =
        (expected lib cls v e.work.payload).toList.map fun x => (w, e, x)
  fresh : ∀ k, (∀ w e, (w, e) ∈ ThreadPool.invoked (poolPart tr) → e.ticket ≠ k) →
    invocations k tr = []

section Step

/-- Where the worker of a step of a closure stands. -/
theorem Apart.task (hs : Apart lib cls tr s) {w : ℕ} {e : ThreadPool.Entry Wrapped} {b : TaskAct T}
    (ha : (system lib cls).Enabled (.task w e b) s) :
    ∃ pc v, s.tasks w = some pc ∧ Made tr e.work.task v ∧
      Follows lib cls s.heap w e v (invocations e.ticket tr) pc ∧ Fits s.heap e b (some pc) := by
  obtain ⟨pc, v, htask, hmade, hfollows⟩ := hs.executing w e ha.2.2.1
  exact ⟨pc, v, htask, hmade, hfollows, htask ▸ ha.2.2.2⟩

/-- **Who writes to an object**: the user's code to its own, a worker to the clone of
its own task. -/
theorem Apart.getElem?_heap_next (hs : Apart lib cls tr s) (ha : (system lib cls).Enabled a s)
    {r : ℕ} {c : Cell T} (hr : s.heap[r]? = some c) (huser : c.owner ≠ .user)
    (htask : ∀ w e b, a = .task w e b → c.owner ≠ .task w) :
    ((system lib cls).next a s).heap[r]? = some c := by
  have hnew : ∀ c', (s.heap ++ [c'])[r]? = some c := fun c' =>
    (List.getElem?_append_left (List.getElem?_eq_some_iff.mp hr).1).trans hr
  cases a with
  | subscribe i f r v => exact hnew _
  | create v => exact hnew _
  | write r' v =>
    refine (List.getElem?_set_ne ?_).trans hr
    rintro rfl
    have howner : (s.heap[r']?).map Cell.owner = some .user := ha.2.2
    rw [hr] at howner
    exact huser (Option.some.inj howner)
  | task w e b =>
    obtain ⟨pc, v, hpc, -, hfollows, hfits⟩ := hs.task ha
    show (takeStep lib cls s.heap w e b (s.tasks w)).1[r]? = some c
    rw [hpc]
    exact hfollows.getElem?_step hfits hr (htask w e b rfl)
  | _ => exact hr

/-- The closures made before keep their templates, and a new one gets its own. -/
theorem Apart.template_next (hs : Apart lib cls tr s) (ha : (system lib cls).Enabled a s)
    {f : Wrapped} {v : T} (hmade : Made (tr ++ [a]) f v) :
    ((system lib cls).next a s).heap[f.template_ptr]? = some ⟨.closure, v⟩ := by
  obtain ⟨i, r, hmem⟩ := hmade
  rcases List.mem_append.mp hmem with hold | hnew
  · exact hs.getElem?_heap_next ha (hs.template f v ⟨i, r, hold⟩) nofun fun _ _ _ _ => nofun
  · obtain rfl := List.mem_singleton.mp hnew
    have hptr : f.template_ptr = s.heap.length := ha.2.2.2.2
    show (s.heap ++ [⟨.closure, v⟩])[f.template_ptr]? = _
    rw [hptr]
    exact List.getElem?_concat_length

/-- The worker of a step of a closure executes the task. -/
theorem current_of_task {w : ℕ} {e : ThreadPool.Entry Wrapped} {b : TaskAct T}
    (ha : (system lib cls).Enabled (.task w e b) s) : s.pool.current w = some e := by
  rw [ThreadPool.State.current, ha.2.2.1]
  rfl

/-- A step of another task has another number. -/
theorem ticket_ne_of_task (h : (system lib cls).Run (initial T up down) tr s)
    (ha : (system lib cls).Enabled a s) {w : ℕ} {e : ThreadPool.Entry Wrapped}
    (he : s.pool.current w = some e) (hne : ∀ b, a ≠ .task w e b) {v : ℕ}
    {e' : ThreadPool.Entry Wrapped} {b : TaskAct T} (hb : a = .task v e' b) :
    e'.ticket ≠ e.ticket := by
  subst hb
  intro hticket
  have hpopped : ∀ {u : ℕ} {x : ThreadPool.Entry Wrapped}, s.pool.current u = some x →
      (u, x) ∈ ThreadPool.popped (poolPart tr) := fun hx =>
    ThreadPool.mem_popped_of_invoked (pool_run h)
      (ThreadPool.mem_invoked_of_current (pool_run h) hx)
  obtain ⟨rfl, rfl⟩ :=
    ThreadPool.popped_unique (pool_run h) (hpopped (current_of_task ha)) (hpopped he) hticket
  exact hne b rfl

/-- A worker that executes a task has just invoked it, or did so before. -/
theorem executing_next (ha : (system lib cls).Enabled a s) {w : ℕ} {e : ThreadPool.Entry Wrapped}
    (hw : ((system lib cls).next a s).pool.workers[w]? = some (.running e)) :
    (a = .pool (.worker w (.invoke e)) ∧ s.pool.workers[w]? = some (.holding e)) ∨
      ((∀ b, a ≠ .pool (.worker w b)) ∧ s.pool.workers[w]? = some (.running e)) := by
  rcases pool_next ha with ⟨hpool, hsame⟩ | ⟨b, hpool, hb, hnext⟩
  · rw [hsame] at hw
    refine Or.inr ⟨?_, hw⟩
    rintro b rfl
    cases hpool
  · rw [hnext] at hw
    rcases ThreadPool.executing_next hb hw with ⟨rfl, hholding⟩ | ⟨hne, hrunning⟩
    · exact Or.inl ⟨eq_of_pool?_worker hpool, hholding⟩
    · refine Or.inr ⟨?_, hrunning⟩
      rintro b' rfl
      exact hne b' (Option.some.inj hpool).symm

/-- A worker's place in its closure changes with its own steps. -/
theorem tasks_next (ha : (system lib cls).Enabled a s) {w : ℕ} {e : ThreadPool.Entry Wrapped}
    (hw : s.pool.workers[w]? = some (.running e)) (hpool : ∀ b, a ≠ .pool (.worker w b))
    (htask : ∀ b, a ≠ .task w e b) : ((system lib cls).next a s).tasks w = s.tasks w := by
  cases a with
  | pool b =>
    cases b with
    | worker v b =>
      have hv : w ≠ v := fun hv => hpool b (by rw [hv])
      cases b with
      | invoke e' => exact Function.update_of_ne hv _ _
      | complete e' threw => exact Function.update_of_ne hv _ _
      | _ => rfl
    | _ => rfl
  | task v e' b =>
    have hv : w ≠ v := by
      rintro rfl
      have hsame : some (ThreadPool.WorkerPc.running e) = some (.running e') :=
        hw.symm.trans ha.2.2.1
      cases hsame
      exact htask b rfl
    exact Function.update_of_ne hv _ _
  | _ => rfl

/-- A task begins with nothing invoked. -/
theorem Apart.atWork_invoke (hs : Apart lib cls tr s)
    (h : (system lib cls).Run (initial T up down) tr s) {w : ℕ} {e : ThreadPool.Entry Wrapped}
    (hw : s.pool.workers[w]? = some (.holding e)) :
    AtWork lib cls (tr ++ [.pool (.worker w (.invoke e))])
      ((system lib cls).next (.pool (.worker w (.invoke e))) s) w e := by
  have hpending : s.pool.pending w = some e := by
    rw [ThreadPool.State.pending, hw]
    rfl
  have hpushed : e ∈ ThreadPool.pushed (poolPart tr) := by
    rw [ThreadPool.pushed_eq (pool_run h)]
    exact List.mem_append_left _
      (List.mem_map_of_mem (ThreadPool.mem_popped_of_pending (pool_run h) hpending))
  obtain ⟨v, hmade⟩ := made_of_pushed h hpushed
  refine ⟨.parse, v, Function.update_self .., hmade.snoc _, ?_⟩
  rw [invocations_pool]
  exact hs.fresh _ fun _ _ hmem => ThreadPool.invoked_ticket_ne (pool_run h) hpending hmem

/-- A task goes on by its own steps. -/
theorem Apart.atWork_task (hs : Apart lib cls tr s) {w : ℕ} {e : ThreadPool.Entry Wrapped}
    {b : TaskAct T} (ha : (system lib cls).Enabled (.task w e b) s) :
    AtWork lib cls (tr ++ [.task w e b]) ((system lib cls).next (.task w e b) s) w e := by
  obtain ⟨pc, v, hpc, hmade, hfollows, hfits⟩ := hs.task ha
  obtain ⟨pc', hpc', hfollows'⟩ := hfollows.step hfits (hs.template _ v hmade)
  rw [← hpc] at hpc' hfollows'
  refine ⟨pc', v, (Function.update_self ..).trans hpc', hmade.snoc _, ?_⟩
  rw [invocations_task]
  exact hfollows'

/-- A step of somebody else is nothing to the task. -/
theorem Apart.atWork_frame (hs : Apart lib cls tr s)
    (h : (system lib cls).Run (initial T up down) tr s) (ha : (system lib cls).Enabled a s) {w : ℕ}
    {e : ThreadPool.Entry Wrapped} (hw : s.pool.workers[w]? = some (.running e))
    (hpool : ∀ b, a ≠ .pool (.worker w b)) (htask : ∀ b, a ≠ .task w e b) :
    AtWork lib cls (tr ++ [a]) ((system lib cls).next a s) w e := by
  obtain ⟨pc, v, hpc, hmade, hfollows⟩ := hs.executing w e hw
  have hcurrent : s.pool.current w = some e := by
    rw [ThreadPool.State.current, hw]
    rfl
  refine ⟨pc, v, (tasks_next ha hw hpool htask).trans hpc, hmade.snoc _, ?_⟩
  rw [invocations_snoc_of_ne fun _ _ _ => ticket_ne_of_task h ha hcurrent htask]
  refine hfollows.frame fun r x hr => hs.getElem?_heap_next ha hr (by simp) ?_
  rintro v' e' b rfl howner
  cases howner
  have hsame : some (ThreadPool.WorkerPc.running e) = some (.running e') := hw.symm.trans ha.2.2.1
  cases hsame
  exact htask b rfl

theorem Apart.executing_next (hs : Apart lib cls tr s)
    (h : (system lib cls).Run (initial T up down) tr s) (ha : (system lib cls).Enabled a s) {w : ℕ}
    {e : ThreadPool.Entry Wrapped}
    (hw : ((system lib cls).next a s).pool.workers[w]? = some (.running e)) :
    AtWork lib cls (tr ++ [a]) ((system lib cls).next a s) w e := by
  rcases Subscription.executing_next ha hw with ⟨rfl, hholding⟩ | ⟨hpool, hrunning⟩
  · exact hs.atWork_invoke h hholding
  · by_cases hb : ∃ b, a = .task w e b
    · obtain ⟨b, rfl⟩ := hb
      exact hs.atWork_task ha
    · exact hs.atWork_frame h ha hrunning hpool fun b heq => hb ⟨b, heq⟩

theorem Apart.completed_next (hs : Apart lib cls tr s)
    (h : (system lib cls).Run (initial T up down) tr s) (ha : (system lib cls).Enabled a s) {w : ℕ}
    {e : ThreadPool.Entry Wrapped}
    (he : (w, e) ∈ ThreadPool.completed (poolPart (tr ++ [a]))) :
    ∃ v, Made (tr ++ [a]) e.work.task v ∧
      invocations e.ticket (tr ++ [a]) =
        (expected lib cls v e.work.payload).toList.map fun x => (w, e, x) := by
  have hsteps : ThreadPool.completed (poolPart (tr ++ [a])) = _ := steps_poolPart _ tr a
  rw [hsteps] at he
  rcases List.mem_append.mp he with hold | hnew
  · obtain ⟨v, hmade, heq⟩ := hs.completed w e hold
    refine ⟨v, hmade.snoc _, ?_⟩
    rw [invocations_snoc_of_ne, heq]
    rintro v' e' b rfl hticket
    exact ThreadPool.completed_ticket_ne (pool_run h) (current_of_task ha) hold hticket.symm
  · -- the task has just ended
    obtain ⟨b, hb, hat⟩ := Option.bind_eq_some_iff.mp (Option.mem_toList.mp hnew)
    obtain ⟨threw, rfl⟩ : ∃ threw, a = .pool (.worker w (.complete e threw)) := by
      cases b with
      | worker v b =>
        cases b with
        | complete e' threw =>
          cases hat
          exact ⟨threw, eq_of_pool?_worker hb⟩
        | _ => cases hat
      | _ => cases hat
    obtain ⟨pc, v, hpc, hmade, hfollows⟩ := hs.executing w e (ha.2.1 _ rfl).1
    refine ⟨v, hmade.snoc _, ?_⟩
    rw [invocations_pool]
    have hends : (s.tasks w).any (TaskPc.ends threw) = true := ha.2.2
    rw [hpc] at hends
    cases pc with
    | ended threw' => exact hfollows
    | _ => exact absurd hends nofun

theorem Apart.next (hs : Apart lib cls tr s) (h : (system lib cls).Run (initial T up down) tr s)
    (ha : (system lib cls).Enabled a s) :
    Apart lib cls (tr ++ [a]) ((system lib cls).next a s) where
  template := fun _ _ hmade => hs.template_next ha hmade
  executing := fun _ _ hw => hs.executing_next h ha hw
  completed := fun _ _ he => hs.completed_next h ha he
  fresh := by
    intro k hk
    have hsteps : ThreadPool.invoked (poolPart (tr ++ [a])) = _ := steps_poolPart _ tr a
    have hold : ∀ w e, (w, e) ∈ ThreadPool.invoked (poolPart tr) → e.ticket ≠ k := by
      intro w e hmem
      refine hk w e ?_
      rw [hsteps]
      exact List.mem_append_left _ hmem
    rw [invocations_snoc_of_ne, hs.fresh k hold]
    rintro w e b rfl
    exact hold w e (ThreadPool.mem_invoked_of_current (pool_run h) (current_of_task ha))

end Step

/-- **In every run the tasks do not meddle with each other.** -/
theorem apart (h : (system lib cls).Run (initial T up down) tr s) : Apart lib cls tr s := by
  refine h.induct (P := Apart lib cls) ?_ fun tr s a hr hs ha => hs.next hr ha
  constructor
  · rintro f v ⟨i, r, hmem⟩
    exact absurd hmem List.not_mem_nil
  · intro w e hw
    cases hw
  · intro w e he
    exact absurd he List.not_mem_nil
  · exact fun _ _ => rfl

/-- A closure has one template. -/
theorem made_unique (h : (system lib cls).Run (initial T up down) tr s) {f : Wrapped} {v v' : T}
    (hv : Made tr f v) (hv' : Made tr f v') : v = v' := by
  have heq := ((apart h).template f v hv).symm.trans ((apart h).template f v' hv')
  cases heq
  rfl

/-! ## Isolation and exactness -/

/-- A worker inside a closure can always go on. -/
theorem exists_enabled (h : (system lib cls).Run (initial T up down) tr s) {w : ℕ}
    {e : ThreadPool.Entry Wrapped} (hw : s.pool.workers[w]? = some (.running e)) :
    (∃ b, (system lib cls).Enabled (.task w e b) s) ∨
      ∃ threw, (system lib cls).Enabled (.pool (.worker w (.complete e threw))) s := by
  obtain ⟨pc, v, hpc, hmade, hfollows⟩ := (apart h).executing w e hw
  have htask : ∀ b, Fits s.heap e b (some pc) → (system lib cls).Enabled (.task w e b) s :=
    fun b hfits => ⟨TransitionSystem.enabledOn_none, TransitionSystem.enabledOn_none,
      show _ ∧ Fits s.heap e b (s.tasks w) from ⟨hw, hpc ▸ hfits⟩⟩
  cases pc with
  | parse => exact Or.inl ⟨.parse, htask _ trivial⟩
  | clone json_value =>
    exact Or.inl ⟨.clone, htask _ (Option.isSome_of_eq_some ((apart h).template _ v hmade))⟩
  | fromJson json_value state_obj =>
    exact Or.inl ⟨.fromJson, htask _ (Option.isSome_of_eq_some hfollows.2.2)⟩
  | callback state_obj =>
    obtain ⟨-, x, hx, -⟩ := hfollows
    exact Or.inl ⟨.callback x, htask _ (congrArg (Option.map Cell.value) hx)⟩
  | inCallback => exact Or.inl ⟨.finish false, htask _ trivial⟩
  | ended threw =>
    have hends : (s.tasks w).any (TaskPc.ends threw) = true := by
      rw [hpc]
      exact beq_self_eq_true threw
    exact Or.inr ⟨threw, TransitionSystem.enabledOn_none,
      TransitionSystem.enabledOn_some.mpr ⟨hw, trivial⟩, hends⟩

/-- **Isolation and exactness.**  In every run: the messages for which a callback was
found are the tasks, in order, each with a closure that was made for its channel; a
task is popped once, by a worker that executes what it pops, one after the other; a
task that has been executed has invoked the user's callback once, with what
`from_json` makes of the message in a clone of the template as it was when the closure
was made, or not at all if the text does not parse or `from_json` throws; a worker
inside a closure can go on, its steps are nothing to the channel, the pool and the
other workers, and the end of the task, by a return or by an exception, sends it back
to its loop. -/
theorem delivery_isolated (h : (system lib cls).Run (initial T up down) tr s) :
    (∃ t, (handed tr).map (fun p => handOver p.1 p.2) =
      (ThreadPool.pushed (poolPart tr)).map ThreadPool.Entry.work ++ t.toList ∧ s.AddingOnly t) ∧
    ((handed tr).map Prod.snd).Pairwise (·.id < ·.id) ∧
    (∀ f m, (f, m) ∈ handed tr → f.channel = m.channel ∧ ∃ v, Made tr f v) ∧
    ThreadPool.pushed (poolPart tr) =
      (ThreadPool.popped (poolPart tr)).map (·.2) ++ s.pool.taskQueue ∧
    ((ThreadPool.popped (poolPart tr)).map (·.2.ticket)).Nodup ∧
    (∀ w, ThreadPool.ofWorker w (ThreadPool.popped (poolPart tr)) =
      ThreadPool.ofWorker w (ThreadPool.completed (poolPart tr)) ++
        ((s.pool.current w).toList ++ (s.pool.pending w).toList)) ∧
    (∀ w e v, (w, e) ∈ ThreadPool.completed (poolPart tr) → Made tr e.work.task v →
      invocations e.ticket tr =
        (expected lib cls v e.work.payload).toList.map fun x => (w, e, x)) ∧
    (∀ w e, s.pool.workers[w]? = some (.running e) →
      (∃ b, (system lib cls).Enabled (.task w e b) s) ∨
        ∃ threw, (system lib cls).Enabled (.pool (.worker w (.complete e threw))) s) ∧
    (∀ w e b, (system lib cls).Enabled (.task w e b) s →
      ((system lib cls).next (.task w e b) s).channel = s.channel ∧
      ((system lib cls).next (.task w e b) s).pool = s.pool ∧
      ∀ v, v ≠ w → ((system lib cls).next (.task w e b) s).tasks v = s.tasks v) ∧
    (∀ w e threw, (system lib cls).Enabled (.pool (.worker w (.complete e threw))) s →
      (system lib cls).next (.pool (.worker w (.complete e threw))) s =
        { s with
          pool := { s.pool with workers := s.pool.workers.set w .start }
          tasks := Function.update s.tasks w none }) := by
  have hpool := pool_run h
  refine ⟨handed_eq h, handed_ordered h, fun f m hmem => made_of_handed h hmem,
    ThreadPool.pushed_eq hpool, ThreadPool.popped_ticket_nodup hpool,
    ThreadPool.ofWorker_popped_completed hpool, fun w e v he hv => ?_,
    fun w e hw => exists_enabled h hw,
    fun w e b _ => ⟨rfl, rfl, fun v hne => Function.update_of_ne hne _ _⟩, fun w e threw _ => rfl⟩
  obtain ⟨v', hv', heq⟩ := (apart h).completed w e he
  rw [heq, made_unique h hv hv']

/-! ## Runs spelt out -/

/-- The consumer thread receives message `m` and hands it over with the closure `f`, as
the queue element `e`. -/
def handOverRun (w : ℕ) (f : Wrapped) (m : RedisChannel.Message)
    (e : ThreadPool.Entry Wrapped) : List (Label T) :=
  [.channel (.publish m.channel m.payload), .channel (.consumer w (.receive m)),
    .channel (.consumer w (.lockCallbacks m)), .channel (.consumer w (.find m)),
    .dispatch w m f, .pool (.producer w (.lock (handOver f m))), .pool (.producer w (.push e)),
    .pool (.producer w .unlock), .pool (.producer w (.notify none)),
    .channel (.consumer w (.handOver f m)), .channel (.consumer w .unlockCallbacks),
    .channel (.consumer w .unlockRedis)]

/-- The user makes an object of value `v` and subscribes with it, by a closure `f`. -/
def subscribeRun (f : Wrapped) (v : T) : List (Label T) :=
  [.create v, .subscribe 0 f 0 v] ++
    ((RedisChannel.subscribeRun 0 f.channel f).tail.map .channel)

/-- The manager spawns the first worker. -/
def spawnRun : List (Label T) :=
  (ThreadPool.sampleRun ++ [ThreadPool.Label.manager .spawn]).map .pool

/-- Worker `w` executes the closure of `e`, which reads the object `x` from a message
that parses; the user's callback may throw. -/
def callbackRun (w : ℕ) (e : ThreadPool.Entry Wrapped) (x : T) (threw : Bool) : List (Label T) :=
  [.task w e .parse, .task w e .clone, .task w e .fromJson, .task w e (.callback x),
    .task w e (.finish threw), .pool (.worker w (.complete e threw))]

section Mixed

/-- A class whose objects count how often they were read. -/
def counter : StateObj ℕ where
  to_json _ := .error .other
  from_json v _ := .ok (v + 1)

/-- A library that parses the text `null`. -/
def nullLibrary : JsonLibrary := StateManager.textLibrary [110, 117, 108, 108] .null

/-- The closure of the first subscription. -/
def closure : Wrapped := ⟨0, 0, [97], 1⟩

def malformed : RedisChannel.Message := ⟨0, [97], [120]⟩

def wellFormed : RedisChannel.Message := ⟨1, [97], [110, 117, 108, 108]⟩

/-- A malformed message, and one for which the callback throws. -/
def mixedRun : List (Label ℕ) :=
  subscribeRun closure 5 ++
    (RedisChannel.consumeRun 0).map .channel ++
    handOverRun 0 closure malformed ⟨0, handOver closure malformed⟩ ++
    (RedisChannel.consumeRun 0).map .channel ++
    handOverRun 0 closure wellFormed ⟨1, handOver closure wellFormed⟩ ++
    spawnRun ++ (ThreadPool.takeRun 0 ⟨0, handOver closure malformed⟩).map .pool ++
    [.task 0 ⟨0, handOver closure malformed⟩ .parse,
      .pool (.worker 0 (.complete ⟨0, handOver closure malformed⟩ true))] ++
    (ThreadPool.takeRun 0 ⟨1, handOver closure wellFormed⟩).map .pool ++
    callbackRun 0 ⟨1, handOver closure wellFormed⟩ 6 true

set_option maxRecDepth 10000 in
theorem mixedRun_legal :
    (system nullLibrary counter).Legal mixedRun (initial ℕ scaleUp scaleDown) := by
  decide +kernel

theorem delivery_isolated_mixedRun :
    (invocations 0 mixedRun = (expected nullLibrary counter 5 [120]).toList.map
      fun x => (0, ⟨0, handOver closure malformed⟩, x)) ∧
    (invocations 1 mixedRun = (expected nullLibrary counter 5 [110, 117, 108, 108]).toList.map
      fun x => (0, ⟨1, handOver closure wellFormed⟩, x)) := by
  have hisolated := delivery_isolated (TransitionSystem.run_of_legal mixedRun_legal)
  have hmade : Made mixedRun closure 5 := ⟨0, 0, by simp [mixedRun, subscribeRun]⟩
  obtain ⟨-, -, -, -, -, -, hexact, -⟩ := hisolated
  exact ⟨hexact 0 ⟨0, handOver closure malformed⟩ 5 (by decide +kernel) hmade,
    hexact 0 ⟨1, handOver closure wellFormed⟩ 5 (by decide +kernel) hmade⟩

end Mixed

end Subscription
