/-
# The end of a subscription

The consumer thread copies a callback into the pool, and `unsubscribe` removes it from
the map only: a copy that is on its way (`Carried`) is invoked after the call has
returned (`not_final_lateRun`), and `wrapped_callback` goes on to use the state manager
it was made by.  A call of `unsubscribe` that returns when no copy is on its way, and no
removed entry about to be copied, is the end of the subscription (`final_of_settled`).
-/
import RedisStateManager.SubscriptionDelivery
import RedisStateManager.ChannelRestart

namespace Subscription

open Redis (Bytes)
open StateManager (Json JsonLibrary StateObj)

variable {T : Type} {lib : JsonLibrary} {cls : StateObj T} {up down : UInt32 → UInt32 → Bool}
  {tr : List (Label T)} {s : State T} {a : Label T} {f : Wrapped}

/-! ## Where the copies of a closure are -/

/-- The user's callback has been invoked, or will not be. -/
def TaskPc.called : TaskPc → Bool
  | .inCallback | .ended _ => true
  | _ => false

section Copies

variable (lib cls)

/-- What the closure of `e` passes to the user's callback, if anything. -/
def State.outcome (s : State T) (e : ThreadPool.Entry Wrapped) : Option T :=
  (s.heap[e.work.task.template_ptr]?).bind fun template =>
    expected lib cls template.value e.work.payload

/-- **A copy of closure `f` is on its way** to be invoked: it is being added to the
pool, is in the queue or in the hands of a worker, or is executed and has not come to
the user's callback. -/
inductive Carried (s : State T) (f : Wrapped) : Prop
  | adding (t : ThreadPool.WorkerTask Wrapped) (h : s.Adding t) (hf : t.task = f)
  | queued (e : ThreadPool.Entry Wrapped) (h : e ∈ s.pool.taskQueue) (hf : e.work.task = f)
  | pending (w : ℕ) (e : ThreadPool.Entry Wrapped) (h : s.pool.pending w = some e)
      (hf : e.work.task = f)
  | executing (w : ℕ) (e : ThreadPool.Entry Wrapped) (pc : TaskPc)
      (h : s.pool.workers[w]? = some (.running e)) (hpc : s.tasks w = some pc)
      (hcalled : pc.called = false) (houtcome : (s.outcome lib cls e).isSome = true)
      (hf : e.work.task = f)

/-- Closure `f` is not registered, and no copy of it is on its way. -/
structure Absent (s : State T) (f : Wrapped) : Prop where
  lookup : s.channel.shared.callbacks.lookup f.channel ≠ some f
  carried : ¬ Carried lib cls s f

end Copies

/-- A label that begins the invocation of the closure of `e`, or of the user's callback
in it. -/
def Label.Begins (e : ThreadPool.Entry Wrapped) (a : Label T) : Prop :=
  (∃ w, a = .pool (.worker w (.invoke e))) ∨ ∃ w x, a = .task w e (.callback x)

section Step

/-- A task is being added since it was handed over. -/
theorem adding_next (ha : (system lib cls).Enabled a s) {t : ThreadPool.WorkerTask Wrapped}
    (ht : ((system lib cls).next a s).Adding t) :
    s.Adding t ∨ ∃ v m f, a = .dispatch v m f ∧ t = handOver f m := by
  obtain ⟨w, hw⟩ := ht
  cases a with
  | dispatch v m f =>
    have hproducers : ((system lib cls).next (.dispatch v m f) s).pool.producers w =
        Function.update s.pool.producers v (.lock (handOver f m)) w := rfl
    rw [hproducers] at hw
    rcases eq_or_ne w v with rfl | hne
    · rw [Function.update_self] at hw
      exact Or.inr ⟨w, m, f, rfl, (Option.some.inj hw).symm⟩
    · rw [Function.update_of_ne hne] at hw
      exact Or.inl ⟨w, hw⟩
  | pool b =>
    have hnext : adding? ((ThreadPool.next b s.pool).producers w) = some t := hw
    refine Or.inl ⟨w, ?_⟩
    by_cases hpush : b.push? = none
    · rw [adding?_next (ha.2.1 b rfl) (fun w t heq => by subst heq; exact ha.2.2) hpush] at hnext
      exact hnext
    · cases b with
      | producer v b =>
        rcases eq_or_ne v w with rfl | hne
        · cases b with
          | push e =>
            have htarget : (ThreadPool.next (.producer v (.push e)) s.pool).producers v = .unlock :=
              Function.update_self ..
            rw [htarget] at hnext
            cases hnext
          | _ => exact absurd rfl hpush
        · rwa [ThreadPool.producers_next fun b' heq => hne (by injection heq)] at hnext
      | _ => exact absurd rfl hpush
  | _ => exact Or.inl ⟨w, hw⟩

/-- The queue holds what it held, or what was being added. -/
theorem mem_taskQueue_next (ha : (system lib cls).Enabled a s) {e : ThreadPool.Entry Wrapped}
    (he : e ∈ ((system lib cls).next a s).pool.taskQueue) :
    e ∈ s.pool.taskQueue ∨ s.Adding e.work := by
  rcases pool_next ha with ⟨-, hsame⟩ | ⟨b, -, hb, hnext⟩
  · rw [hsame] at he
    exact Or.inl he
  · rw [hnext] at he
    have hmem : e ∈ s.pool.taskQueue ++ b.push?.toList := by
      rw [ThreadPool.taskQueue_next hb]
      exact List.mem_append_right _ he
    refine (List.mem_append.mp hmem).imp_right fun hpush => ?_
    cases b with
    | producer v b =>
      cases b with
      | push e' =>
        obtain rfl := List.mem_singleton.mp hpush
        exact ⟨v, congrArg adding? hb.1⟩
      | _ => cases hpush
    | _ => cases hpush

theorem pending_next (ha : (system lib cls).Enabled a s) {w : ℕ} {e : ThreadPool.Entry Wrapped}
    (hw : ((system lib cls).next a s).pool.pending w = some e) :
    e ∈ s.pool.taskQueue ∨ s.pool.pending w = some e := by
  rcases pool_next ha with ⟨-, hsame⟩ | ⟨b, -, hb, hnext⟩
  · rw [hsame] at hw
    exact Or.inr hw
  · rw [hnext] at hw
    exact (ThreadPool.pending_next hb hw).imp_left fun hpop => List.mem_of_mem_head? hpop.2

/-- What a task being executed passes to the user's callback is settled. -/
theorem outcome_eq (h : (system lib cls).Run (initial T up down) tr s)
    {e : ThreadPool.Entry Wrapped} {v : T} (hmade : Made tr e.work.task v) :
    s.outcome lib cls e = expected lib cls v e.work.payload := by
  rw [State.outcome, (apart h).template _ v hmade]
  rfl

/-- A task being executed was invoked just now, or has not come any nearer to the
user's callback. -/
theorem called_next (h : (system lib cls).Run (initial T up down) tr s)
    (ha : (system lib cls).Enabled a s) {w : ℕ} {e : ThreadPool.Entry Wrapped}
    (hw : s.pool.workers[w]? = some (.running e)) (hpool : ∀ b, a ≠ .pool (.worker w b))
    {pc' : TaskPc} (hpc' : ((system lib cls).next a s).tasks w = some pc')
    (hcalled : pc'.called = false) : ∃ pc, s.tasks w = some pc ∧ pc.called = false := by
  by_cases hb : ∃ b, a = .task w e b
  · obtain ⟨b, rfl⟩ := hb
    obtain ⟨pc, v, hpc, -, hfollows, hfits⟩ := (apart h).task ha
    refine ⟨pc, hpc, ?_⟩
    cases pc with
    | inCallback =>
      cases b with
      | finish threw =>
        have hended : ((system lib cls).next (.task w e (.finish threw)) s).tasks w =
            some (.ended threw) := Function.update_self ..
        cases hended.symm.trans hpc'
        exact absurd hcalled nofun
      | _ => exact absurd hfits id
    | ended threw => cases b <;> exact absurd hfits id
    | _ => rfl
  · rw [tasks_next ha hw hpool fun b heq => hb ⟨b, heq⟩] at hpc'
    exact ⟨pc', hpc', hcalled⟩

/-- **Where a copy comes from**: it was on its way, or it has just been handed over. -/
theorem carried_next (h : (system lib cls).Run (initial T up down) tr s)
    (ha : (system lib cls).Enabled a s) (hf : Carried lib cls ((system lib cls).next a s) f) :
    Carried lib cls s f ∨ ∃ v m, a = .dispatch v m f := by
  cases hf with
  | adding t ht hf =>
    rcases adding_next ha ht with hold | ⟨v, m, f', rfl, rfl⟩
    · exact Or.inl (.adding t hold hf)
    · obtain rfl : f' = f := hf
      exact Or.inr ⟨v, m, rfl⟩
  | queued e he hf =>
    rcases mem_taskQueue_next ha he with hold | hadding
    · exact Or.inl (.queued e hold hf)
    · exact Or.inl (.adding _ hadding hf)
  | pending w e he hf =>
    rcases pending_next ha he with hqueued | hold
    · exact Or.inl (.queued e hqueued hf)
    · exact Or.inl (.pending w e hold hf)
  | executing w e pc' hw hpc' hcalled houtcome hf =>
    refine Or.inl ?_
    rcases executing_next ha hw with ⟨-, hholding⟩ | ⟨hpool, hrunning⟩
    · refine .pending w e ?_ hf
      rw [ThreadPool.State.pending, hholding]
      rfl
    · obtain ⟨pc, hpc, hcalled⟩ := called_next h ha hrunning hpool hpc' hcalled
      obtain ⟨-, v, -, hmade, -⟩ := (apart h).executing w e hrunning
      refine .executing w e pc hrunning hpc hcalled ?_ hf
      rw [outcome_eq h hmade, ← outcome_eq (h.snoc ha) (hmade.snoc a)]
      exact houtcome

/-- **What begins** was on its way. -/
theorem carried_of_begins (h : (system lib cls).Run (initial T up down) tr s)
    (ha : (system lib cls).Enabled a s) {e : ThreadPool.Entry Wrapped} (he : a.Begins e) :
    Carried lib cls s e.work.task := by
  rcases he with ⟨w, rfl⟩ | ⟨w, x, rfl⟩
  · refine .pending w e ?_ rfl
    have hsource := (ha.2.1 _ rfl).1
    rw [ThreadPool.State.pending, hsource]
    rfl
  · obtain ⟨pc, v, hpc, hmade, hfollows, hfits⟩ := (apart h).task ha
    refine .executing w e pc ha.2.2.1 hpc ?_ ?_ rfl
    · cases pc with
      | callback r => rfl
      | _ => exact absurd hfits id
    · rw [outcome_eq h hmade]
      cases pc with
      | callback r =>
        obtain ⟨-, y, -, hexpected⟩ := hfollows
        exact Option.isSome_of_eq_some hexpected
      | _ => exact absurd hfits id

/-- **A closure that is absent stays absent**, unless it is stored again. -/
theorem Absent.next (hs : Absent lib cls s f) (h : (system lib cls).Run (initial T up down) tr s)
    (ha : (system lib cls).Enabled a s)
    (hset : ∀ j, a.channel? ≠ some (.act j (.setCallback f.channel f) .ok)) :
    Absent lib cls ((system lib cls).next a s) f where
  lookup := by
    intro hlookup
    rcases channel_next ha with ⟨-, hsame⟩ | ⟨b, hchannel, hb, hnext⟩
    · rw [hsame] at hlookup
      exact hs.lookup hlookup
    · rw [hnext] at hlookup
      rcases RedisChannel.lookup_next hb hlookup with hold | ⟨j, rfl⟩
      · exact hs.lookup hold
      · exact hset j hchannel
  carried := by
    intro hcarried
    rcases carried_next h ha hcarried with hold | ⟨v, m, rfl⟩
    · exact hs.carried hold
    · -- it was found in the map
      have hlookup : s.channel.shared.callbacks.lookup m.channel = some f := (ha.1 _ rfl).2
      have hgiven := RedisChannel.given_of_lookup (channel_run h) hlookup
      rw [← (made_of_given h hgiven).1] at hlookup
      exact hs.lookup hlookup

end Step

/-! ## When the end is final -/

/-- **The end of a subscription is final**: once `unsubscribe(c)` has returned, what
begins for channel `c` was stored after the call had removed the channel. -/
def UnsubscribeFinal (tr : List (Label T)) : Prop :=
  ∀ pre i c r mid a post e,
    tr = pre ++ .channel (.ret i (.unsubscribe c) (.returned r)) :: mid ++ a :: post →
    a.Begins e → e.work.task.channel = c →
    ∃ j, RedisChannel.Label.act j (.setCallback c e.work.task) .ok ∈
      RedisChannel.sinceRemoval i c (channelPart pre) ++ channelPart mid

/-- **The end of a state manager is final**: once it has been destroyed, nothing begins
that would use it. -/
def DestroyFinal (tr : List (Label T)) : Prop :=
  ∀ pre m mid a post e, tr = pre ++ .destroy m :: mid ++ a :: post → a.Begins e →
    e.work.task.manager ≠ m

variable (lib cls) in
/-- `unsubscribe` returns when no copy stored before it removed the channel is on its
way; a state manager is destroyed when none of its closures is registered, on its way
or about to be registered.  No removed closure is about to be read through a dangling
iterator. -/
def Settled (tr : List (Label T)) (s : State T) : Label T → Prop
  | .channel (.ret i (.unsubscribe c) (.returned _)) =>
    ¬ s.channel.shared.Dangling c ∧ ∀ f, f.channel = c → Carried lib cls s f →
      ∃ j, RedisChannel.Label.act j (.setCallback c f) .ok ∈
        RedisChannel.sinceRemoval i c (channelPart tr)
  | .destroy m => (∀ c, ¬ s.channel.shared.Dangling c) ∧
    (∀ f, f.manager = m → Absent lib cls s f) ∧
    ∀ j call c f, s.channel.callers j = some call → call.operation = .subscribe c f →
      f.manager ≠ m
  | _ => True

section Runs

variable {pre mid : List (Label T)} {u : State T}

/-- A closure that nobody stores stays absent. -/
theorem Absent.run (hpre : (system lib cls).Run (initial T up down) pre u)
    (hs : Absent lib cls u f) (hmid : (system lib cls).Run u mid s)
    (hset : ∀ j, RedisChannel.Label.act j (.setCallback f.channel f) .ok ∉ channelPart mid) :
    Absent lib cls s f := by
  revert hset
  refine hmid.induct (P := fun mid s =>
    (∀ j, RedisChannel.Label.act j (.setCallback f.channel f) .ok ∉ channelPart mid) →
      Absent lib cls s f) (fun _ => hs) ?_
  intro mid s a hr ih ha hset
  have hmem : ∀ b ∈ channelPart mid, b ∈ channelPart (mid ++ [a]) := fun b hb => by
    rw [channelPart, List.filterMap_append]
    exact List.mem_append_left _ hb
  refine (ih fun j hj => hset j (hmem _ hj)).next (hpre.append hr) ha fun j hj => hset j ?_
  exact List.mem_filterMap.mpr ⟨a, List.mem_append_right _ (List.mem_singleton_self a), hj⟩

/-- A state manager that is destroyed, with no closure left. -/
structure Gone (lib : JsonLibrary) (cls : StateObj T) (m : ℕ) (s : State T) : Prop where
  destroyed : m ∈ s.destroyed
  absent : ∀ f, f.manager = m → Absent lib cls s f
  callers : ∀ j call c f, s.channel.callers j = some call → call.operation = .subscribe c f →
    f.manager ≠ m

theorem Gone.next {m : ℕ} (hs : Gone lib cls m s)
    (h : (system lib cls).Run (initial T up down) tr s) (ha : (system lib cls).Enabled a s) :
    Gone lib cls m ((system lib cls).next a s) where
  destroyed := by
    cases a with
    | destroy m' => exact List.mem_cons_of_mem _ hs.destroyed
    | _ => exact hs.destroyed
  absent := by
    intro f hf
    refine (hs.absent f hf).next h ha fun j hj => ?_
    -- a call that stores the closure would be in progress
    obtain ⟨call, hcall, hop, -⟩ :=
      RedisChannel.given_of_setCallback (channel_run h) (ha.1 _ hj).1
    exact hs.callers j call _ f hcall hop hf
  callers := by
    intro j call c f hcall hop
    rcases channel_next ha with ⟨-, hsame⟩ | ⟨b, hchannel, hb, hnext⟩
    · rw [hsame] at hcall
      exact hs.callers j call c f hcall hop
    · rw [hnext] at hcall
      rcases RedisChannel.call_next hb hcall with ⟨-, hold⟩ | ⟨op, rfl, -, rfl⟩ |
        ⟨call', b, choice, rfl, hold, -, -, rfl⟩
      · exact hs.callers j call c f hold hop
      · -- a new call is made by a state manager that is alive
        have hop' : op = .subscribe c f := hop
        subst hop'
        cases a with
        | subscribe i f' r v =>
          cases hchannel
          rintro rfl
          exact ha.2.2.1 hs.destroyed
        | channel b =>
          cases hchannel
          exact absurd ha.2.2 id
        | _ => cases hchannel
      · exact hs.callers j call' c f hold hop

/-- **Finality.**  In every run whose steps are all settled, the end of a subscription
and the end of a state manager are final. -/
theorem final_of_settled
    (h : (system lib cls).RunBy (Settled lib cls) (initial T up down) tr s) :
    UnsubscribeFinal tr ∧ DestroyFinal tr := by
  constructor
  · intro pre i c r mid a post e htr hbegins hchannel
    rw [htr, List.append_assoc, List.cons_append] at h
    obtain ⟨u, hpre, hret, ⟨-, hsettled⟩, hmid⟩ := h.split_cons
    obtain ⟨v, hmid, ha, -⟩ := hmid.run.split_cons
    have hremoved := RedisChannel.removed_of_unsubscribe (channel_run hpre.run) (hret.1 _ rfl)
    subst hchannel
    by_contra hnone
    rw [not_exists] at hnone
    -- nothing of the closure is left when the call returns, and nothing comes back
    have habsent : Absent lib cls u e.work.task := by
      constructor
      · intro hlookup
        obtain ⟨j, hj⟩ := hremoved _ hlookup
        exact hnone j (List.mem_append_left _ hj)
      · intro hcarried
        obtain ⟨j, hj⟩ := hsettled _ rfl hcarried
        exact hnone j (List.mem_append_left _ hj)
    have hstart := hpre.run.snoc hret
    have hnext := habsent.next hpre.run hret fun j hj => by cases hj
    have hend := hnext.run hstart hmid fun j hj => hnone j (List.mem_append_right _ hj)
    exact hend.carried (carried_of_begins (hstart.append hmid) ha hbegins)
  · intro pre m mid a post e htr hbegins hmanager
    rw [htr, List.append_assoc, List.cons_append] at h
    obtain ⟨u, hpre, hdestroy, ⟨-, habsent, hcallers⟩, hmid⟩ := h.split_cons
    obtain ⟨v, hmid, ha, -⟩ := hmid.run.split_cons
    have hstart := hpre.run.snoc hdestroy
    have hgone : Gone lib cls m v := by
      refine hmid.induct (P := fun _ v => Gone lib cls m v) ?_ fun _ _ _ hr hs ha' =>
        hs.next (hstart.append hr) ha'
      exact ⟨List.mem_cons_self,
        fun f hf => (habsent f hf).next hpre.run hdestroy fun j hj => (by cases hj), hcallers⟩
    have hcarried := carried_of_begins (hstart.append hmid) ha hbegins
    exact (hgone.absent _ hmanager).carried hcarried

end Runs

/-! ## Runs spelt out -/

/-- Nobody is inside `on_message`, and the pool has nothing to do. -/
def Quiet (s : State T) : Prop :=
  (∀ pc ∈ s.channel.shared.consumers, pc.held.callbacks = false) ∧ s.pool.taskQueue = [] ∧
    ∀ pc ∈ s.pool.workers, pc.pending = none ∧ pc.current = none

instance (s : State T) : Decidable (Quiet s) := inferInstanceAs (Decidable (_ ∧ _ ∧ _))

/-- In a quiet state no closure is on its way. -/
theorem Quiet.not_carried (hs : Quiet s) (h : (system lib cls).Run (initial T up down) tr s) :
    ¬ Carried lib cls s f := by
  obtain ⟨hconsumers, hqueue, hworkers⟩ := hs
  intro hf
  cases hf with
  | adding t ht hf =>
    obtain ⟨w, hw⟩ := ht
    obtain ⟨f', m, hpc⟩ := inOnMessage h w fun hidle => by
      rw [hidle] at hw
      cases hw
    exact absurd (hconsumers _ (List.mem_of_getElem? hpc)) nofun
  | queued e he hf =>
    rw [hqueue] at he
    exact absurd he List.not_mem_nil
  | pending w e he hf =>
    obtain ⟨pc, hpc, he⟩ := Option.bind_eq_some_iff.mp he
    rw [(hworkers pc (List.mem_of_getElem? hpc)).1] at he
    cases he
  | executing w e pc hw hpc hcalled houtcome hf => cases (hworkers _ (List.mem_of_getElem? hw)).2

/-- Nor does an iterator dangle. -/
theorem Quiet.not_dangling (hs : Quiet s) (c : Bytes) : ¬ s.channel.shared.Dangling c := by
  rintro ⟨m, hm, -, -⟩
  obtain ⟨w, hw⟩ := RedisChannel.Shared.exists_of_toCopy hm
  exact absurd (hs.1 _ (List.mem_of_getElem? hw)) nofun

/-- A message for the closure of the first subscription. -/
def notice : RedisChannel.Message := ⟨0, [97], [110, 117, 108, 108]⟩

/-- The queue element of `notice`. -/
def noticeEntry : ThreadPool.Entry Wrapped := ⟨0, handOver closure notice⟩

/-- A subscription, and a message whose task is in the queue. -/
def queuedRun : List (Label ℕ) :=
  subscribeRun closure 5 ++ (RedisChannel.consumeRun 0).map .channel ++
    handOverRun 0 closure notice noticeEntry

/-- `unsubscribe` up to its return. -/
def unsubscribingRun : List (Label ℕ) :=
  (RedisChannel.unsubscribeLastRun 0 [97]).dropLast.map .channel

/-- A worker takes the task and executes it up to the user's callback. -/
def executeRun : List (Label ℕ) :=
  spawnRun ++ (ThreadPool.takeRun 0 noticeEntry).map .pool ++
    [.task 0 noticeEntry .parse, .task 0 noticeEntry .clone, .task 0 noticeEntry .fromJson]

/-- A return of `unsubscribe`, or the end of a state manager. -/
def Label.isEnd : Label T → Bool
  | .channel (.ret _ (.unsubscribe _) _) | .destroy _ => true
  | _ => false

theorem settled_of_not_isEnd (ha : a.isEnd = false) (tr : List (Label T)) (s : State T) :
    Settled lib cls tr s a := by
  unfold Settled
  split
  · cases ha
  · cases ha
  · trivial

/-- The task is executed while `unsubscribe` is on its way. -/
def calledRun : List (Label ℕ) :=
  queuedRun ++ executeRun ++
    [.task 0 noticeEntry (.callback 6), .task 0 noticeEntry (.finish false),
      .pool (.worker 0 (.complete noticeEntry false))] ++ unsubscribingRun

set_option maxRecDepth 10000 in
theorem calledRun_legal :
    (system nullLibrary counter).Legal calledRun (initial ℕ scaleUp scaleDown) := by
  decide +kernel

/-- What holds once the task of `calledRun` has been executed. -/
theorem calledRun_settled :
    let s := (system nullLibrary counter).after calledRun (initial ℕ scaleUp scaleDown)
    let ret : Label ℕ := .channel (.ret 0 (.unsubscribe [97]) RedisChannel.done)
    Quiet s ∧ (system nullLibrary counter).Enabled ret s ∧
      Quiet ((system nullLibrary counter).next ret s) ∧
      ((system nullLibrary counter).next ret s).channel.shared.callbacks.keys = [] ∧
      (((system nullLibrary counter).next ret s).channel.callers 0).isNone = true ∧
      (∀ a ∈ channelPart (calledRun ++ [ret]), a.caller? = none ∨ a.caller? = some 0) := by
  decide +kernel

theorem final_of_settled_calledRun :
    UnsubscribeFinal (calledRun ++ [.channel (.ret 0 (.unsubscribe [97]) RedisChannel.done)] ++
      [.destroy 0]) ∧
    DestroyFinal (calledRun ++ [.channel (.ret 0 (.unsubscribe [97]) RedisChannel.done)] ++
      [.destroy 0]) := by
  obtain ⟨hquiet, hret, hquiet', hkeys, hidle, hcallers⟩ := calledRun_settled
  have hrun := TransitionSystem.run_of_legal calledRun_legal
  have hstart : (system nullLibrary counter).RunBy (Settled nullLibrary counter) _ calledRun _ :=
    hrun.runBy_of_forall fun a ha => settled_of_not_isEnd
      ((show ∀ a ∈ calledRun, a.isEnd = false by decide +kernel) a ha)
  have hafter := hstart.snoc hret ⟨hquiet.not_dangling _, fun f _ hf =>
    absurd hf (hquiet.not_carried hrun)⟩
  refine final_of_settled (TransitionSystem.RunBy.snoc (a := .destroy 0) hafter ?_ ?_)
  · exact ⟨TransitionSystem.enabledOn_none, TransitionSystem.enabledOn_none, List.not_mem_nil⟩
  refine ⟨hquiet'.not_dangling, fun f _ => ⟨?_, ?_⟩, ?_⟩
  · intro hlookup
    have hmem := AList.mem_keys.mp (AList.lookup_isSome.mp (Option.isSome_of_eq_some hlookup))
    rw [hkeys] at hmem
    exact absurd hmem List.not_mem_nil
  · exact hquiet'.not_carried hafter.run
  · -- only caller 0 makes calls in this run, and it has none in progress
    intro j call c f hcall
    rcases eq_or_ne j 0 with rfl | hj
    · rw [Option.isNone_iff_eq_none.mp hidle] at hcall
      cases hcall
    · rw [RedisChannel.callers_of_run (channel_run hafter.run) fun a ha heq => ?_] at hcall
      · cases hcall
      · rcases hcallers a ha with hnone | hzero
        · exact absurd (hnone.symm.trans heq) nofun
        · exact hj (Option.some.inj (heq.symm.trans hzero))

/-- The task waits in the queue while `unsubscribe` returns and the state manager is
destroyed. -/
def lateRun : List (Label ℕ) :=
  queuedRun ++ unsubscribingRun ++
    .channel (.ret 0 (.unsubscribe [97]) RedisChannel.done) :: .destroy 0 :: executeRun ++
    [.task 0 noticeEntry (.callback 6)]

set_option maxRecDepth 10000 in
theorem lateRun_legal :
    (system nullLibrary counter).Legal lateRun (initial ℕ scaleUp scaleDown) := by
  decide +kernel

/-- **A late callback**: the user's callback begins after `unsubscribe` has returned,
with a state manager that has been destroyed. -/
theorem not_final_lateRun :
    ¬ ∀ tr s, (system nullLibrary counter).Run (initial ℕ scaleUp scaleDown) tr s →
      UnsubscribeFinal tr ∧ DestroyFinal tr := by
  intro h
  obtain ⟨hfinal, -⟩ := h lateRun _ (TransitionSystem.run_of_legal lateRun_legal)
  obtain ⟨j, hj⟩ := hfinal (queuedRun ++ unsubscribingRun) 0 [97] .unit (.destroy 0 :: executeRun)
    (.task 0 noticeEntry (.callback 6)) [] noticeEntry rfl (Or.inr ⟨0, 6, rfl⟩) rfl
  -- since the erasure, the call has only looked whether the map is empty
  have hsince : RedisChannel.sinceRemoval 0 [97] (channelPart (queuedRun ++ unsubscribingRun)) ++
      channelPart (.destroy 0 :: executeRun) =
        [.act 0 .callbacksEmpty .ok, .act 0 (.storeRunning false) .ok] := by
    decide +kernel
  rw [hsince] at hj
  simp at hj

end Subscription
