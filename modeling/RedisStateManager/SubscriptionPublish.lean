/-
# From a published object to the user's callback

`publish` of `src/core/StateManager.cpp` sends the text of an object, as `write`
stores it.  Every message that `consume` returns is a publication, under its number
(`publication_of_received`), so where a channel carries the objects of one class
only, the callbacks of its subscribers are invoked with objects that were published
there, or rather with the fields of theirs that the subscriber's class lists
(`received_published`).
-/
import RedisStateManager.StateManagerSchema
import RedisStateManager.SubscriptionDelivery

/-! ## The publications of the channel -/

namespace RedisChannel

open Redis

variable {Callback : Type} {tr : List (Label Callback)}

/-- The channel and the text of a publication. -/
def Label.publication? : Label Callback → Option (Bytes × Bytes)
  | .publish c payload => some (c, payload)
  | .act _ (.publish _ c payload) choice => if choice = .threw then none else some (c, payload)
  | _ => none

/-- What was published, by anybody, in order. -/
def publications (tr : List (Label Callback)) : List (Bytes × Bytes) :=
  tr.filterMap Label.publication?

theorem publications_snoc (tr : List (Label Callback)) (a : Label Callback) :
    publications (tr ++ [a]) = publications tr ++ a.publication?.toList := by
  rw [publications, List.filterMap_append]
  cases h : a.publication? <;> simp [publications, h]

/-- The messages received are publications, each under its number, and so are those that
are still buffered. -/
structure Numbered (tr : List (Label Callback)) (s : Shared Callback) : Prop where
  published : s.published = (publications tr).length
  known : ∀ m ∈ received tr ++ s.buffered, (publications tr)[m.id]? = some (m.channel, m.payload)

section Numbers

variable {s s' : Shared Callback} {a : Label Callback}

theorem received_quiet (ha : a.received? = none) : received (tr ++ [a]) = received tr := by
  rw [received_snoc, ha, Option.toList_none, List.append_nil]

/-- A step that publishes nothing and receives what is buffered. -/
theorem Numbered.quiet (hs : Numbered tr s) (ha : a.publication? = none)
    (hpublished : s'.published = s.published)
    (hsub : ∀ m ∈ received (tr ++ [a]) ++ s'.buffered, m ∈ received tr ++ s.buffered) :
    Numbered (tr ++ [a]) s' := by
  have htr : publications (tr ++ [a]) = publications tr := by
    rw [publications_snoc, ha, Option.toList_none, List.append_nil]
  constructor
  · rw [hpublished, htr]
    exact hs.published
  · intro m hm
    rw [htr]
    exact hs.known m (hsub m hm)

/-- A publication gets the next number. -/
theorem Numbered.publish (hs : Numbered tr s) {c payload : Bytes}
    (ha : a.publication? = some (c, payload)) (hreceived : a.received? = none) :
    Numbered (tr ++ [a]) (s.publish c payload) := by
  have htr : publications (tr ++ [a]) = publications tr ++ [(c, payload)] := by
    rw [publications_snoc, ha]
    rfl
  have hold (m : Message) (hm : m ∈ received tr ++ s.buffered) :
      (publications (tr ++ [a]))[m.id]? = some (m.channel, m.payload) := by
    have hknown := hs.known m hm
    rw [htr]
    exact (List.getElem?_append_left (List.getElem?_eq_some_iff.mp hknown).1).trans hknown
  constructor
  · rw [htr, List.length_append, ← hs.published]
    rfl
  · intro m hm
    rw [received_quiet hreceived] at hm
    rcases s.buffered_publish c payload with h | h
    · rw [h] at hm
      exact hold m hm
    · rw [h, ← List.append_assoc, List.mem_append, List.mem_singleton] at hm
      rcases hm with hm | rfl
      · exact hold m hm
      · rw [htr, hs.published]
        exact List.getElem?_concat_length

/-- Only a publication counts. -/
theorem published_perform (i : ℕ) (b : Action Callback) (choice : Choice) (s : Shared Callback) :
    (∃ c payload, (Label.act i b choice).publication? = some (c, payload) ∧
      s.perform i b choice = s.publish c payload) ∨
    ((Label.act i b choice).publication? = none ∧
      (s.perform i b choice).published = s.published) := by
  unfold Shared.perform
  by_cases hchoice : choice = .threw
  · rw [if_pos hchoice]
    refine Or.inr ⟨?_, rfl⟩
    cases b with
    | publish g c payload => exact if_pos hchoice
    | _ => rfl
  · rw [if_neg hchoice]
    cases b with
    | publish g c payload => exact Or.inl ⟨c, payload, if_neg hchoice, rfl⟩
    | _ => exact Or.inr ⟨rfl, rfl⟩

theorem Numbered.act (hs : Numbered tr s) (i : ℕ) (b : Action Callback) (choice : Choice) :
    Numbered (tr ++ [.act i b choice]) (s.perform i b choice) := by
  rcases published_perform i b choice s with ⟨c, payload, ha, heq⟩ | ⟨ha, hpublished⟩
  · rw [heq]
    exact hs.publish ha rfl
  · refine hs.quiet ha hpublished fun m hm => ?_
    rw [received_quiet rfl] at hm
    rcases s.buffered_perform i b choice with ⟨hsub, -⟩ | ⟨c, payload, heq⟩
    · exact ((List.Sublist.refl (received tr)).append hsub).subset hm
    · -- a publication is counted
      have hcount : (s.perform i b choice).published = s.published + 1 := by rw [heq]; rfl
      omega

theorem Numbered.consumer (hs : Numbered tr s) {w : ℕ} {b : ConsumerAct Callback}
    (hguard : (consumerMove w s b).guard) :
    Numbered (tr ++ [.consumer w b]) (s.consumer w b) := by
  refine hs.quiet rfl (Shared.published_consumer w b) fun m hm => ?_
  by_cases hb : ∃ m', b = .receive m'
  · obtain ⟨m', rfl⟩ := hb
    have hreceived : received (tr ++ [.consumer w (.receive m')]) = received tr ++ [m'] := by
      rw [received_snoc]
      rfl
    rw [Shared.buffered_receive hguard]
    rwa [hreceived, List.append_assoc] at hm
  · have hnone : (Label.consumer w b : Label Callback).received? = none := by
      cases b with
      | receive m' => exact absurd ⟨m', rfl⟩ hb
      | _ => rfl
    rwa [received_quiet hnone, Shared.buffered_consumer fun m' heq => hb ⟨m', heq⟩] at hm

end Numbers

/-- **Every message received is a publication**, and carries its number. -/
theorem numbered {s : State Callback} (h : channel.Run initial tr s) : Numbered tr s.shared := by
  refine h.induct (P := fun tr s => Numbered tr s.shared)
    ⟨rfl, fun m hm => absurd hm List.not_mem_nil⟩ fun tr s a _ hs ha => ?_
  cases a with
  | act i b choice => exact hs.act i b choice
  | consumer w b => exact hs.consumer ha.2
  | publish c payload => exact hs.publish rfl rfl
  | call i op =>
    refine hs.quiet rfl rfl fun m hm => ?_
    rwa [received_quiet rfl] at hm
  | ret i op outcome =>
    refine hs.quiet rfl rfl fun m hm => ?_
    rwa [received_quiet rfl] at hm

/-- A message that `on_message` has looked up is the publication with its number. -/
theorem publication_of_dispatched {s : State Callback} (h : channel.Run initial tr s) {m : Message}
    (hm : m ∈ dispatched tr) : (publications tr)[m.id]? = some (m.channel, m.payload) := by
  refine (numbered h).known m (List.mem_append_left _ ?_)
  rw [(accounted h).inFlight]
  exact List.mem_append_left _ hm

/-- The message a call of `publish` comes to send. -/
def sent? (p : Procedure Callback Outcome) : Option (Action Callback) :=
  ((Program.step (answer (initial : State Callback).shared .ok))^[9] p).head?

/-- Calls of `publish` on one channel differ if their messages do. -/
theorem publish_injective (channel : Bytes) :
    Function.Injective (RedisChannel.publish channel : Bytes → Procedure Callback Outcome) := by
  intro message message' h
  have hsent : some (Action.publish 0 channel message) = some (.publish 0 channel message') :=
    congrArg sent? h
  cases hsent
  rfl

end RedisChannel

/-! ## `publish` -/

namespace StateManager

open Redis

/-- `publish`, the channel's callbacks being of any type. -/
def publish {T : Type} (lib : JsonLibrary) (cls : StateObj T) (Callback : Type) (channel : Bytes)
    (data : T) : RedisChannel.Procedure Callback RedisChannel.Outcome :=
  match cls.to_json data with
  | .error _ => return .returned (.bool false)
  | .ok json_value =>
    match lib.dump json_value with
    | none => return .returned (.bool false)
    | some json_string => RedisChannel.publish channel json_string

/-- What is published of an object with listed fields is its text, as it is stored. -/
theorem publish_eq {lib : JsonLibrary} {ws : List Field} {W Callback : Type} (channel : Bytes)
    (x : Object ws W) :
    publish lib (defineType lib ws W) Callback channel x =
      (lib.dump (fieldsToJson ws x.listed)).elim (return .returned (.bool false))
        (RedisChannel.publish channel) := by
  unfold publish
  simp only [defineType]
  cases lib.dump (fieldsToJson ws x.listed) <;> rfl

/-- The message that `publish` sends for an object is its text. -/
theorem text_of_publish {lib : JsonLibrary} {ws : List Field} {W Callback : Type} {channel : Bytes}
    {x : Object ws W} {text : Bytes}
    (h : publish lib (defineType lib ws W) Callback channel x =
      RedisChannel.publish channel text) :
    lib.dump (fieldsToJson ws x.listed) = some text := by
  rw [publish_eq] at h
  cases hdump : lib.dump (fieldsToJson ws x.listed) with
  | none =>
    rw [hdump] at h
    cases h
  | some json_string =>
    rw [hdump] at h
    exact congrArg some (RedisChannel.publish_injective channel h)

end StateManager

/-! ## From the publication to the callback -/

namespace Subscription

open Redis (Bytes)
open StateManager (JsonLibrary Field Object fieldsToJson defineType Compatible select
  readBackFields)

section Published

variable {T : Type} {lib : JsonLibrary} {cls : StateManager.StateObj T}
  {up down : UInt32 → UInt32 → Bool} {tr : List (Label T)} {s : State T}

theorem mem_dispatched_of_handed (h : (system lib cls).Run (initial T up down) tr s) {f : Wrapped}
    {m : RedisChannel.Message} (hm : (f, m) ∈ handed tr) :
    m ∈ RedisChannel.dispatched (channelPart tr) := by
  refine (RedisChannel.copied_sublist (channel_run h)).subset (List.mem_append_left _ ?_)
  rw [← handed_eq_copied h]
  exact List.mem_map_of_mem hm

/-- The number of the publication that became the `k`th task of the pool. -/
def publicationOf (tr : List (Label T)) (k : ℕ) : ℕ := ((handed tr)[k]?.map (·.2.id)).getD 0

/-- A task is the message with its number, and its closure. -/
theorem handed_of_pushed (h : (system lib cls).Run (initial T up down) tr s)
    {e : ThreadPool.Entry Wrapped} (he : e ∈ ThreadPool.pushed (poolPart tr)) :
    ∃ m, (handed tr)[e.ticket]? = some (e.work.task, m) ∧ m.payload = e.work.payload := by
  obtain ⟨k, hk⟩ := List.mem_iff_getElem?.mp he
  have hticket : e.ticket = k := by
    have hrange := congrArg (·[k]?) (ThreadPool.pushed_ticket (pool_run h))
    simp only [List.getElem?_map, hk, Option.map_some] at hrange
    obtain ⟨hlt, heq⟩ := List.getElem?_eq_some_iff.mp hrange.symm
    rw [List.getElem_range] at heq
    exact heq.symm
  obtain ⟨t, heq, -⟩ := handed_eq h
  have hwork : ((handed tr).map fun p => handOver p.1 p.2)[k]? = some e.work := by
    rw [heq, List.getElem?_append_left, List.getElem?_map, hk]
    · rfl
    · rw [List.length_map]
      exact (List.getElem?_eq_some_iff.mp hk).1
  rw [List.getElem?_map, Option.map_eq_some_iff] at hwork
  obtain ⟨⟨f, m⟩, hm, hover⟩ := hwork
  rw [hticket, ← hover]
  exact ⟨m, hm, rfl⟩

/-- A task that has been executed was pushed. -/
theorem pushed_of_completed (h : (system lib cls).Run (initial T up down) tr s) {w : ℕ}
    {e : ThreadPool.Entry Wrapped} (he : (w, e) ∈ ThreadPool.completed (poolPart tr)) :
    e ∈ ThreadPool.pushed (poolPart tr) := by
  have hworker : e ∈ ThreadPool.ofWorker w (ThreadPool.popped (poolPart tr)) := by
    rw [ThreadPool.ofWorker_popped_completed (pool_run h)]
    refine List.mem_append_left _ (List.mem_map.mpr ⟨(w, e), ?_, rfl⟩)
    exact List.mem_filter.mpr ⟨he, by simp⟩
  obtain ⟨p, hp, rfl⟩ := List.mem_map.mp hworker
  rw [ThreadPool.pushed_eq (pool_run h)]
  exact List.mem_append_left _ (List.mem_map.mpr ⟨p, (List.mem_filter.mp hp).1, rfl⟩)

/-- Tasks stand in the order of their publications. -/
theorem publicationOf_lt (h : (system lib cls).Run (initial T up down) tr s)
    {e e' : ThreadPool.Entry Wrapped} (he : e ∈ ThreadPool.pushed (poolPart tr))
    (he' : e' ∈ ThreadPool.pushed (poolPart tr)) (hlt : e.ticket < e'.ticket) :
    publicationOf tr e.ticket < publicationOf tr e'.ticket := by
  obtain ⟨m, hm, -⟩ := handed_of_pushed h he
  obtain ⟨m', hm', -⟩ := handed_of_pushed h he'
  obtain ⟨hk, heq⟩ := List.getElem?_eq_some_iff.mp hm
  obtain ⟨hk', heq'⟩ := List.getElem?_eq_some_iff.mp hm'
  have hordered := List.pairwise_map.mp (handed_ordered h)
  have hids := List.pairwise_iff_getElem.mp hordered _ _ hk hk' hlt
  rw [heq, heq'] at hids
  unfold publicationOf
  rw [hm, hm']
  exact hids

end Published

section Objects

variable {lib : JsonLibrary} {fs ws : List Field} {U W : Type} {up down : UInt32 → UInt32 → Bool}
  {tr : List (Label (Object fs U))} {s : State (Object fs U)}

/-- What the closure makes of the text of an object. -/
theorem expected_text {x : Object ws W} {text : Bytes}
    (hlib : lib.Lawful (fieldsToJson ws x.listed))
    (hdump : lib.dump (fieldsToJson ws x.listed) = some text) (hnodup : (ws.map Field.name).Nodup)
    (hcompatible : Compatible fs ws) (v : Object fs U) :
    expected lib (defineType lib fs U) v text =
      ((select fs ws x.listed).bind (readBackFields fs)).map fun us => { v with listed := us } := by
  unfold expected
  rw [hlib.parse_dump text hdump, Option.bind_some,
    StateManager.from_json_text hlib hnodup hcompatible]
  cases (select fs ws x.listed).bind (readBackFields fs) <;> rfl

/-- **What a subscriber receives was published.**  In every run, a task that has been
executed is one publication on the channel of its closure, later tasks being later
publications; and if it is what `publish` sends for an object, of a class that may list other
fields, the user's callback has been invoked once, with the published fields that the
subscriber's class lists, the other members being those of the template, or not at all if a
field is missing or holds an infinite or NaN double.  A field that both classes list has one
type in them. -/
theorem received_published (hnodup : (ws.map Field.name).Nodup) (hcompatible : Compatible fs ws)
    (h : (system lib (defineType lib fs U)).Run (initial (Object fs U) up down) tr s) :
    ∃ number : ℕ → ℕ,
      (∀ w e w' e', (w, e) ∈ ThreadPool.completed (poolPart tr) →
        (w', e') ∈ ThreadPool.completed (poolPart tr) → e.ticket < e'.ticket →
          number e.ticket < number e'.ticket) ∧
      ∀ w e v, (w, e) ∈ ThreadPool.completed (poolPart tr) → Made tr e.work.task v →
        (RedisChannel.publications (channelPart tr))[number e.ticket]? =
          some (e.work.task.channel, e.work.payload) ∧
        ∀ x : Object ws W, lib.Lawful (fieldsToJson ws x.listed) →
          StateManager.publish lib (defineType lib ws W) Wrapped e.work.task.channel x =
            RedisChannel.publish e.work.task.channel e.work.payload →
          invocations e.ticket tr =
            (((select fs ws x.listed).bind (readBackFields fs)).map
              fun us => (w, e, { v with listed := us })).toList := by
  refine ⟨publicationOf tr, fun w e w' e' he he' hlt =>
    publicationOf_lt h (pushed_of_completed h he) (pushed_of_completed h he') hlt, ?_⟩
  intro w e v he hv
  obtain ⟨m, hm, hpayload⟩ := handed_of_pushed h (pushed_of_completed h he)
  have hmem := List.mem_of_getElem? hm
  constructor
  · have hid : publicationOf tr e.ticket = m.id := by
      unfold publicationOf
      rw [hm]
      rfl
    rw [hid,
      RedisChannel.publication_of_dispatched (channel_run h) (mem_dispatched_of_handed h hmem),
      (made_of_handed h hmem).1, hpayload]
  · intro x hlib hpublish
    obtain ⟨v', hv', hinvoked⟩ := (apart h).completed w e he
    obtain rfl := made_unique h hv hv'
    have hdump := StateManager.text_of_publish hpublish
    rw [hinvoked, expected_text hlib hdump hnodup hcompatible]
    cases (select fs ws x.listed).bind (readBackFields fs) <;> rfl

end Objects

/-! ## A publication by one class, received by another -/

section Named

open StateManager (floatFields namedFields floatState namedState namedText namedLibrary
  namedLibrary_lawful floatFields_compatible)

instance : DecidableEq (Object floatFields Unit) := fun x y =>
  decidable_of_iff (x.listed.1 = y.listed.1) <| by
    obtain ⟨⟨d, u⟩, u'⟩ := x
    obtain ⟨⟨d', v⟩, v'⟩ := y
    constructor
    · rintro rfl
      rfl
    · exact fun h => congrArg (·.listed.1) h

def published : RedisChannel.Message := ⟨0, [97], namedText⟩

/-- A subscriber with the class `FloatState`. -/
def namedRun : List (Label (Object floatFields Unit)) :=
  subscribeRun closure (floatState 0) ++ (RedisChannel.consumeRun 0).map .channel ++
    handOverRun 0 closure published ⟨0, handOver closure published⟩ ++
    spawnRun ++ (ThreadPool.takeRun 0 ⟨0, handOver closure published⟩).map .pool ++
    callbackRun 0 ⟨0, handOver closure published⟩ (floatState 0x3ff8000000000000) false

set_option maxRecDepth 10000 in
theorem namedRun_legal :
    (system namedLibrary (defineType namedLibrary floatFields Unit)).Legal namedRun
      (initial _ scaleUp scaleDown) := by
  decide +kernel

theorem received_published_namedRun :
    (RedisChannel.publications (channelPart namedRun))[0]? = some ([97], namedText) ∧
    invocations 0 namedRun =
      [(0, ⟨0, handOver closure published⟩, floatState 0x3ff8000000000000)] := by
  have hmade : Made namedRun closure (floatState 0) :=
    ⟨0, 0, by simp [namedRun, subscribeRun]⟩
  obtain ⟨number, -, hreceived⟩ := received_published (W := Unit) (by decide)
    floatFields_compatible (TransitionSystem.run_of_legal namedRun_legal)
  obtain ⟨-, hinvoked⟩ := hreceived 0 ⟨0, handOver closure published⟩ (floatState 0)
    (by decide +kernel) hmade
  exact ⟨by decide +kernel,
    hinvoked (namedState 0x3ff8000000000000) namedLibrary_lawful rfl⟩

end Named

end Subscription
