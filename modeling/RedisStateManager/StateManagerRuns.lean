/-
# State managers in many threads

`read`, `write`, `erase` and `setConfig` of `src/core/StateManager.cpp`, called by any
number of threads, over the client of `RedisClient` and one database of one server, the
one that every configuration names: `managers` runs them down to the mutexes, the pings,
the reconnections and the commands, each of which may fail, with or without an effect.
`Sends` says which commands an operation may issue, and `recorded` what it returns in
terms of those it did.  Then an object is read only where it was written
(`read_written`), and a key that one thread changes is that thread's own
(`read_last_write`).
-/
import RedisStateManager.ClientRefinement
import RedisStateManager.StorageLinear
import RedisStateManager.StateManager

namespace StateManager

open Redis Program Service
open RedisStorage (lockKey lockKey_ne locked tryLock unlock setUnderLock recordProtocol)

/-! ## The threads -/

inductive Operation (T : Type)
  | setConfig (config : RedisClient.RedisConfig)
  | write (key : Bytes) (value : T)
  | erase (key : Bytes)
  | read (key : Bytes) (template_obj : T)
  deriving DecidableEq

inductive Outcome (T : Type)
  | done
  | bool (b : Bool)
  | object (error : Option String) (result : Option T)
  deriving DecidableEq

section Threads

variable {T : Type} (lib : JsonLibrary) (cls : StateObj T)

def Operation.procedure : Operation T → RedisClient.Procedure (Outcome T)
  | setConfig config => (fun _ => Outcome.done) <$> RedisClient.setConfig config
  | write k x => Outcome.bool <$> RedisClient.ofStorage (StateManager.write lib cls k x)
  | erase k => Outcome.bool <$> RedisClient.ofStorage (StateManager.erase k)
  | read k template_obj =>
    (fun r => Outcome.object r.1 r.2) <$>
      RedisClient.ofStorage (StateManager.read lib cls k template_obj)

/-- Any number of threads that use state managers, the client they share, and the
server. -/
def managers : Service RedisClient.Action RedisClient.Answer RedisClient.Served RedisClient.Turn
    (Operation T) (Outcome T) where
  procedure := Operation.procedure lib cls
  Possible := RedisClient.served.Possible
  answer := RedisClient.served.answer
  perform := RedisClient.served.perform

/-- No client has been made, and the server holds `store`. -/
def managersInitial (store : Store) : (managers lib cls).State :=
  (managers lib cls).start ⟨⟨none, fun _ => none, 0⟩, store⟩

instance (i : ℕ) (s : RedisClient.Served) (turn : RedisClient.Turn) (a : RedisClient.Action) :
    Decidable ((managers lib cls).Possible i s turn a) :=
  inferInstanceAs (Decidable (RedisClient.served.Possible i s turn a))

/-- Only a command that takes effect changes the store. -/
theorem store_perform (i : ℕ) (s : RedisClient.Served) (turn : RedisClient.Turn)
    (a : RedisClient.Action) :
    ((managers lib cls).perform i s turn a).store = s.store ∨
      ∃ redis c, a = .command redis c ∧
        ((managers lib cls).perform i s turn a).store = c.effect s.store := by
  cases a with
  | command redis c =>
    by_cases htook : turn.took = true
    · exact Or.inr ⟨redis, c, rfl, if_pos htook⟩
    · exact Or.inl (if_neg htook)
  | _ => exact Or.inl rfl

/-- What the answer to a command tells of the store. -/
theorem answer_command {i : ℕ} {s : RedisClient.Served} {turn : RedisClient.Turn} {redis : ℕ}
    {c : Command} (h : (managers lib cls).Possible i s turn (.command redis c)) {r : Reply}
    (hr : (managers lib cls).answer s turn (.command redis c) = r) :
    r = .error ∨ r = c.reply s.store ∧
      ((managers lib cls).perform i s turn (.command redis c)).store = c.effect s.store := by
  obtain ⟨choice, took⟩ := turn
  rcases h.2 with rfl | ⟨rfl, rfl⟩
  · exact Or.inl hr.symm
  · exact Or.inr ⟨hr.symm, rfl⟩

end Threads

/-! ## What an operation sends -/

section Sends

variable {T : Type} (lib : JsonLibrary) (cls : StateObj T)

/-- The text that `write` stores. -/
def text? (x : T) : Option Bytes := (cls.to_json x).toOption.bind lib.dump

/-- What `read` makes of the text it gets. -/
def decode (json_string : Bytes) (template_obj : T) : Option String × Option T :=
  if json_string = [] then (some "Key not found", none) else
    match lib.parse json_string with
    | none => (some "JSON parsing error", none)
    | some json_value =>
      match cls.from_json template_obj json_value with
      | .ok result => (none, some result)
      | .error .json => (some "JSON parsing error", none)
      | .error .other => (some "Storage error", none)

variable {lib cls}

theorem write_eq (key : Bytes) (x : T) :
    write lib cls key x = (text? lib cls x).elim (ret false) (RedisStorage.write key) := by
  unfold write text?
  cases cls.to_json x with
  | error e => rfl
  | ok json_value =>
    simp only [Except.toOption, Option.bind_some]
    cases lib.dump json_value <;> rfl

theorem read_eq_map (key : Bytes) (template_obj : T) :
    read lib cls key template_obj =
      (fun json_string => decode lib cls json_string template_obj) <$> RedisStorage.read key := by
  show RedisStorage.read key >>= _ = RedisStorage.read key >>= _
  refine congrArg _ (funext fun json_string => ?_)
  show _ = ret (decode lib cls json_string template_obj)
  unfold decode
  by_cases hnil : json_string = []
  · rw [if_pos hnil, if_pos hnil]
    rfl
  · rw [if_neg hnil, if_neg hnil]
    cases lib.parse json_string with
    | none => rfl
    | some json_value =>
      cases hresult : cls.from_json template_obj json_value with
      | ok result => simp only [hresult, pure_eq]
      | error e => cases e <;> simp only [hresult, pure_eq]

/-- What can be decoded has been parsed and read. -/
theorem decode_eq_some {json_string : Bytes} {template_obj y : T} {e : Option String}
    (h : decode lib cls json_string template_obj = (e, some y)) :
    ∃ j, lib.parse json_string = some j ∧ cls.from_json template_obj j = .ok y := by
  unfold decode at h
  split at h
  · exact absurd (congrArg Prod.snd h) (by simp)
  · split at h
    · exact absurd (congrArg Prod.snd h) (by simp)
    · next j hj =>
      refine ⟨j, hj, ?_⟩
      split at h
      · next result hresult =>
        obtain rfl := Option.some.inj (congrArg Prod.snd h)
        exact hresult
      · exact absurd (congrArg Prod.snd h) (by simp)
      · exact absurd (congrArg Prod.snd h) (by simp)

variable (lib cls)

/-- The commands an operation may issue. -/
def Operation.Sends : Operation T → Command → Prop
  | write k x, .set k' v => k' = k ∧ text? lib cls x = some v
  | write k _, .setnx k' v | erase k, .setnx k' v => k' = lockKey k ∧ v = locked
  | write k _, .del k' => k' = lockKey k
  | erase k, .del k' => k' = k ∨ k' = lockKey k
  | read k _, .get k' => k' = k
  | _, _ => False

/-- The protocol of an operation, which records its commands and their replies. -/
def sends (op : Operation T) :
    Protocol RedisStorage.Action RedisStorage.Answer (List (Command × Reply)) where
  Allowed _
    | .getClient => True
    | .command _ c => op.Sends lib cls c
  Possible _ _ _ := True
  after := recordProtocol.after

/-- The text in the reply to a `GET`. -/
def textOf : Reply → Bytes
  | .bulk (some value) => value
  | _ => []

/-- What an operation returns, in terms of its commands and their replies. -/
def Operation.Returns (t : List (Command × Reply)) : Operation T → Outcome T → Prop
  | write k x, .bool true => ∃ text, text? lib cls x = some text ∧ (.set k text, .status) ∈ t
  | read k template_obj, .object e y =>
    ∃ r, (.get k, r) ∈ t ∧ decode lib cls (textOf r) template_obj = (e, y)
  | _, _ => True

variable {lib cls}
variable {op : Operation T} {key : Bytes} {t : List (Command × Reply)}

theorem tryLock_sends (hop : op.Sends lib cls (.setnx (lockKey key) locked))
    {post : Bool → List (Command × Reply) → Prop}
    (h : ∀ b r, post b (t ++ [(.setnx (lockKey key) locked, r)])) :
    (tryLock key).Obeys (sends lib cls op) post t := by
  refine ⟨trivial, fun redis _ => ⟨hop, fun r _ => ?_⟩⟩
  cases r <;> exact h _ _

theorem unlock_sends (hop : op.Sends lib cls (.del (lockKey key)))
    {post : Unit → List (Command × Reply) → Prop}
    (h : ∀ r, post () (t ++ [(.del (lockKey key), r)])) :
    (unlock key).Obeys (sends lib cls op) post t := by
  refine ⟨trivial, fun redis _ => ⟨hop, fun r _ => ?_⟩⟩
  cases r <;> exact h _

/-- Giving the lock back and returning. -/
theorem unlock_ret_sends (hop : op.Sends lib cls (.del (lockKey key)))
    {post : Bool → List (Command × Reply) → Prop} {b : Bool}
    (h : ∀ r, post b (t ++ [(.del (lockKey key), r)])) :
    (unlock key >>= fun _ => ret b).Obeys (sends lib cls op) post t :=
  obeys_bind.mpr (unlock_sends hop h)

theorem setUnderLock_sends {x : T} {text : Bytes} (htext : text? lib cls x = some text) :
    (setUnderLock key text).Obeys (sends lib cls (.write key x))
      (fun b t => b = true → (.set key text, .status) ∈ t) [] := by
  have hlock : (Operation.write key x).Sends lib cls (.setnx (lockKey key) locked) := ⟨rfl, rfl⟩
  have hunlock : (Operation.write key x).Sends lib cls (.del (lockKey key)) := rfl
  refine obeys_bind.mpr (tryLock_sends hlock fun b rl => ?_)
  cases b with
  | false => exact fun hb => absurd hb (by decide)
  | true =>
    refine ⟨trivial, fun redis _ => ⟨⟨rfl, htext⟩, fun r _ => ?_⟩⟩
    cases r with
    | status =>
      refine unlock_ret_sends hunlock fun ru _ => ?_
      exact List.mem_append_left _ (List.mem_append_right _ (List.mem_singleton_self _))
    | _ => exact unlock_ret_sends hunlock fun ru hb => absurd hb (by decide)

theorem erase_sends :
    (RedisStorage.erase key).Obeys (sends lib cls (.erase key)) (fun _ _ => True) [] := by
  have hlock : (Operation.erase key).Sends lib cls (.setnx (lockKey key) locked) := ⟨rfl, rfl⟩
  have hunlock : (Operation.erase key).Sends lib cls (.del (lockKey key)) := Or.inr rfl
  refine obeys_bind.mpr (tryLock_sends hlock fun b rl => ?_)
  cases b with
  | false => trivial
  | true =>
    refine ⟨trivial, fun redis _ => ⟨Or.inl rfl, fun r _ => ?_⟩⟩
    cases r with
    | integer n =>
      show (unlock key >>= fun _ => if n > 0 then ret true else ret false).Obeys _ _ _
      refine obeys_bind.mpr (unlock_sends hunlock fun ru => ?_)
      split <;> trivial
    | _ => exact unlock_ret_sends hunlock fun ru => trivial

theorem read_sends {template_obj : T} :
    (RedisStorage.read key).Obeys (sends lib cls (.read key template_obj))
      (fun v t => ∃ r, (.get key, r) ∈ t ∧ v = textOf r) [] := by
  refine ⟨trivial, fun redis _ => ⟨rfl, fun r _ => ?_⟩⟩
  have hmem : (.get key, r) ∈ ([] ++ [(.get key, r)] : List (Command × Reply)) :=
    List.mem_singleton_self _
  cases r with
  | bulk value => cases value <;> exact ⟨_, hmem, rfl⟩
  | _ => exact ⟨_, hmem, rfl⟩

theorem write_sends {x : T} :
    (StateManager.write lib cls key x).Obeys (sends lib cls (.write key x))
      (fun b t => (Operation.write key x).Returns lib cls t (.bool b)) [] := by
  rw [write_eq]
  cases htext : text? lib cls x with
  | none => exact (trivial : (Operation.write key x).Returns lib cls [] (.bool false))
  | some text =>
    refine (setUnderLock_sends htext).mono fun b t h => ?_
    cases b with
    | false => trivial
    | true => exact ⟨text, htext, h rfl⟩

/-- **What the operations send and return**, over the client. -/
def recorded (lib : JsonLibrary) (cls : StateObj T) :
    (managers lib cls).Discipline (List (Command × Reply)) where
  protocol op := (sends lib cls op).through (RedisClient.view true)
  start := []
  Post op r t := op.Returns lib cls t r
  obeys op := by
    cases op with
    | setConfig config =>
      refine obeys_bind.mpr (Obeys.mono (Silent.obeys (RedisClient.silent_setConfig config)) ?_)
      exact fun _ _ _ => trivial
    | write key x =>
      refine obeys_bind.mpr (((RedisClient.ofStorage_refines _).obeys write_sends).mono ?_)
      rintro b t ⟨_, rfl, h⟩
      exact h
    | erase key =>
      refine obeys_bind.mpr (((RedisClient.ofStorage_refines _).obeys erase_sends).mono ?_)
      exact fun _ _ _ => trivial
    | read key template_obj =>
      have hread : (StateManager.read lib cls key template_obj).Obeys
          (sends lib cls (.read key template_obj))
          (fun r t => (Operation.read key template_obj).Returns lib cls t
            (.object r.1 r.2)) [] := by
        rw [read_eq_map]
        refine obeys_bind.mpr (read_sends.mono ?_)
        rintro v t ⟨r, hr, rfl⟩
        exact ⟨r, hr, rfl⟩
      refine obeys_bind.mpr (((RedisClient.ofStorage_refines _).obeys hread).mono ?_)
      rintro r t ⟨_, rfl, h⟩
      exact h

/-- A command that the protocol allows is one that the operation may issue. -/
theorem sends_of_allowed {redis : ℕ} {c : Command}
    (h : ((recorded lib cls).protocol op).Allowed t (.command redis c)) : op.Sends lib cls c :=
  h .error ⟨.command redis c, .error⟩ rfl

/-- The record of a call grows by its commands only. -/
theorem mem_after {a : RedisClient.Action} {r : RedisClient.Answer a} {x : Command × Reply}
    (h : x ∈ ((recorded lib cls).protocol op).after t a r) :
    x ∈ t ∨ ∃ redis c rep, (⟨a, r⟩ : (a : RedisClient.Action) × RedisClient.Answer a) =
      ⟨.command redis c, rep⟩ ∧ x = (c, rep) := by
  cases a with
  | command redis c =>
    have happ : x ∈ t ++ [(c, r)] := h
    rcases List.mem_append.mp happ with hx | hx
    · exact Or.inl hx
    · exact Or.inr ⟨redis, c, r, rfl, List.mem_singleton.mp hx⟩
  | _ => exact Or.inl h

/-- The protocols leave the replies open. -/
theorem recorded_possible (op : Operation T) (t : List (Command × Reply))
    (a : RedisClient.Action) (r : RedisClient.Answer a) :
    ((recorded lib cls).protocol op).Possible t a r :=
  fun _ _ => trivial

end Sends

/-! ## An object is read only where it was written -/

section Sources

variable {T : Type} {lib : JsonLibrary} {cls : StateObj T} {store : Store}
  {tr : List (managers lib cls).Label} {s : (managers lib cls).State}

variable (store tr) in
/-- Where a text under a key can come from: it was there at first, it marks a lock, or an
object with this text was given to a `write` to the key. -/
def Source (key text : Bytes) : Prop :=
  store key = some text ∨ text = locked ∨
    ∃ i x, Label.call i (.write key x) ∈ tr ∧ text? lib cls x = some text

theorem Source.mono {key text : Bytes} (h : Source store tr key text)
    (tr' : List (managers lib cls).Label) : Source store (tr ++ tr') key text := by
  rcases h with h | h | ⟨i, x, hmem, htext⟩
  · exact Or.inl h
  · exact Or.inr (Or.inl h)
  · exact Or.inr (Or.inr ⟨i, x, List.mem_append_left _ hmem, htext⟩)

/-- What a command that an operation may issue leaves under a key. -/
theorem Operation.Sends.source {op : Operation T} {c : Command} (h : op.Sends lib cls c)
    {st : Store} {key text : Bytes} (hkey : c.effect st key = some text) :
    st key = some text ∨ text = locked ∨
      ∃ x, op = .write key x ∧ text? lib cls x = some text := by
  by_cases hne : key = c.key
  · subst hne
    cases c with
    | setnx k v =>
      have hv : v = locked := by cases op <;> first | exact h.2 | exact h.elim
      simp only [Command.effect] at hkey
      split at hkey
      · exact Or.inl hkey
      · rw [Command.key, Function.update_self] at hkey
        exact Or.inr (Or.inl ((Option.some.inj hkey).symm.trans hv))
    | set k v =>
      simp only [Command.effect, Command.key, Function.update_self] at hkey
      cases op with
      | write k' x =>
        obtain ⟨rfl, htext⟩ := h
        exact Or.inr (Or.inr ⟨x, rfl, htext.trans hkey⟩)
      | _ => exact h.elim
    | get k => exact Or.inl hkey
    | del k =>
      simp only [Command.effect, Command.key, Function.update_self] at hkey
      exact absurd hkey (by simp)
    | keyExists k => exact Or.inl hkey
  · rw [Command.effect_of_ne hne] at hkey
    exact Or.inl hkey

variable (store tr s) in
/-- Every text in the store and every text that a call has got has its source. -/
structure Sourced : Prop where
  stored : ∀ key text, s.shared.store key = some text → Source store tr key text
  calls : ∀ i call, s.callers i = some call → Label.call i call.operation ∈ tr ∧
    ∃ t, (recorded lib cls).At call t ∧
      ∀ key text, (.get key, .bulk (some text)) ∈ t → Source store tr key text

/-- A command leaves under a key what has a source. -/
theorem Sourced.stored_next (hs : Sourced store tr s) {a : (managers lib cls).Label}
    (ha : (managers lib cls).system.Enabled a s) (key text : Bytes)
    (hkey : (Service.next a s).shared.store key = some text) :
    Source store (tr ++ [a]) key text := by
  cases a with
  | act i b turn =>
    rcases store_perform lib cls i s.shared turn b with heq | ⟨redis, c, rfl, heq⟩
    · exact (hs.stored key text ((congrFun heq key).symm.trans hkey)).mono _
    · obtain ⟨call, hcall, hhead⟩ := State.head?_eq_some.mp ha.1
      obtain ⟨hmem, t, hat, -⟩ := hs.calls i call hcall
      rcases (sends_of_allowed (hat.allowed hhead)).source ((congrFun heq key).symm.trans hkey) with
        h | h | ⟨x, hop, htext⟩
      · exact (hs.stored key text h).mono _
      · exact Or.inr (Or.inl h)
      · rw [hop] at hmem
        exact Or.inr (Or.inr ⟨i, x, List.mem_append_left _ hmem, htext⟩)
  | _ => exact (hs.stored key text hkey).mono _

theorem Sourced.calls_next (hs : Sourced store tr s) {a : (managers lib cls).Label}
    (ha : (managers lib cls).system.Enabled a s) (i : ℕ) (call : (managers lib cls).Call)
    (hcall : (Service.next a s).callers i = some call) :
    Label.call i call.operation ∈ tr ++ [a] ∧ ∃ t, (recorded lib cls).At call t ∧
      ∀ key text, (.get key, .bulk (some text)) ∈ t → Source store (tr ++ [a]) key text := by
  rcases call_next ha hcall with ⟨-, hcall'⟩ | ⟨op, rfl, -, rfl⟩ |
    ⟨call', b, turn, rfl, hcall', hhead, hposs, rfl⟩
  · obtain ⟨hmem, t, hat, hget⟩ := hs.calls i call hcall'
    exact ⟨List.mem_append_left _ hmem, t, hat, fun k v hkv => (hget k v hkv).mono _⟩
  · exact ⟨List.mem_append_right _ (List.mem_singleton_self _), [],
      (recorded lib cls).obeys op, fun k v hkv => absurd hkv List.not_mem_nil⟩
  · obtain ⟨hmem, t, hat, hget⟩ := hs.calls i call' hcall'
    refine ⟨List.mem_append_left _ hmem, _,
      Obeys.step hat hhead (recorded_possible _ _ _ _), fun key text hkey => ?_⟩
    rcases mem_after hkey with hold | ⟨redis, c, rep, heq, hnew⟩
    · exact (hget key text hold).mono _
    · -- a reply that carries a text carries the server's
      cases heq
      obtain ⟨rfl, hrep⟩ := Prod.mk.inj hnew
      rcases answer_command lib cls hposs hrep.symm with herror | ⟨hreply, -⟩
      · exact absurd herror (by simp)
      · exact (hs.stored key text (Reply.bulk.inj hreply).symm).mono _

theorem sourced (h : (managers lib cls).system.Run (managersInitial lib cls store) tr s) :
    Sourced store tr s := by
  refine h.induct (P := fun tr s => Sourced store tr s) ?_ fun tr s a _ hs ha =>
    ⟨hs.stored_next ha, hs.calls_next ha⟩
  constructor
  · exact fun key text hkey => Or.inl hkey
  · exact fun i call hcall => absurd hcall (by simp [managersInitial, start])

/-- **An object is read only where it was written.**  However many threads there are, and
whatever fails, an object that `read` returns is what `from_json` makes of the text found
under the key at first, or of the JSON value of an object that was given to a `write` to
this key. -/
theorem read_written (hlib : ∀ x j, cls.to_json x = .ok j → lib.Lawful j)
    (hlocked : lib.parse locked = none)
    (h : (managers lib cls).system.Run (managersInitial lib cls store) tr s) {i : ℕ} {key : Bytes}
    {template_obj y : T} {e : Option String}
    (hres : s.result? i = some (.read key template_obj, .object e (some y))) :
    (∃ text j, store key = some text ∧ lib.parse text = some j ∧
      cls.from_json template_obj j = .ok y) ∨
    ∃ i' x j, Label.call i' (.write key x) ∈ tr ∧ cls.to_json x = .ok j ∧
      cls.from_json template_obj j.nullify = .ok y := by
  obtain ⟨⟨op, rest⟩, hcall, hmap⟩ := Option.bind_eq_some_iff.mp hres
  obtain ⟨r, hr, heq⟩ := Option.map_eq_some_iff.mp hmap
  obtain ⟨rfl, rfl⟩ := Prod.mk.inj heq
  obtain ⟨-, t, hat, hget⟩ := (sourced h).calls i _ hcall
  obtain ⟨rep, hmem, hdecode⟩ := Obeys.result hat hr
  obtain ⟨j, hparse, hfrom⟩ := decode_eq_some hdecode
  have hrep : rep = .bulk (some (textOf rep)) := by
    cases rep with
    | bulk value => cases value with
      | none => simp [textOf, decode] at hdecode
      | some v => rfl
    | _ => simp [textOf, decode] at hdecode
  rw [hrep] at hmem
  rcases hget key _ hmem with hstore | hmark | ⟨i', x, hwrite, htext⟩
  · exact Or.inl ⟨_, j, hstore, hparse, hfrom⟩
  · rw [hmark, hlocked] at hparse
    exact absurd hparse (by simp)
  · obtain ⟨j', hjson, hdump⟩ := Option.bind_eq_some_iff.mp htext
    obtain ⟨j'', hj'', hjj⟩ : ∃ j'', cls.to_json x = .ok j'' ∧ j'' = j' := by
      cases hx : cls.to_json x with
      | error e => simp [hx, Except.toOption] at hjson
      | ok j'' => exact ⟨j'', rfl, by simpa [hx, Except.toOption] using hjson⟩
    subst hjj
    have hnullify := (hlib x j'' hj'').parse_dump _ hdump
    rw [hparse] at hnullify
    obtain rfl := Option.some.inj hnullify
    exact Or.inr ⟨i', x, j'', hwrite, hj'', hfrom⟩

end Sources

/-! ## A key that one thread changes -/

section Own

variable {T : Type} {lib : JsonLibrary} {cls : StateObj T} {store : Store}
  {tr tr' : List (managers lib cls).Label} {s s' : (managers lib cls).State} {i j : ℕ}
  {key text : Bytes}

/-- The operation may change what the key holds: it is an operation on the key, or one
whose lock is the key. -/
def Operation.Changes (key : Bytes) : Operation T → Prop
  | write k _ | erase k => k = key ∨ lockKey k = key
  | setConfig _ | read _ _ => False

/-- Only an operation that may change the key does. -/
theorem Operation.Sends.effect_eq {op : Operation T} {c : Command} (h : op.Sends lib cls c)
    (hkeep : ¬ op.Changes key) (st : Store) : c.effect st key = st key := by
  cases op with
  | setConfig config => cases c <;> exact h.elim
  | read k template_obj =>
    cases c with
    | get k' => rfl
    | _ => exact h.elim
  | write k x =>
    obtain ⟨hk, hlock⟩ := not_or.mp hkeep
    refine Command.effect_of_ne ?_ st
    cases c with
    | setnx k' v => exact fun heq => hlock (heq.trans h.1).symm
    | set k' v => exact fun heq => hk (heq.trans h.1).symm
    | del k' => exact fun heq => hlock (heq.trans h).symm
    | _ => exact h.elim
  | erase k =>
    obtain ⟨hk, hlock⟩ := not_or.mp hkeep
    refine Command.effect_of_ne ?_ st
    cases c with
    | setnx k' v => exact fun heq => hlock (heq.trans h.1).symm
    | del k' =>
      rcases h with rfl | rfl
      · exact fun heq => hk heq.symm
      · exact fun heq => hlock heq.symm
    | _ => exact h.elim

/-- The step is not one of an operation, of a thread other than `i`, that may change the
key. -/
def OnlyBy (i : ℕ) (key : Bytes) (s : (managers lib cls).State) (a : (managers lib cls).Label) :
    Prop :=
  ∀ op, s.operation? a.caller = some op → op.Changes key → a.caller = i

/-- The step is not one of an operation that may change the key. -/
def Spares (key : Bytes) (s : (managers lib cls).State) (a : (managers lib cls).Label) : Prop :=
  ∀ op, s.operation? a.caller = some op → ¬ op.Changes key

theorem store_of_keep {op : Operation T} {t : List (Command × Reply)} {b : RedisClient.Action}
    (hb : ((recorded lib cls).protocol op).Allowed t b) (hkeep : ¬ op.Changes key) (i : ℕ)
    (u : RedisClient.Served) (turn : RedisClient.Turn) :
    ((managers lib cls).perform i u turn b).store key = u.store key := by
  rcases store_perform lib cls i u turn b with heq | ⟨redis, c, rfl, heq⟩
  · rw [heq]
  · rw [heq]
    exact (sends_of_allowed hb).effect_eq hkeep u.store

/-- A `write` in progress leaves its text where it is. -/
theorem effect_of_write {x : T} {c : Command} (h : (Operation.write key x).Sends lib cls c)
    (htext : text? lib cls x = some text) {st : Store} (hst : st key = some text) :
    c.effect st key = some text := by
  cases c with
  | set k v =>
    obtain ⟨rfl, hv⟩ := h
    obtain rfl := Option.some.inj (htext.symm.trans hv)
    exact Function.update_self ..
  | setnx k v =>
    have hne : key ≠ (Command.setnx k v).key := fun heq => lockKey_ne key (heq.trans h.1).symm
    rw [Command.effect_of_ne hne]
    exact hst
  | del k =>
    have hne : key ≠ (Command.del k).key := fun heq => lockKey_ne key (heq.trans h).symm
    rw [Command.effect_of_ne hne]
    exact hst
  | _ => exact h.elim

variable (lib cls) in
/-- What a `write` of thread `i` to the key has set is there. -/
def Stored (i : ℕ) (key : Bytes) (op : Operation T) (j : ℕ) (t : List (Command × Reply))
    (u : RedisClient.Served) : Prop :=
  j = i → ∀ x text, op = .write key x → text? lib cls x = some text →
    (.set key text, .status) ∈ t → u.store key = some text

theorem stored_keeps (i : ℕ) (key : Bytes) :
    (recorded lib cls).Keeps (Stored lib cls i key) (OnlyBy i key) where
  start op j u _ x text _ _ hmem := absurd hmem List.not_mem_nil
  own s j call t b turn hcall hat hL hallowed hposs hC := by
    refine ⟨recorded_possible _ _ _ _, ?_⟩
    rintro rfl x text hop htext hmem
    rcases mem_after hmem with hold | ⟨redis, c, r, heq, hnew⟩
    · have hst := hL rfl x text hop htext hold
      rcases store_perform lib cls j s.shared turn b with hsame | ⟨redis, c, rfl, heffect⟩
      · rw [hsame]
        exact hst
      · rw [heffect]
        rw [hop] at hallowed
        exact effect_of_write (sends_of_allowed hallowed) htext hst
    · -- the command is the `SET`, and its reply says that it took effect
      cases heq
      obtain ⟨rfl, hstatus⟩ := Prod.mk.inj hnew
      rcases answer_command lib cls hposs hstatus.symm with herror | ⟨-, heffect⟩
      · exact absurd herror (by simp)
      · rw [heffect]
        exact Function.update_self ..
  other s j k call call' t u b turn hne hcall hat hL hcall' hLu hallowed hposs hC := by
    rintro rfl x text hop htext hmem
    have hkeep : ¬ call'.operation.Changes key := fun hchanges =>
      hne (hC _ (State.operation?_of_callers hcall') hchanges).symm
    rw [store_of_keep hallowed hkeep]
    exact hL rfl x text hop htext hmem

/-- A `write` that returned true has left its text, if only its thread changes the key. -/
theorem store_of_written
    (h : (managers lib cls).system.RunBy (fun _ => OnlyBy i key) (managersInitial lib cls store)
      tr s)
    {x : T} (hres : s.result? i = some (.write key x, .bool true)) :
    ∃ text, text? lib cls x = some text ∧ s.shared.store key = some text := by
  obtain ⟨⟨op, rest⟩, hcall, hmap⟩ := Option.bind_eq_some_iff.mp hres
  obtain ⟨r, hr, heq⟩ := Option.map_eq_some_iff.mp hmap
  obtain ⟨rfl, rfl⟩ := Prod.mk.inj heq
  obtain ⟨t, hat, hL⟩ := (stored_keeps i key).holds h i _ hcall
  obtain ⟨text, htext, hmem⟩ := Obeys.result hat hr
  exact ⟨text, htext, hL rfl x text rfl htext hmem⟩

variable (lib cls) in
/-- The key holds the text, and a call that thread `j` has begun since `s` has read nothing
else there. -/
structure Kept (s : (managers lib cls).State) (key text : Bytes) (s' : (managers lib cls).State) :
    Prop where
  stored : s'.shared.store key = some text
  got : ∀ j, s.callers j = none → ∀ call, s'.callers j = some call →
    ∃ t, (recorded lib cls).At call t ∧
      ∀ r, (.get key, r) ∈ t → r = .error ∨ r = .bulk (some text)

/-- **One step keeps it**, unless it is a step of an operation that may change the key. -/
theorem Kept.next {s₀ : (managers lib cls).State} (hs : Kept lib cls s₀ key text s)
    (hat : (recorded lib cls).Holds (fun _ _ _ _ => True) s) {a : (managers lib cls).Label}
    (ha : (managers lib cls).system.Enabled a s) (hspares : Spares key s a) :
    Kept lib cls s₀ key text (Service.next a s) := by
  constructor
  · cases a with
    | act i b turn =>
      obtain ⟨call, hcall, hhead⟩ := State.head?_eq_some.mp ha.1
      obtain ⟨t, hat, -⟩ := hat i call hcall
      have hkeep := hspares _ (State.operation?_of_callers hcall)
      exact (store_of_keep (hat.allowed hhead) hkeep i s.shared turn).trans hs.stored
    | _ => exact hs.stored
  · intro j hj call hcall
    rcases call_next ha hcall with ⟨-, hcall'⟩ | ⟨op, rfl, -, rfl⟩ |
      ⟨call', b, turn, rfl, hcall', hhead, hposs, rfl⟩
    · exact hs.got j hj call hcall'
    · exact ⟨[], (recorded lib cls).obeys op, fun r hr => absurd hr List.not_mem_nil⟩
    · obtain ⟨t, hat, hget⟩ := hs.got j hj call' hcall'
      refine ⟨_, Obeys.step hat hhead (recorded_possible _ _ _ _), fun r hr => ?_⟩
      rcases mem_after hr with hold | ⟨redis, c, rep, heq, hnew⟩
      · exact hget r hold
      · cases heq
        obtain ⟨rfl, hrep⟩ := Prod.mk.inj hnew
        rcases answer_command lib cls hposs hrep.symm with herror | ⟨hreply, -⟩
        · exact Or.inl herror
        · refine Or.inr (hreply.trans ?_)
          rw [Command.reply, hs.stored]

/-- **A key that one thread changes is its own.**  After a `write` that returned true the key
holds the text of the object for as long as nobody writes or erases it, whatever the other
threads do to other keys and whatever fails; a `read` that begins meanwhile, by any thread,
returns what this text decodes to, or reports a missing key if its command throws. -/
theorem read_last_write
    (h : (managers lib cls).system.RunBy (fun _ => OnlyBy i key) (managersInitial lib cls store)
      tr s)
    {x : T} (hres : s.result? i = some (.write key x, .bool true))
    (h' : (managers lib cls).system.RunBy (fun _ => Spares key)
      (Service.next (.ret i (.write key x) (.bool true)) s) tr' s') :
    ∃ text, text? lib cls x = some text ∧ s'.shared.store key = some text ∧
      ∀ j template_obj e y,
        (Service.next (.ret i (.write key x) (.bool true)) s).callers j = none →
          s'.result? j = some (.read key template_obj, .object e y) →
            (e, y) = decode lib cls text template_obj ∨ (e, y) = (some "Key not found", none) := by
  obtain ⟨text, htext, hstore⟩ := store_of_written h hres
  have hstore₀ : (Service.next (.ret i (.write key x) (.bool true)) s).shared.store key =
    some text := hstore
  have hreturned : (managers lib cls).system.Run (managersInitial lib cls store)
      (tr ++ [.ret i (.write key x) (.bool true)])
      (Service.next (.ret i (.write key x) (.bool true)) s) := h.run.snoc hres
  generalize Service.next (.ret i (.write key x) (.bool true)) s = s₀ at hreturned h' hstore₀ ⊢
  have hkept : Kept lib cls s₀ key text s' := by
    refine h'.induct (P := fun _ u => Kept lib cls s₀ key text u) ⟨hstore₀, ?_⟩ ?_
    · intro j hj call hcall
      exact absurd (hj.symm.trans hcall) (by simp)
    · intro tr u a hu hkept ha hspares
      exact hkept.next
        (Discipline.holds_of_run recorded_possible (hreturned.append hu.run)) ha hspares
  refine ⟨text, htext, hkept.stored, fun j template_obj e y hj hread => ?_⟩
  obtain ⟨⟨op, rest⟩, hcall, hmap⟩ := Option.bind_eq_some_iff.mp hread
  obtain ⟨r, hr, heq⟩ := Option.map_eq_some_iff.mp hmap
  obtain ⟨rfl, rfl⟩ := Prod.mk.inj heq
  obtain ⟨t, hat, hget⟩ := hkept.got j hj _ hcall
  obtain ⟨rep, hmem, hdecode⟩ := Obeys.result hat hr
  rcases hget rep hmem with rfl | rfl
  · exact Or.inr hdecode.symm
  · exact Or.inl hdecode.symm

end Own

/-! ## A flag, written and read -/

section Flag

/-- A class with one value that can be stored. -/
def flag : StateObj Bool where
  to_json x := if x = true then .ok (.boolean true) else .error .other
  from_json
    | _, .boolean true => .ok true
    | _, _ => .error .json

def flagText : Bytes := ascii ['t', 'r', 'u', 'e']

def flagLibrary : JsonLibrary := textLibrary flagText (.boolean true)

theorem flagLibrary_lawful (x : Bool) (j : Json) (h : flag.to_json x = .ok j) :
    flagLibrary.Lawful j := by
  have hj : j = .boolean true := by
    simp only [flag] at h
    split at h
    · exact (Except.ok.inj h).symm
    · exact absurd h (by simp)
  rw [hj]
  exact textLibrary_lawful flagText (by decide) _

/-- The steps of the client, all of whose commands take effect. -/
def ofClient (tr : List RedisClient.Label) : List (managers flagLibrary flag).Label :=
  tr.filterMap fun
    | .act i a choice => some (.act i a ⟨choice, true⟩)
    | .call _ _ | .ret _ _ _ => none

/-- Thread 0 configures the client and stores the flag, up to the return of `write`. -/
def flagWriteRun : List (managers flagLibrary flag).Label :=
  [.call 0 (.setConfig RedisClient.server)] ++
    ofClient (RedisClient.setConfigRun 0 RedisClient.server [(1, .ok)]) ++
    [.ret 0 (.setConfig RedisClient.server) .done, .call 0 (.write [1] true)] ++
    ofClient (RedisClient.commandRun (.setnx (lockKey [1]) locked) (.integer 1)) ++
    ofClient (RedisClient.commandRun (.set [1] flagText) .status) ++
    ofClient (RedisClient.commandRun (.del (lockKey [1])) (.integer 1))

/-- Thread 0 reads the flag, up to the return of `read`. -/
def flagReadRun : List (managers flagLibrary flag).Label :=
  [.call 0 (.read [1] false)] ++
    ofClient (RedisClient.commandRun (.get [1]) (.bulk (some flagText)))

def flagInitial : (managers flagLibrary flag).State :=
  managersInitial flagLibrary flag RedisClient.emptyStore

/-- The state before `write` returns. -/
def flagWritten : (managers flagLibrary flag).State :=
  (managers flagLibrary flag).system.after flagWriteRun flagInitial

/-- Once `write` has returned. -/
def flagReturned : (managers flagLibrary flag).State :=
  Service.next (.ret 0 (.write [1] true) (.bool true)) flagWritten

/-- The thread of a step is in no operation that may change a key. -/
def Reads (s : (managers flagLibrary flag).State) (a : (managers flagLibrary flag).Label) : Bool :=
  (s.operation? a.caller).all fun
    | .read _ _ | .setConfig _ => true
    | .write _ _ | .erase _ => false

theorem spares_of_reads {s : (managers flagLibrary flag).State}
    {a : (managers flagLibrary flag).Label} (h : Reads s a = true) (key : Bytes) :
    Spares key s a := by
  intro op hop
  unfold Reads at h
  rw [hop] at h
  cases op with
  | read k x => exact id
  | setConfig config => exact id
  | write k x => simp at h
  | erase k => simp at h

set_option maxRecDepth 4000 in
theorem flagWriteRun_legal :
    ((managers flagLibrary flag).system.restrict fun _ a => a.caller = 0).Legal flagWriteRun
      flagInitial := by
  decide +kernel

set_option maxRecDepth 4000 in
theorem flagReadRun_legal :
    ((managers flagLibrary flag).system.restrict fun s a => Reads s a = true).Legal flagReadRun
      flagReturned := by
  decide +kernel

/-- The whole run. -/
def flagRun : List (managers flagLibrary flag).Label :=
  flagWriteRun ++ [.ret 0 (.write [1] true) (.bool true)] ++ flagReadRun

set_option maxRecDepth 4000 in
theorem read_written_flagRun :
    ∃ i x j, Service.Label.call i (.write [1] x) ∈ flagRun ∧ flag.to_json x = .ok j ∧
      flag.from_json false j.nullify = .ok true := by
  have hlegal : (managers flagLibrary flag).system.Legal flagRun flagInitial := by decide +kernel
  have hres : ((managers flagLibrary flag).system.after flagRun flagInitial).result? 0 =
      some (.read [1] false, .object none (some true)) := by decide +kernel
  have hrun := TransitionSystem.run_of_legal hlegal
  rcases read_written flagLibrary_lawful (by decide) hrun hres with
    ⟨text, j, hstore, -⟩ | hwritten
  · exact absurd hstore (by simp [RedisClient.emptyStore])
  · exact hwritten

set_option maxRecDepth 4000 in
theorem read_last_write_flagRun :
    ∃ text, text? flagLibrary flag true = some text ∧
      ((managers flagLibrary flag).system.after flagReadRun flagReturned).shared.store [1] =
        some text ∧
      ((none, some true) = decode flagLibrary flag text false ∨
        (none, some true) = (some "Key not found", (none : Option Bool))) := by
  have hwrite : (managers flagLibrary flag).system.RunBy (fun _ => OnlyBy 0 [1]) flagInitial
      flagWriteRun flagWritten :=
    TransitionSystem.runBy_of_legal (fun _ _ _ h _ _ _ => h) flagWriteRun_legal
  have hread : (managers flagLibrary flag).system.RunBy (fun _ => Spares [1]) flagReturned
      flagReadRun ((managers flagLibrary flag).system.after flagReadRun flagReturned) :=
    TransitionSystem.runBy_of_legal (fun _ _ _ h => spares_of_reads h [1]) flagReadRun_legal
  obtain ⟨text, htext, hstore, hresult⟩ := read_last_write hwrite (by decide +kernel) hread
  exact ⟨text, htext, hstore,
    hresult 0 false none (some true) (by decide +kernel) (by decide +kernel)⟩

end Flag

end StateManager
