/-
# The object store

What the state managers are for: `objects` is a store in which each call has its effect in
one step between its beginning and its return, or none at all.  A call whose reply is lost
has had its effect and returns what it would have without one.  `linearizable` shows that
every run of `managers`, with the client's mutexes, pings and reconnections, the `SETNX`
locks and the commands that may fail, is seen as a run of this store, over the same texts;
a call has its effect with the `SET`, `DEL` or `GET` that it issues.
-/
import RedisStateManager.StateManagerRuns

namespace StateManager

open Redis Program Service
open RedisStorage (lockKey lockKey_ne lockPrefix lockPrefix_lockKey locked tryLock unlock
  setUnderLock)

/-! ## Calls that have their effect at once -/

section Objects

variable {T : Type} (lib : JsonLibrary) (cls : StateObj T)

/-- What an operation returns that has had no effect. -/
def Operation.failure : Operation T → Outcome T
  | setConfig _ => .done
  | write _ _ | erase _ => .bool false
  | read _ _ => .object (some "Key not found") none

/-- What `read` returns of the text it gets. -/
def found (json_string : Bytes) (template_obj : T) : Outcome T :=
  .object (decode lib cls json_string template_obj).1 (decode lib cls json_string template_obj).2

/-- The texts after an operation and what it returns; if its reply is `lost` it returns
what it would have without an effect. -/
def Operation.effect? (lost : Bool) (texts : Store) : Operation T → Option (Store × Outcome T)
  | setConfig _ => none
  | write k x =>
    (text? lib cls x).map fun text => (Function.update texts k (some text), .bool !lost)
  | erase k =>
    if lost = true ∨ (texts k).isSome then some (Function.update texts k none, .bool !lost)
    else none
  | read k template_obj =>
    if lost = true then none else some (texts, found lib cls ((texts k).getD []) template_obj)

/-- The texts under the keys, and the calls in progress with what they will return. -/
structure Objects (T : Type) where
  texts : Store
  calls : ℕ → Option (Operation T × Option (Outcome T))

inductive ObjectStep (T : Type)
  | call (i : ℕ) (op : Operation T)
  | effect (i : ℕ) (op : Operation T) (lost : Bool)
  | ret (i : ℕ) (op : Operation T) (r : Outcome T)
  deriving DecidableEq

/-- The store of objects. -/
def objects : TransitionSystem (Objects T) (ObjectStep T) where
  Enabled
    | .call i _, u => u.calls i = none
    | .effect i op lost, u =>
      u.calls i = some (op, none) ∧ (op.effect? lib cls lost u.texts).isSome
    | .ret i op r, u => ∃ out, u.calls i = some (op, out) ∧ out.getD op.failure = r
  next
    | .call i op, u => { u with calls := Function.update u.calls i (some (op, none)) }
    | .effect i op lost, u =>
      (op.effect? lib cls lost u.texts).elim u fun e =>
        ⟨e.1, Function.update u.calls i (some (op, some e.2))⟩
    | .ret i _ _, u => { u with calls := Function.update u.calls i none }

end Objects

/-! ## What a command decides -/

section Decisions

variable {T : Type} {lib : JsonLibrary} {cls : StateObj T} {op : Operation T} {c : Command}
  {r : Reply}

/-- The reply to a `DEL` that removed something. -/
def erased : Reply → Bool
  | .integer n => 0 < n
  | _ => false

variable (lib cls) in
/-- What a command of an operation decides, by its reply, that the operation returns. -/
def Operation.decided (op : Operation T) (c : Command) (r : Reply) : Option (Outcome T) :=
  match op, c with
  | write _ _, .set _ _ => some (.bool (r = .status))
  | erase k, .del k' => if k' = k then some (.bool (erased r)) else none
  | read _ template_obj, .get _ => some (found lib cls (textOf r) template_obj)
  | _, _ => none

/-- The operation has its effect with this command, and whether the reply is lost. -/
def Operation.lost? (op : Operation T) (c : Command) (r : Reply) (took : Bool) : Option Bool :=
  match op, c with
  | write _ _, .set _ _ => if took = true then some (r = .error) else none
  | erase k, .del k' =>
    if k' = k ∧ took = true ∧ r ≠ .integer 0 then some (r = .error) else none
  | read _ _, .get _ => if r = .error then none else some false
  | _, _ => none

/-- The key of the operation is not one of a lock. -/
def Operation.OnData : Operation T → Prop
  | setConfig _ => True
  | write k _ | erase k | read k _ => ¬ lockPrefix <+: k

instance : (op : Operation T) → Decidable op.OnData
  | .setConfig _ => isTrue trivial
  | .write k _ | .erase k | .read k _ => inferInstanceAs (Decidable (¬ lockPrefix <+: k))

theorem Operation.decided_del_lock {k : Bytes} :
    (erase k : Operation T).decided lib cls (.del (lockKey k)) r = none :=
  if_neg (lockKey_ne k)

/-- A key that is not one of a lock is not the key of a lock's command. -/
theorem effect_of_lock {k k' : Bytes} (hk : ¬ lockPrefix <+: k) (hc : c.key = lockKey k')
    (took : Bool) (st : Store) : (if took then c.effect st else st) k = st k := by
  cases took with
  | false => rfl
  | true =>
    refine Command.effect_of_ne ?_ st
    rintro rfl
    exact hk (hc ▸ lockPrefix_lockKey k')

section Server

variable {took lost : Bool} {texts st : Store}

/-- Stores that agree on the data agree there after the same update. -/
theorem update_eq_of_data (htexts : ∀ k, ¬ lockPrefix <+: k → texts k = st k) (k' : Bytes)
    (v : Option Bytes) (k : Bytes) (hk : ¬ lockPrefix <+: k) :
    Function.update texts k' v k = Function.update st k' v k := by
  by_cases hkk : k = k'
  · subst hkk
    rw [Function.update_self, Function.update_self]
  · rw [Function.update_of_ne hkk, Function.update_of_ne hkk]
    exact htexts k hk

/-- A `DEL` that did not take effect, or did not find its key. -/
theorem keep_of_del {key : Bytes} (hr : r = .error ∨ r = (Command.del key).reply st ∧ took = true)
    (hkept : took = true → r = .integer 0) :
    (∀ k, ¬ lockPrefix <+: k → (if took then (Command.del key).effect st else st) k = st k) ∧
      ∀ out ∈ (Operation.erase key).decided lib cls (.del key) r, out = .bool false := by
  cases took with
  | false =>
    obtain rfl := hr.resolve_right fun h => absurd h.2 (by decide)
    refine ⟨fun _ _ => rfl, fun out hout => ?_⟩
    obtain rfl := Option.some.inj ((if_pos rfl).symm.trans hout)
    rfl
  | true =>
    obtain rfl := hkept rfl
    have hnone : st key = none := by
      have hreply := (hr.resolve_left (by simp)).1
      by_contra hsome
      have hone : (Command.del key).reply st = .integer 1 :=
        congrArg Reply.integer (if_pos (Option.isSome_iff_ne_none.mpr hsome))
      exact absurd (hreply.trans hone) (by decide)
    refine ⟨fun k _ => ?_, fun out hout => ?_⟩
    · have hupdate : Function.update st key none = st := hnone ▸ Function.update_eq_self key st
      exact congrFun hupdate k
    · obtain rfl := Option.some.inj ((if_pos rfl).symm.trans hout)
      rfl

/-- A reply other than zero tells that the key was there. -/
theorem reply_del_of_ne {key : Bytes} (h : (Command.del key).reply st ≠ .integer 0) :
    (st key).isSome ∧ (Command.del key).reply st = .integer 1 := by
  by_cases hsome : (st key).isSome
  · exact ⟨hsome, congrArg Reply.integer (if_pos hsome)⟩
  · exact absurd (congrArg Reply.integer (if_neg hsome)) h

section Effects

variable {k : Bytes} (htexts : ∀ k, ¬ lockPrefix <+: k → texts k = st k)
include htexts

/-- The `SET` of `write`. -/
theorem effect_of_set {x : T} {v : Bytes} (htext : text? lib cls x = some v)
    (hr : r = .error ∨ r = (Command.set k v).reply st ∧ took = true) (htook : took = true) :
    ∃ e, (Operation.write k x).effect? lib cls (r = .error) texts = some e ∧
      (Operation.write k x).decided lib cls (.set k v) r = some e.2 ∧
      ∀ q, ¬ lockPrefix <+: q → e.1 q = (if took then (Command.set k v).effect st else st) q := by
  refine ⟨(Function.update texts k (some v), .bool !decide (r = .error)), ?_, ?_, ?_⟩
  · simp only [Operation.effect?, htext, Option.map_some]
  · rcases hr with rfl | ⟨rfl, -⟩ <;> rfl
  · rw [if_pos htook]
    exact update_eq_of_data htexts k (some v)

/-- The `DEL` of `erase`, of a key that is there. -/
theorem effect_of_del (hk : ¬ lockPrefix <+: k)
    (hr : r = .error ∨ r = (Command.del k).reply st ∧ took = true) (htook : took = true)
    (hzero : r ≠ .integer 0) :
    ∃ e, (Operation.erase k : Operation T).effect? lib cls (r = .error) texts = some e ∧
      (Operation.erase k : Operation T).decided lib cls (.del k) r = some e.2 ∧
      ∀ q, ¬ lockPrefix <+: q → e.1 q = (if took then (Command.del k).effect st else st) q := by
  refine ⟨(Function.update texts k none, .bool !decide (r = .error)), if_pos ?_, ?_, ?_⟩
  · rcases hr with rfl | ⟨rfl, -⟩
    · exact Or.inl rfl
    · rw [htexts k hk]
      exact Or.inr (reply_del_of_ne hzero).1
  · refine (if_pos rfl).trans ?_
    rcases hr with rfl | ⟨rfl, -⟩
    · rfl
    · rw [(reply_del_of_ne hzero).2]
      rfl
  · rw [if_pos htook]
    exact update_eq_of_data htexts k none

/-- The `GET` of `read`, when it is answered. -/
theorem effect_of_get (hk : ¬ lockPrefix <+: k) {template_obj : T}
    (hr : r = (Command.get k).reply st) (htook : took = true) :
    ∃ e, (Operation.read k template_obj).effect? lib cls false texts = some e ∧
      (Operation.read k template_obj).decided lib cls (.get k) r = some e.2 ∧
      ∀ q, ¬ lockPrefix <+: q → e.1 q = (if took then (Command.get k).effect st else st) q := by
  subst hr
  have htext : textOf (Command.reply (.get k) st) = (texts k).getD [] := by
    rw [htexts k hk]
    cases hst : st k <;> simp [Command.reply, hst, textOf]
  refine ⟨(texts, found lib cls ((texts k).getD []) template_obj), rfl, ?_, ?_⟩
  · rw [← htext]
    rfl
  · rw [if_pos htook]
    exact htexts

end Effects

/-- What the server does is the effect of the operation on the texts. -/
theorem Operation.Sends.effect_of_lost (h : op.Sends lib cls c)
    (hr : r = .error ∨ r = c.reply st ∧ took = true)
    (hdata : op.OnData) (htexts : ∀ k, ¬ lockPrefix <+: k → texts k = st k)
    (hlost : op.lost? c r took = some lost) :
    ∃ e, op.effect? lib cls lost texts = some e ∧ op.decided lib cls c r = some e.2 ∧
      ∀ k, ¬ lockPrefix <+: k → e.1 k = (if took then c.effect st else st) k := by
  cases op with
  | setConfig config => cases c <;> exact h.elim
  | write k x =>
    cases c with
    | set k' v =>
      obtain ⟨rfl, htext⟩ := h
      obtain ⟨htook, ⟨⟩⟩ := Option.ite_none_right_eq_some.mp hlost
      exact effect_of_set htexts htext hr htook
    | _ => cases hlost
  | erase k =>
    cases c with
    | del k' =>
      obtain ⟨⟨rfl, htook, hzero⟩, ⟨⟩⟩ := Option.ite_none_right_eq_some.mp hlost
      exact effect_of_del htexts hdata hr htook hzero
    | _ => cases hlost
  | read k template_obj =>
    cases c with
    | get k' =>
      obtain rfl : k' = k := h
      obtain ⟨herror, ⟨⟩⟩ := Option.ite_none_left_eq_some.mp hlost
      obtain ⟨hreply, htook⟩ := hr.resolve_left herror
      exact effect_of_get htexts hdata hreply htook
    | _ => cases hlost

/-- A command without an effect leaves the texts and decides at most a failure. -/
theorem Operation.Sends.keep_of_lost (h : op.Sends lib cls c)
    (hr : r = .error ∨ r = c.reply st ∧ took = true) (hlost : op.lost? c r took = none) :
    (∀ k, ¬ lockPrefix <+: k → (if took then c.effect st else st) k = st k) ∧
      ∀ out ∈ op.decided lib cls c r, out = op.failure := by
  cases op with
  | setConfig config => cases c <;> exact h.elim
  | write k x =>
    cases c with
    | set k' v =>
      have htook : took = false := by simpa [Operation.lost?] using hlost
      subst htook
      obtain rfl := hr.resolve_right fun h => absurd h.2 (by decide)
      refine ⟨fun _ _ => rfl, ?_⟩
      rintro out ⟨⟩
      rfl
    | setnx k' v => exact ⟨fun k hk => effect_of_lock (c := .setnx k' v) hk h.1 took st, nofun⟩
    | del k' => exact ⟨fun k hk => effect_of_lock (c := .del k') hk h took st, nofun⟩
    | _ => exact h.elim
  | erase k =>
    cases c with
    | setnx k' v => exact ⟨fun k hk => effect_of_lock (c := .setnx k' v) hk h.1 took st, nofun⟩
    | del k' =>
      rcases h with rfl | hlock
      · have hkept : took = true → r = .integer 0 := by simpa [Operation.lost?] using hlost
        exact keep_of_del hr hkept
      · refine ⟨fun k hk => effect_of_lock (c := .del k') hk hlock took st, fun out hout => ?_⟩
        rw [hlock, Operation.decided_del_lock] at hout
        exact absurd hout (Option.not_mem_none out)
    | _ => exact h.elim
  | read k template_obj =>
    cases c with
    | get k' =>
      have hr : r = .error := by simpa [Operation.lost?] using hlost
      subst hr
      refine ⟨fun k hk => by cases took <;> rfl, ?_⟩
      rintro out ⟨⟩
      rfl
    | _ => exact h.elim

end Server

end Decisions

/-! ## What an operation decides -/

section Decides

variable {T : Type} (lib : JsonLibrary) (cls : StateObj T)

/-- The protocol of an operation, whose state is what it will return: it decides once. -/
def decides (op : Operation T) :
    Protocol RedisStorage.Action RedisStorage.Answer (Option (Outcome T)) where
  Allowed t
    | .getClient => True
    | .command _ c =>
      op.Sends lib cls c ∧ ((∃ r, (op.decided lib cls c r).isSome) → t = none)
  Possible _ _ _ := True
  after t
    | .getClient, _ => t
    | .command _ c, (r : Reply) => (op.decided lib cls c r).or t

variable {lib cls}
variable {op : Operation T} {key : Bytes} {t : Option (Outcome T)}

section Commands

variable {α : Type} {redis : ℕ} {c : Command} {p : Reply → RedisStorage.Procedure α}
  {post : α → Option (Outcome T) → Prop}

/-- A command that decides nothing. -/
theorem command_keeps (hop : op.Sends lib cls c) (hnone : ∀ r, op.decided lib cls c r = none)
    (h : ∀ r, (p r).Obeys (decides lib cls op) post t) :
    (Program.act (.command redis c) p).Obeys (decides lib cls op) post t := by
  refine ⟨⟨hop, ?_⟩, fun r _ => ?_⟩
  · rintro ⟨r, hr⟩
    rw [hnone r] at hr
    exact absurd hr Bool.false_ne_true
  · show (p r).Obeys _ _ ((op.decided lib cls c r).or t)
    rw [hnone r, Option.none_or]
    exact h r

/-- The command that decides. -/
theorem command_decides (hop : op.Sends lib cls c)
    (h : ∀ r, (p r).Obeys (decides lib cls op) post (op.decided lib cls c r)) :
    (Program.act (.command redis c) p).Obeys (decides lib cls op) post none := by
  refine ⟨⟨hop, fun _ => rfl⟩, fun r _ => ?_⟩
  show (p r).Obeys _ _ ((op.decided lib cls c r).or none)
  rw [Option.or_none]
  exact h r

end Commands

theorem decided_setnx {k v : Bytes} {r : Reply} : op.decided lib cls (.setnx k v) r = none := by
  cases op <;> rfl

theorem tryLock_decides (hop : op.Sends lib cls (.setnx (lockKey key) locked))
    {post : Bool → Option (Outcome T) → Prop} (h : ∀ b, post b t) :
    (tryLock key).Obeys (decides lib cls op) post t := by
  refine ⟨trivial, fun redis _ => command_keeps hop (fun r => decided_setnx) fun r => ?_⟩
  cases r <;> exact h _

theorem unlock_decides (hop : op.Sends lib cls (.del (lockKey key)))
    (hnone : ∀ r, op.decided lib cls (.del (lockKey key)) r = none)
    {post : Unit → Option (Outcome T) → Prop} (h : post () t) :
    (unlock key).Obeys (decides lib cls op) post t := by
  refine ⟨trivial, fun redis _ => command_keeps hop hnone fun r => ?_⟩
  cases r <;> exact h

/-- Giving the lock back and returning what has been decided. -/
theorem unlock_ret_decides (hop : op.Sends lib cls (.del (lockKey key)))
    (hnone : ∀ r, op.decided lib cls (.del (lockKey key)) r = none) {b : Bool} :
    (unlock key >>= fun _ => ret b).Obeys (decides lib cls op)
      (fun b t => t.getD (.bool false) = .bool b) (some (.bool b)) :=
  obeys_bind.mpr (unlock_decides hop hnone rfl)

theorem setUnderLock_decides {x : T} {text : Bytes} (htext : text? lib cls x = some text) :
    (setUnderLock key text).Obeys (decides lib cls (.write key x))
      (fun b t => t.getD (.bool false) = .bool b) none := by
  have hlock : (Operation.write key x).Sends lib cls (.setnx (lockKey key) locked) := ⟨rfl, rfl⟩
  have hunlock : (Operation.write key x).Sends lib cls (.del (lockKey key)) := rfl
  refine obeys_bind.mpr (tryLock_decides hlock fun b => ?_)
  cases b with
  | false => rfl
  | true =>
    refine ⟨trivial, fun redis _ => command_decides ⟨rfl, htext⟩ fun r => ?_⟩
    cases r <;> exact unlock_ret_decides hunlock fun _ => rfl

theorem erase_decides :
    (RedisStorage.erase key).Obeys (decides lib cls (.erase key))
      (fun b t => t.getD (.bool false) = .bool b) none := by
  have hlock : (Operation.erase key).Sends lib cls (.setnx (lockKey key) locked) := ⟨rfl, rfl⟩
  have hunlock : (Operation.erase key).Sends lib cls (.del (lockKey key)) := Or.inr rfl
  refine obeys_bind.mpr (tryLock_decides hlock fun b => ?_)
  cases b with
  | false => rfl
  | true =>
    refine ⟨trivial, fun redis _ => command_decides (Or.inl rfl) fun r => ?_⟩
    have hdecided : (Operation.erase key).decided lib cls (.del key) r = some (.bool (erased r)) :=
      if_pos rfl
    rw [hdecided]
    cases r with
    | integer n =>
      show (unlock key >>= fun _ => if n > 0 then ret true else ret false).Obeys _ _ _
      have herased : erased (.integer n) = decide (n > 0) := rfl
      by_cases hn : n > 0
      · rw [if_pos hn, herased, decide_eq_true hn]
        exact unlock_ret_decides hunlock fun _ => Operation.decided_del_lock
      · rw [if_neg hn, herased, decide_eq_false hn]
        exact unlock_ret_decides hunlock fun _ => Operation.decided_del_lock
    | _ => exact unlock_ret_decides hunlock fun _ => Operation.decided_del_lock

theorem read_decides {template_obj : T} :
    (RedisStorage.read key).Obeys (decides lib cls (.read key template_obj))
      (fun v t => t = some (found lib cls v template_obj)) none := by
  refine ⟨trivial, fun redis _ => command_decides rfl fun r => ?_⟩
  cases r with
  | bulk value => cases value <;> rfl
  | _ => rfl

theorem write_decides {x : T} :
    (StateManager.write lib cls key x).Obeys (decides lib cls (.write key x))
      (fun b t => t.getD (.bool false) = .bool b) none := by
  rw [write_eq]
  cases htext : text? lib cls x with
  | none => exact (rfl : (none : Option (Outcome T)).getD (.bool false) = .bool false)
  | some text => exact setUnderLock_decides htext

/-- **An operation returns what it has decided**, or what one without an effect returns. -/
def decisions (lib : JsonLibrary) (cls : StateObj T) :
    (managers lib cls).Discipline (Option (Outcome T)) where
  protocol op := (decides lib cls op).through (RedisClient.view true)
  start := none
  Post op r t := t.getD op.failure = r
  obeys op := by
    cases op with
    | setConfig config =>
      refine obeys_bind.mpr (Obeys.mono (Silent.obeys (RedisClient.silent_setConfig config)) ?_)
      rintro _ _ rfl
      rfl
    | write key x =>
      refine obeys_bind.mpr (((RedisClient.ofStorage_refines _).obeys write_decides).mono ?_)
      rintro b t ⟨_, rfl, h⟩
      exact h
    | erase key =>
      refine obeys_bind.mpr (((RedisClient.ofStorage_refines _).obeys erase_decides).mono ?_)
      rintro b t ⟨_, rfl, h⟩
      exact h
    | read key template_obj =>
      have hread : (StateManager.read lib cls key template_obj).Obeys
          (decides lib cls (.read key template_obj))
          (fun r t => t.getD (Operation.read key template_obj).failure = .object r.1 r.2)
          none := by
        rw [read_eq_map]
        refine obeys_bind.mpr (read_decides.mono ?_)
        rintro v _ rfl
        rfl
      refine obeys_bind.mpr (((RedisClient.ofStorage_refines _).obeys hread).mono ?_)
      rintro r t ⟨_, rfl, h⟩
      exact h

/-- What the protocol of a call allows of its commands. -/
theorem decides_of_allowed {redis : ℕ} {c : Command}
    (h : ((decisions lib cls).protocol op).Allowed t (.command redis c)) :
    op.Sends lib cls c ∧ ∀ r, (op.decided lib cls c r).isSome → t = none := by
  obtain ⟨hsends, honce⟩ := h .error ⟨.command redis c, .error⟩ rfl
  exact ⟨hsends, fun r hr => honce ⟨r, hr⟩⟩

end Decides

/-! ## The simulation -/

section Simulation

variable {T : Type} {lib : JsonLibrary} {cls : StateObj T}

/-- The step of the object store that a step of the managers is. -/
def seeObjects (s : (managers lib cls).State) : (managers lib cls).Label → Option (ObjectStep T)
  | .call i op => some (.call i op)
  | .act i (.command redis c) turn =>
    (s.operation? i).bind fun op =>
      (op.lost? c ((managers lib cls).answer s.shared turn (.command redis c)) turn.took).map
        (.effect i op)
  | .act _ _ _ => none
  | .ret i op r => some (.ret i op r)

/-- A call of the managers, and the call of the object store that it is: what has been
decided is what the object store will return, unless it is a failure. -/
inductive Performs :
    Option (managers lib cls).Call → Option (Operation T × Option (Outcome T)) → Prop
  | idle : Performs none none
  | busy {call : (managers lib cls).Call} {t out : Option (Outcome T)}
      (hat : (decisions lib cls).At call t) (hdata : call.operation.OnData)
      (hout : out = t ∨ out = none ∧ t = some call.operation.failure) :
      Performs (some call) (some (call.operation, out))

/-- A state of the managers, and the state of the object store that it is. -/
structure Implements (s : (managers lib cls).State) (u : Objects T) : Prop where
  texts : ∀ k, ¬ lockPrefix <+: k → u.texts k = s.shared.store k
  calls : ∀ i, Performs (s.callers i) (u.calls i)

/-- A call that begins is one of an object, not of a lock. -/
def CallsOnData : (managers lib cls).Label → Prop
  | .call _ op => op.OnData
  | .act _ _ _ | .ret _ _ _ => True

instance : (a : (managers lib cls).Label) → Decidable (CallsOnData a)
  | .call _ op => inferInstanceAs (Decidable op.OnData)
  | .act _ _ _ | .ret _ _ _ => isTrue trivial

variable {s : (managers lib cls).State} {u u' : Objects T} {i : ℕ}

/-- The calls after a step of thread `i`. -/
theorem Implements.calls_next (h : Implements s u) {a : (managers lib cls).Label}
    (hi : Performs ((Service.next a s).callers a.caller) (u'.calls a.caller))
    (hframe : ∀ j, j ≠ a.caller → u'.calls j = u.calls j) (j : ℕ) :
    Performs ((Service.next a s).callers j) (u'.calls j) := by
  by_cases hj : j = a.caller
  · rw [hj]
    exact hi
  · rw [callers_next_of_ne hj, hframe j hj]
    exact h.calls j

/-- The object store's call of a thread that is in a call. -/
theorem Implements.call_busy (h : Implements s u) {call : (managers lib cls).Call}
    (hcall : s.callers i = some call) :
    ∃ t out, u.calls i = some (call.operation, out) ∧ (decisions lib cls).At call t ∧
      call.operation.OnData ∧ (out = t ∨ out = none ∧ t = some call.operation.failure) := by
  have hi := h.calls i
  rw [hcall] at hi
  generalize hc : u.calls i = c at hi
  cases hi with
  | busy hat hdata hout => exact ⟨_, _, rfl, hat, hdata, hout⟩

theorem Implements.call (h : Implements s u) {op : Operation T} (hidle : s.callers i = none)
    (hdata : op.OnData) :
    (objects lib cls).Enabled (.call i op) u ∧
      Implements (Service.next (.call i op) s) ((objects lib cls).next (.call i op) u) := by
  have hnone : u.calls i = none := by
    have hi := h.calls i
    rw [hidle] at hi
    generalize hc : u.calls i = c at hi
    cases hi
    rfl
  refine ⟨hnone, h.texts, h.calls_next ?_ fun j hj => Function.update_of_ne hj _ _⟩
  show Performs (Function.update s.callers i _ i) (Function.update u.calls i _ i)
  rw [Function.update_self, Function.update_self]
  exact .busy ((decisions lib cls).obeys op) hdata (Or.inl rfl)

theorem Implements.ret (h : Implements s u) {op : Operation T} {r : Outcome T}
    (hres : s.result? i = some (op, r)) :
    (objects lib cls).Enabled (.ret i op r) u ∧
      Implements (Service.next (.ret i op r) s) ((objects lib cls).next (.ret i op r) u) := by
  obtain ⟨call, hcall, hmap⟩ := Option.bind_eq_some_iff.mp hres
  obtain ⟨r', hr, heq⟩ := Option.map_eq_some_iff.mp hmap
  obtain ⟨rfl, rfl⟩ := Prod.mk.inj heq
  obtain ⟨t, out, hu, hat, -, hout⟩ := h.call_busy hcall
  have hpost : t.getD call.operation.failure = r' := Obeys.result hat hr
  refine ⟨⟨out, hu, ?_⟩, h.texts, h.calls_next ?_ fun j hj => Function.update_of_ne hj _ _⟩
  · rcases hout with rfl | ⟨rfl, rfl⟩
    · exact hpost
    · exact hpost
  · show Performs (Function.update s.callers i _ i) (Function.update u.calls i _ i)
    rw [Function.update_self, Function.update_self]
    exact .idle

/-- An action that is not a command decides nothing and leaves the texts alone. -/
theorem Implements.act_quiet (h : Implements s u) {b : RedisClient.Action}
    {turn : RedisClient.Turn} (ha : Enabled (.act i b turn) s)
    (hcommand : ∀ redis c, b ≠ .command redis c) :
    Implements (Service.next (.act i b turn) s) u := by
  obtain ⟨call, hcall, hhead⟩ := State.head?_eq_some.mp ha.1
  obtain ⟨t, out, hu, hat, hdata, hout⟩ := h.call_busy hcall
  have hafter (r : RedisClient.Answer b) :
      ((decisions lib cls).protocol call.operation).after t b r = t := by
    cases b with
    | command redis c => exact absurd rfl (hcommand redis c)
    | _ => rfl
  constructor
  · intro k hk
    rcases store_perform lib cls i s.shared turn b with heq | ⟨redis, c, hb, -⟩
    · exact (h.texts k hk).trans (congrFun heq k).symm
    · exact absurd hb (hcommand redis c)
  · refine h.calls_next ?_ fun _ _ => rfl
    show Performs ((Service.next (.act i b turn) s).callers i) (u.calls i)
    rw [callers_act hcall, hu]
    have hstep := Obeys.step hat hhead (f := (managers lib cls).answer s.shared turn)
      (fun _ _ => trivial)
    rw [hafter] at hstep
    exact .busy hstep hdata hout

/-- The reply to a command, and whether it took effect. -/
theorem command_reply {s : RedisClient.Served} {turn : RedisClient.Turn} {redis : ℕ} {c : Command}
    (h : (managers lib cls).Possible i s turn (.command redis c)) {r : Reply}
    (hr : (managers lib cls).answer s turn (.command redis c) = r) :
    r = .error ∨ r = c.reply s.store ∧ turn.took = true := by
  obtain ⟨choice, took⟩ := turn
  rcases h.2 with rfl | ⟨rfl, rfl⟩
  · exact Or.inl hr.symm
  · exact Or.inr ⟨hr.symm, rfl⟩

/-- A decision that is a failure is not seen. -/
theorem out_of_failure {decided t out : Option (Outcome T)} {failure : Outcome T}
    (honce : decided.isSome → t = none) (hfailure : ∀ x ∈ decided, x = failure)
    (hout : out = t ∨ out = none ∧ t = some failure) :
    out = decided.or t ∨ out = none ∧ decided.or t = some failure := by
  cases decided with
  | none => exact hout
  | some x =>
    obtain rfl := honce rfl
    obtain rfl := hfailure x rfl
    exact Or.inr ⟨hout.elim id And.left, rfl⟩

theorem objects_next_effect {op : Operation T} {lost : Bool} {e : Store × Outcome T} (i : ℕ)
    (he : op.effect? lib cls lost u.texts = some e) :
    (objects lib cls).next (.effect i op lost) u =
      ⟨e.1, Function.update u.calls i (some (op, some e.2))⟩ := by
  show Option.elim (op.effect? lib cls lost u.texts) u _ = _
  rw [he]
  rfl

/-- **A command** is where a call has its effect, or not seen. -/
theorem Implements.act_command (h : Implements s u) {redis : ℕ} {c : Command}
    {turn : RedisClient.Turn} (ha : Enabled (.act i (.command redis c) turn) s) :
    (objects lib cls).EnabledOn (seeObjects s (.act i (.command redis c) turn)) u ∧
      Implements (Service.next (.act i (.command redis c) turn) s)
        ((objects lib cls).nextOn (seeObjects s (.act i (.command redis c) turn)) u) := by
  obtain ⟨call, hcall, hhead⟩ := State.head?_eq_some.mp ha.1
  obtain ⟨t, out, hu, hat, hdata, hout⟩ := h.call_busy hcall
  obtain ⟨hsends, honce⟩ := decides_of_allowed (hat.allowed hhead)
  have hsee : seeObjects s (.act i (.command redis c) turn) = (call.operation.lost? c
      ((managers lib cls).answer s.shared turn (.command redis c)) turn.took).map
        (.effect i call.operation) := by
    simp [seeObjects, State.operation?_of_callers hcall]
  have hstep := Obeys.step hat hhead (f := (managers lib cls).answer s.shared turn)
    (fun _ _ => trivial)
  have hcall' := callers_act hcall (.command redis c) turn
  generalize hr : (managers lib cls).answer s.shared turn (.command redis c) = r at hsee hstep
  have hafter : ((decisions lib cls).protocol call.operation).after t (.command redis c) r =
      (call.operation.decided lib cls c r).or t := rfl
  rw [hafter] at hstep
  have hreply := command_reply ha.2 hr
  rw [hsee]
  cases hlost : call.operation.lost? c r turn.took with
  | none =>
    obtain ⟨hkeep, hfailure⟩ := hsends.keep_of_lost hreply hlost
    refine ⟨TransitionSystem.enabledOn_none, fun k hk => (h.texts k hk).trans (hkeep k hk).symm,
      h.calls_next ?_ fun _ _ => rfl⟩
    show Performs ((Service.next _ s).callers i) (u.calls i)
    rw [hcall', hu]
    exact .busy hstep hdata (out_of_failure (honce r) hfailure hout)
  | some lost =>
    obtain ⟨e, he, hdecided, htexts⟩ := hsends.effect_of_lost hreply hdata h.texts hlost
    have ht : t = none := honce r (by rw [hdecided]; rfl)
    subst ht
    obtain rfl : out = none := hout.elim id And.left
    refine ⟨TransitionSystem.enabledOn_some.mpr ⟨hu, by rw [he]; rfl⟩, ?_⟩
    show Implements _ ((objects lib cls).next _ u)
    rw [objects_next_effect i he]
    refine ⟨htexts, h.calls_next ?_ fun j hj => Function.update_of_ne hj _ _⟩
    show Performs ((Service.next _ s).callers i) (Function.update u.calls i _ i)
    rw [hcall', Function.update_self]
    refine .busy hstep hdata (Or.inl ?_)
    rw [hdecided]
    rfl

/-- **One step of the managers** is seen as one step of the object store, or as none. -/
theorem Implements.next (h : Implements s u) {a : (managers lib cls).Label} (ha : Enabled a s)
    (hdata : CallsOnData a) :
    (objects lib cls).EnabledOn (seeObjects s a) u ∧
      Implements (Service.next a s) ((objects lib cls).nextOn (seeObjects s a) u) := by
  cases a with
  | call i op =>
    obtain ⟨henabled, hnext⟩ := h.call ha hdata
    exact ⟨TransitionSystem.enabledOn_some.mpr henabled, hnext⟩
  | ret i op r =>
    obtain ⟨henabled, hnext⟩ := h.ret ha
    exact ⟨TransitionSystem.enabledOn_some.mpr henabled, hnext⟩
  | act i b turn =>
    cases b with
    | command redis c => exact h.act_command ha
    | _ => exact ⟨TransitionSystem.enabledOn_none, h.act_quiet ha (by simp)⟩

/-- Nobody has called, and the texts are those of the server. -/
def objectsInitial (store : Store) : Objects T := ⟨store, fun _ => none⟩

/-- **State managers are a store of objects.**  Every run of the managers whose calls are not
on the keys of locks, whatever fails, is seen as a run of `objects` with the same calls and
returns, in which each call has its effect in one step, or none. -/
theorem linearizable {store : Store} {tr : List (managers lib cls).Label}
    (h : (managers lib cls).system.RunBy (fun _ _ => CallsOnData) (managersInitial lib cls store)
      tr s) :
    ∃ u, (objects lib cls).Run (objectsInitial store)
        ((managers lib cls).system.observe seeObjects tr (managersInitial lib cls store)) u ∧
      Implements s u := by
  have h₀ : Implements (managersInitial lib cls store) (objectsInitial store) :=
    ⟨fun _ _ => rfl, fun _ => .idle⟩
  have hsim : ∃ u, (objects lib cls).RunBy (fun _ _ _ => True) (objectsInitial store)
      ((managers lib cls).system.observe seeObjects tr (managersInitial lib cls store)) u ∧
        Implements s u := by
    refine h.simulate h₀ fun _ s u a hs ha hdata => ?_
    obtain ⟨henabled, hnext⟩ := hs.next ha hdata
    exact ⟨henabled, hnext, fun _ _ => trivial⟩
  obtain ⟨u, hu, hs⟩ := hsim
  exact ⟨u, hu.run, hs⟩

end Simulation

set_option maxRecDepth 4000 in
theorem linearizable_flagRun :
    ∃ u, (objects flagLibrary flag).Run (objectsInitial RedisClient.emptyStore)
        [.call 0 (.setConfig RedisClient.server), .ret 0 (.setConfig RedisClient.server) .done,
          .call 0 (.write [1] true), .effect 0 (.write [1] true) false,
          .ret 0 (.write [1] true) (.bool true), .call 0 (.read [1] false),
          .effect 0 (.read [1] false) false] u ∧
      u.texts [1] = some flagText := by
  have hlegal : (managers flagLibrary flag).system.Legal flagRun flagInitial := by decide +kernel
  have hdata : ∀ a ∈ flagRun, CallsOnData a := by decide +kernel
  obtain ⟨u, hu, hs⟩ := linearizable
    ((TransitionSystem.run_of_legal hlegal).runBy_of_forall fun a ha _ _ => hdata a ha)
  refine ⟨u, ?_, (hs.texts [1] (by decide)).trans (by decide +kernel)⟩
  have hseen : (managers flagLibrary flag).system.observe seeObjects flagRun flagInitial =
      [.call 0 (.setConfig RedisClient.server), .ret 0 (.setConfig RedisClient.server) .done,
        .call 0 (.write [1] true), .effect 0 (.write [1] true) false,
        .ret 0 (.write [1] true) (.bool true), .call 0 (.read [1] false),
        .effect 0 (.read [1] false) false] := by
    decide +kernel
  rw [← hseen]
  exact hu

end StateManager
