/-
# Linearizability of the storage

The commands that change data are the linearization points: an operation commits
with the `SET` it executes, or with the `DEL` that finds its key.  The program of
an operation is followed through the list of its commands and replies
(`recordProtocol`), and `Operation.records` relates this list to the value the
operation returns.  From it, in every run whose failing commands have no effect,
the data are the commits applied in order, and the commits of a client are its
operations that returned true, each once (`linearized`).
-/
import RedisStateManager.StorageLeak

namespace RedisStorage

open Redis Program

/-! ## Commits -/

/-- The change of data a command makes at its linearization point. -/
def commit? : Command → Reply → Option (Bytes × Option Bytes)
  | .set k v, .status => some (k, some v)
  | .del k, .integer n => if lockPrefix <+: k ∨ n = 0 then none else some (k, none)
  | _, _ => none

/-- The commits among the commands of one call. -/
def committed (t : List (Command × Reply)) : List (Bytes × Option Bytes) :=
  t.filterMap fun x => commit? x.1 x.2

/-- What an operation does to the data, if it succeeds. -/
def Operation.effect? : Operation → Option (Bytes × Option Bytes)
  | .write k v => some (k, some v)
  | .update k v => some (k, some v)
  | .erase k => some (k, none)
  | _ => none

@[simp] theorem committed_nil : committed [] = [] := rfl

@[simp] theorem committed_append (t t' : List (Command × Reply)) :
    committed (t ++ t') = committed t ++ committed t' :=
  List.filterMap_append

theorem committed_singleton (c : Command) (r : Reply) :
    committed [(c, r)] = (commit? c r).toList := by
  cases h : commit? c r <;> simp [committed, h]

/-- The lock commands commit nothing. -/
@[simp] theorem committed_setnx (k v : Bytes) (r : Reply) : committed [(.setnx k v, r)] = [] :=
  rfl

@[simp] theorem committed_unlock (key : Bytes) (r : Reply) :
    committed [(.del (lockKey key), r)] = [] := by
  rw [committed_singleton]
  cases r with
  | integer n => simp [commit?, lockPrefix_lockKey]
  | _ => rfl

/-! ## The record of a call -/

/-- The protocol that records the commands of a program and their replies. -/
def recordProtocol : Protocol Action Answer (List (Command × Reply)) where
  Allowed _ _ := True
  Possible _ _ _ := True
  after t
    | .getClient, _ => t
    | .command _ c, (r : Reply) => t ++ [(c, r)]

/-- What an operation returns, in terms of its record. -/
def Operation.Outcome (t : List (Command × Reply)) : Operation → Result → Prop
  | .read k, r => ∃ rep, t = [(.get k, rep)] ∧
    r = .text (match rep with | .bulk (some v) => v | _ => [])
  | op, r => ∃ b, r = .bool b ∧ committed t = if b = true then op.effect?.toList else []

section Records

variable {key value : Bytes} {t : List (Command × Reply)}

theorem tryLock_records {post : Bool → List (Command × Reply) → Prop}
    (h : ∀ b r, post b (t ++ [(.setnx (lockKey key) locked, r)])) :
    (tryLock key).Obeys recordProtocol post t := by
  refine ⟨trivial, fun redis _ => ⟨trivial, fun r _ => ?_⟩⟩
  cases r <;> exact h _ _

theorem unlock_records {post : Unit → List (Command × Reply) → Prop}
    (h : ∀ r, post () (t ++ [(.del (lockKey key), r)])) :
    (unlock key).Obeys recordProtocol post t := by
  refine ⟨trivial, fun redis _ => ⟨trivial, fun r _ => ?_⟩⟩
  cases r <;> exact h _

/-- Giving the lock back and returning commits nothing more. -/
theorem unlock_ret_records {post : Bool → List (Command × Reply) → Prop} {b : Bool}
    (h : ∀ r, post b (t ++ [(.del (lockKey key), r)])) :
    (unlock key >>= fun _ => ret b).Obeys recordProtocol post t :=
  obeys_bind.mpr (unlock_records h)

/-- A command between the two lock commands. -/
theorem committed_locked (c : Command) (r rl ru : Reply) :
    committed ([(.setnx (lockKey key) locked, rl)] ++ [(c, r)] ++ [(.del (lockKey key), ru)]) =
      (commit? c r).toList := by
  rw [committed_append, committed_append, committed_setnx, committed_unlock, committed_singleton,
    List.nil_append, List.append_nil]

theorem setUnderLock_records :
    (setUnderLock key value).Obeys recordProtocol
      (fun b t => committed t = if b = true then [(key, some value)] else []) [] := by
  refine obeys_bind.mpr (tryLock_records fun b rl => ?_)
  cases b with
  | false => rfl
  | true =>
    refine ⟨trivial, fun redis _ => ⟨trivial, fun r _ => ?_⟩⟩
    cases r with
    | status => exact unlock_ret_records fun ru => committed_locked (.set key value) .status rl ru
    | _ => exact unlock_ret_records fun ru => committed_locked (.set key value) _ rl ru

theorem erase_records (hkey : ¬ lockPrefix <+: key) :
    (erase key).Obeys recordProtocol
      (fun b t => committed t = if b = true then [(key, none)] else []) [] := by
  refine obeys_bind.mpr (tryLock_records fun b rl => ?_)
  cases b with
  | false => rfl
  | true =>
    refine ⟨trivial, fun redis _ => ⟨trivial, fun r _ => ?_⟩⟩
    cases r with
    | integer n =>
      show (unlock key >>= fun _ => if n > 0 then ret true else ret false).Obeys _ _ _
      refine obeys_bind.mpr (unlock_records fun ru => ?_)
      have hc := @committed_locked key (.del key) (.integer n) rl ru
      -- `erase` returns whether the key existed, and commits only then
      by_cases hn : n = 0
      · subst hn
        simpa [recordProtocol, commit?] using hc
      · rw [if_pos (Nat.pos_of_ne_zero hn)]
        simpa [recordProtocol, commit?, hkey, hn] using hc
    | _ => exact unlock_ret_records fun ru => committed_locked (.del key) _ rl ru

theorem read_records :
    (read key).Obeys recordProtocol (fun v t => ∃ rep, t = [(.get key, rep)] ∧
      v = match rep with | .bulk (some v) => v | _ => []) [] := by
  refine ⟨trivial, fun redis _ => ⟨trivial, fun r _ => ?_⟩⟩
  cases r with
  | bulk v => cases v <;> exact ⟨_, rfl, rfl⟩
  | _ => exact ⟨_, rfl, rfl⟩

end Records

/-- The operations of the clients considered here. -/
def Operation.linear : Operation → Bool
  | .write _ _ | .erase _ | .update _ _ | .read _ => true
  | _ => false

/-- **Each operation returns what its record says.** -/
theorem Operation.records {op : Operation} (hop : op.linear = true)
    (hkey : ¬ lockPrefix <+: op.key) :
    op.procedure.Obeys recordProtocol (fun r t => op.Outcome t r) [] := by
  cases op with
  | write k v => exact obeys_bind.mpr (setUnderLock_records.mono fun b t h => ⟨b, rfl, h⟩)
  | update k v => exact obeys_bind.mpr (setUnderLock_records.mono fun b t h => ⟨b, rfl, h⟩)
  | erase k => exact obeys_bind.mpr ((erase_records hkey).mono fun b t h => ⟨b, rfl, h⟩)
  | read k =>
    refine obeys_bind.mpr (read_records.mono fun v t h => ?_)
    obtain ⟨rep, ht, hv⟩ := h
    exact ⟨rep, ht, congrArg _ hv⟩
  | _ => exact absurd hop Bool.false_ne_true

/-! ## Clients whose failing commands have no effect -/

def Label.linear : Label → Bool
  | .call _ op => op.linear && !decide (lockPrefix <+: op.key)
  | .command _ _ _ .error took => !took
  | _ => true

/-- Any number of clients that write, update, erase and read keys which do not
begin with the lock prefix; a command that throws has no effect. -/
def linearClients : TransitionSystem State Label := storage.restrict fun _ a => a.linear = true

@[simp] theorem linearClients_next : linearClients.next = next := rfl

theorem Label.linear_unlocksOwn {tr : List Label} {s : State} {a : Label}
    (h : a.linear = true) : UnlocksOwn tr s a := by
  cases a with
  | call i op =>
    have hop : op.linear = true ∧ ¬ lockPrefix <+: op.key := by simpa [Label.linear] using h
    refine ⟨hop.2, fun k heq => ?_⟩
    rw [heq] at hop
    exact absurd hop.1 Bool.false_ne_true
  | _ => trivial

/-- The commit a label makes, with its client. -/
def Label.commit? : Label → Option (ℕ × Bytes × Option Bytes)
  | .command i _ c r _ => (RedisStorage.commit? c r).map (i, ·)
  | _ => none

/-- The commits of a run, in the order of their `SET` and `DEL` commands. -/
def commits (tr : List Label) : List (ℕ × Bytes × Option Bytes) := tr.filterMap Label.commit?

/-- The commits of one client. -/
def ofClient (i : ℕ) (cs : List (ℕ × Bytes × Option Bytes)) : List (Bytes × Option Bytes) :=
  (cs.filter (·.1 = i)).map (·.2)

/-- A store after the commits `cs`. -/
def applyAll (st : Store) (cs : List (ℕ × Bytes × Option Bytes)) : Store :=
  cs.foldl (fun st c => Function.update st c.2.1 c.2.2) st

def Label.returned? (i : ℕ) : Label → Option (Bytes × Option Bytes)
  | .ret j op (.bool true) => if j = i then op.effect? else none
  | _ => none

/-- What the operations of client `i` that returned true did, in order. -/
def returned (i : ℕ) (tr : List Label) : List (Bytes × Option Bytes) :=
  tr.filterMap (Label.returned? i)

/-- What the operation client `i` has in progress has committed. -/
def State.pending (s : State) (i : ℕ) : List (Bytes × Option Bytes) :=
  ((s.clients i).map fun call => committed call.exchanges).getD []

@[simp] theorem commits_snoc (tr : List Label) (a : Label) :
    commits (tr ++ [a]) = commits tr ++ a.commit?.toList := by
  cases h : a.commit? <;> simp [commits, h]

@[simp] theorem returned_snoc (i : ℕ) (tr : List Label) (a : Label) :
    returned i (tr ++ [a]) = returned i tr ++ (a.returned? i).toList := by
  cases h : a.returned? i <;> simp [returned, h]

@[simp] theorem ofClient_append (i : ℕ) (cs cs' : List (ℕ × Bytes × Option Bytes)) :
    ofClient i (cs ++ cs') = ofClient i cs ++ ofClient i cs' := by
  simp [ofClient]

@[simp] theorem applyAll_append (st : Store) (cs cs' : List (ℕ × Bytes × Option Bytes)) :
    applyAll st (cs ++ cs') = applyAll (applyAll st cs) cs' := by
  simp [applyAll]

/-- Client `i` has, since its current call began, issued `c` in state `u` and
received the reply `r`. -/
def Sent (store : Store) (tr : List Label) (i : ℕ) (c : Command) (r : Reply) (u : State) : Prop :=
  ∃ pre redis took post, tr = pre ++ .command i redis c r took :: post ∧
    (∀ op, .call i op ∉ post) ∧ linearClients.Run (initial store) pre u

/-- The value an operation returns, explained by the state at its data command. -/
def Operation.Explained (store : Store) (tr : List Label) (i : ℕ) : Operation → Result → Prop
  | .write k v, r => ∃ b, r = .bool b ∧ (b = true ↔ ∃ u, Sent store tr i (.set k v) .status u)
  | .update k v, r => ∃ b, r = .bool b ∧ (b = true ↔ ∃ u, Sent store tr i (.set k v) .status u)
  | .erase k, r => ∃ b, r = .bool b ∧
    (b = true ↔ ∃ rep u, Sent store tr i (.del k) rep u ∧ rep ≠ .error ∧ (u.store k).isSome)
  | .read k, r => ∃ rep u, Sent store tr i (.get k) rep u ∧
    r = .text (if rep = .error then [] else (u.store k).getD [])
  | _, _ => True

/-- Linearizability and atomic failure. -/
structure Linearized (store : Store) (tr : List Label) (s : State) : Prop where
  /-- the data are the commits, applied in order -/
  data : ∀ k, ¬ lockPrefix <+: k → s.store k = applyAll store (commits tr) k
  /-- a client's commits are its operations that returned true, each once, and what
  the operation in progress has committed -/
  committed : ∀ i, ofClient i (commits tr) = returned i tr ++ s.pending i
  /-- an operation in progress commits at most once, and then will return true -/
  pending : ∀ i call, s.clients i = some call → s.pending i ≠ [] →
    s.pending i = call.operation.effect?.toList ∧ call.rest.Always (· = .bool true)
  /-- an operation that returns false has committed nothing -/
  failed : ∀ i op, s.result? i = some (op, .bool false) → s.pending i = []
  explained : ∀ i op r, s.result? i = some (op, r) → op.Explained store tr i r

/-! ## A step keeps the storage linearized -/

theorem Operation.Outcome.committed_eq {op : Operation} {t : List (Command × Reply)} {r : Result}
    (h : op.Outcome t r) :
    RedisStorage.committed t = if r = .bool true then op.effect?.toList else [] := by
  cases op with
  | read k =>
    obtain ⟨rep, rfl, rfl⟩ := h
    cases rep <;> rfl
  | _ =>
    obtain ⟨b, rfl, hc⟩ := h
    cases b <;> simpa using hc

/-- A successful command changes a data key exactly by its commit. -/
theorem effect_eq_applyAll {c : Command} {k : Bytes} (hk : ¬ lockPrefix <+: k)
    (hsetnx : ∀ k' v, c = .setnx k' v → lockPrefix <+: k') (i : ℕ) (st : Store) :
    c.effect st k = applyAll st ((commit? c (c.reply st)).map (i, ·)).toList k := by
  cases c with
  | setnx k' v =>
    have hne : k ≠ (Command.setnx k' v).key := fun heq => hk (heq ▸ hsetnx k' v rfl)
    rw [Command.effect_of_ne hne]
    rfl
  | set k' v => rfl
  | del k' =>
    by_cases hp : lockPrefix <+: k'
    · have hne : k ≠ (Command.del k').key := fun heq => hk (heq ▸ hp)
      rw [Command.effect_of_ne hne]
      simp [commit?, Command.reply, hp, applyAll]
    -- deleting a key that does not exist is no commit
    · by_cases hsome : (st k').isSome
      · simp [commit?, Command.reply, Command.effect, hp, hsome, applyAll]
      · have hnone : st k' = none := by simpa using hsome
        by_cases hkk : k = k'
        · subst hkk
          simp [commit?, Command.reply, Command.effect, hp, hnone, applyAll]
        · simp [commit?, Command.reply, Command.effect, hp, hnone, applyAll, hkk]
  | get k' => rfl
  | keyExists k' => rfl

/-- What is known of a command of a client whose failing commands have no effect. -/
theorem linear_command {s : State} {i redis : ℕ} {c : Command} {r : Reply} {took : Bool}
    (h : Enabled (.command i redis c r took) s)
    (hlin : (Label.command i redis c r took).linear = true) :
    (r = .error ∧ took = false) ∨ (r ≠ .error ∧ r = c.reply s.store ∧ took = true) := by
  rcases h.2 with rfl | ⟨hr, htook⟩
  · exact Or.inl ⟨rfl, by simpa [Label.linear] using hlin⟩
  · refine Or.inr ⟨?_, hr, htook⟩
    rw [hr]
    cases c <;> simp [Command.reply]

theorem commit?_error (c : Command) : commit? c .error = none := by
  cases c <;> rfl

theorem sent_snoc {store : Store} {tr : List Label} {a : Label} {i : ℕ} {c : Command} {r : Reply}
    {u : State} : Sent store (tr ++ [a]) i c r u ↔
      (Sent store tr i c r u ∧ ∀ op, a ≠ .call i op) ∨
      ∃ redis took, a = .command i redis c r took ∧ linearClients.Run (initial store) tr u := by
  constructor
  -- the command is the last label, or was sent before it
  · rintro ⟨pre, redis, took, post, htr, hpost, hu⟩
    rcases List.eq_nil_or_concat post with rfl | ⟨post, b, rfl⟩
    · obtain ⟨rfl, hab⟩ := List.append_inj' htr rfl
      cases hab
      exact Or.inr ⟨redis, took, rfl, hu⟩
    · rw [List.concat_eq_append, ← List.cons_append, ← List.append_assoc] at htr
      obtain ⟨rfl, hab⟩ := List.append_inj' htr rfl
      cases hab
      refine Or.inl ⟨⟨pre, redis, took, post, rfl, fun op hop => hpost op ?_, hu⟩, ?_⟩
      · rw [List.concat_eq_append]
        exact List.mem_append_left _ hop
      · rintro op rfl
        exact hpost op (by simp)
  · rintro (⟨⟨pre, redis, took, post, rfl, hpost, hu⟩, ha⟩ | ⟨redis, took, rfl, hu⟩)
    · refine ⟨pre, redis, took, post ++ [a], by simp, fun op hop => ?_, hu⟩
      rcases List.mem_append.mp hop with hop | hop
      · exact hpost op hop
      · exact ha op (List.mem_singleton.mp hop).symm
    · exact ⟨tr, redis, took, [], rfl, by simp, hu⟩

/-- What the linearization argument keeps of every reachable state. -/
structure Recorded (store : Store) (tr : List Label) (s : State) : Prop where
  disciplined : Disciplined tr s
  linear : ∀ i call, s.clients i = some call → call.operation.linear = true
  records : ∀ i call, s.clients i = some call →
    call.rest.Obeys recordProtocol (fun r t => call.operation.Outcome t r) call.exchanges
  sent : ∀ i call, s.clients i = some call → ∀ c r,
    (c, r) ∈ call.exchanges ↔ ∃ u, Sent store tr i c r u
  data : ∀ k, ¬ lockPrefix <+: k → s.store k = applyAll store (commits tr) k
  committed : ∀ i, ofClient i (commits tr) = returned i tr ++ s.pending i

section Step

variable {store : Store} {tr : List Label} {s : State} {a : Label}

theorem Recorded.data_next (hs : Recorded store tr s) (h : Enabled a s) (hlin : a.linear = true)
    {k : Bytes} (hk : ¬ lockPrefix <+: k) :
    (next a s).store k = applyAll store (commits (tr ++ [a])) k := by
  rw [commits_snoc, applyAll_append]
  cases a with
  | command i g c r took =>
    obtain ⟨call, -, -, hallowed, -⟩ := hs.disciplined.command h
    rcases linear_command h hlin with ⟨rfl, rfl⟩ | ⟨-, rfl, rfl⟩
    · simpa [next, Label.commit?, commit?_error, applyAll] using hs.data k hk
    · have hsetnx : ∀ k' v, c = .setnx k' v → lockPrefix <+: k' := by
        rintro k' v rfl
        have hlock : k' = lockKey call.operation.key := hallowed
        exact hlock ▸ lockPrefix_lockKey _
      have heffect := effect_eq_applyAll hk hsetnx i s.store
      show c.effect s.store k = _
      rw [heffect]
      -- the two stores agree on the data keys, and a commit is about one of them
      show _ = applyAll (applyAll store (commits tr)) ((commit? c _).map (i, ·)).toList k
      cases commit? c (c.reply s.store) with
      | none => exact hs.data k hk
      | some e =>
        simp only [applyAll, Option.map_some, Option.toList_some, List.foldl_cons, List.foldl_nil,
          Function.update_apply]
        split
        · rfl
        · exact hs.data k hk
  | _ => exact hs.data k hk

/-- The pending commits of a client after a step. -/
theorem pending_of_some {i : ℕ} {call : Call} (h : s.clients i = some call) :
    s.pending i = RedisStorage.committed call.exchanges := by
  rw [State.pending, h]
  rfl

theorem pending_of_none {i : ℕ} (h : s.clients i = none) : s.pending i = [] := by
  rw [State.pending, h]
  rfl

/-- A label of another client commits and returns nothing for client `i`. -/
theorem ofClient_of_ne {i : ℕ} (ha : a.client? ≠ some i) :
    ofClient i a.commit?.toList = [] ∧ a.returned? i = none := by
  cases a with
  | command j g c r took =>
    have hne : j ≠ i := fun hj => ha (congrArg some hj)
    refine ⟨?_, rfl⟩
    cases hc : commit? c r <;> simp [Label.commit?, hc, ofClient, hne]
  | ret j op r =>
    have hne : j ≠ i := fun hj => ha (congrArg some hj)
    refine ⟨rfl, ?_⟩
    unfold Label.returned?
    split
    · rename_i heq
      injection heq with hj
      exact if_neg (hj ▸ hne)
    · rfl
  | _ => exact ⟨rfl, rfl⟩

theorem Recorded.committed_next (hs : Recorded store tr s) (h : Enabled a s) (i : ℕ) :
    ofClient i (commits (tr ++ [a])) = returned i (tr ++ [a]) ++ (next a s).pending i := by
  rw [commits_snoc, returned_snoc, ofClient_append, hs.committed i]
  cases hcall : (next a s).clients i with
  | none =>
    rw [pending_of_none hcall]
    rcases idle_next h hcall with ⟨ha, hidle⟩ | ⟨call, r, rfl, hcall', hres⟩
    · obtain ⟨hc, hr⟩ := ofClient_of_ne ha
      rw [pending_of_none hidle, hc, hr]
      rfl
    · -- the call returns: what it has committed is what its value says
      have hout := ((hs.records i call hcall').result hres).committed_eq
      rw [pending_of_some hcall', hout]
      show _ ++ _ ++ [] = _
      unfold Label.returned?
      split <;> simp_all
  | some call =>
    rw [pending_of_some hcall]
    rcases call_next h hcall with ⟨ha, hcall'⟩ | ⟨op, rfl, hidle, rfl⟩ |
      ⟨call', rec, g, rfl, hcall', -, rfl⟩ | ⟨call', g, c, r, took, rfl, hcall', -, rfl⟩
    · obtain ⟨hc, hr⟩ := ofClient_of_ne ha
      rw [pending_of_some hcall', hc, hr]
      simp
    · rw [pending_of_none hidle]
      rfl
    · rw [pending_of_some hcall']
      simp [Label.commit?, Label.returned?, ofClient]
    · have hcommit : ofClient i (Label.command i g c r took).commit?.toList =
          RedisStorage.committed [(c, r)] := by
        rw [committed_singleton]
        cases hc : commit? c r <;> simp [Label.commit?, hc, ofClient]
      rw [pending_of_some hcall', hcommit, committed_append]
      simp [Label.returned?]

theorem Recorded.records_next (hs : Recorded store tr s) (h : Enabled a s) (hlin : a.linear = true)
    {i : ℕ} {call : Call} (hcall : (next a s).clients i = some call) :
    call.rest.Obeys recordProtocol (fun r t => call.operation.Outcome t r) call.exchanges := by
  rcases call_next h hcall with ⟨-, hcall'⟩ | ⟨op, rfl, -, rfl⟩ |
    ⟨call', rec, g, rfl, hcall', hhead, rfl⟩ | ⟨call', g, c, r, took, rfl, hcall', hhead, rfl⟩
  · exact hs.records i call hcall'
  · have hop : op.linear = true ∧ ¬ lockPrefix <+: op.key := by simpa [Label.linear] using hlin
    exact Operation.records hop.1 hop.2
  · exact (hs.records i call' hcall').step hhead trivial
  · exact (hs.records i call' hcall').step hhead (f := answer s.redis r) trivial

theorem Recorded.linear_next (hs : Recorded store tr s) (h : Enabled a s) (hlin : a.linear = true)
    {i : ℕ} {call : Call} (hcall : (next a s).clients i = some call) :
    call.operation.linear = true := by
  rcases operation_next h hcall with ⟨call', hcall', hop⟩ | rfl
  · rw [← hop]
    exact hs.linear i call' hcall'
  · have hop : call.operation.linear = true ∧ ¬ lockPrefix <+: call.operation.key := by
      simpa [Label.linear] using hlin
    exact hop.1

theorem Recorded.sent_next (hr : linearClients.Run (initial store) tr s)
    (hs : Recorded store tr s) (h : Enabled a s) {i : ℕ} {call : Call}
    (hcall : (next a s).clients i = some call) (c : Command) (r : Reply) :
    (c, r) ∈ call.exchanges ↔ ∃ u, Sent store (tr ++ [a]) i c r u := by
  simp only [sent_snoc]
  rcases call_next h hcall with ⟨ha, hcall'⟩ | ⟨op, rfl, -, rfl⟩ |
    ⟨call', rec, g, rfl, hcall', -, rfl⟩ | ⟨call', g, c', r', took, rfl, hcall', -, rfl⟩
  · have hcall_ne : ∀ op, a ≠ .call i op := by
      rintro op rfl
      exact ha rfl
    have hcommand_ne : ∀ redis took, a ≠ .command i redis c r took := by
      rintro redis took rfl
      exact ha rfl
    simp [hs.sent i call hcall', hcall_ne, hcommand_ne]
  · simp
  · simp [hs.sent i call' hcall']
  · have hold := hs.sent i call' hcall' c r
    simp only [List.mem_append, List.mem_singleton, Prod.mk.injEq, hold]
    constructor
    · rintro (⟨u, hu⟩ | ⟨rfl, rfl⟩)
      · exact ⟨u, Or.inl ⟨hu, fun _ => nofun⟩⟩
      · exact ⟨s, Or.inr ⟨g, took, rfl, hr⟩⟩
    · rintro ⟨u, ⟨hu, -⟩ | ⟨redis, took', heq, -⟩⟩
      · exact Or.inl ⟨u, hu⟩
      · cases heq
        exact Or.inr ⟨rfl, rfl⟩

/-- The step lemma. -/
theorem Recorded.next (hr : linearClients.Run (initial store) tr s) (hs : Recorded store tr s)
    (h : Enabled a s) (hlin : a.linear = true) : Recorded store (tr ++ [a]) (next a s) where
  disciplined := hs.disciplined.next h (Label.linear_unlocksOwn hlin)
  linear _ _ hcall := hs.linear_next h hlin hcall
  records _ _ hcall := hs.records_next h hlin hcall
  sent _ _ hcall := hs.sent_next hr h hcall
  data _ hk := hs.data_next h hlin hk
  committed := hs.committed_next h

end Step

section Runs

variable {store : Store} {tr : List Label} {s : State}

/-- The run lemma. -/
theorem recorded (h : linearClients.Run (initial store) tr s) : Recorded store tr s := by
  refine h.induct (P := Recorded store) ?_ ?_
  · refine ⟨?_, ?_, ?_, ?_, ?_, ?_⟩
    · constructor <;> simp [initial, locks, acquired]
    all_goals simp [initial, commits, applyAll, ofClient, returned, State.pending]
  · rintro tr s a hr hs ⟨ha, hlin⟩
    exact hs.next hr ha hlin

/-- The reply to a command is an error, or what the server held at that moment. -/
theorem Sent.reply {i : ℕ} {c : Command} {r : Reply} {u : State}
    (h : linearClients.Run (initial store) tr s) (hsent : Sent store tr i c r u) :
    r = .error ∨ r = c.reply u.store := by
  obtain ⟨pre, redis, took, post, rfl, -, hu⟩ := hsent
  obtain ⟨u', hu', ha, -⟩ := h.split_cons
  obtain rfl := hu.unique hu'
  exact ha.1.2.imp_right And.left

/-- **What an operation in progress has committed** is its whole effect, and it
will return true. -/
theorem pending_eq (h : linearClients.Run (initial store) tr s) {i : ℕ} {call : Call}
    (hcall : s.clients i = some call) (hpending : s.pending i ≠ []) :
    s.pending i = call.operation.effect?.toList ∧ call.rest.Always (· = .bool true) := by
  rw [pending_of_some hcall] at hpending ⊢
  -- whatever the replies, the record only grows, and at the end it says `true`
  have hend : call.rest.Always fun r => r = .bool true ∧
      committed call.exchanges <+: call.operation.effect?.toList := by
    refine ((recorded h).records i call hcall).always (fun _ _ _ => trivial)
      (I := fun t => committed call.exchanges <+: committed t) ?_ ?_ List.prefix_rfl
    · intro t a r ht
      cases a with
      | getClient => exact ht
      | command g c =>
        have hmore : ∀ rep : Reply, committed t <+: committed (t ++ [(c, rep)]) := by
          intro rep
          rw [committed_append]
          exact List.prefix_append _ _
        exact ht.trans (hmore r)
    · intro r t ht hout
      have hc := hout.committed_eq
      by_cases hr : r = .bool true
      · rw [if_pos hr] at hc
        exact ⟨hr, hc ▸ ht⟩
      · rw [if_neg hr] at hc
        rw [hc] at ht
        exact absurd (List.prefix_nil.mp ht) hpending
  refine ⟨?_, hend.mono fun r hr => hr.1⟩
  obtain ⟨-, -, hprefix⟩ := hend.exists (answer 0 .error)
  cases he : call.operation.effect? with
  | none =>
    rw [he] at hprefix
    exact absurd (List.prefix_nil.mp hprefix) hpending
  | some e =>
    rw [he] at hprefix
    cases hc : committed call.exchanges with
    | nil => exact absurd hc hpending
    | cons x l =>
      rw [hc] at hprefix
      obtain ⟨rfl, hl⟩ := List.cons_prefix_cons.mp hprefix
      rw [List.prefix_nil.mp hl]
      rfl

theorem mem_committed {t : List (Command × Reply)} {e : Bytes × Option Bytes} :
    e ∈ committed t ↔ ∃ c r, (c, r) ∈ t ∧ commit? c r = some e := by
  simp [committed]

theorem commit?_eq_some {c : Command} {r : Reply} {k v : Bytes} :
    commit? c r = some (k, some v) ↔ c = .set k v ∧ r = .status := by
  unfold commit?
  split
  · simp
  · split <;> simp
  · rename_i hset hdel
    constructor
    · exact nofun
    · rintro ⟨rfl, rfl⟩
      exact absurd rfl (hset k v rfl)

theorem commit?_eq_none {c : Command} {r : Reply} {k : Bytes} (hk : ¬ lockPrefix <+: k) :
    commit? c r = some (k, none) ↔ c = .del k ∧ ∃ n, n ≠ 0 ∧ r = .integer n := by
  unfold commit?
  split
  · simp
  · rename_i k' n
    constructor
    · intro h
      split at h
      · exact absurd h (by simp)
      · rename_i hn
        obtain ⟨rfl, -⟩ := Prod.mk.inj (Option.some.inj h)
        exact ⟨rfl, n, fun hz => hn (Or.inr hz), rfl⟩
    · rintro ⟨heq, m, hm, hr⟩
      cases heq
      cases hr
      rw [if_neg (by simp [hk, hm])]
  · rename_i hset hdel
    constructor
    · exact nofun
    · rintro ⟨rfl, n, -, rfl⟩
      exact absurd rfl (hdel k n rfl)

/-- A Boolean that says whether `e` was committed. -/
theorem eq_true_iff_mem_committed {b : Bool} {e : Bytes × Option Bytes}
    {t : List (Command × Reply)} (h : committed t = if b = true then [e] else []) :
    b = true ↔ e ∈ committed t := by
  rw [h]
  cases b <;> simp

/-- The value an operation returns is explained by its data command. -/
theorem explained (h : linearClients.Run (initial store) tr s) {i : ℕ} {op : Operation}
    {r : Result} (hres : s.result? i = some (op, r)) : op.Explained store tr i r := by
  obtain ⟨call, hcall, rfl, hend⟩ := State.exists_call_of_result? hres
  have hs := recorded h
  have hout := (hs.records i call hcall).result hend
  have hsent := hs.sent i call hcall
  have hkey := hs.disciplined.dataKey i call hcall
  -- `write` and `update` alike
  have hset : ∀ (b : Bool) (k v : Bytes),
      committed call.exchanges = (if b = true then [(k, some v)] else []) →
        (b = true ↔ ∃ u, Sent store tr i (.set k v) .status u) := by
    intro b k v hc
    rw [eq_true_iff_mem_committed hc, mem_committed, ← hsent]
    constructor
    · rintro ⟨c, r, hmem, hcommit⟩
      obtain ⟨rfl, rfl⟩ := commit?_eq_some.mp hcommit
      exact hmem
    · exact fun hmem => ⟨_, _, hmem, rfl⟩
  cases hop : call.operation with
  | write k v =>
    rw [hop] at hout
    obtain ⟨b, hb, hc⟩ := hout
    exact ⟨b, hb, hset b k v hc⟩
  | update k v =>
    rw [hop] at hout
    obtain ⟨b, hb, hc⟩ := hout
    exact ⟨b, hb, hset b k v hc⟩
  | erase k =>
    rw [hop] at hout hkey
    simp only [Operation.key] at hkey
    obtain ⟨b, hb, hc⟩ := hout
    refine ⟨b, hb, ?_⟩
    rw [eq_true_iff_mem_committed hc, mem_committed]
    constructor
    · rintro ⟨c, r, hmem, hcommit⟩
      obtain ⟨rfl, n, hn, rfl⟩ := (commit?_eq_none hkey).mp hcommit
      obtain ⟨u, hu⟩ := (hsent _ _).mp hmem
      refine ⟨_, u, hu, by simp, ?_⟩
      rcases hu.reply h with herr | hr
      · exact absurd herr (by simp)
      · by_contra hsome
        rw [Command.reply, if_neg hsome] at hr
        injection hr with hr
        exact hn hr
    · rintro ⟨rep, u, hu, herr, hsome⟩
      have hr := (hu.reply h).resolve_left herr
      rw [Command.reply, if_pos hsome] at hr
      subst hr
      exact ⟨_, _, (hsent _ _).mpr ⟨u, hu⟩, (commit?_eq_none hkey).mpr ⟨rfl, 1, by decide, rfl⟩⟩
  | read k =>
    rw [hop] at hout
    obtain ⟨rep, ht, hv⟩ := hout
    obtain ⟨u, hu⟩ := (hsent (.get k) rep).mp (by rw [ht]; exact List.mem_singleton_self _)
    refine ⟨rep, u, hu, ?_⟩
    rcases hu.reply h with rfl | rfl
    · exact hv
    · rw [hv, if_neg (by simp [Command.reply])]
      cases hk : u.store k <;> simp [Command.reply, hk]
  | _ => trivial

/-- **Storage operations linearize and fail atomically.** -/
theorem linearized (h : linearClients.Run (initial store) tr s) : Linearized store tr s where
  data _ hk := (recorded h).data _ hk
  committed i := (recorded h).committed i
  pending _ _ hcall hpending := pending_eq h hcall hpending
  failed i op hres := by
    obtain ⟨call, hcall, rfl, hend⟩ := State.exists_call_of_result? hres
    rw [pending_of_some hcall, (((recorded h).records i call hcall).result hend).committed_eq]
    rfl
  explained _ _ _ hres := explained h hres

end Runs

instance : ∀ (a : Label) (s : State), Decidable (linearClients.Enabled a s) :=
  fun a s => inferInstanceAs (Decidable (storage.Enabled a s ∧ a.linear = true))

/-- A `write`, and an `erase` by another client whose `unlock` fails. -/
def eraseRun : List Label :=
  writeRun 0 [1] [2] ++ lockRun 1 (.erase [1]) 1 ++
    [.getClient 1 false, .command 1 0 (.del [1]) (.integer 1) true, .getClient 1 false,
      .command 1 0 (.del (lockKey [1])) .error false]

theorem linearized_eraseRun :
    (linearClients.after eraseRun (initial fun _ => none)).store [1] = none ∧
      ofClient 1 (commits eraseRun) = [([1], none)] := by
  have hlegal : linearClients.Legal eraseRun (initial fun _ => none) := by decide
  have hlin := linearized (TransitionSystem.run_of_legal hlegal)
  refine ⟨?_, ?_⟩
  · rw [hlin.data [1] (by decide)]
    decide
  · rw [hlin.committed 1]
    decide

end RedisStorage
