/-
# The SETNX lock

Who holds which lock is read off the history: a client holds a lock from the
`SETNX` that created its key to the `DEL` it issues for it, whatever becomes of
that `DEL`.  `lockProtocol` is what an operation does with the lock of its key,
and each operation is shown to keep to it (`Operation.obeys`).  The rest is
about clients that keep to the protocol: a lock has one holder, and its key
exists (`Disciplined`).
-/
import RedisStateManager.RedisStorage

namespace RedisStorage

open Redis Program

/-! ## Who holds a lock -/

/-- The lock keys a client holds after one more command. -/
def lockStep (t : List Bytes) : Command → Reply → List Bytes
  | .setnx k _, .integer n => if n = 0 then t else k :: t
  | .del k, _ => if lockPrefix <+: k then t.filter (· ≠ k) else t
  | _, _ => t

def Label.lockStep (i : ℕ) (t : List Bytes) : Label → List Bytes
  | .command j _ c r _ => if j = i then RedisStorage.lockStep t c r else t
  | _ => t

/-- The lock keys client `i` holds. -/
def locks (i : ℕ) (tr : List Label) : List Bytes := tr.foldl (fun t a => a.lockStep i t) []

/-- Client `i` is between a `tryLock(key)` that returned true and the `DEL` of
the matching `unlock(key)`. -/
def Holds (tr : List Label) (i : ℕ) (key : Bytes) : Prop := lockKey key ∈ locks i tr

def Label.acquiredStep (i : ℕ) (t : List Bytes) : Label → List Bytes
  | .ret j (.tryLock k) (.bool true) => if j = i then lockKey k :: t else t
  | .call j (.unlock k) => if j = i then t.filter (· ≠ lockKey k) else t
  | _ => t

/-- The locks that calls of `tryLock` gave to client `i`, and that it has not
called `unlock` for. -/
def acquired (i : ℕ) (tr : List Label) : List Bytes :=
  tr.foldl (fun t a => a.acquiredStep i t) []

@[simp] theorem locks_snoc (i : ℕ) (tr : List Label) (a : Label) :
    locks i (tr ++ [a]) = a.lockStep i (locks i tr) := by
  simp [locks]

@[simp] theorem acquired_snoc (i : ℕ) (tr : List Label) (a : Label) :
    acquired i (tr ++ [a]) = a.acquiredStep i (acquired i tr) := by
  simp [acquired]

theorem Label.lockStep_of_ne {i : ℕ} {a : Label} (h : a.client? ≠ some i) (t : List Bytes) :
    a.lockStep i t = t := by
  cases a with
  | command j g c r took =>
    have hne : j ≠ i := fun hj => h (congrArg some hj)
    exact if_neg hne
  | _ => rfl

theorem Label.acquiredStep_of_ne {i : ℕ} {a : Label} (h : a.client? ≠ some i) (t : List Bytes) :
    a.acquiredStep i t = t := by
  unfold acquiredStep
  split
  · exact if_neg fun hj => h (congrArg some hj)
  · exact if_neg fun hj => h (congrArg some hj)
  · rfl

/-- What a client holds after a command it held before, or has just acquired. -/
theorem mem_lockStep {t : List Bytes} {c : Command} {r : Reply} {k : Bytes}
    (h : k ∈ lockStep t c r) :
    (k ∈ t ∧ (lockPrefix <+: k → c ≠ .del k)) ∨ ∃ v n, c = .setnx k v ∧ r = .integer n ∧ n ≠ 0 := by
  cases c with
  | setnx k' v =>
    cases r with
    | integer n =>
      by_cases hn : n = 0
      · simp only [lockStep, if_pos hn] at h
        exact Or.inl ⟨h, fun _ => nofun⟩
      · simp only [lockStep, if_neg hn] at h
        rcases List.mem_cons.mp h with rfl | hk
        · exact Or.inr ⟨v, n, rfl, rfl, hn⟩
        · exact Or.inl ⟨hk, fun _ => nofun⟩
    | _ => exact Or.inl ⟨h, fun _ => nofun⟩
  | del k' =>
    by_cases hp : lockPrefix <+: k'
    · simp only [lockStep, if_pos hp, List.mem_filter, decide_eq_true_eq] at h
      refine Or.inl ⟨h.1, fun _ heq => h.2 ?_⟩
      injection heq with heq
      exact heq.symm
    · simp only [lockStep, if_neg hp] at h
      refine Or.inl ⟨h, fun hk heq => hp ?_⟩
      injection heq with heq
      rwa [heq]
  | _ => exact Or.inl ⟨h, fun _ => nofun⟩

/-! ## What an operation does with locks -/

/-- An operation on `key` takes no lock but the one of `key`, deletes its key
only while it holds it, and reads and writes nothing but `key`; a lock it holds
is not given to it again. -/
def lockProtocol (key : Bytes) : Protocol Action Answer (List Bytes) where
  Allowed t
    | .getClient => True
    | .command _ (.setnx k _) => k = lockKey key
    | .command _ (.set k _) => k = key
    | .command _ (.get k) => k = key
    | .command _ (.del k) => k = key ∨ k = lockKey key ∧ k ∈ t
    | .command _ (.keyExists k) => k = lockKey key
  Possible t
    | .command _ (.setnx k _), (r : Reply) => k ∈ t → r = .error ∨ r = .integer 0
    | _, _ => True
  after t
    | .getClient, _ => t
    | .command _ c, (r : Reply) => lockStep t c r

section Operations

variable {key value : Bytes} {t : List Bytes}

theorem lockPrefix_lockKey (key : Bytes) : lockPrefix <+: lockKey key :=
  List.prefix_append _ _

theorem tryLock_obeys {post : Bool → List Bytes → Prop} (hfail : post false t)
    (hok : lockKey key ∉ t → post true (lockKey key :: t)) :
    (tryLock key).Obeys (lockProtocol key) post t := by
  refine ⟨trivial, fun redis _ => ⟨rfl, fun r hr => ?_⟩⟩
  cases r with
  | integer n =>
    by_cases hn : n = 0
    · subst hn
      exact hfail
    -- a `SETNX` that created the key was not issued by its holder
    · have hfree : lockKey key ∉ t := fun hmem => by
        rcases hr hmem with h | h
        · exact absurd h (by simp)
        · injection h with h
          exact hn h
      show post (decide (n ≠ 0)) (if n = 0 then t else lockKey key :: t)
      rw [if_neg hn, decide_eq_true hn]
      exact hok hfree
  | status => exact hfail
  | bulk v => exact hfail
  | error => exact hfail

theorem unlock_obeys {post : Unit → List Bytes → Prop} (hmem : lockKey key ∈ t)
    (h : post () (t.filter (· ≠ lockKey key))) : (unlock key).Obeys (lockProtocol key) post t := by
  refine ⟨trivial, fun redis _ => ⟨Or.inr ⟨rfl, hmem⟩, fun r _ => ?_⟩⟩
  have hpost : post () (lockStep t (.del (lockKey key)) r) := by
    simpa only [lockStep, if_pos (lockPrefix_lockKey key)] using h
  cases r <;> exact hpost

/-- The lock is taken and given back: what is held is what was held before. -/
theorem filter_lockKey (hfree : lockKey key ∉ t) :
    (lockKey key :: t).filter (· ≠ lockKey key) = t := by
  rw [List.filter_cons_of_neg (by simp)]
  exact List.filter_eq_self.mpr fun k hk => by
    simpa using fun heq : k = lockKey key => hfree (heq ▸ hk)

theorem unlock_obeys_cons {post : Unit → List Bytes → Prop} (hfree : lockKey key ∉ t)
    (h : post () t) : (unlock key).Obeys (lockProtocol key) post (lockKey key :: t) :=
  unlock_obeys (by simp) (by rw [filter_lockKey hfree]; exact h)

/-- The last step of an operation: it gives its lock back and returns. -/
theorem unlock_ret_obeys {post : Bool → List Bytes → Prop} (hfree : lockKey key ∉ t) {b : Bool}
    (h : post b t) :
    (unlock key >>= fun _ => ret b).Obeys (lockProtocol key) post (lockKey key :: t) :=
  obeys_bind.mpr (unlock_obeys_cons hfree h)

theorem setUnderLock_obeys {post : Bool → List Bytes → Prop} (h : ∀ b, post b t) :
    (setUnderLock key value).Obeys (lockProtocol key) post t := by
  refine obeys_bind.mpr (tryLock_obeys (h false) fun hfree => ?_)
  refine ⟨trivial, fun redis _ => ⟨rfl, fun r _ => ?_⟩⟩
  cases r with
  | status => exact unlock_ret_obeys hfree (h true)
  | _ => exact unlock_ret_obeys hfree (h false)

theorem erase_obeys {post : Bool → List Bytes → Prop} (hkey : ¬ lockPrefix <+: key)
    (h : ∀ b, post b t) : (erase key).Obeys (lockProtocol key) post t := by
  refine obeys_bind.mpr (tryLock_obeys (h false) fun hfree => ?_)
  refine ⟨trivial, fun redis _ => ⟨Or.inl rfl, fun r _ => ?_⟩⟩
  -- the key itself is not a lock key, so its `DEL` gives no lock back
  have hstep : lockStep (lockKey key :: t) (.del key) r = lockKey key :: t := if_neg hkey
  show Obeys _ _ _ (lockStep (lockKey key :: t) (.del key) r)
  rw [hstep]
  cases r with
  | integer n =>
    show (unlock key >>= fun _ => if n > 0 then ret true else ret false).Obeys _ _ _
    refine obeys_bind.mpr (unlock_obeys_cons hfree ?_)
    split
    · exact h true
    · exact h false
  | _ => exact unlock_ret_obeys hfree (h false)

theorem read_obeys {post : Bytes → List Bytes → Prop} (h : ∀ v, post v t) :
    (read key).Obeys (lockProtocol key) post t := by
  refine ⟨trivial, fun redis _ => ⟨rfl, fun r _ => ?_⟩⟩
  cases r with
  | bulk v => cases v <;> exact h _
  | _ => exact h _

theorem isLocked_obeys {post : Bool → List Bytes → Prop} (h : ∀ b, post b t) :
    (isLocked key).Obeys (lockProtocol key) post t := by
  refine ⟨trivial, fun redis _ => ⟨rfl, fun r _ => ?_⟩⟩
  cases r <;> exact h _

end Operations

/-- Where the call of an operation starts: `unlock` is called by a client that
holds the lock, and leaves it with `held`. -/
def Operation.Starts (t held : List Bytes) : Operation → Prop
  | .unlock k => lockKey k ∈ t ∧ held = t.filter (· ≠ lockKey k)
  | _ => held = t

/-- What a client holds after an operation: one lock more after a `tryLock` that
returned true. -/
def Operation.leaves (held : List Bytes) : Operation → Result → List Bytes
  | .tryLock k, .bool true => lockKey k :: held
  | _, _ => held

/-- **Every operation keeps to the protocol of its key.** -/
theorem Operation.obeys {op : Operation} (hkey : ¬ lockPrefix <+: op.key) {t held : List Bytes}
    (hstart : op.Starts t held) :
    op.procedure.Obeys (lockProtocol op.key) (fun r t' => t' = op.leaves held r) t := by
  cases op with
  | write k v =>
    obtain rfl : held = t := hstart
    exact obeys_bind.mpr (setUnderLock_obeys fun b => rfl)
  | update k v =>
    obtain rfl : held = t := hstart
    exact obeys_bind.mpr (setUnderLock_obeys fun b => rfl)
  | erase k =>
    obtain rfl : held = t := hstart
    exact obeys_bind.mpr (erase_obeys hkey fun b => rfl)
  | read k =>
    obtain rfl : held = t := hstart
    exact obeys_bind.mpr (read_obeys fun v => rfl)
  | tryLock k =>
    obtain rfl : held = t := hstart
    exact obeys_bind.mpr (tryLock_obeys rfl fun _ => rfl)
  | unlock k => exact obeys_bind.mpr (unlock_obeys hstart.1 hstart.2.symm)
  | isLocked k =>
    obtain rfl : held = t := hstart
    exact obeys_bind.mpr (isLocked_obeys fun b => rfl)

/-! ## Clients that keep to the protocol -/

/-- The steps of clients that call `unlock(k)` once for each `tryLock(k)` that
returned true, and use no key that begins with the lock prefix. -/
def UnlocksOwn (tr : List Label) (_ : State) : Label → Prop
  | .call i op => ¬ lockPrefix <+: op.key ∧ ∀ k, op = .unlock k → lockKey k ∈ acquired i tr
  | _ => True

/-- Each client keeps to the protocol, and a lock that is held has one holder
and exists at the server. -/
structure Disciplined (tr : List Label) (s : State) : Prop where
  idle : ∀ i, s.clients i = none → locks i tr = acquired i tr
  dataKey : ∀ i call, s.clients i = some call → ¬ lockPrefix <+: call.operation.key
  obeys : ∀ i call, s.clients i = some call → call.rest.Obeys (lockProtocol call.operation.key)
    (fun r t => t = call.operation.leaves (acquired i tr) r) (locks i tr)
  lockKeys : ∀ i, ∀ k ∈ locks i tr, lockPrefix <+: k
  kept : ∀ i, ∀ k ∈ locks i tr, (s.store k).isSome
  unique : ∀ i j k, k ∈ locks i tr → k ∈ locks j tr → i = j

section Step

variable {tr : List Label} {s : State} {a : Label}

/-- What is known when client `i` issues a command: its call allows the command,
and the reply is one the protocol reckons with. -/
theorem Disciplined.command (hs : Disciplined tr s) {i redis : ℕ} {c : Command} {r : Reply}
    {took : Bool} (h : Enabled (.command i redis c r took) s) :
    ∃ call, s.clients i = some call ∧ call.rest.head? = some (.command redis c) ∧
      (lockProtocol call.operation.key).Allowed (locks i tr) (.command redis c) ∧
      (lockProtocol call.operation.key).Possible (locks i tr) (.command redis c) r := by
  obtain ⟨call, hcall, hhead⟩ := State.exists_call_of_head? h.1
  refine ⟨call, hcall, hhead, (hs.obeys i call hcall).allowed hhead, ?_⟩
  cases c with
  | setnx k v =>
    intro hk
    rcases h.2 with herr | ⟨hr, -⟩
    · exact Or.inl herr
    · right
      rw [hr]
      simp only [Command.reply, hs.kept i k hk, if_true]
  | _ => trivial

/-- A client deletes a lock key only while it holds it. -/
theorem Disciplined.mem_of_del (hs : Disciplined tr s) {i redis : ℕ} {k : Bytes} {r : Reply}
    {took : Bool} (h : Enabled (.command i redis (.del k) r took) s) (hk : lockPrefix <+: k) :
    k ∈ locks i tr := by
  obtain ⟨call, hcall, -, hallowed, -⟩ := hs.command h
  rcases hallowed with heq | ⟨-, hmem⟩
  · exact absurd (heq ▸ hk) (hs.dataKey i call hcall)
  · exact hmem

/-- A lock that a command gives to its client was free before, and exists after it. -/
theorem Disciplined.acquire (hs : Disciplined tr s) {i redis n : ℕ} {k v : Bytes} {took : Bool}
    (h : Enabled (.command i redis (.setnx k v) (.integer n) took) s) (hn : n ≠ 0) :
    lockPrefix <+: k ∧ s.store k = none ∧ took = true ∧ ∀ j, k ∉ locks j tr := by
  obtain ⟨call, -, -, hallowed, -⟩ := hs.command h
  have hlock : k = lockKey call.operation.key := hallowed
  rcases h.2 with herr | ⟨hr, htook⟩
  · exact absurd herr (by simp)
  -- the reply says that the key did not exist, and held lock keys exist
  · have hnone : s.store k = none := by
      by_contra hsome
      rw [← ne_eq, ← Option.isSome_iff_ne_none] at hsome
      simp only [Command.reply, hsome, if_true] at hr
      injection hr with hr
      exact hn hr
    refine ⟨hlock ▸ lockPrefix_lockKey _, hnone, htook, fun j hj => ?_⟩
    have hsome := hs.kept j k hj
    rw [hnone] at hsome
    exact absurd hsome (by simp)

/-- A lock that is held after a step was held by the same client before, and the
step does not delete it; or the step is the `SETNX` that acquires it. -/
theorem mem_locks_next {i : ℕ} {k : Bytes} (hk : k ∈ locks i (tr ++ [a])) :
    (k ∈ locks i tr ∧ ∀ g r took, lockPrefix <+: k → a ≠ .command i g (.del k) r took) ∨
      ∃ g v n took, n ≠ 0 ∧ a = .command i g (.setnx k v) (.integer n) took := by
  rw [locks_snoc] at hk
  by_cases ha : a.client? = some i
  · cases a with
    | command j g c r took =>
      obtain rfl : j = i := Option.some.inj ha
      simp only [Label.lockStep, if_true] at hk
      rcases mem_lockStep hk with ⟨hmem, hdel⟩ | ⟨v, n, rfl, rfl, hn⟩
      · refine Or.inl ⟨hmem, fun g' r' took' hp heq => hdel hp ?_⟩
        injection heq
      · exact Or.inr ⟨g, v, n, took, hn, rfl⟩
    | _ => exact Or.inl ⟨hk, fun _ _ _ _ => nofun⟩
  · rw [Label.lockStep_of_ne ha] at hk
    refine Or.inl ⟨hk, fun g r took _ heq => ha ?_⟩
    rw [heq]
    rfl

theorem Disciplined.kept_next (hs : Disciplined tr s) (h : Enabled a s) {i : ℕ} {k : Bytes}
    (hk : k ∈ locks i (tr ++ [a])) : ((next a s).store k).isSome := by
  rcases mem_locks_next hk with ⟨hmem, hdel⟩ | ⟨g, v, n, took, hn, rfl⟩
  · have hsome := hs.kept i k hmem
    rcases store_next (a := a) (s := s) with hst | ⟨j, g, c, r, rfl, hst⟩
    · rwa [hst]
    · rw [hst]
      refine Command.isSome_effect ?_ hsome
      -- only the holder deletes the key
      rintro rfl
      have hp := hs.lockKeys i k hmem
      obtain rfl := hs.unique i j k hmem (hs.mem_of_del h hp)
      exact hdel g r true hp rfl
  · obtain ⟨-, hnone, rfl, -⟩ := hs.acquire h hn
    simp [next, Command.effect, hnone]

theorem Disciplined.lockKeys_next (hs : Disciplined tr s) (h : Enabled a s) {i : ℕ} {k : Bytes}
    (hk : k ∈ locks i (tr ++ [a])) : lockPrefix <+: k := by
  rcases mem_locks_next hk with ⟨hmem, -⟩ | ⟨g, v, n, took, hn, rfl⟩
  · exact hs.lockKeys i k hmem
  · exact (hs.acquire h hn).1

theorem Disciplined.unique_next (hs : Disciplined tr s) (h : Enabled a s) {i j : ℕ} {k : Bytes}
    (hi : k ∈ locks i (tr ++ [a])) (hj : k ∈ locks j (tr ++ [a])) : i = j := by
  rcases mem_locks_next hi with ⟨hi', -⟩ | ⟨g, v, n, took, hn, rfl⟩
  · rcases mem_locks_next hj with ⟨hj', -⟩ | ⟨g, v, n, took, hn, rfl⟩
    · exact hs.unique i j k hi' hj'
    · exact absurd hi' ((hs.acquire h hn).2.2.2 i)
  -- `i` acquires the lock in this step, so nobody held it
  · rcases mem_locks_next hj with ⟨hj', -⟩ | ⟨g', v', n', took', -, heq⟩
    · exact absurd hj' ((hs.acquire h hn).2.2.2 j)
    · injection heq

/-- A client without a call holds what its `tryLock` calls gave it. -/
theorem Disciplined.idle_next (hs : Disciplined tr s) (h : Enabled a s) {i : ℕ}
    (hidle : (next a s).clients i = none) : locks i (tr ++ [a]) = acquired i (tr ++ [a]) := by
  rw [locks_snoc, acquired_snoc]
  rcases RedisStorage.idle_next h hidle with ⟨ha, hidle'⟩ | ⟨call, r, rfl, hcall, hres⟩
  · rw [Label.lockStep_of_ne ha, Label.acquiredStep_of_ne ha, hs.idle i hidle']
  -- the call returns with what the protocol leaves it
  · have hpost := (hs.obeys i call hcall).result hres
    show locks i tr = Label.acquiredStep i (acquired i tr) (.ret i call.operation r)
    rw [hpost]
    unfold Operation.leaves Label.acquiredStep
    split <;> simp_all

/-- A call that goes on, or has just begun, keeps to the protocol. -/
theorem Disciplined.call_next (hs : Disciplined tr s) (h : Enabled a s) (hC : UnlocksOwn tr s a)
    {i : ℕ} {call : Call} (hcall : (next a s).clients i = some call) :
    ¬ lockPrefix <+: call.operation.key ∧
      call.rest.Obeys (lockProtocol call.operation.key)
        (fun r t => t = call.operation.leaves (acquired i (tr ++ [a])) r)
        (locks i (tr ++ [a])) := by
  rw [locks_snoc, acquired_snoc]
  rcases RedisStorage.call_next h hcall with ⟨ha, hcall'⟩ | ⟨op, rfl, hidle, rfl⟩ |
    ⟨call', rec, g, rfl, hcall', hhead, rfl⟩ | ⟨call', g, c, r, took, rfl, hcall', hhead, rfl⟩
  · rw [Label.lockStep_of_ne ha, Label.acquiredStep_of_ne ha]
    exact ⟨hs.dataKey i call hcall', hs.obeys i call hcall'⟩
  · refine ⟨hC.1, Operation.obeys hC.1 ?_⟩
    show op.Starts (locks i tr) (Label.acquiredStep i (acquired i tr) (.call i op))
    rw [hs.idle i hidle]
    cases op with
    | unlock k => exact ⟨hC.2 k rfl, by simp [Label.acquiredStep]⟩
    | _ => exact rfl
  · exact ⟨hs.dataKey i call' hcall', (hs.obeys i call' hcall').step hhead trivial⟩
  · obtain ⟨call'', hcall'', -, -, hpossible⟩ := hs.command h
    obtain rfl := Option.some.inj (hcall'.symm.trans hcall'')
    have hlocks : Label.lockStep i (locks i tr) (.command i g c r took) =
        lockStep (locks i tr) c r := if_pos rfl
    rw [hlocks]
    exact ⟨hs.dataKey i call' hcall',
      (hs.obeys i call' hcall').step hhead (f := answer s.redis r) hpossible⟩

/-- The step lemma. -/
theorem Disciplined.next (hs : Disciplined tr s) (h : Enabled a s) (hC : UnlocksOwn tr s a) :
    Disciplined (tr ++ [a]) (next a s) where
  idle _ hidle := hs.idle_next h hidle
  dataKey _ _ hcall := (hs.call_next h hC hcall).1
  obeys _ _ hcall := (hs.call_next h hC hcall).2
  lockKeys _ _ hk := hs.lockKeys_next h hk
  kept _ _ hk := hs.kept_next h hk
  unique _ _ _ hi hj := hs.unique_next h hi hj

end Step

/-- The run lemma. -/
theorem disciplined {store : Store} {tr : List Label} {s : State}
    (h : storage.RunBy UnlocksOwn (initial store) tr s) : Disciplined tr s := by
  refine h.induct (P := Disciplined) ?_ fun tr s a _ hs ha hC => hs.next ha hC
  constructor <;> simp [initial, locks, acquired]

def Label.plainCall : Label → Bool
  | .call _ (.unlock _) => false
  | .call _ op => !decide (lockPrefix <+: op.key)
  | _ => true

theorem Label.plainCall_unlocksOwn {tr : List Label} {s : State} {a : Label}
    (h : a.plainCall = true) : UnlocksOwn tr s a := by
  cases a with
  | call i op =>
    cases op with
    | unlock k => exact absurd h Bool.false_ne_true
    | _ => exact ⟨by simpa [Label.plainCall] using h, fun _ => nofun⟩
  | _ => trivial

/-- Client `i` calls `op` and its `SETNX` is answered by `n`. -/
def lockRun (i : ℕ) (op : Operation) (n : ℕ) : List Label :=
  [.call i op, .getClient i false,
    .command i 0 (.setnx (lockKey op.key) locked) (.integer n) true]

def contendedRun : List Label :=
  lockRun 0 (.write [1] [2]) 1 ++ lockRun 1 (.erase [1]) 0

end RedisStorage
