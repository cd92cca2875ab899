/-
# Commands on a replaced client

`getClient` gives both mutexes back before the reference it returns is used, and
the storage operations take no lock for their commands, so a successful `connect`
of another thread may destroy the object in between.  `Current` says that whatever
command is issued next goes to the object that `redis_` owns; `current_iff` that
this is so throughout a run exactly if no object is constructed while a thread is
about to issue a command (`Undisturbed`).
-/
import RedisStateManager.ClientConfig

namespace RedisClient

open Redis Program Service

/-! ## Generations -/

/-- The number of the object that `redis_` owns. -/
def Shared.generation? (s : Shared) : Option ℕ := s.redis?.map (·.generation)

theorem generation?_congr {s s' : Shared} (h : s'.instance_ = s.instance_) :
    s'.generation? = s.generation? := by
  unfold Shared.generation? Shared.redis?
  rw [h]

theorem generation?_construct {s : Shared} (h : s.instance_.isSome = true) :
    s.construct.generation? = some (s.made + 1) := by
  obtain ⟨self, hself⟩ := Option.isSome_iff_exists.mp h
  simp [Shared.construct, Shared.generation?, Shared.redis?, hself]

/-- Only a constructor that succeeds replaces the object. -/
theorem generation?_perform {b : Action} {choice : Choice}
    (h : ∀ attempt, b = .construct attempt → choice = .threw) (i : ℕ) (s : Shared) :
    (perform i s choice b).generation? = s.generation? := by
  cases b with
  | construct attempt =>
    obtain rfl := h attempt rfl
    rfl
  | createInstance =>
    cases hinst : s.instance_ <;>
      simp [perform, Shared.generation?, Shared.redis?, hinst, newInstance]
  | storeConfig config =>
    cases hinst : s.instance_ <;> simp [perform, Shared.generation?, Shared.redis?, hinst]
  | _ => rfl

theorem made_perform (i : ℕ) (s : Shared) (choice : Choice) (b : Action) :
    s.made ≤ (perform i s choice b).made := by
  cases b with
  | construct attempt =>
    show s.made ≤ (if choice = .threw then s else s.construct).made
    split
    · exact Nat.le_refl _
    · exact Nat.le_succ _
  | _ => exact Nat.le_refl _

/-- The objects are numbered up to `made`. -/
def Shared.Numbered (s : Shared) : Prop := ∀ redis ∈ s.generation?, redis ≤ s.made

theorem numbered_run {tr : List Label} {s : State} (h : clients.system.Run initial tr s) :
    s.shared.Numbered := by
  refine h.invariant (I := fun s => s.shared.Numbered) (fun redis hredis => ?_) ?_
  · exact absurd hredis (by simp [initial, start, Shared.generation?, Shared.redis?])
  intro a s hs ha
  cases a with
  | act i b choice =>
    intro redis hredis
    have hmade := made_perform i s.shared choice b
    by_cases hb : ∀ attempt, b = .construct attempt → choice = .threw
    · have hsame := generation?_perform hb i s.shared
      exact Nat.le_trans (hs redis (hsame ▸ hredis)) hmade
    · obtain ⟨attempt, hb⟩ := not_forall.mp hb
      obtain ⟨rfl, hchoice⟩ := Classical.not_imp.mp hb
      obtain rfl : choice = .ok := ha.2.1.resolve_right hchoice
      have hnew := generation?_construct ha.2.2
      obtain rfl : s.shared.made + 1 = redis := Option.some.inj (hnew.symm.trans hredis)
      exact Nat.le_refl _
  | _ => exact hs

/-! ## The property, and when it holds -/

/-- **No command on a replaced client**: whatever command is issued next is issued
on the object that `redis_` owns. -/
def Current (s : State) : Prop :=
  ∀ i redis c, s.head? i = some (.command redis c) → s.shared.generation? = some redis

/-- An object is constructed only when no thread is about to issue a command. -/
def Undisturbed (s : State) : Label → Prop
  | .act _ (.construct _) .ok => ∀ j redis c, s.head? j ≠ some (.command redis c)
  | _ => True

/-- The reference a call holds. -/
def Phase.reference? : Phase → Option ℕ
  | leaving redis | referring redis => some redis
  | outside | locked | ready => none

/-- The reference a `getClient` is about to return, or a storage operation to use, is current. -/
def Refers (op : Operation) (i : ℕ) (t : Phase) (s : Shared) : Prop :=
  Locks i t s ∧ ∀ redis ∈ t.reference?, (t.inside = true ∨ op ≠ .getClient) →
    s.generation? = some redis

def Bounded (_ : Operation) (_ : ℕ) (t : Phase) (s : Shared) : Prop :=
  ∀ redis ∈ t.reference?, redis ≤ s.made

section Calls

variable {op : Operation} {i : ℕ} {s : Shared} {t : Phase} {b : Action} {choice : Choice}

theorem reference?_construct (attempt : ℕ) (ok : Bool) :
    ((phases op).after .locked (.construct attempt) ok).reference? = none := by
  cases hop : op.reconfigures with
  | true => rw [after_construct_of_reconfigures hop]; rfl
  | false =>
    rw [after_construct hop]
    split <;> rfl

theorem reference?_ping (alive : Bool) :
    ((phases op).after .locked .ping alive).reference? = none := by
  cases alive <;> rfl

/-- **Where a reference comes from**: the call held it, or has just dereferenced `redis_`. -/
theorem reference_after (hb : Allowed op t b) (hposs : Possible i s choice b) {redis : ℕ}
    (h : redis ∈ ((phases op).after t b (answer s choice b)).reference?) :
    (t = .leaving redis ∧ b = .unlock .instanceMutex) ∨
      (b = .redis ∧ s.generation? = some redis) := by
  cases hb with
  | leave redis' =>
    obtain rfl : redis' = redis := Option.some.inj h
    exact Or.inl ⟨rfl, rfl⟩
  | redis =>
    obtain ⟨client, hclient⟩ := Option.isSome_iff_exists.mp hposs.2
    have hanswer : answer s choice .redis = client.generation := by simp [answer, hclient]
    have hredis : answer s choice .redis = redis := Option.some.inj h
    refine Or.inr ⟨rfl, ?_⟩
    rw [Shared.generation?, hclient, ← hredis, hanswer]
    rfl
  | construct attempt => exact absurd h (by rw [reference?_construct]; simp)
  | ping hop => exact absurd h (by rw [reference?_ping]; simp)
  | _ => exact absurd h (by simp [phases, Phase.reference?])

/-- The call's own actions: nobody else comes between the dereference and the release of
`instance_mutex_`. -/
theorem refers_own (hr : Refers op i t s) (hb : Allowed op t b) (hposs : Possible i s choice b) :
    Refers op i ((phases op).after t b (answer s choice b)) (perform i s choice b) := by
  refine ⟨hr.1.own hb, fun redis hredis _ => ?_⟩
  rcases reference_after hb hposs hredis with ⟨rfl, rfl⟩ | ⟨rfl, hgen⟩
  · exact (generation?_congr rfl).trans (hr.2 redis rfl (Or.inl rfl))
  · exact hgen

theorem bounded_keeps : discipline.Keeps Bounded fun s _ => s.shared.Numbered where
  start _ _ _ _ h := absurd h (by simp [discipline, Phase.reference?])
  own s i call t b choice _ _ hr hb hposs hC := by
    refine ⟨trivial, fun redis hredis => ?_⟩
    refine Nat.le_trans ?_ (made_perform i s.shared choice b)
    rcases reference_after (i := i) hb hposs hredis with ⟨rfl, -⟩ | ⟨-, hgen⟩
    · exact hr redis rfl
    · exact hC redis hgen
  other s i j call call' t u b choice _ _ _ hr _ _ _ _ _ redis hredis :=
    Nat.le_trans (hr redis hredis) (made_perform j s.shared choice b)

/-- A storage operation that holds a reference is about to issue its command. -/
theorem head?_referring {call : clients.Call} {redis : ℕ}
    (hat : discipline.At call (.referring redis))
    (hget : call.operation ≠ .getClient) : ∃ c, call.rest.head? = some (.command redis c) := by
  obtain ⟨op, rest⟩ := call
  cases rest with
  | ret r =>
    cases op with
    | getClient => exact absurd rfl hget
    | _ => exact absurd hat (by simp [Discipline.At, discipline, Post])
  | act b k =>
    cases hat.1 with
    | command redis c => exact ⟨c, rfl⟩

theorem refers_keeps : discipline.Keeps Refers Undisturbed where
  start _ _ _ :=
    ⟨fun hin => absurd hin Bool.false_ne_true,
      fun _ h => absurd h (by simp [discipline, Phase.reference?])⟩
  own s i call t b choice _ _ hr hb hposs _ := ⟨trivial, refers_own hr hb hposs⟩
  other s i j call call' t u b choice hij hcall hat hr _ hr' hb hposs hC := by
    refine ⟨fun hin => (Locks.frame hij (hr.1 hin) hr'.1 hb hposs).1, fun redis hredis huse => ?_⟩
    have hgen := hr.2 redis hredis huse
    cases t with
    | leaving redis' =>
      exact (generation?_congr (Locks.frame hij (hr.1 rfl) hr'.1 hb hposs).2).trans hgen
    | referring redis' =>
      have hget : call.operation ≠ .getClient := huse.resolve_left Bool.false_ne_true
      obtain ⟨c, hc⟩ := head?_referring hat hget
      -- thread `i` is about to issue a command, so nobody constructs an object
      refine (generation?_perform (fun attempt hb' => ?_) j s.shared).trans hgen
      subst hb'
      refine hposs.1.resolve_left fun hok => ?_
      subst hok
      exact hC i redis' c ((State.head?_of_callers hcall).trans hc)
    | _ => exact absurd hredis (by simp [Phase.reference?])

end Calls

/-- What a call that is about to issue a command refers to. -/
theorem reference?_of_head? {L : Operation → ℕ → Phase → Shared → Prop} {s : State}
    (hs : discipline.Holds L s) {i redis : ℕ} {c : Command}
    (hi : s.head? i = some (.command redis c)) :
    ∃ op, op ≠ .getClient ∧ L op i (.referring redis) s.shared := by
  obtain ⟨call, hcall, hhead⟩ := State.head?_eq_some.mp hi
  obtain ⟨t, hat, hL⟩ := hs i call hcall
  cases hat.allowed hhead with
  | command _ _ hget => exact ⟨call.operation, hget, hL⟩

theorem current_of_undisturbed {tr : List Label} {s : State}
    (h : clients.system.RunBy (fun _ => Undisturbed) initial tr s) : Current s := by
  intro i redis c hi
  obtain ⟨op, hget, hr⟩ := reference?_of_head? (refers_keeps.holds h) hi
  exact hr.2 redis rfl (Or.inr hget)

/-- A thread holds no reference to an object that is yet to be constructed. -/
theorem reference_le_made {tr : List Label} {s : State} (h : clients.system.Run initial tr s)
    {i redis : ℕ} {c : Command} (hi : s.head? i = some (.command redis c)) :
    redis ≤ s.shared.made := by
  have hby : clients.system.RunBy (fun _ s _ => s.shared.Numbered) initial tr s :=
    TransitionSystem.runBy_iff.mpr ⟨h, fun _ _ _ _ _ hu => numbered_run hu⟩
  obtain ⟨op, -, hr⟩ := reference?_of_head? (bounded_keeps.holds hby) hi
  exact hr redis rfl

/-- **An object constructed at the wrong moment**: some thread's next command goes to the
object that has just been destroyed. -/
theorem not_current_of_not_undisturbed {tr : List Label} {s : State}
    (h : clients.system.Run initial tr s) {a : Label} (ha : clients.system.Enabled a s)
    (hC : ¬ Undisturbed s a) : ¬ Current (next a s) := by
  unfold Undisturbed at hC
  split at hC
  · next j attempt =>
    simp only [not_forall, not_not] at hC
    obtain ⟨i, redis, c, hi⟩ := hC
    have hij : i ≠ j := by
      rintro rfl
      exact absurd (hi.symm.trans ha.1) (by simp)
    intro hcurrent
    have hstale := hcurrent i redis c ((head?_next_of_ne hij s).trans hi)
    have hnew := generation?_construct ha.2.2
    have hle := reference_le_made h hi
    have heq : s.shared.made + 1 = redis := Option.some.inj (hnew.symm.trans hstale)
    omega
  · exact absurd trivial hC

/-- **No command on a replaced client, exactly.**  Along a run every command that is issued
next goes to the object `redis_` owns iff no object is ever constructed while a thread is
about to issue a command. -/
theorem current_iff {tr : List Label} {s : State} (h : clients.system.Run initial tr s) :
    (∀ pre post u, tr = pre ++ post → clients.system.Run initial pre u → Current u) ↔
      clients.system.RunBy (fun _ => Undisturbed) initial tr s := by
  constructor
  · intro hcurrent
    refine TransitionSystem.runBy_iff.mpr ⟨h, fun pre a post u htr hu => ?_⟩
    by_contra hC
    subst htr
    obtain ⟨u', hu', ha, -⟩ := h.split_cons
    obtain rfl := hu.unique hu'
    refine not_current_of_not_undisturbed hu ha hC ?_
    exact hcurrent (pre ++ [a]) post _ (by simp) (hu.snoc ha)
  · intro hby pre post u htr hu
    subst htr
    obtain ⟨v, hv, -⟩ := hby.split
    obtain rfl := hu.unique hv.run
    exact current_of_undisturbed hv

/-- A thread alone is never disturbed. -/
theorem undisturbed_of_alone {tr : List Label} {s : State} (h : clients.system.Run initial tr s)
    {i : ℕ} (hi : ∀ a ∈ tr, a.caller = i) :
    clients.system.RunBy (fun _ => Undisturbed) initial tr s := by
  refine TransitionSystem.runBy_iff.mpr ⟨h, fun pre a post u htr hu => ?_⟩
  subst htr
  unfold Undisturbed
  split
  · next k attempt =>
    intro j redis c hj
    obtain ⟨u', hu', ha, -⟩ := h.split_cons
    obtain rfl := hu.unique hu'
    obtain rfl : k = i := hi _ (List.mem_append_right _ List.mem_cons_self)
    have hne : j ≠ k := by
      rintro rfl
      exact absurd (hj.symm.trans ha.1) (by simp)
    have hidle := callers_of_run hu fun b hb hjb =>
      hne (hjb.trans (hi b (List.mem_append_left _ hb)))
    exact absurd hj (by simp [State.head?, hidle])
  · trivial

/-! ## A client replaced under a write, and a write alone -/

/-- Thread 1 configures another server between the `getClient` of thread 0 and its `SETNX`. -/
def replacedRun : List Label :=
  getClientRun 0 (.storage (.write [1] [2])) [(1, .ok)] ++
    issues 0 [.redis, .unlock .instanceMutex] ++ setConfigRun 1 otherServer [(1, .ok)]

theorem not_current_replacedRun : ¬ ∀ (tr : List Label) (s : State),
    clients.system.Run initial tr s → Current s := by
  intro hall
  have hlegal : clients.system.Legal replacedRun initial := by decide
  have hgen := hall _ _ (TransitionSystem.run_of_legal hlegal) 0 1
    (.setnx (RedisStorage.lockKey [1]) RedisStorage.locked) (by decide)
  exact absurd hgen (by decide)

/-- A command of thread 0 on the first object, with the `getClient` before it. -/
def commandRun (c : Command) (r : Reply) : List Label :=
  pingRun 0 ++ issues 0 [.redis, .unlock .instanceMutex] ++ [.act 0 (.command 1 c) (.reply r)]

/-- Thread 0 configures the client and writes. -/
def aloneRun : List Label :=
  setConfigRun 0 server [(1, .threw), (2, .ok)] ++ [.call 0 (.storage (.write [1] [2]))] ++
    commandRun (.setnx (RedisStorage.lockKey [1]) RedisStorage.locked) (.integer 1) ++
    commandRun (.set [1] [2]) .status ++
    commandRun (.del (RedisStorage.lockKey [1])) (.integer 1) ++
    [.ret 0 (.storage (.write [1] [2])) (.result (.bool true))]

theorem current_iff_aloneRun :
    (∀ pre post u, aloneRun = pre ++ post → clients.system.Run initial pre u → Current u) ∧
      ¬ clients.system.RunBy (fun _ => Undisturbed) initial replacedRun
        (clients.system.after replacedRun initial) := by
  have halone : clients.system.Legal aloneRun initial := by decide
  have hreplaced : clients.system.Legal replacedRun initial := by decide
  have hrun := TransitionSystem.run_of_legal halone
  refine ⟨(current_iff hrun).mpr (undisturbed_of_alone (i := 0) hrun (by decide)), fun hby => ?_⟩
  have hgen := (current_iff hby.run).mpr hby replacedRun [] _ (by simp) hby.run 0 1
    (.setnx (RedisStorage.lockKey [1]) RedisStorage.locked) (by decide)
  exact absurd hgen (by decide)

end RedisClient
