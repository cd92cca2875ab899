/-
# Threads that call operations

Any number of threads call the operations of a `Service`; a call runs the
program of its operation, one action at a time, over the state that all of them
share.  The actions of different calls interleave freely (`system`).

`Discipline` gives the program of each operation a protocol that it obeys, and
an assertion gives the local state of the protocol a meaning in the shared state.
`Keeps.holds` is the proof rule: an assertion that the actions of its call carry
on and the actions of the others leave alone holds along every run.
-/
import Mathlib.Logic.Function.Basic
import RedisStateManager.TransitionSystem
import RedisStateManager.Program

open Program

/-- Operations on a shared state in `σ`; a choice in `χ` settles what the program
leaves open about one action. -/
structure Service (A : Type*) (R : A → Type*) (σ χ ω ρ : Type*) where
  procedure : ω → Program A R ρ
  /-- when a thread can make an action, and how it may turn out -/
  Possible : ℕ → σ → χ → A → Prop
  answer : σ → χ → ∀ a, R a
  perform : ℕ → σ → χ → A → σ

namespace Service

variable {A : Type*} {R : A → Type*} {σ χ ω ρ : Type*}

/-- A call in progress. -/
structure Call (V : Service A R σ χ ω ρ) where
  operation : ω
  rest : Program A R ρ

structure State (V : Service A R σ χ ω ρ) where
  shared : σ
  callers : ℕ → Option V.Call

inductive Label (V : Service A R σ χ ω ρ)
  | call (i : ℕ) (op : ω)
  | act (i : ℕ) (a : A) (choice : χ)
  | ret (i : ℕ) (op : ω) (r : ρ)

variable {V : Service A R σ χ ω ρ}

/-- The thread a label moves. -/
def Label.caller : V.Label → ℕ
  | .call i _ | .act i _ _ | .ret i _ _ => i

/-- The action thread `i` is about to issue. -/
def State.head? (s : V.State) (i : ℕ) : Option A := (s.callers i).bind (·.rest.head?)

/-- The operation and result of thread `i`, if its call has come to its end. -/
def State.result? (s : V.State) (i : ℕ) : Option (ω × ρ) :=
  (s.callers i).bind fun call => call.rest.result?.map (call.operation, ·)

/-- The operation thread `i` is in. -/
def State.operation? (s : V.State) (i : ℕ) : Option ω := (s.callers i).map (·.operation)

def State.setCaller (s : V.State) (i : ℕ) (call : Option V.Call) : V.State :=
  { s with callers := Function.update s.callers i call }

def Enabled : V.Label → V.State → Prop
  | .call i _, s => s.callers i = none
  | .act i a choice, s => s.head? i = some a ∧ V.Possible i s.shared choice a
  | .ret i op r, s => s.result? i = some (op, r)

def next : V.Label → V.State → V.State
  | .call i op, s => s.setCaller i (some ⟨op, V.procedure op⟩)
  | .act i a choice, s =>
    { shared := V.perform i s.shared choice a
      callers := Function.update s.callers i ((s.callers i).map fun call =>
        { call with rest := call.rest.step (V.answer s.shared choice) }) }
  | .ret i _ _, s => s.setCaller i none

variable (V)

/-- Any number of threads, none of which is in a call at first. -/
def system : TransitionSystem V.State V.Label where
  Enabled := Enabled
  next := next

def start (shared : σ) : V.State where
  shared := shared
  callers := fun _ => none

variable {V}

@[simp] theorem system_next (a : V.Label) (s : V.State) : V.system.next a s = next a s := rfl

instance [DecidableEq A] [DecidableEq ω] [DecidableEq ρ]
    [∀ i s choice a, Decidable (V.Possible i s choice a)] :
    ∀ (a : V.Label) (s : V.State), Decidable (V.system.Enabled a s)
  | .call i _, s => decidable_of_iff ((s.callers i).isNone = true) Option.isNone_iff_eq_none
  | .act i a choice, s =>
    inferInstanceAs (Decidable (s.head? i = some a ∧ V.Possible i s.shared choice a))
  | .ret i op r, s => inferInstanceAs (Decidable (s.result? i = some (op, r)))

/-! ## What happens to one thread -/

/-- The other threads' calls are left alone. -/
theorem callers_next_of_ne {a : V.Label} {i : ℕ} (h : i ≠ a.caller) (s : V.State) :
    (next a s).callers i = s.callers i := by
  cases a with
  | call j op => exact Function.update_of_ne h _ _
  | act j b choice => exact Function.update_of_ne h _ _
  | ret j op r => exact Function.update_of_ne h _ _

/-- An action gives its answer to the program of its call. -/
theorem callers_act {s : V.State} {i : ℕ} {call : V.Call} (h : s.callers i = some call) (b : A)
    (choice : χ) :
    (next (.act i b choice) s).callers i =
      some { call with rest := call.rest.step (V.answer s.shared choice) } := by
  show Function.update s.callers i _ i = _
  rw [Function.update_self, h]
  rfl

theorem State.head?_eq_some {s : V.State} {i : ℕ} {a : A} :
    s.head? i = some a ↔ ∃ call, s.callers i = some call ∧ call.rest.head? = some a :=
  Option.bind_eq_some_iff

theorem State.head?_of_callers {s : V.State} {i : ℕ} {call : V.Call}
    (h : s.callers i = some call) : s.head? i = call.rest.head? := by
  rw [head?, h]
  rfl

theorem State.operation?_of_callers {s : V.State} {i : ℕ} {call : V.Call}
    (h : s.callers i = some call) : s.operation? i = some call.operation := by
  rw [operation?, h]
  rfl

/-- The other threads go on where they were. -/
theorem head?_next_of_ne {a : V.Label} {i : ℕ} (h : i ≠ a.caller) (s : V.State) :
    (next a s).head? i = s.head? i := by
  rw [State.head?, callers_next_of_ne h]
  rfl

/-- **Where a call in progress comes from**: it was there, it has just begun, or
its program has been given an answer. -/
theorem call_next {a : V.Label} {s : V.State} (h : Enabled a s) {i : ℕ} {call : V.Call}
    (hcall : (next a s).callers i = some call) :
    (i ≠ a.caller ∧ s.callers i = some call) ∨
    (∃ op, a = .call i op ∧ s.callers i = none ∧ call = ⟨op, V.procedure op⟩) ∨
    (∃ call' b choice, a = .act i b choice ∧ s.callers i = some call' ∧
      call'.rest.head? = some b ∧ V.Possible i s.shared choice b ∧
      call = { call' with rest := call'.rest.step (V.answer s.shared choice) }) := by
  by_cases hi : i = a.caller
  · right
    cases a with
    | call j op =>
      obtain rfl : i = j := hi
      have hnew : (next (.call i op) s).callers i = some ⟨op, V.procedure op⟩ :=
        Function.update_self ..
      exact Or.inl ⟨op, rfl, h, Option.some.inj (hcall.symm.trans hnew)⟩
    | act j b choice =>
      obtain rfl : i = j := hi
      obtain ⟨call', hcall', hhead⟩ := State.head?_eq_some.mp h.1
      rw [callers_act hcall', Option.some_inj] at hcall
      exact Or.inr ⟨call', b, choice, rfl, hcall', hhead, h.2, hcall.symm⟩
    | ret j op r =>
      obtain rfl : i = j := hi
      have hnone : (next (.ret i op r) s).callers i = none := Function.update_self ..
      rw [hnone] at hcall
      exact absurd hcall (by simp)
  · rw [callers_next_of_ne hi] at hcall
    exact Or.inl ⟨hi, hcall⟩

/-- A thread that a run does not move has no call in progress. -/
theorem callers_of_run {shared : σ} {tr : List V.Label} {s : V.State}
    (h : V.system.Run (V.start shared) tr s) {i : ℕ} (hi : ∀ a ∈ tr, i ≠ a.caller) :
    s.callers i = none := by
  induction h with
  | nil => rfl
  | @snoc tr s a _ _ ih =>
    have hne : i ≠ a.caller := hi a (List.mem_append_right _ (List.mem_singleton_self a))
    rw [system_next, callers_next_of_ne hne]
    exact ih fun b hb => hi b (List.mem_append_left _ hb)

/-! ## Disciplined calls -/

variable {τ : Type*}

/-- A protocol for each operation, which its program obeys. -/
structure Discipline (V : Service A R σ χ ω ρ) (τ : Type*) where
  protocol : ω → Protocol A R τ
  start : τ
  Post : ω → ρ → τ → Prop
  obeys : ∀ op, (V.procedure op).Obeys (protocol op) (Post op) start

namespace Discipline

variable (D : V.Discipline τ)

/-- What is left of the call keeps to the protocol from the local state `t`. -/
def At (call : V.Call) (t : τ) : Prop :=
  call.rest.Obeys (D.protocol call.operation) (D.Post call.operation) t

/-- Every call in progress is at a local state for which the assertion holds. -/
def Holds (L : ω → ℕ → τ → σ → Prop) (s : V.State) : Prop :=
  ∀ i call, s.callers i = some call → ∃ t, D.At call t ∧ L call.operation i t s.shared

/-- What makes an assertion hold along the runs whose steps meet `C`: it says
nothing at the start of a call, the call's own actions carry it on (`own`), and an
action of another thread `j` leaves it alone (`other`). -/
structure Keeps (L : ω → ℕ → τ → σ → Prop) (C : V.State → V.Label → Prop) : Prop where
  start : ∀ op i s, L op i D.start s
  own : ∀ s i call t b choice, s.callers i = some call → D.At call t →
    L call.operation i t s.shared → (D.protocol call.operation).Allowed t b →
    V.Possible i s.shared choice b → C s (.act i b choice) →
    (D.protocol call.operation).Possible t b (V.answer s.shared choice b) ∧
    L call.operation i ((D.protocol call.operation).after t b (V.answer s.shared choice b))
      (V.perform i s.shared choice b)
  other : ∀ s i j call call' t u b choice, i ≠ j → s.callers i = some call → D.At call t →
    L call.operation i t s.shared → s.callers j = some call' →
    L call'.operation j u s.shared → (D.protocol call'.operation).Allowed u b →
    V.Possible j s.shared choice b → C s (.act j b choice) →
    L call.operation i t (V.perform j s.shared choice b)

variable {D} {L : ω → ℕ → τ → σ → Prop} {C : V.State → V.Label → Prop}

theorem At.allowed {call : V.Call} {t : τ} (h : D.At call t) {a : A}
    (ha : call.rest.head? = some a) : (D.protocol call.operation).Allowed t a :=
  Obeys.allowed h ha

theorem holds_start (shared : σ) : D.Holds L (V.start shared) :=
  fun _ _ hcall => absurd hcall (by simp [Service.start])

/-- **One step keeps the assertions.** -/
theorem Keeps.next (hL : D.Keeps L C) {s : V.State} {a : V.Label} (hs : D.Holds L s)
    (h : Enabled a s) (hC : C s a) : D.Holds L (Service.next a s) := by
  intro i call hcall
  rcases call_next h hcall with ⟨hne, hcall'⟩ | ⟨op, rfl, -, rfl⟩ |
    ⟨call', b, choice, rfl, hcall', hhead, hposs, rfl⟩
  · obtain ⟨t, hat, ht⟩ := hs i call hcall'
    refine ⟨t, hat, ?_⟩
    cases a with
    | act j b choice =>
      obtain ⟨call', hj, hhead⟩ := State.head?_eq_some.mp h.1
      obtain ⟨u, hu, hLu⟩ := hs j call' hj
      exact hL.other s i j call call' t u b choice hne hcall' hat ht hj hLu
        (hu.allowed hhead) h.2 hC
    | _ => exact ht
  · exact ⟨D.start, D.obeys op, hL.start op i _⟩
  · obtain ⟨t, hat, ht⟩ := hs i call' hcall'
    obtain ⟨hp, ht'⟩ :=
      hL.own s i call' t b choice hcall' hat ht (hat.allowed hhead) hposs hC
    exact ⟨_, Obeys.step hat hhead hp, ht'⟩

/-- **Runs keep the assertions.** -/
theorem Keeps.holds (hL : D.Keeps L C) {shared : σ} {tr : List V.Label} {s : V.State}
    (h : V.system.RunBy (fun _ => C) (V.start shared) tr s) : D.Holds L s := by
  refine h.induct (P := fun _ s => D.Holds L s) (holds_start shared) ?_
  intro tr s a _ hs ha hC
  exact hL.next hs ha hC

/-- Where the protocols leave the replies open, every run keeps to them. -/
theorem holds_of_run (hD : ∀ op t a r, (D.protocol op).Possible t a r) {shared : σ}
    {tr : List V.Label} {s : V.State} (h : V.system.Run (V.start shared) tr s) :
    D.Holds (fun _ _ _ _ => True) s := by
  have hkeeps : D.Keeps (fun _ _ _ _ => True) fun _ _ => True :=
    { start := by intros; trivial
      own := fun _ _ _ _ _ _ _ _ _ _ _ _ => ⟨hD _ _ _ _, trivial⟩
      other := by intros; trivial }
  exact hkeeps.holds (h.runBy_of_forall fun _ _ _ _ => trivial)

end Discipline

end Service
