/-
# Programs that issue actions

A program either ends with a value or issues an action and goes on with the
reply.  `Protocol` is a discipline for the actions of one program among others:
a local state that follows the actions and replies, the actions it allows, and
the replies the rest of the system lets happen.  `Obeys` is the precondition
under which a program keeps to a protocol and ends with a postcondition; its
rules follow the construction of the program, so one lemma about each function
carries over to its callers.  `run` executes a program alone.
-/
import Mathlib.Tactic.Common

universe u v w x

/-- A program that issues actions in `A`, is given a reply in `R a` to each action
`a`, and ends with a value in `α`. -/
inductive Program (A : Type u) (R : A → Type v) (α : Type w)
  | ret (x : α)
  | act (a : A) (k : R a → Program A R α)

namespace Program

variable {A : Type u} {R : A → Type v} {α β : Type w}

def bind : Program A R α → (α → Program A R β) → Program A R β
  | ret x, f => f x
  | act a k, f => act a fun r => (k r).bind f

instance : Monad (Program A R) where
  pure := ret
  bind := bind

@[simp] theorem pure_eq (x : α) : (pure x : Program A R α) = ret x := rfl

@[simp] theorem ret_bind (x : α) (f : α → Program A R β) : (ret x : Program A R α) >>= f = f x :=
  rfl

@[simp] theorem act_bind (a : A) (k : R a → Program A R α) (f : α → Program A R β) :
    act a k >>= f = act a fun r => k r >>= f :=
  rfl

/-- The action a program is about to issue. -/
def head? : Program A R α → Option A
  | ret _ => none
  | act a _ => some a

/-- The value a program has ended with. -/
def result? : Program A R α → Option α
  | ret x => some x
  | act _ _ => none

/-- What is left of a program after one action, which is answered by `f`. -/
def step (f : ∀ a, R a) : Program A R α → Program A R α
  | ret x => ret x
  | act a k => k (f a)

/-! ## Keeping to a protocol -/

/-- A discipline for the actions of a program. -/
structure Protocol (A : Type u) (R : A → Type v) (τ : Type x) where
  /-- what the program may issue -/
  Allowed : τ → A → Prop
  /-- which replies may come -/
  Possible : τ → (a : A) → R a → Prop
  after : τ → (a : A) → R a → τ

variable {τ : Type x} (P : Protocol A R τ)

/-- Started in the local state `t`, the program keeps to the protocol, and the
value it ends with and the local state then meet `post`. -/
def Obeys (post : α → τ → Prop) : Program A R α → τ → Prop
  | ret x, t => post x t
  | act a k, t => P.Allowed t a ∧ ∀ r, P.Possible t a r → (k r).Obeys post (P.after t a r)

variable {P}

@[simp] theorem obeys_ret {post : α → τ → Prop} {x : α} {t : τ} :
    (ret x : Program A R α).Obeys P post t ↔ post x t :=
  Iff.rfl

@[simp] theorem obeys_act {post : α → τ → Prop} {a : A} {k : R a → Program A R α} {t : τ} :
    (act a k).Obeys P post t ↔
      P.Allowed t a ∧ ∀ r, P.Possible t a r → (k r).Obeys P post (P.after t a r) :=
  Iff.rfl

/-- **Sequencing.** -/
theorem obeys_bind {post : β → τ → Prop} {p : Program A R α} {f : α → Program A R β} {t : τ} :
    (p >>= f).Obeys P post t ↔ p.Obeys P (fun x t' => (f x).Obeys P post t') t := by
  induction p generalizing t with
  | ret x => exact Iff.rfl
  | act a k ih =>
    rw [act_bind, obeys_act, obeys_act]
    refine and_congr_right fun _ => forall_congr' fun r => ?_
    exact imp_congr_right fun _ => ih r

/-- One action, and what its reply is given to. -/
theorem obeys_act_ret_bind {R : A → Type w} {P : Protocol A R τ} {a : A}
    {f : R a → Program A R β} {post : β → τ → Prop} {t : τ} :
    ((act a ret : Program A R (R a)) >>= f).Obeys P post t ↔
      P.Allowed t a ∧ ∀ r, P.Possible t a r → (f r).Obeys P post (P.after t a r) :=
  Iff.rfl

/-- Weakening the postcondition. -/
theorem Obeys.mono {post post' : α → τ → Prop} {p : Program A R α} {t : τ}
    (h : p.Obeys P post t) (hpost : ∀ x t', post x t' → post' x t') : p.Obeys P post' t := by
  induction p generalizing t with
  | ret x => exact hpost x t h
  | act a k ih => exact ⟨h.1, fun r hr => ih r (h.2 r hr)⟩

theorem Obeys.allowed {post : α → τ → Prop} {p : Program A R α} {t : τ}
    (h : p.Obeys P post t) {a : A} (ha : p.head? = some a) : P.Allowed t a := by
  cases p with
  | ret x => exact absurd ha (by simp [head?])
  | act b k =>
    obtain rfl : b = a := Option.some.inj ha
    exact h.1

/-- One action later the program still keeps to the protocol. -/
theorem Obeys.step {post : α → τ → Prop} {p : Program A R α} {t : τ} (h : p.Obeys P post t)
    {a : A} (ha : p.head? = some a) {f : ∀ a, R a} (hf : P.Possible t a (f a)) :
    (p.step f).Obeys P post (P.after t a (f a)) := by
  cases p with
  | ret x => exact absurd ha (by simp [head?])
  | act b k =>
    obtain rfl : b = a := Option.some.inj ha
    exact h.2 _ hf

theorem Obeys.result {post : α → τ → Prop} {p : Program A R α} {t : τ}
    (h : p.Obeys P post t) {x : α} (hx : p.result? = some x) : post x t := by
  cases p with
  | ret y =>
    obtain rfl : y = x := Option.some.inj hx
    exact h
  | act b k => exact absurd hx (by simp [result?])

/-- Whatever the replies, the program ends with a value that meets `post`. -/
def Always (post : α → Prop) : Program A R α → Prop
  | ret x => post x
  | act _ k => ∀ r, (k r).Always post

/-- A property of the local state that every action keeps bounds the values the
program can end with. -/
theorem Obeys.always {post : α → τ → Prop} {I : τ → Prop} {post' : α → Prop}
    {p : Program A R α} {t : τ} (h : p.Obeys P post t) (hpossible : ∀ t a r, P.Possible t a r)
    (hstep : ∀ t a r, I t → I (P.after t a r)) (hend : ∀ x t, I t → post x t → post' x)
    (ht : I t) : p.Always post' := by
  induction p generalizing t with
  | ret x => exact hend x t ht h
  | act a k ih => exact fun r => ih r (h.2 r (hpossible t a r)) (hstep t a r ht)

/-- Some value is reached: each action has a reply. -/
theorem Always.exists {post : α → Prop} {p : Program A R α} (h : p.Always post) (f : ∀ a, R a) :
    ∃ x, post x := by
  induction p with
  | ret x => exact ⟨x, h⟩
  | act a k ih => exact ih (f a) (h (f a))

theorem Always.mono {post post' : α → Prop} {p : Program A R α} (h : p.Always post)
    (hpost : ∀ x, post x → post' x) : p.Always post' := by
  induction p with
  | ret x => exact hpost x h
  | act a k ih => exact fun r => ih r (h r)

/-! ## Programs that issue some actions only -/

/-- Every action the program may issue is in `S`. -/
def Issues (S : A → Prop) : Program A R α → Prop
  | ret _ => True
  | act a k => S a ∧ ∀ r, (k r).Issues S

theorem issues_act_ret_bind {R : A → Type w} {S : A → Prop} {a : A} {f : R a → Program A R β}
    (ha : S a) (h : ∀ r, (f r).Issues S) : ((act a ret : Program A R (R a)) >>= f).Issues S :=
  ⟨ha, h⟩

theorem Issues.bind {S : A → Prop} {p : Program A R α} {f : α → Program A R β} (h : p.Issues S)
    (hf : ∀ x, (f x).Issues S) : (p >>= f).Issues S := by
  induction p with
  | ret x => exact hf x
  | act a k ih => exact ⟨h.1, fun r => ih r (h.2 r)⟩

/-- Actions that a protocol allows and that do not change the local state. -/
theorem Issues.obeys {S : A → Prop} {p : Program A R α} {t : τ} (h : p.Issues S)
    (hS : ∀ a, S a → P.Allowed t a ∧ ∀ r, P.after t a r = t) :
    p.Obeys P (fun _ t' => t' = t) t := by
  induction p with
  | ret x => rfl
  | act a k ih =>
    refine ⟨(hS a h.1).1, fun r _ => ?_⟩
    rw [(hS a h.1).2 r]
    exact ih r (h.2 r)

/-! ## Running a program alone -/

variable {σ : Type x}

/-- Executing a program on a state, where `exec` answers its actions. -/
def run (exec : (a : A) → σ → R a × σ) : Program A R α → σ → α × σ
  | ret x, s => (x, s)
  | act a k, s => (k (exec a s).1).run exec (exec a s).2

@[simp] theorem run_ret (exec : (a : A) → σ → R a × σ) (x : α) (s : σ) :
    (ret x : Program A R α).run exec s = (x, s) :=
  rfl

@[simp] theorem run_act (exec : (a : A) → σ → R a × σ) (a : A) (k : R a → Program A R α) (s : σ) :
    (act a k).run exec s = (k (exec a s).1).run exec (exec a s).2 :=
  rfl

@[simp] theorem run_bind (exec : (a : A) → σ → R a × σ) (p : Program A R α)
    (f : α → Program A R β) (s : σ) :
    (p >>= f).run exec s = (f (p.run exec s).1).run exec (p.run exec s).2 := by
  induction p generalizing s with
  | ret x => rfl
  | act a k ih => exact ih _ _

end Program
