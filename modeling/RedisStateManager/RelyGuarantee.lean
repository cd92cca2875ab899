/-
# Programs among others

A program's assertions when other threads take steps between its actions.
`Environment` says what one action of the program may do to the state and what
one step of the others may do, `Meets` that the program ends with its
postcondition however the two interleave.  An assertion may stand between two
actions if it is stable (`Environment.Stable`).
-/
import Mathlib.Logic.Relation
import RedisStateManager.Program

universe u v w x

namespace Program

open Relation

variable {A : Type u} {R : A → Type v} {α β : Type w} {σ : Type x}

/-- What the program's own actions may do, and what the others may do. -/
structure Environment (A : Type u) (R : A → Type v) (σ : Type x) where
  /-- the action, its answer, and the states before and after -/
  Step : σ → (a : A) → R a → σ → Prop
  Rely : σ → σ → Prop

variable (E : Environment A R σ)

/-- The others keep the assertion. -/
def Environment.Stable (P : σ → Prop) : Prop := ∀ s s', P s → E.Rely s s' → P s'

/-- Started in the state `s`, and however the others interleave, the program ends
with a value and a state that meet `post`. -/
def Meets (post : α → σ → Prop) : Program A R α → σ → Prop
  | ret x, s => ∀ s', ReflTransGen E.Rely s s' → post x s'
  | act a k, s =>
    ∀ s', ReflTransGen E.Rely s s' → ∀ r s'', E.Step s' a r s'' → (k r).Meets post s''

variable {E} {post : α → σ → Prop} {p : Program A R α} {s : σ}

theorem Environment.Stable.reflTransGen {P : σ → Prop} (hP : E.Stable P) {s' : σ} (hs : P s)
    (h : ReflTransGen E.Rely s s') : P s' := by
  induction h with
  | refl => exact hs
  | tail _ hstep ih => exact hP _ _ ih hstep

theorem Environment.Stable.and {P Q : σ → Prop} (hP : E.Stable P) (hQ : E.Stable Q) :
    E.Stable fun s => P s ∧ Q s :=
  fun s s' hs h => ⟨hP s s' hs.1 h, hQ s s' hs.2 h⟩

theorem Environment.Stable.exists {ι : Sort*} {P : ι → σ → Prop} (hP : ∀ i, E.Stable (P i)) :
    E.Stable fun s => ∃ i, P i s :=
  fun s s' ⟨i, hi⟩ h => ⟨i, hP i s s' hi h⟩

theorem Environment.stable_const (p : Prop) : E.Stable fun _ => p :=
  fun _ _ hp _ => hp

/-! ## Along a run -/

/-- A step of the others. -/
theorem Meets.rely (h : p.Meets E post s) {s' : σ} (hs : E.Rely s s') : p.Meets E post s' := by
  cases p with
  | ret x => exact fun u hu => h u (ReflTransGen.head hs hu)
  | act a k => exact fun u hu => h u (ReflTransGen.head hs hu)

/-- An action of the program. -/
theorem Meets.step (h : p.Meets E post s) {a : A} (ha : p.head? = some a) {f : ∀ a, R a} {s' : σ}
    (hs : E.Step s a (f a) s') : (p.step f).Meets E post s' := by
  cases p with
  | ret x => exact absurd ha (by simp [head?])
  | act b k =>
    obtain rfl : b = a := Option.some.inj ha
    exact h s .refl _ _ hs

theorem Meets.result (h : p.Meets E post s) {x : α} (hx : p.result? = some x) : post x s := by
  cases p with
  | ret y =>
    obtain rfl : y = x := Option.some.inj hx
    exact h s .refl
  | act b k => exact absurd hx (by simp [result?])

/-! ## Rules -/

theorem meets_ret {x : α} {P : σ → Prop} (hP : E.Stable P) (hs : P s)
    (h : ∀ s, P s → post x s) : (ret x : Program A R α).Meets E post s :=
  fun _ hrely => h _ (hP.reflTransGen hs hrely)

/-- **One action**, between stable assertions. -/
theorem meets_act {a : A} {k : R a → Program A R α} {P : σ → Prop} (hP : E.Stable P) (hs : P s)
    (h : ∀ s r s', P s → E.Step s a r s' → (k r).Meets E post s') : (act a k).Meets E post s :=
  fun _ hrely _ _ hstep => h _ _ _ (hP.reflTransGen hs hrely) hstep

/-- **Sequencing.** -/
theorem meets_bind {post : β → σ → Prop} {f : α → Program A R β}
    (h : p.Meets E (fun x s => (f x).Meets E post s) s) : (p >>= f).Meets E post s := by
  induction p generalizing s with
  | ret x => exact h s .refl
  | act a k ih => exact fun u hu r u' hstep => ih r (h u hu r u' hstep)

/-- Weakening the postcondition. -/
theorem Meets.mono {post' : α → σ → Prop} (h : p.Meets E post s)
    (hpost : ∀ x s, post x s → post' x s) : p.Meets E post' s := by
  induction p generalizing s with
  | ret x => exact fun u hu => hpost _ _ (h u hu)
  | act a k ih => exact fun u hu r u' hstep => ih r (h u hu r u' hstep)

end Program
