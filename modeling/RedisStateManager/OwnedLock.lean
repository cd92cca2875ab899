/-
# Owned locks

Mutual exclusion and deadlock, for any threads and locks.  A lock is a field
naming its owner; a program's control points say which thread is inside the
lock's critical section, and `Owned` ties the two together.  `LockStep` is what
one step of a thread may do to the pair, and `Owned.step` that every such step
keeps `Owned`.

A circular wait is a set of threads each of which waits for a lock held inside
the set.  `not_circularWait` is the lock-order argument: there is none if
whoever holds a lock that is waited for only waits for locks of higher rank.
-/
import Mathlib.Data.Set.Basic
import Mathlib.Tactic.Common

universe u v

variable {θ : Type u} {μ : Type v}

/-! ## The owner of a lock -/

/-- The lock's owner field `m` names exactly the threads that hold it. -/
def Owned (holds : θ → Prop) (m : Option θ) : Prop :=
  ∀ t, holds t ↔ m = some t

/-- What one step of thread `t` may do to a lock: `held` and `held'` say whether
`t` holds it before and after, `m` and `m'` are the owner field before and after. -/
inductive LockStep (t : θ) (held held' : Prop) : Option θ → Option θ → Prop
  | keep (m : Option θ) (h : held' ↔ held) : LockStep t held held' m m
  | acquire (h : held') : LockStep t held held' none (some t)
  | release (m : Option θ) (h : held) (h' : ¬ held') : LockStep t held held' m none

/-- **Mutual exclusion.** -/
theorem Owned.unique {holds : θ → Prop} {m : Option θ} (h : Owned holds m) {t u : θ}
    (ht : holds t) (hu : holds u) : t = u :=
  Option.some.inj (((h t).mp ht).symm.trans ((h u).mp hu))

/-- Nobody holds a free lock. -/
theorem Owned.not_holds {holds : θ → Prop} (h : Owned holds none) (t : θ) : ¬ holds t :=
  fun ht => Option.some_ne_none t ((h t).mp ht).symm

/-- A step of one thread keeps the owner field right. -/
theorem Owned.step {holds holds' : θ → Prop} {m m' : Option θ} {t : θ} (h : Owned holds m)
    (hs : LockStep t (holds t) (holds' t) m m') (hframe : ∀ u, u ≠ t → (holds' u ↔ holds u)) :
    Owned holds' m' := by
  intro u
  rcases eq_or_ne u t with rfl | hu
  · cases hs with
    | keep _ hk => rw [hk]; exact h u
    | acquire ha => simp [ha]
    | release _ _ hr => simp [hr]
  · rw [hframe u hu]
    cases hs with
    | keep => exact h u
    | acquire =>
      have hfree := h.not_holds u
      simp [hfree, hu.symm]
    | release _ ht =>
      have hne : ¬ holds u := fun huu => hu (h.unique huu ht)
      simp [hne]

/-- A step that changes neither who is inside nor the owner field. -/
theorem Owned.congr {holds holds' : θ → Prop} {m m' : Option θ} (h : Owned holds m)
    (hm : m' = m) (hframe : ∀ u, holds' u ↔ holds u) : Owned holds' m' := by
  intro u
  rw [hframe u, hm]
  exact h u

/-! ## Circular waits -/

/-- A circular wait: a nonempty set of threads, each holding a lock and blocked
on a lock that another thread of the set holds. -/
def CircularWait (holds wants : θ → μ → Prop) : Prop :=
  ∃ S : Set θ, S.Nonempty ∧
    ∀ t ∈ S, (∃ m, holds t m) ∧ ∃ m, wants t m ∧ ∃ u ∈ S, u ≠ t ∧ holds u m

/-- **The lock-order argument.**  If whoever holds a lock that is waited for only
waits for locks of higher rank, and ranks are bounded, there is no circular wait.
Of a lock waited for inside a circular wait something more is known: its holder
waits for a lock whose holder waits too; the order may use that. -/
theorem not_circularWait {holds wants : θ → μ → Prop} (rank : μ → ℕ) (bound : ℕ)
    (hbound : ∀ m, rank m ≤ bound)
    (horder : ∀ t u v m m' m'', wants t m → holds u m → wants u m' → holds v m' → wants v m'' →
      rank m < rank m') :
    ¬ CircularWait holds wants := by
  rintro ⟨S, ⟨t₀, ht₀⟩, hS⟩
  -- climbing the chain of holders, the rank waited for grows past every bound
  have climb : ∀ n, ∃ t ∈ S, ∃ m, wants t m ∧ (∃ u ∈ S, u ≠ t ∧ holds u m) ∧ n ≤ rank m := by
    intro n
    induction n with
    | zero =>
      obtain ⟨-, m, hm, hu⟩ := hS t₀ ht₀
      exact ⟨t₀, ht₀, m, hm, hu, Nat.zero_le _⟩
    | succ n ih =>
      obtain ⟨t, -, m, hm, ⟨u, hu, -, hum⟩, hn⟩ := ih
      obtain ⟨-, m', hm', v, hv, hvu, hvm⟩ := hS u hu
      obtain ⟨-, m'', hm'', -⟩ := hS v hv
      have hlt : rank m < rank m' := horder t u v m m' m'' hm hum hm' hvm hm''
      exact ⟨u, hu, m', hm', ⟨v, hv, hvu, hvm⟩, by omega⟩
  obtain ⟨t, -, m, -, -, hm⟩ := climb (bound + 1)
  have := hbound m
  omega
