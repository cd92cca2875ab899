/-
# Calls of bounded length

`p.Within n`: the program issues at most `n` actions, whatever the replies; a bound that
depends on the replies is a `counting` protocol.  In a service all of whose programs are
bounded, `Budget` bounds what the calls in progress have left; every step but the start of a
call uses it up (`Budget.next`), so a run that starts no call is bounded by the sum of the
budgets (`length_le`), and every reachable state has such budgets (`exists_budget`).
-/
import Mathlib.Algebra.BigOperators.Group.Finset.Piecewise
import RedisStateManager.Callers

universe u v w

namespace Program

variable {A : Type u} {R : A → Type v} {α β : Type w}

/-- The program issues at most `n` actions. -/
def Within : Program A R α → ℕ → Prop
  | ret _, _ => True
  | act _ k, n => 0 < n ∧ ∀ r, (k r).Within (n - 1)

theorem within_ret (x : α) (n : ℕ) : (ret x : Program A R α).Within n := trivial

theorem within_act {a : A} {k : R a → Program A R α} {n : ℕ} (h : ∀ r, (k r).Within n) :
    (act a k).Within (n + 1) :=
  ⟨Nat.succ_pos n, h⟩

/-- One action, and what its reply is given to. -/
theorem within_act_ret_bind {R : A → Type w} {a : A} {f : R a → Program A R β} {n : ℕ}
    (h : ∀ r, (f r).Within n) : ((act a ret : Program A R (R a)) >>= f).Within (n + 1) :=
  within_act h

theorem Within.mono {p : Program A R α} {n m : ℕ} (h : p.Within n) (hnm : n ≤ m) :
    p.Within m := by
  induction p generalizing n m with
  | ret x => trivial
  | act a k ih =>
    refine ⟨?_, fun r => ih r (h.2 r) ?_⟩
    · have hpos := h.1
      omega
    · omega

/-- **Sequencing.** -/
theorem Within.bind {p : Program A R α} {f : α → Program A R β} {n m : ℕ} (h : p.Within n)
    (hf : ∀ x, (f x).Within m) : (p >>= f).Within (n + m) := by
  induction p generalizing n with
  | ret x => exact (hf x).mono (by omega)
  | act a k ih =>
    refine ⟨?_, fun r => (ih r (h.2 r)).mono ?_⟩
    · have hpos := h.1
      omega
    · have hpos := h.1
      omega

theorem Within.map {p : Program A R α} {n : ℕ} (h : p.Within n) (f : α → β) :
    (f <$> p).Within n :=
  Within.bind (m := 0) h fun x => within_ret (f x) 0

/-- A program has some actions left, where the replies are in `Q`. -/
def counting (Q : (a : A) → R a → Prop) : Protocol A R ℕ where
  Allowed n _ := 0 < n
  Possible _ := Q
  after n _ _ := n - 1

theorem counting_mono {Q : (a : A) → R a → Prop} {p : Program A R α} {c n m : ℕ}
    (h : p.Obeys (counting Q) (fun _ l => c ≤ l) n) (hnm : n ≤ m) :
    p.Obeys (counting Q) (fun _ l => c ≤ l) m := by
  induction p generalizing n m with
  | ret x => exact Nat.le_trans h hnm
  | act a k ih =>
    exact ⟨Nat.lt_of_lt_of_le h.1 hnm, fun r hr => ih r (h.2 r hr) (Nat.sub_le_sub_right hnm 1)⟩

/-- A bounded program leaves the rest. -/
theorem Within.counting {Q : (a : A) → R a → Prop} {p : Program A R α} {n : ℕ} (h : p.Within n)
    (c : ℕ) : p.Obeys (counting Q) (fun _ l => c ≤ l) (n + c) := by
  induction p generalizing n with
  | ret x => exact Nat.le_add_left c n
  | act a k ih =>
    have hpos := h.1
    refine ⟨Nat.add_pos_left hpos c, fun r _ => ?_⟩
    show (k r).Obeys _ _ (n + c - 1)
    rw [show n + c - 1 = n - 1 + c by omega]
    exact ih r (h.2 r)

/-- One action later. -/
theorem Within.step {p : Program A R α} {n : ℕ} (h : p.Within n) {a : A}
    (ha : p.head? = some a) (f : ∀ a, R a) : 0 < n ∧ (p.step f).Within (n - 1) := by
  cases p with
  | ret x => exact absurd ha (by simp [head?])
  | act b k => exact ⟨h.1, h.2 (f b)⟩

end Program

open Program

namespace Service

variable {A : Type*} {R : A → Type*} {σ χ ω ρ : Type*} {V : Service A R σ χ ω ρ}

def Label.isCall : V.Label → Bool
  | .call _ _ => true
  | .act _ _ _ | .ret _ _ _ => false

/-- The calls in progress are those of threads in `S`, and thread `i` has at most `b i`
steps to make, its return among them. -/
def Budget (S : Finset ℕ) (b : ℕ → ℕ) (s : V.State) : Prop :=
  ∀ i call, s.callers i = some call → i ∈ S ∧ 0 < b i ∧ call.rest.Within (b i - 1)

variable {S : Finset ℕ} {b : ℕ → ℕ} {s : V.State} {a : V.Label}

/-- A step of a call in progress is paid for by the budget of its thread. -/
theorem Budget.next (hs : Budget S b s) (ha : V.system.Enabled a s) (hcall : a.isCall = false) :
    a.caller ∈ S ∧ 0 < b a.caller ∧
      Budget S (Function.update b a.caller (b a.caller - 1)) (V.system.next a s) := by
  -- the other threads keep their calls and their budgets
  have hother (i : ℕ) (hi : i ≠ a.caller) (call : V.Call)
      (hc : (Service.next a s).callers i = some call) :
      i ∈ S ∧ 0 < Function.update b a.caller (b a.caller - 1) i ∧
        call.rest.Within (Function.update b a.caller (b a.caller - 1) i - 1) := by
    rw [callers_next_of_ne hi] at hc
    rw [Function.update_of_ne hi]
    exact hs i call hc
  cases a with
  | call i op => exact absurd hcall (by simp [Label.isCall])
  | act i x choice =>
    obtain ⟨call, hc, hhead⟩ := State.head?_eq_some.mp ha.1
    obtain ⟨hS, hpos, hwithin⟩ := hs i call hc
    obtain ⟨hpos', hrest⟩ := hwithin.step hhead (V.answer s.shared choice)
    refine ⟨hS, hpos, fun j call' hj => ?_⟩
    by_cases hji : j = i
    · subst hji
      have hcall' := Option.some.inj ((callers_act hc x choice).symm.trans hj)
      subst hcall'
      rw [show (Label.act j x choice : V.Label).caller = j from rfl, Function.update_self]
      exact ⟨hS, hpos', hrest⟩
    · exact hother j hji call' hj
  | ret i op r =>
    obtain ⟨call, hc, -⟩ := Option.bind_eq_some_iff.mp ha
    obtain ⟨hS, hpos, -⟩ := hs i call hc
    refine ⟨hS, hpos, fun j call' hj => ?_⟩
    by_cases hji : j = i
    · subst hji
      have hnone : (Service.next (.ret j op r) s).callers j = none := Function.update_self ..
      exact absurd (hnone.symm.trans hj) (by simp)
    · exact hother j hji call' hj

/-- Spending one step lowers the sum of the budgets by one. -/
theorem sum_update_pred {i : ℕ} (hi : i ∈ S) (hb : 0 < b i) :
    ∑ j ∈ S, Function.update b i (b i - 1) j + 1 = ∑ j ∈ S, b j := by
  rw [Finset.sum_update_of_mem hi, Finset.sum_eq_add_sum_sdiff_singleton_of_mem hi b]
  omega

/-- **A run that starts no call** is no longer than the sum of the budgets. -/
theorem length_le (hs : Budget S b s) {tr : List V.Label} {s' : V.State}
    (h : V.system.Run s tr s') (hcalls : ∀ a ∈ tr, a.isCall = false) :
    tr.length ≤ ∑ i ∈ S, b i := by
  have hspent : ∃ b', Budget S b' s' ∧ tr.length + ∑ i ∈ S, b' i = ∑ i ∈ S, b i := by
    induction h with
    | nil => exact ⟨b, hs, Nat.zero_add _⟩
    | @snoc tr s' a _ ha ih =>
      obtain ⟨b', hb', hsum⟩ := ih fun c hc => hcalls c (List.mem_append_left _ hc)
      have hcall := hcalls a (List.mem_append_right _ (List.mem_singleton_self a))
      obtain ⟨hS, hpos, hnext⟩ := hb'.next ha hcall
      refine ⟨_, hnext, ?_⟩
      have hstep := sum_update_pred hS hpos
      rw [List.length_append, List.length_singleton]
      omega
  obtain ⟨b', -, hsum⟩ := hspent
  omega

/-- **Every reachable state has budgets** if the programs are bounded. -/
theorem exists_budget {N : ω → ℕ} (hN : ∀ op, (V.procedure op).Within (N op)) {shared : σ}
    {tr : List V.Label} (h : V.system.Run (V.start shared) tr s) : ∃ S b, Budget S b s := by
  refine h.invariant (I := fun s => ∃ S b, Budget S b s) ⟨∅, fun _ => 0, ?_⟩ ?_
  · intro i call hc
    exact absurd hc (by simp [start])
  · rintro a s ⟨S, b, hs⟩ ha
    cases hcall : a.isCall with
    | false => exact ⟨S, _, (hs.next ha hcall).2.2⟩
    | true =>
      cases a with
      | call i op =>
        refine ⟨insert i S, Function.update b i (N op + 1), fun j call hj => ?_⟩
        by_cases hji : j = i
        · subst hji
          have hnew : (Service.next (.call j op) s).callers j = some ⟨op, V.procedure op⟩ :=
            Function.update_self ..
          obtain rfl := Option.some.inj (hnew.symm.trans hj)
          rw [Function.update_self]
          exact ⟨Finset.mem_insert_self .., Nat.succ_pos _, hN op⟩
        · have hkept : (Service.next (.call i op) s).callers j = s.callers j :=
            Function.update_of_ne hji ..
          obtain ⟨hS, hpos, hwithin⟩ := hs j call (hkept.symm.trans hj)
          rw [Function.update_of_ne hji]
          exact ⟨Finset.mem_insert_of_mem hS, hpos, hwithin⟩
      | _ => exact absurd hcall (by simp [Label.isCall])

end Service
