/-
# Auxiliary variables

A value that the program never looks at, which the actions of a run update
(`auxiliary`), and assertions about it.  `KeepsWith.holds` is the proof rule: what
holds of the auxiliary value and the shared state between any two actions, next to
what each call asserts of them by its local state, holds along every run if the
actions of a call carry both on and leave alone what the other calls assert.
-/
import RedisStateManager.Callers

open Program

namespace Service

variable {A : Type*} {R : A → Type*} {σ χ ω ρ : Type*} {V : Service A R σ χ ω ρ}
variable {γ : Type*} (upd : γ → σ → A → χ → γ)

/-- The auxiliary value after one step. -/
def auxiliaryStep (g : γ) (s : V.State) : V.Label → γ
  | .act _ a choice => upd g s.shared a choice
  | .call _ _ | .ret _ _ _ => g

/-- The auxiliary value after the steps of a list of labels. -/
def auxiliary : γ → List V.Label → V.State → γ
  | g, [], _ => g
  | g, a :: tr, s => auxiliary (auxiliaryStep upd g s a) tr (next a s)

theorem auxiliary_append (g : γ) (tr tr' : List V.Label) (s : V.State) :
    auxiliary upd g (tr ++ tr') s =
      auxiliary upd (auxiliary upd g tr s) tr' (V.system.after tr s) := by
  induction tr generalizing g s with
  | nil => rfl
  | cons a tr ih => exact ih _ _

/-- The last step of a run updates the value in the state before it. -/
theorem auxiliary_snoc {g : γ} {tr : List V.Label} {s₀ s : V.State}
    (h : V.system.Run s₀ tr s) (a : V.Label) :
    auxiliary upd g (tr ++ [a]) s₀ = auxiliaryStep upd (auxiliary upd g tr s₀) s a := by
  rw [auxiliary_append, h.after_eq]
  rfl

namespace Discipline

variable {τ : Type*} (D : V.Discipline τ)

/-- Every call in progress is at a local state for which the assertion holds. -/
def HoldsWith (L : ω → ℕ → τ → γ → σ → Prop) (g : γ) (s : V.State) : Prop :=
  ∀ i call, s.callers i = some call → ∃ t, D.At call t ∧ L call.operation i t g s.shared

/-- What makes `G` hold along the runs whose steps meet `C`, and `L` of every call in
progress: the call's own actions carry both on (`own`), and an action of another thread
`j` leaves the assertion of the call alone (`other`). -/
structure KeepsWith (G : γ → σ → Prop) (L : ω → ℕ → τ → γ → σ → Prop)
    (C : V.State → V.Label → Prop) : Prop where
  start : ∀ op i g s, L op i D.start g s
  own : ∀ g s i call t b choice, s.callers i = some call → D.At call t →
    Enabled (.act i b choice) s → C s (.act i b choice) → G g s.shared →
    L call.operation i t g s.shared → (D.protocol call.operation).Allowed t b →
    (D.protocol call.operation).Possible t b (V.answer s.shared choice b) ∧
    G (upd g s.shared b choice) (V.perform i s.shared choice b) ∧
    L call.operation i ((D.protocol call.operation).after t b (V.answer s.shared choice b))
      (upd g s.shared b choice) (V.perform i s.shared choice b)
  other : ∀ g s i j call call' t u b choice, i ≠ j → s.callers i = some call → D.At call t →
    s.callers j = some call' → Enabled (.act j b choice) s → C s (.act j b choice) →
    G g s.shared → L call.operation i t g s.shared → L call'.operation j u g s.shared →
    (D.protocol call'.operation).Allowed u b →
    L call.operation i t (upd g s.shared b choice) (V.perform j s.shared choice b)

variable {upd} {D} {G : γ → σ → Prop} {L : ω → ℕ → τ → γ → σ → Prop}
  {C : V.State → V.Label → Prop}

/-- **One step keeps the assertions.** -/
theorem KeepsWith.next (hL : D.KeepsWith upd G L C) {g : γ} {s : V.State} {a : V.Label}
    (hG : G g s.shared) (hs : D.HoldsWith L g s) (h : Enabled a s) (hC : C s a) :
    G (auxiliaryStep upd g s a) (Service.next a s).shared ∧
      D.HoldsWith L (auxiliaryStep upd g s a) (Service.next a s) := by
  constructor
  · cases a with
    | act i b choice =>
      obtain ⟨call, hcall, hhead⟩ := State.head?_eq_some.mp h.1
      obtain ⟨t, hat, ht⟩ := hs i call hcall
      exact (hL.own g s i call t b choice hcall hat h hC hG ht (hat.allowed hhead)).2.1
    | _ => exact hG
  · intro i call hcall
    rcases call_next h hcall with ⟨hne, hcall'⟩ | ⟨op, rfl, -, rfl⟩ |
      ⟨call', b, choice, rfl, hcall', hhead, -, rfl⟩
    · obtain ⟨t, hat, ht⟩ := hs i call hcall'
      refine ⟨t, hat, ?_⟩
      cases a with
      | act j b choice =>
        obtain ⟨call', hj, hhead⟩ := State.head?_eq_some.mp h.1
        obtain ⟨u, hu, hLu⟩ := hs j call' hj
        exact hL.other g s i j call call' t u b choice hne hcall' hat hj h hC hG ht hLu
          (hu.allowed hhead)
      | _ => exact ht
    · exact ⟨D.start, D.obeys op, hL.start op i _ _⟩
    · obtain ⟨t, hat, ht⟩ := hs i call' hcall'
      obtain ⟨hp, -, ht'⟩ :=
        hL.own g s i call' t b choice hcall' hat h hC hG ht (hat.allowed hhead)
      exact ⟨_, Obeys.step hat hhead hp, ht'⟩

/-- **Runs keep the assertions.** -/
theorem KeepsWith.holds (hL : D.KeepsWith upd G L C) {g : γ} {shared : σ} (hG : G g shared)
    {tr : List V.Label} {s : V.State}
    (h : V.system.RunBy (fun _ => C) (V.start shared) tr s) :
    G (auxiliary upd g tr (V.start shared)) s.shared ∧
      D.HoldsWith L (auxiliary upd g tr (V.start shared)) s := by
  refine h.induct (P := fun tr s => G (auxiliary upd g tr (V.start shared)) s.shared ∧
    D.HoldsWith L (auxiliary upd g tr (V.start shared)) s) ?_ ?_
  · exact ⟨hG, fun _ _ hcall => absurd hcall (by simp [Service.start])⟩
  · intro tr s a hr hs ha hC
    rw [auxiliary_snoc upd hr.run]
    exact hL.next hs.1 hs.2 ha hC

end Discipline

end Service
