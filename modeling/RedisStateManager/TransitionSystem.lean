/-
# Guarded transition systems and their runs

A labelled transition system is given by a guard and an effect for each label:
the label says which thread moves and how a choice left open by the program was
made (which waiter a notification wakes, whether a command failed), so the
effect is a function of the label and the state.  A run is then determined by
its start and its list of labels, and that list is the history a property may
speak about; no history variable has to be added to the state.

* `Run` and `RunBy C` are the runs, the latter with every step meeting the
  condition `C` on the history, the state before the step and the label.
* `Run.invariant` and `RunBy.induct` are the two induction rules.
* `Legal` and `after` evaluate a list of labels, so that a concrete run is
  checked by `decide`.
* `Since E R` says of a history that a step has met `E`, and none after it `R`.
-/
import Mathlib.Data.List.Induction
import Mathlib.Tactic.Common

universe u v w

/-- A transition system: when a label may happen, and the state it leads to. -/
structure TransitionSystem (σ : Type u) (ℓ : Type v) where
  Enabled : ℓ → σ → Prop
  next : ℓ → σ → σ

/-- One row of a thread's control table: the control point it starts at, the
guard on the shared state, the control point it leads to, and the shared state
afterwards. -/
structure Move (κ : Type u) (σ : Type v) where
  source : κ
  guard : Prop
  target : κ
  effect : σ

namespace TransitionSystem

variable {σ : Type u} {ℓ : Type v} (T : TransitionSystem σ ℓ)

/-! ## Runs -/

/-- `T.Run s₀ tr s`: the labels `tr`, in this order, lead from `s₀` to `s`. -/
inductive Run (s₀ : σ) : List ℓ → σ → Prop
  | nil : Run s₀ [] s₀
  | snoc {tr : List ℓ} {s : σ} {a : ℓ} :
      Run s₀ tr s → T.Enabled a s → Run s₀ (tr ++ [a]) (T.next a s)

/-- The runs each of whose steps meets `C`, a condition on the labels so far,
the state before the step and its label. -/
inductive RunBy (C : List ℓ → σ → ℓ → Prop) (s₀ : σ) : List ℓ → σ → Prop
  | nil : RunBy C s₀ [] s₀
  | snoc {tr : List ℓ} {s : σ} {a : ℓ} :
      RunBy C s₀ tr s → T.Enabled a s → C tr s a → RunBy C s₀ (tr ++ [a]) (T.next a s)

variable {T} {C : List ℓ → σ → ℓ → Prop} {s₀ : σ}

theorem RunBy.run {tr : List ℓ} {s : σ} (h : T.RunBy C s₀ tr s) : T.Run s₀ tr s := by
  induction h with
  | nil => exact .nil
  | snoc _ ha _ ih => exact .snoc ih ha

/-- Strengthening the step condition. -/
theorem RunBy.mono {C' : List ℓ → σ → ℓ → Prop} {tr : List ℓ} {s : σ}
    (h : T.RunBy C s₀ tr s) (hC : ∀ tr s a, T.Enabled a s → C tr s a → C' tr s a) :
    T.RunBy C' s₀ tr s := by
  induction h with
  | nil => exact .nil
  | snoc _ ha hc ih => exact .snoc ih ha (hC _ _ _ ha hc)

/-- The last step of a nonempty run. -/
theorem Run.snoc_inv {tr : List ℓ} {a : ℓ} {s : σ} (h : T.Run s₀ (tr ++ [a]) s) :
    ∃ u, T.Run s₀ tr u ∧ T.Enabled a u ∧ s = T.next a u := by
  generalize hl : tr ++ [a] = l at h
  cases h with
  | nil => simp at hl
  | snoc hr ha =>
    obtain ⟨rfl, hab⟩ := List.append_inj' hl rfl
    cases hab
    exact ⟨_, hr, ha, rfl⟩

theorem RunBy.snoc_inv {tr : List ℓ} {a : ℓ} {s : σ} (h : T.RunBy C s₀ (tr ++ [a]) s) :
    ∃ u, T.RunBy C s₀ tr u ∧ T.Enabled a u ∧ C tr u a ∧ s = T.next a u := by
  generalize hl : tr ++ [a] = l at h
  cases h with
  | nil => simp at hl
  | snoc hr ha hc =>
    obtain ⟨rfl, hab⟩ := List.append_inj' hl rfl
    cases hab
    exact ⟨_, hr, ha, hc, rfl⟩

/-- A run is determined by its labels. -/
theorem Run.unique {tr : List ℓ} {s s' : σ} (h : T.Run s₀ tr s) (h' : T.Run s₀ tr s') :
    s = s' := by
  induction h generalizing s' with
  | nil =>
    generalize hl : ([] : List ℓ) = l at h'
    cases h' with
    | nil => rfl
    | snoc => simp at hl
  | snoc _ _ ih =>
    obtain ⟨u, hu, -, rfl⟩ := h'.snoc_inv
    rw [ih hu]

/-- Runs compose. -/
theorem Run.append {s₁ s₂ : σ} {tr tr' : List ℓ} (h : T.Run s₀ tr s₁) (h' : T.Run s₁ tr' s₂) :
    T.Run s₀ (tr ++ tr') s₂ := by
  induction h' with
  | nil => simpa using h
  | snoc _ ha ih => rw [← List.append_assoc]; exact .snoc ih ha

/-- A run passes through a state after each prefix of its labels. -/
theorem Run.split {pre post : List ℓ} {s : σ} (h : T.Run s₀ (pre ++ post) s) :
    ∃ u, T.Run s₀ pre u ∧ T.Run u post s := by
  induction post using List.reverseRecOn generalizing s with
  | nil => exact ⟨s, by simpa using h, .nil⟩
  | append_singleton post a ih =>
    rw [← List.append_assoc] at h
    obtain ⟨v, hv, ha, rfl⟩ := h.snoc_inv
    obtain ⟨u, hu, huv⟩ := ih hv
    exact ⟨u, hu, .snoc huv ha⟩

/-- **Runs with a step condition** are the runs in which every step, taken in
the state its prefix leads to, meets the condition. -/
theorem runBy_iff {tr : List ℓ} {s : σ} :
    T.RunBy C s₀ tr s ↔ T.Run s₀ tr s ∧
      ∀ pre a post u, tr = pre ++ a :: post → T.Run s₀ pre u → C pre u a := by
  constructor
  · intro h
    refine ⟨h.run, ?_⟩
    induction h with
    | nil => intro pre a post u hl; simp at hl
    | @snoc tr s b hr hb hc ih =>
      intro pre a post u hl hu
      rcases List.eq_nil_or_concat post with rfl | ⟨post, b', rfl⟩
      · obtain ⟨rfl, hab⟩ := List.append_inj' hl rfl
        cases hab
        rwa [hu.unique hr.run]
      · rw [List.concat_eq_append, ← List.cons_append, ← List.append_assoc] at hl
        exact ih pre a post u (List.append_inj' hl rfl).1 hu
  · rintro ⟨h, hC⟩
    induction h with
    | nil => exact .nil
    | @snoc tr s b hr hb ih =>
      refine .snoc (ih fun pre a post u hl hu => ?_) hb (hC tr b [] s rfl hr)
      exact hC pre a (post ++ [b]) u (by rw [hl]; simp) hu

/-- A run of labels that meet the condition wherever they stand. -/
theorem Run.runBy_of_forall {tr : List ℓ} {s : σ} (h : T.Run s₀ tr s)
    (hC : ∀ a ∈ tr, ∀ pre u, C pre u a) : T.RunBy C s₀ tr s := by
  refine runBy_iff.mpr ⟨h, fun pre a post u htr _ => hC a ?_ pre u⟩
  rw [htr]
  exact List.mem_append_right _ List.mem_cons_self

/-- Runs with a step condition compose. -/
theorem RunBy.append {tr tr' : List ℓ} {u s : σ} (h : T.RunBy C s₀ tr u)
    (h' : T.RunBy (fun tr' => C (tr ++ tr')) u tr' s) : T.RunBy C s₀ (tr ++ tr') s := by
  induction h' with
  | nil => simpa using h
  | snoc _ ha hc ih =>
    rw [← List.append_assoc]
    exact .snoc ih ha hc

/-- A run with a step condition passes through a state after each prefix. -/
theorem RunBy.split {pre post : List ℓ} {s : σ} (h : T.RunBy C s₀ (pre ++ post) s) :
    ∃ u, T.RunBy C s₀ pre u ∧ T.RunBy (fun tr => C (pre ++ tr)) u post s := by
  induction post using List.reverseRecOn generalizing s with
  | nil => exact ⟨s, by simpa using h, .nil⟩
  | append_singleton post a ih =>
    rw [← List.append_assoc] at h
    obtain ⟨v, hv, ha, hc, rfl⟩ := h.snoc_inv
    obtain ⟨u, hu, hpost⟩ := ih hv
    exact ⟨u, hu, .snoc hpost ha hc⟩

/-- A run with a step condition passes through each of its steps. -/
theorem RunBy.split_cons {pre post : List ℓ} {a : ℓ} {s : σ}
    (h : T.RunBy C s₀ (pre ++ a :: post) s) :
    ∃ u, T.RunBy C s₀ pre u ∧ T.Enabled a u ∧ C pre u a ∧
      T.RunBy (fun tr => C (pre ++ [a] ++ tr)) (T.next a u) post s := by
  rw [← List.singleton_append, ← List.append_assoc] at h
  obtain ⟨v, hv, hpost⟩ := h.split
  obtain ⟨u, hu, ha, hc, rfl⟩ := hv.snoc_inv
  exact ⟨u, hu, ha, hc, hpost⟩

/-- Two step conditions that both hold. -/
theorem RunBy.and {D : List ℓ → σ → ℓ → Prop} {tr : List ℓ} {s : σ} (hC : T.RunBy C s₀ tr s)
    (hD : T.RunBy D s₀ tr s) : T.RunBy (fun tr s a => C tr s a ∧ D tr s a) s₀ tr s := by
  rw [runBy_iff] at hC hD ⊢
  exact ⟨hC.1, fun pre a post u hl hu => ⟨hC.2 pre a post u hl hu, hD.2 pre a post u hl hu⟩⟩

/-! ## Induction over runs -/

/-- **History induction**: a property of the labels so far and the state they
lead to holds of every run if it holds at the start and every step keeps it. -/
theorem RunBy.induct {P : List ℓ → σ → Prop} (h₀ : P [] s₀)
    (hstep : ∀ tr s a, T.RunBy C s₀ tr s → P tr s → T.Enabled a s → C tr s a →
      P (tr ++ [a]) (T.next a s))
    {tr : List ℓ} {s : σ} (h : T.RunBy C s₀ tr s) : P tr s := by
  induction h with
  | nil => exact h₀
  | snoc hr ha hc ih => exact hstep _ _ _ hr ih ha hc

/-- A property of states that holds at the start and is kept by every step
holds along every run. -/
theorem Run.invariant {I : σ → Prop} (h₀ : I s₀)
    (hstep : ∀ a s, I s → T.Enabled a s → I (T.next a s))
    {tr : List ℓ} {s : σ} (h : T.Run s₀ tr s) : I s := by
  induction h with
  | nil => exact h₀
  | snoc _ ha ih => exact hstep _ _ ih ha

/-- The history form of `Run.invariant`. -/
theorem Run.induct {P : List ℓ → σ → Prop} (h₀ : P [] s₀)
    (hstep : ∀ tr s a, T.Run s₀ tr s → P tr s → T.Enabled a s → P (tr ++ [a]) (T.next a s))
    {tr : List ℓ} {s : σ} (h : T.Run s₀ tr s) : P tr s := by
  induction h with
  | nil => exact h₀
  | snoc hr ha ih => exact hstep _ _ _ hr ih ha

/-- A run passes through each of its steps. -/
theorem Run.split_cons {pre post : List ℓ} {a : ℓ} {s : σ} (h : T.Run s₀ (pre ++ a :: post) s) :
    ∃ u, T.Run s₀ pre u ∧ T.Enabled a u ∧ T.Run (T.next a u) post s := by
  rw [← List.singleton_append, ← List.append_assoc] at h
  obtain ⟨v, hv, hpost⟩ := h.split
  obtain ⟨u, hu, ha, rfl⟩ := hv.snoc_inv
  exact ⟨u, hu, ha, hpost⟩

/-! ## Components -/

/-- The step of a component that has a part in a step of the whole, or none. -/
def EnabledOn (b : Option ℓ) (s : σ) : Prop := ∀ a, b = some a → T.Enabled a s

def nextOn (b : Option ℓ) (s : σ) : σ := b.elim s (T.next · s)

theorem enabledOn_none {s : σ} : T.EnabledOn none s := fun _ ha => by cases ha

theorem enabledOn_some {a : ℓ} {s : σ} : T.EnabledOn (some a) s ↔ T.Enabled a s :=
  ⟨fun h => h a rfl, fun h _ ha => Option.some.inj ha ▸ h⟩

instance [∀ a s, Decidable (T.Enabled a s)] :
    ∀ (b : Option ℓ) (s : σ), Decidable (T.EnabledOn b s)
  | none, _ => isTrue enabledOn_none
  | some a, s => decidable_of_iff (T.Enabled a s) enabledOn_some.symm

/-- **A run of the whole is a run of each component**, which takes its part in the
steps that have one. -/
theorem Run.component {σ' : Type*} {ℓ' : Type*} {T : TransitionSystem σ ℓ}
    {U : TransitionSystem σ' ℓ'} {f : σ → σ'} {part : ℓ → Option ℓ'} {s₀ : σ}
    (hstep : ∀ a s, T.Enabled a s → U.EnabledOn (part a) (f s) ∧
      f (T.next a s) = U.nextOn (part a) (f s))
    {tr : List ℓ} {s : σ} (h : T.Run s₀ tr s) : U.Run (f s₀) (tr.filterMap part) (f s) := by
  induction h with
  | nil => exact .nil
  | @snoc tr s a hr ha ih =>
    obtain ⟨henabled, hnext⟩ := hstep a s ha
    rw [hnext, List.filterMap_append]
    cases hpart : part a with
    | none => simpa [hpart, nextOn] using ih
    | some b => simpa [hpart, nextOn] using ih.snoc (henabled b hpart)

/-! ## Evaluating a list of labels -/

variable (T)

/-- The state a list of labels leads to, whether or not each was enabled. -/
@[simp] def after : List ℓ → σ → σ
  | [], s => s
  | a :: tr, s => after tr (T.next a s)

/-- Each label of the list is enabled when its turn comes. -/
@[simp] def Legal : List ℓ → σ → Prop
  | [], _ => True
  | a :: tr, s => T.Enabled a s ∧ Legal tr (T.next a s)

instance decidableLegal [∀ a s, Decidable (T.Enabled a s)] :
    ∀ (tr : List ℓ) (s : σ), Decidable (T.Legal tr s)
  | [], _ => isTrue trivial
  | a :: tr, s =>
    have := decidableLegal tr (T.next a s)
    inferInstanceAs (Decidable (T.Enabled a s ∧ T.Legal tr (T.next a s)))

variable {T}

theorem Run.cons {s : σ} {a : ℓ} {tr : List ℓ} {s' : σ} (ha : T.Enabled a s)
    (h : T.Run (T.next a s) tr s') : T.Run s (a :: tr) s' := by
  have hstep : T.Run s [a] (T.next a s) := .snoc .nil ha
  exact hstep.append h

theorem after_append (tr tr' : List ℓ) (s : σ) :
    T.after (tr ++ tr') s = T.after tr' (T.after tr s) := by
  induction tr generalizing s with
  | nil => rfl
  | cons a tr ih => exact ih _

theorem legal_append {tr tr' : List ℓ} {s : σ} :
    T.Legal (tr ++ tr') s ↔ T.Legal tr s ∧ T.Legal tr' (T.after tr s) := by
  induction tr generalizing s with
  | nil => exact (iff_of_eq (true_and _)).symm
  | cons a tr ih => exact (and_congr_right fun _ => ih).trans and_assoc.symm

/-- A legal list of labels is a run to the state it evaluates to. -/
theorem run_of_legal {tr : List ℓ} {s : σ} (h : T.Legal tr s) : T.Run s tr (T.after tr s) := by
  induction tr generalizing s with
  | nil => exact .nil
  | cons a tr ih => exact .cons h.1 (ih h.2)

/-- The labels of a run lead to its last state. -/
theorem Run.after_eq {tr : List ℓ} {s : σ} (h : T.Run s₀ tr s) : T.after tr s₀ = s := by
  induction h with
  | nil => rfl
  | snoc _ _ ih =>
    rw [after_append, ih]
    rfl

/-! ## Observations -/

variable (T) in
/-- What `f` sees in the steps of a list of labels, in order. -/
def observe {β : Type w} (f : σ → ℓ → Option β) : List ℓ → σ → List β
  | [], _ => []
  | a :: tr, s => (f s a).toList ++ observe f tr (T.next a s)

theorem observe_append {β : Type w} (f : σ → ℓ → Option β) (tr tr' : List ℓ) (s : σ) :
    T.observe f (tr ++ tr') s = T.observe f tr s ++ T.observe f tr' (T.after tr s) := by
  induction tr generalizing s with
  | nil => rfl
  | cons a tr ih =>
    rw [List.cons_append, observe, observe, ih, List.append_assoc]
    rfl

/-- The last step of a run is observed in the state before it. -/
theorem Run.observe_snoc {β : Type w} (f : σ → ℓ → Option β) {tr : List ℓ} {s : σ}
    (h : T.Run s₀ tr s) (a : ℓ) :
    T.observe f (tr ++ [a]) s₀ = T.observe f tr s₀ ++ (f s a).toList := by
  rw [observe_append, h.after_eq]
  exact congrArg _ (List.append_nil _)

/-! ## What has happened since -/

variable (T) in
/-- Among the steps of the labels there is one that meets `E`, and none after it
meets `R`. -/
inductive Since (E R : σ → ℓ → Prop) (s₀ : σ) : List ℓ → Prop
  | now {tr : List ℓ} {a : ℓ} : E (T.after tr s₀) a → Since E R s₀ (tr ++ [a])
  | later {tr : List ℓ} {a : ℓ} :
      Since E R s₀ tr → ¬ R (T.after tr s₀) a → Since E R s₀ (tr ++ [a])

/-- The last step of a run is `E` itself, or leaves standing what there was. -/
theorem Run.since_snoc {E R : σ → ℓ → Prop} {tr : List ℓ} {s : σ} (h : T.Run s₀ tr s) {a : ℓ} :
    T.Since E R s₀ (tr ++ [a]) ↔ E s a ∨ T.Since E R s₀ tr ∧ ¬ R s a := by
  constructor
  · generalize hl : tr ++ [a] = l
    rintro (hE | ⟨hsince, hR⟩)
    · obtain ⟨rfl, hab⟩ := List.append_inj' hl rfl
      cases hab
      exact Or.inl (h.after_eq ▸ hE)
    · obtain ⟨rfl, hab⟩ := List.append_inj' hl rfl
      cases hab
      exact Or.inr ⟨hsince, h.after_eq ▸ hR⟩
  · rintro (hE | ⟨hsince, hR⟩)
    · exact .now (h.after_eq.symm ▸ hE)
    · exact .later hsince (h.after_eq.symm ▸ hR)

/-- What stands after two stretches has happened in the second, or stood after the first. -/
theorem Since.append {E R : σ → ℓ → Prop} {tr tr' : List ℓ} (h : T.Since E R s₀ (tr ++ tr')) :
    T.Since E R (T.after tr s₀) tr' ∨ T.Since E R s₀ tr := by
  induction tr' using List.reverseRecOn with
  | nil => exact Or.inr (by simpa using h)
  | append_singleton tr' a ih =>
    generalize hl : tr ++ (tr' ++ [a]) = l at h
    rw [← List.append_assoc] at hl
    rcases h with hE | ⟨hsince, hR⟩
    · obtain ⟨rfl, hab⟩ := List.append_inj' hl rfl
      cases hab
      exact Or.inl (.now (after_append tr tr' s₀ ▸ hE))
    · obtain ⟨rfl, hab⟩ := List.append_inj' hl rfl
      cases hab
      exact (ih hsince).imp_left fun h => .later h (after_append tr tr' s₀ ▸ hR)

variable (T)

/-- The system in which a step must also meet a condition on the state before it. -/
def restrict (C : σ → ℓ → Prop) : TransitionSystem σ ℓ where
  Enabled a s := T.Enabled a s ∧ C s a
  next := T.next

instance {C : σ → ℓ → Prop} [∀ a s, Decidable (T.Enabled a s)] [∀ s a, Decidable (C s a)] :
    ∀ a s, Decidable ((T.restrict C).Enabled a s) :=
  fun a s => inferInstanceAs (Decidable (T.Enabled a s ∧ C s a))

variable {T}

/-- A run of the restricted system is a run with a step condition. -/
theorem Run.runBy_of_restrict {D : σ → ℓ → Prop} (hD : ∀ tr s a, D s a → C tr s a)
    {tr : List ℓ} {s : σ} (h : (T.restrict D).Run s₀ tr s) : T.RunBy C s₀ tr s := by
  induction h with
  | nil => exact .nil
  | snoc _ ha ih => exact .snoc ih ha.1 (hD _ _ _ ha.2)

theorem after_restrict (D : σ → ℓ → Prop) (tr : List ℓ) (s : σ) :
    (T.restrict D).after tr s = T.after tr s := by
  induction tr generalizing s with
  | nil => rfl
  | cons a tr ih => exact ih _

/-- A list of labels that evaluates to a run with a step condition. -/
theorem runBy_of_legal {D : σ → ℓ → Prop} (hD : ∀ tr s a, D s a → C tr s a) {tr : List ℓ}
    (h : (T.restrict D).Legal tr s₀) : T.RunBy C s₀ tr (T.after tr s₀) := by
  rw [← after_restrict D]
  exact (run_of_legal h).runBy_of_restrict hD

/-- A run of the restricted system is a run. -/
theorem Run.of_restrict {D : σ → ℓ → Prop} {tr : List ℓ} {s : σ}
    (h : (T.restrict D).Run s₀ tr s) : T.Run s₀ tr s :=
  (h.runBy_of_restrict (C := fun _ _ _ => True) fun _ _ _ _ => trivial).run

end TransitionSystem
