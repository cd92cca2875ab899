/-
# Refinement

A program against a program of the level above it.  A `View` says how an action
and its reply appear above: as an action and a reply there, or not at all.  In
`p.Refines V out q` the program `p` does, seen through `V`, what `q` does, whatever
the replies, and the two end with matching values; its rules follow the
construction of `p`.  `RunBy.simulate` carries a relation between the states of two
systems over whole runs: every step of the one below is a step of the one above,
or none.
-/
import RedisStateManager.TransitionSystem
import RedisStateManager.Program

universe u v w x

namespace Program

variable {A : Type u} {R : A → Type v} {B : Type u} {S : B → Type v}

/-- How an action and its reply appear at the level above. -/
abbrev View (A : Type u) (R : A → Type v) (B : Type u) (S : B → Type v) :=
  (a : A) → R a → Option ((b : B) × S b)

/-- The program `q` of the level above, and what is left of it once the action and
reply that are seen have happened. -/
inductive Resumes {β : Type w} : Option ((b : B) × S b) → Program B S β → Program B S β → Prop
  | silent (q : Program B S β) : Resumes none q q
  | seen (b : B) (s : S b) (k : S b → Program B S β) : Resumes (some ⟨b, s⟩) (act b k) (k s)

variable {α α' β β' : Type w} (V : View A R B S)

/-- Whatever the replies, the first program does, seen through `V`, what the second
does, and ends with a value that matches. -/
def Refines (out : α → β → Prop) : Program A R α → Program B S β → Prop
  | ret x, q => ∃ y, q = ret y ∧ out x y
  | act a k, q => ∀ r, ∃ q', Resumes (V a r) q q' ∧ (k r).Refines out q'

/-- Nothing of the program is seen. -/
def Silent (p : Program A R α) : Prop :=
  p.Refines V (fun _ _ => True) (ret PUnit.unit : Program B S PUnit.{w + 1})

variable {V} {out : α → β → Prop} {out' : α' → β' → Prop}

/-! ## Rules -/

theorem refines_ret {x : α} {y : β} (h : out x y) :
    (ret x : Program A R α).Refines V out (ret y) :=
  ⟨y, rfl, h⟩

/-- An action that is not seen. -/
theorem refines_act_silent {a : A} {k : R a → Program A R α} {q : Program B S β}
    (ha : ∀ r, V a r = none) (h : ∀ r, (k r).Refines V out q) : (act a k).Refines V out q := by
  intro r
  refine ⟨q, ?_, h r⟩
  rw [ha r]
  exact .silent q

/-- An action that is seen as an action `b`. -/
theorem refines_act_seen {a : A} {k : R a → Program A R α} {b : B} {k' : S b → Program B S β}
    {f : R a → S b} (ha : ∀ r, V a r = some ⟨b, f r⟩)
    (h : ∀ r, (k r).Refines V out (k' (f r))) : (act a k).Refines V out (act b k') := by
  intro r
  refine ⟨k' (f r), ?_, h r⟩
  rw [ha r]
  exact .seen b (f r) k'

theorem Resumes.bind {e : Option ((b : B) × S b)} {q q' : Program B S β}
    (h : Resumes e q q') (g : β → Program B S β') : Resumes e (q >>= g) (q' >>= g) := by
  cases h with
  | silent q => exact .silent _
  | seen b s k => exact .seen b s fun s => k s >>= g

/-- **Sequencing.** -/
theorem Refines.bind {p : Program A R α} {q : Program B S β} {f : α → Program A R α'}
    {g : β → Program B S β'} (h : p.Refines V out q)
    (hf : ∀ x y, out x y → (f x).Refines V out' (g y)) :
    (p >>= f).Refines V out' (q >>= g) := by
  induction p generalizing q with
  | ret x =>
    obtain ⟨y, rfl, hxy⟩ := h
    exact hf x y hxy
  | act a k ih =>
    intro r
    obtain ⟨q', hq', hk⟩ := h r
    exact ⟨q' >>= g, hq'.bind g, ih r hk⟩

theorem Refines.map {p : Program A R α} {q : Program B S β} {post : α' → β → Prop}
    (h : p.Refines V out q) {f : α → α'} (hf : ∀ x y, out x y → post (f x) y) :
    (f <$> p).Refines V post q := by
  induction p generalizing q with
  | ret x =>
    obtain ⟨y, rfl, hxy⟩ := h
    exact refines_ret (hf x y hxy)
  | act a k ih =>
    intro r
    obtain ⟨q', hq', hk⟩ := h r
    exact ⟨q', hq', ih r hk⟩

/-! ## What is not seen -/

theorem silent_ret (x : α) : Silent V (ret x : Program A R α) := refines_ret trivial

theorem silent_act {a : A} {k : R a → Program A R α} (ha : ∀ r, V a r = none)
    (h : ∀ r, Silent V (k r)) : Silent V (act a k) :=
  refines_act_silent ha h

/-- What comes after a silent program is all that is seen. -/
theorem Silent.bind_refines {p : Program A R α} {f : α → Program A R α'} {q : Program B S β'}
    (h : Silent V p) (hf : ∀ x, (f x).Refines V out' q) : (p >>= f).Refines V out' q :=
  Refines.bind (g := fun _ => q) h fun x _ _ => hf x

theorem Silent.bind {p : Program A R α} {f : α → Program A R α'} (h : Silent V p)
    (hf : ∀ x, Silent V (f x)) : Silent V (p >>= f) :=
  h.bind_refines hf

/-! ## Along a run -/

theorem Refines.step {p : Program A R α} {q : Program B S β} (h : p.Refines V out q) {a : A}
    (ha : p.head? = some a) (f : ∀ a, R a) :
    ∃ q', Resumes (V a (f a)) q q' ∧ (p.step f).Refines V out q' := by
  cases p with
  | ret x => exact absurd ha (by simp [head?])
  | act b k =>
    obtain rfl : b = a := Option.some.inj ha
    exact h (f b)

theorem Refines.result {p : Program A R α} {q : Program B S β} (h : p.Refines V out q) {x : α}
    (hx : p.result? = some x) : ∃ y, q.result? = some y ∧ out x y := by
  cases p with
  | ret x' =>
    obtain rfl : x' = x := Option.some.inj hx
    obtain ⟨y, rfl, hxy⟩ := h
    exact ⟨y, rfl, hxy⟩
  | act b k => exact absurd hx (by simp [result?])

/-- Nothing has happened to a program of which nothing was seen. -/
theorem Resumes.eq_of_silent {q q' : Program B S β} (h : Resumes none q q') : q' = q := by
  cases h
  rfl

theorem Resumes.head? {b : B} {s : S b} {q q' : Program B S β} (h : Resumes (some ⟨b, s⟩) q q') :
    q.head? = some b := by
  cases h
  rfl

/-- The program above has been given the reply that was seen. -/
theorem Resumes.eq_step {b : B} {s : S b} {q q' : Program B S β}
    (h : Resumes (some ⟨b, s⟩) q q') {f : ∀ b, S b} (hf : f b = s) : q' = q.step f := by
  cases h
  subst hf
  rfl

/-! ## Protocols -/

section Protocols

variable {τ : Type x}

/-- A protocol of the level above, followed below: it constrains the actions that are
seen. -/
def Protocol.through (P : Protocol B S τ) (V : View A R B S) : Protocol A R τ where
  Allowed t a := ∀ r, ∀ e ∈ V a r, P.Allowed t e.1
  Possible t a r := ∀ e ∈ V a r, P.Possible t e.1 e.2
  after t a r := (V a r).elim t fun e => P.after t e.1 e.2

/-- **A program keeps to the protocols of the program it refines.** -/
theorem Refines.obeys {P : Protocol B S τ} {post : β → τ → Prop} {p : Program A R α}
    {q : Program B S β} {t : τ} (h : p.Refines V out q) (hq : q.Obeys P post t) :
    p.Obeys (P.through V) (fun x t' => ∃ y, out x y ∧ post y t') t := by
  induction p generalizing q t with
  | ret x =>
    obtain ⟨y, rfl, hxy⟩ := h
    exact ⟨y, hxy, hq⟩
  | act a k ih =>
    constructor
    · intro r e he
      obtain ⟨q', hq', -⟩ := h r
      rw [Option.mem_def.mp he] at hq'
      cases hq'
      exact hq.1
    · intro r hr
      obtain ⟨q', hq', hk⟩ := h r
      refine ih r hk ?_
      cases hV : V a r with
      | none =>
        rw [hV] at hq'
        obtain rfl := hq'.eq_of_silent
        simpa [Protocol.through, hV] using hq
      | some e =>
        have hpossible := hr e hV
        rw [hV] at hq'
        cases hq'
        simpa [Protocol.through, hV] using hq.2 _ hpossible

/-- Nothing happens, for a protocol of the level above, in a program that is not seen. -/
theorem Silent.obeys {P : Protocol B S τ} {p : Program A R α} {t : τ} (h : Silent V p) :
    p.Obeys (P.through V) (fun _ t' => t' = t) t := by
  have hret : (ret PUnit.unit : Program B S PUnit.{w + 1}).Obeys P (fun _ t' => t' = t) t := rfl
  refine (Refines.obeys h hret).mono ?_
  rintro x t' ⟨-, -, ht'⟩
  exact ht'

end Protocols

end Program

namespace TransitionSystem

variable {σ : Type*} {ℓ : Type*} {σ' : Type*} {ℓ' : Type*} {T : TransitionSystem σ ℓ}
  {U : TransitionSystem σ' ℓ'} {C : List ℓ → σ → ℓ → Prop} {D : List ℓ' → σ' → ℓ' → Prop}
  {Rel : σ → σ' → Prop} {see : σ → ℓ → Option ℓ'} {s₀ : σ} {u₀ : σ'}

/-- **A simulation carries over to runs**: what is seen of a run is a run of the system above. -/
theorem RunBy.simulate (h₀ : Rel s₀ u₀)
    (hstep : ∀ tr s u a, Rel s u → T.Enabled a s → C tr s a →
      U.EnabledOn (see s a) u ∧ Rel (T.next a s) (U.nextOn (see s a) u) ∧
        ∀ b, see s a = some b → D (T.observe see tr s₀) u b)
    {tr : List ℓ} {s : σ} (h : T.RunBy C s₀ tr s) :
    ∃ u, U.RunBy D u₀ (T.observe see tr s₀) u ∧ Rel s u := by
  induction h with
  | nil => exact ⟨u₀, .nil, h₀⟩
  | @snoc tr s a hr ha hc ih =>
    obtain ⟨u, hu, hrel⟩ := ih
    obtain ⟨henabled, hnext, hD⟩ := hstep tr s u a hrel ha hc
    refine ⟨U.nextOn (see s a) u, ?_, hnext⟩
    rw [hr.run.observe_snoc]
    cases hsee : see s a with
    | none => simpa [nextOn] using hu
    | some b => exact hu.snoc (henabled b hsee) (hD b hsee)

end TransitionSystem
