/-
# Calls that lock mutexes

The mutexes of a `Service`: which actions lock and unlock them, and which must be
held for an action (`Mutexes`).  In a service whose programs keep to
`Mutexes.protocol` a call locks only mutexes of higher rank than those it holds,
unlocks what it holds, and makes each guarded action under its mutexes; `holding`
is what this comes to along a run: the owner fields say exactly which mutexes the
calls in progress have locked and not unlocked.  From it `exclusive` (no two
threads are about to make actions that one mutex guards) and `exists_unblocked`
(while a call is in progress, some call is not blocked).
-/
import RedisStateManager.Callers

open Program

namespace Service

variable {A : Type*} {R : A → Type*} {σ χ ω ρ : Type*}

/-- What an action does to the mutexes. -/
inductive LockAct (μ : Type*)
  | lock (m : μ)
  | unlock (m : μ)
  | other

/-- The mutexes of a service. -/
structure Mutexes (V : Service A R σ χ ω ρ) (μ : Type*) [DecidableEq μ] where
  owner : σ → μ → Option ℕ
  kind : A → LockAct μ
  /-- the mutexes under which an action is made -/
  guards : A → μ → Prop
  rank : μ → ℕ
  bound : ℕ
  rank_le : ∀ m, rank m ≤ bound
  free : ∀ {i s choice a m}, V.Possible i s choice a → kind a = .lock m → owner s m = none
  owner_lock : ∀ {i s choice a m}, kind a = .lock m →
    owner (V.perform i s choice a) = Function.update (owner s) m (some i)
  owner_unlock : ∀ {i s choice a m}, kind a = .unlock m →
    owner (V.perform i s choice a) = Function.update (owner s) m none
  owner_other : ∀ {i s choice a}, kind a = .other → owner (V.perform i s choice a) = owner s

variable {V : Service A R σ χ ω ρ} {μ : Type*} [DecidableEq μ] (M : V.Mutexes μ)

namespace Mutexes

/-- The mutexes of a set, after an action. -/
def afterAct (t : μ → Bool) : LockAct μ → μ → Bool
  | .lock m => Function.update t m true
  | .unlock m => Function.update t m false
  | .other => t

/-- What a call that holds the mutexes `t` may do to them. -/
def AllowedAct (t : μ → Bool) : LockAct μ → Prop
  | .lock m => ∀ m', t m' = true → M.rank m' < M.rank m
  | .unlock m => t m = true
  | .other => True

/-- The discipline of a call, by the mutexes it holds. -/
def protocol : Protocol A R (μ → Bool) where
  Allowed t a := M.AllowedAct t (M.kind a) ∧ ∀ m, M.guards a m → t m = true
  Possible _ _ _ := True
  after t a _ := afterAct t (M.kind a)

def nothing : μ → Bool := fun _ => false

/-- Every call keeps to the protocol and ends without a mutex. -/
def Disciplined : Prop :=
  ∀ op, (V.procedure op).Obeys M.protocol (fun _ t => t = nothing) nothing

/-- What thread `i` holds according to the owner fields. -/
def heldBy (s : σ) (i : ℕ) : μ → Bool := fun m => decide (M.owner s m = some i)

theorem heldBy_eq_true {s : σ} {i : ℕ} {m : μ} : M.heldBy s i m = true ↔ M.owner s m = some i :=
  decide_eq_true_iff

/-- **The owner fields are right**: a thread in no call owns nothing, and what is left of
a call keeps to the protocol from the mutexes its thread owns. -/
structure Holding (s : V.State) : Prop where
  idle : ∀ i, s.callers i = none → M.heldBy s.shared i = nothing
  busy : ∀ i call, s.callers i = some call →
    call.rest.Obeys M.protocol (fun _ t => t = nothing) (M.heldBy s.shared i)

/-- The mutex thread `i` is about to lock. -/
def Wants (s : V.State) (i : ℕ) (m : μ) : Prop := ∃ a, s.head? i = some a ∧ M.kind a = .lock m

variable {M} {s : V.State} {i j : ℕ} {a : A} {choice : χ}

/-- An action of thread `i` changes what `i` holds as the protocol says. -/
theorem heldBy_perform_self (i : ℕ) (s : σ) (choice : χ) (a : A) :
    M.heldBy (V.perform i s choice a) i = afterAct (M.heldBy s i) (M.kind a) := by
  funext m
  cases hkind : M.kind a with
  | lock n =>
    unfold heldBy afterAct
    rw [M.owner_lock hkind]
    by_cases hm : m = n
    · subst hm
      simp
    · simp [hm]
  | unlock n =>
    unfold heldBy afterAct
    rw [M.owner_unlock hkind]
    by_cases hm : m = n
    · subst hm
      simp
    · simp [hm]
  | other =>
    unfold heldBy afterAct
    rw [M.owner_other hkind]

/-- An action of thread `j` leaves alone what the others hold. -/
theorem heldBy_perform_of_ne (hij : i ≠ j) {s : σ} (hposs : V.Possible j s choice a)
    (hallowed : M.AllowedAct (M.heldBy s j) (M.kind a)) :
    M.heldBy (V.perform j s choice a) i = M.heldBy s i := by
  funext m
  cases hkind : M.kind a with
  | lock n =>
    unfold heldBy
    rw [M.owner_lock hkind]
    by_cases hm : m = n
    · subst hm
      rw [Function.update_self, M.free hposs hkind]
      simp [Ne.symm hij]
    · rw [Function.update_of_ne hm]
  | unlock n =>
    rw [hkind] at hallowed
    have hown : M.owner s n = some j := M.heldBy_eq_true.mp hallowed
    unfold heldBy
    rw [M.owner_unlock hkind]
    by_cases hm : m = n
    · subst hm
      rw [Function.update_self, hown]
      simp [Ne.symm hij]
    · rw [Function.update_of_ne hm]
  | other =>
    unfold heldBy
    rw [M.owner_other hkind]

/-- What the next action of a call may do. -/
theorem Holding.allowed (hs : M.Holding s) (ha : s.head? i = some a) :
    M.protocol.Allowed (M.heldBy s.shared i) a := by
  obtain ⟨call, hcall, hhead⟩ := State.head?_eq_some.mp ha
  exact (hs.busy i call hcall).allowed hhead

/-- A thread that owns a mutex is in a call. -/
theorem Holding.exists_call (hs : M.Holding s) {m : μ} (h : M.owner s.shared m = some i) :
    ∃ call, s.callers i = some call := by
  cases hcall : s.callers i with
  | some call => exact ⟨call, rfl⟩
  | none =>
    have hheld := M.heldBy_eq_true.mpr h
    rw [hs.idle i hcall] at hheld
    exact absurd hheld Bool.false_ne_true

/-- **One step keeps the owner fields right.** -/
theorem Holding.next (hM : M.Disciplined) (hs : M.Holding s) {b : V.Label} (h : Enabled b s) :
    M.Holding (Service.next b s) := by
  -- what an action does to the mutexes of another thread
  have hother (i : ℕ) (hi : i ≠ b.caller) :
      M.heldBy (Service.next b s).shared i = M.heldBy s.shared i := by
    cases b with
    | act j a choice => exact heldBy_perform_of_ne hi h.2 (hs.allowed h.1).1
    | _ => rfl
  constructor
  · intro i hidle
    by_cases hi : i = b.caller
    · subst hi
      cases b with
      | call j op => exact absurd hidle (by simp [Service.next, State.setCaller, Label.caller])
      | act j a choice =>
        obtain ⟨call, hcall, -⟩ := State.head?_eq_some.mp h.1
        exact absurd ((callers_act hcall a choice).symm.trans hidle) (by simp)
      | ret j op r =>
        obtain ⟨call, hcall, hmap⟩ := Option.bind_eq_some_iff.mp h
        obtain ⟨r', hr, -⟩ := Option.map_eq_some_iff.mp hmap
        exact (hs.busy j call hcall).result hr
    · rw [callers_next_of_ne hi] at hidle
      rw [hother i hi]
      exact hs.idle i hidle
  · intro i call hcall
    rcases call_next h hcall with ⟨hi, hcall'⟩ | ⟨op, rfl, hidle, rfl⟩ |
      ⟨call', a, choice, rfl, hcall', hhead, -, rfl⟩
    · rw [hother i hi]
      exact hs.busy i call hcall'
    · show (V.procedure op).Obeys _ _ (M.heldBy s.shared i)
      rw [hs.idle i hidle]
      exact hM op
    · show (call'.rest.step _).Obeys _ _ (M.heldBy (V.perform i s.shared choice a) i)
      rw [heldBy_perform_self]
      exact (hs.busy i call' hcall').step hhead trivial

/-- **Every run keeps the owner fields right.** -/
theorem holding (hM : M.Disciplined) {shared : σ} (hfree : ∀ m, M.owner shared m = none)
    {tr : List V.Label} (h : V.system.Run (V.start shared) tr s) : M.Holding s := by
  refine h.invariant (I := M.Holding) ⟨fun i _ => ?_, fun i call hcall => ?_⟩ ?_
  · funext m
    simp [heldBy, Service.start, hfree, nothing]
  · exact absurd hcall (by simp [Service.start])
  · intro b s hs hb
    exact hs.next hM hb

/-! ## What follows from the owner fields -/

/-- A guarded action is made by the owner of its mutex. -/
theorem Holding.owner_of_guards (hs : M.Holding s) (ha : s.head? i = some a) {m : μ}
    (hm : M.guards a m) : M.owner s.shared m = some i :=
  M.heldBy_eq_true.mp ((hs.allowed ha).2 m hm)

/-- **Mutual exclusion.** -/
theorem Holding.exclusive (hs : M.Holding s) {b : A} (ha : s.head? i = some a)
    (hb : s.head? j = some b) {m : μ} (hma : M.guards a m) (hmb : M.guards b m) : i = j := by
  have hi := hs.owner_of_guards ha hma
  have hj := hs.owner_of_guards hb hmb
  exact Option.some.inj (hi.symm.trans hj)

/-- What is guarded by a mutex that thread `i` owns is not done by the others. -/
theorem Holding.not_guards (hs : M.Holding s) (hij : i ≠ j) {m : μ}
    (hown : M.owner s.shared m = some i) (ha : s.head? j = some a) : ¬ M.guards a m := by
  intro hguards
  exact hij (Option.some.inj (hown.symm.trans (hs.owner_of_guards ha hguards)))

/-- A mutex that thread `i` owns is not taken from it. -/
theorem Holding.owner_perform (hs : M.Holding s) (hij : i ≠ j) {m : μ}
    (hown : M.owner s.shared m = some i) (ha : Enabled (.act j a choice) s) :
    M.owner (V.perform j s.shared choice a) m = some i := by
  have hheld := congrFun (heldBy_perform_of_ne hij ha.2 (hs.allowed ha.1).1) m
  exact M.heldBy_eq_true.mp (hheld.trans (M.heldBy_eq_true.mpr hown))

/-- A call that waits for a mutex has mutexes of lower rank only. -/
theorem Holding.rank_lt (hs : M.Holding s) {m n : μ} (hown : M.owner s.shared m = some i)
    (hwants : M.Wants s i n) : M.rank m < M.rank n := by
  obtain ⟨a, ha, hkind⟩ := hwants
  have hallowed := (hs.allowed ha).1
  rw [hkind] at hallowed
  exact hallowed m (M.heldBy_eq_true.mpr hown)

/-- **Some call is not blocked**: while a call is in progress, there is one whose thread
waits for no mutex, or for one that is free. -/
theorem Holding.exists_unblocked (hs : M.Holding s) {call : V.Call}
    (hcall : s.callers i = some call) :
    ∃ j call, s.callers j = some call ∧ ∀ m, M.Wants s j m → M.owner s.shared m = none := by
  -- from a blocked thread to the owner of its mutex, the rank of what is waited for grows
  have climb : ∀ n i call, s.callers i = some call →
      (∀ m, M.Wants s i m → M.bound < M.rank m + n) →
      ∃ j call, s.callers j = some call ∧
        ∀ m, M.Wants s j m → M.owner s.shared m = none := by
    intro n
    induction n with
    | zero =>
      intro i call hcall hbound
      refine ⟨i, call, hcall, fun m hm => ?_⟩
      have hlt := hbound m hm
      have hle := M.rank_le m
      omega
    | succ n ih =>
      intro i call hcall hbound
      by_cases hfree : ∀ m, M.Wants s i m → M.owner s.shared m = none
      · exact ⟨i, call, hcall, hfree⟩
      · obtain ⟨m, hm⟩ := not_forall.mp hfree
        obtain ⟨hwants, howned⟩ := Classical.not_imp.mp hm
        obtain ⟨j, hown⟩ := Option.ne_none_iff_exists'.mp howned
        obtain ⟨call', hcall'⟩ := hs.exists_call hown
        refine ih j call' hcall' fun m' hwants' => ?_
        have hlt := hs.rank_lt hown hwants'
        have hbound := hbound m hwants
        omega
  refine climb (M.bound + 1) i call hcall fun m _ => ?_
  omega

end Mutexes

end Service
