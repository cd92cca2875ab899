/-
# What a worker has found out

A worker reads the queue, `running_` and `killThread` one after the other, and
some of what it has read stays true until it acts on it: the queue is empty and
`killThread` can only be taken by the owner of `taskMutex_`, `running_` is never
set again.  `Known` collects these facts for every reachable state.
-/
import RedisStateManager.ThreadPoolQueue
import RedisStateManager.ThreadPoolManager

namespace ThreadPool

variable {Task : Type}

/-! ## `killThread` and the critical section -/

/-- **How `killThread` changes**: a worker takes a kill signal, the manager
raises one, or it stays as it is. -/
theorem killThread_next {a : Label Task} {s : State Task} :
    (∃ w k, a = .worker w (.casKill k false) ∧ s.killThread = k ∧
      (next a s).killThread = k - 1) ∨
    (a = .manager (.casKill false) ∧ s.killThread = 0 ∧ (next a s).killThread = 1) ∨
    (next a s).killThread = s.killThread := by
  cases a with
  | worker w b =>
    cases b with
    | casKill k spurious =>
      by_cases hc : spurious = false ∧ s.killThread = k
      · refine Or.inl ⟨w, k, by rw [hc.1], hc.2, ?_⟩
        rw [next_worker]
        simp [workerMove, hc]
      · rw [next_worker]
        simp [workerMove, hc]
    | _ => exact Or.inr (Or.inr rfl)
  | manager b =>
    cases b with
    | casKill spurious =>
      by_cases hc : spurious = false ∧ s.killThread = 0
      · refine Or.inr (Or.inl ⟨by rw [hc.1], hc.2, ?_⟩)
        rw [next_manager]
        simp [managerMove, hc]
      · rw [next_manager]
        simp [managerMove, hc]
    | notify woken => simp [next_manager, managerMove, notifyOne_eq]
    | _ => exact Or.inr (Or.inr rfl)
  | producer p b => rw [next_producer]; exact Or.inr (Or.inr rfl)
  | destructor b => rw [next_destructor]; exact Or.inr (Or.inr rfl)
  | setScaleUp func => exact Or.inr (Or.inr rfl)
  | setScaleDown func => exact Or.inr (Or.inr rfl)

/-- Two workers inside the critical section are one. -/
theorem worker_unique {s : State Task} (hown : Owned s.Holds s.taskMutex) {v w : ℕ}
    {pc pc' : WorkerPc Task} (hv : s.workers[v]? = some pc) (hw : s.workers[w]? = some pc')
    (hpc : pc.holdsMutex = true) (hpc' : pc'.holdsMutex = true) : v = w := by
  have hv' : s.Holds (.worker v) := by
    rw [State.Holds, hv]
    exact hpc
  have hw' : s.Holds (.worker w) := by
    rw [State.Holds, hw]
    exact hpc'
  injection hown.unique hv' hw'

/-- A worker is at `exitQueue` only after it saw `running_` cleared. -/
theorem exitQueue_next {a : Label Task} {s : State Task} (h : Enabled a s)
    (hs : ∀ w : ℕ, s.workers[w]? = some .exitQueue → s.running = false) {w : ℕ}
    (hw : (next a s).workers[w]? = some .exitQueue) : (next a s).running = false := by
  refine running_next ?_
  rcases worker_next h w with ⟨b, rfl, -, -, htgt⟩ | ⟨-, hk | ⟨-, hk⟩ | ⟨-, -, hk⟩⟩
  · have heq : (workerMove w b s).target = .exitQueue := Option.some.inj (htgt.symm.trans hw)
    cases b with
    | exitRunning =>
      -- the only way there, with `running_` just read
      cases hr : s.running with
      | false => rfl
      | true => simp [workerMove, hr] at heq
    | testQueue | testRunning | testKill | loadKill | exitQueue | casKill =>
      simp only [workerMove] at heq
      split at heq <;> exact absurd heq (by simp)
    | _ => exact absurd heq (by simp [workerMove])
  · exact hs w (hk ▸ hw)
  · exact absurd (hk.symm.trans hw) (by simp)
  · exact absurd (hk.symm.trans hw) (by simp)

/-! ## Counting workers -/

theorem countP_set_add {α : Type} {l : List α} {i : ℕ} {x : α} (p : α → Bool) (h : l[i]? = some x)
    (y : α) : (l.set i y).countP p + (p x).toNat = l.countP p + (p y).toNat := by
  obtain ⟨hi, rfl⟩ := List.getElem?_eq_some_iff.mp h
  have hpos : p l[i] = true → 0 < l.countP p := fun hp =>
    List.countP_pos_iff.mpr ⟨_, List.getElem_mem hi, hp⟩
  rw [List.countP_set hi]
  cases hx : p l[i] with
  | false => cases p y <;> simp
  | true =>
    have hlt := hpos hx
    cases p y <;> simp <;> omega

/-- **How many workers are at certain control points**, where a wake-up makes no
difference: a step of a worker moves that one, and a spawn adds one. -/
theorem countP_workers_next (p : WorkerPc Task → Bool) (hp : p .blocked = p .woken)
    {a : Label Task} {s : State Task} (h : Enabled a s) :
    (∃ w b, a = .worker w b ∧
      (next a s).workers.countP p + (p (workerMove w b s).source).toNat =
        s.workers.countP p + (p (workerMove w b s).target).toNat) ∨
    (a = .manager .spawn ∧ (next a s).workers.countP p = s.workers.countP p + (p .start).toNat) ∨
    ((∀ w b, a ≠ .worker w b) ∧ a ≠ .manager .spawn ∧
      (next a s).workers.countP p = s.workers.countP p) := by
  have hnotify : ∀ woken, s.Notifies woken →
      (s.notifyOne woken).workers.countP p = s.workers.countP p := by
    intro woken hw
    cases woken with
    | none => rfl
    | some v =>
      have hadd := countP_set_add p hw .woken
      rw [hp] at hadd
      exact Nat.add_right_cancel hadd
  have hall : s.notifyAll.workers.countP p = s.workers.countP p := by
    rw [State.notifyAll, List.countP_map]
    refine List.countP_congr fun pc _ => ?_
    cases pc <;> simp [State.wakeUp, hp]
  cases a with
  | worker w b =>
    refine Or.inl ⟨w, b, rfl, ?_⟩
    rw [next_worker]
    exact countP_set_add p h.1 _
  | manager b =>
    cases b with
    | spawn =>
      refine Or.inr (Or.inl ⟨rfl, ?_⟩)
      cases hstart : p .start <;> simp [next, managerMove, State.spawnWorker, hstart]
    | notify woken => exact Or.inr (Or.inr ⟨by simp, by simp, hnotify woken h.2⟩)
    | finalNotify => exact Or.inr (Or.inr ⟨by simp, by simp, hall⟩)
    | casKill spurious =>
      refine Or.inr (Or.inr ⟨by simp, by simp, ?_⟩)
      simp only [next, managerMove]
      split <;> rfl
    | _ => exact Or.inr (Or.inr ⟨by simp, by simp, rfl⟩)
  | producer q b =>
    cases b with
    | notify woken => exact Or.inr (Or.inr ⟨by simp, by simp, hnotify woken h.2⟩)
    | _ => exact Or.inr (Or.inr ⟨by simp, by simp, rfl⟩)
  | destructor b =>
    cases b with
    | notifyAll => exact Or.inr (Or.inr ⟨by simp, by simp, hall⟩)
    | _ => exact Or.inr (Or.inr ⟨by simp, by simp, rfl⟩)
  | setScaleUp func => exact Or.inr (Or.inr ⟨by simp, by simp, rfl⟩)
  | setScaleDown func => exact Or.inr (Or.inr ⟨by simp, by simp, rfl⟩)

/-! ## The facts -/

/-- The worker has found the queue empty and still owns the mutex. -/
def WorkerPc.foundEmpty : WorkerPc Task → Bool
  | .testRunning | .testKill | .block => true
  | _ => false

theorem WorkerPc.holdsMutex_of_foundEmpty {pc : WorkerPc Task} (h : pc.foundEmpty = true) :
    pc.holdsMutex = true := by
  cases pc <;> first | rfl | exact absurd h Bool.false_ne_true

/-- What the workers have read and nobody has changed since. -/
structure Known (s : State Task) : Prop where
  kill_le : s.killThread ≤ 1
  empty : ∀ (w : ℕ) pc, s.workers[w]? = some pc → pc.foundEmpty = true → s.taskQueue = []
  kill : ∀ w k : ℕ, s.workers[w]? = some (.casKill k) → s.killThread = k ∧ k ≠ 0
  exit : ∀ w : ℕ, s.workers[w]? = some .exitQueue → s.running = false

section Step

variable {a : Label Task} {s : State Task}

/-- A worker inside the critical section keeps the others from pushing. -/
theorem push?_of_holds (h : Enabled a s) (hown : Owned s.Holds s.taskMutex) {w : ℕ}
    {pc : WorkerPc Task} (hw : s.workers[w]? = some pc) (hpc : pc.holdsMutex = true) :
    a.push? = none := by
  cases a with
  | producer p b =>
    cases b with
    | push e =>
      have hp : s.Holds (.producer p) := by
        rw [State.Holds, h.1]
        rfl
      have hw' : s.Holds (.worker w) := by
        rw [State.Holds, hw]
        exact hpc
      exact absurd (hown.unique hp hw') (by simp)
    | _ => rfl
  | _ => rfl

/-- An empty queue into which nobody pushes stays empty. -/
theorem taskQueue_next_nil (h : Enabled a s) (hpush : a.push? = none) (hq : s.taskQueue = []) :
    (next a s).taskQueue = [] := by
  have hnext := taskQueue_next h
  rw [hq, hpush] at hnext
  exact (List.append_eq_nil_iff.mp hnext.symm).2

theorem kill_le_next (hs : s.killThread ≤ 1) : (next a s).killThread ≤ 1 := by
  rcases killThread_next (a := a) (s := s) with ⟨w, k, -, hk, hk'⟩ | ⟨-, -, hk'⟩ | hk'
  · omega
  · omega
  · omega

theorem empty_next (h : Enabled a s) (hown : Owned s.Holds s.taskMutex)
    (hs : ∀ (w : ℕ) pc, s.workers[w]? = some pc → pc.foundEmpty = true → s.taskQueue = [])
    {w : ℕ} {pc : WorkerPc Task} (hw : (next a s).workers[w]? = some pc)
    (hpc : pc.foundEmpty = true) : (next a s).taskQueue = [] := by
  rcases worker_next h w with ⟨b, rfl, hsrc, -, htgt⟩ | ⟨-, hk | ⟨-, hk⟩ | ⟨-, -, hk⟩⟩
  · obtain rfl : (workerMove w b s).target = pc := Option.some.inj (htgt.symm.trans hw)
    refine taskQueue_next_nil h rfl ?_
    cases b with
    | testQueue =>
      -- here the worker looks
      by_cases hq : s.taskQueue = []
      · exact hq
      · simp [workerMove, hq, WorkerPc.foundEmpty] at hpc
    | testRunning => exact hs w _ hsrc rfl
    | testKill => exact hs w _ hsrc rfl
    | loadKill | exitRunning | exitQueue | casKill =>
      simp only [workerMove] at hpc
      split at hpc <;> exact absurd hpc Bool.false_ne_true
    | _ => exact absurd hpc Bool.false_ne_true
  · rw [hk] at hw
    exact taskQueue_next_nil h (push?_of_holds h hown hw (WorkerPc.holdsMutex_of_foundEmpty hpc))
      (hs w pc hw hpc)
  · rw [hk] at hw
    cases hw
    exact absurd hpc Bool.false_ne_true
  · rw [hk] at hw
    cases hw
    exact absurd hpc Bool.false_ne_true

theorem kill_next (h : Enabled a s) (hown : Owned s.Holds s.taskMutex)
    (hs : ∀ w k : ℕ, s.workers[w]? = some (.casKill k) → s.killThread = k ∧ k ≠ 0) {w k : ℕ}
    (hw : (next a s).workers[w]? = some (.casKill k)) : (next a s).killThread = k ∧ k ≠ 0 := by
  rcases worker_next h w with ⟨b, rfl, hsrc, -, htgt⟩ | ⟨hne, hk | ⟨-, hk⟩ | ⟨-, -, hk⟩⟩
  · have heq : (workerMove w b s).target = .casKill k := Option.some.inj (htgt.symm.trans hw)
    cases b with
    | loadKill =>
      simp only [workerMove] at heq
      split at heq
      · exact absurd heq (by simp)
      · next hpos =>
        injection heq with heq
        subst heq
        exact ⟨rfl, hpos⟩
    | testQueue | testRunning | testKill | exitRunning | exitQueue | casKill =>
      simp only [workerMove] at heq
      split at heq <;> exact absurd heq (by simp)
    | _ => exact absurd heq (by simp [workerMove])
  · rw [hk] at hw
    obtain ⟨hkill, hpos⟩ := hs w k hw
    refine ⟨?_, hpos⟩
    -- the signal is there to be taken, and `w` owns the mutex
    rcases killThread_next (a := a) (s := s) with ⟨v, k', rfl, -⟩ | ⟨-, hz, -⟩ | hsame
    · have hvw := worker_unique hown h.1 hw rfl rfl
      exact absurd rfl (hvw ▸ hne _)
    · exact absurd (hkill.symm.trans hz) hpos
    · rw [hsame, hkill]
  · exact absurd (hk.symm.trans hw) (by simp)
  · exact absurd (hk.symm.trans hw) (by simp)

theorem Known.next (hs : Known s) (h : Enabled a s) (hown : Owned s.Holds s.taskMutex) :
    Known (next a s) where
  kill_le := kill_le_next hs.kill_le
  empty := fun _ _ hw hpc => empty_next h hown hs.empty hw hpc
  kill := fun _ _ hw => kill_next h hown hs.kill hw
  exit := fun _ hw => exitQueue_next h hs.exit hw

end Step

/-- **What the workers know is so in every run.** -/
theorem known {up down : UInt32 → UInt32 → Bool} {tr : List (Label Task)} {s : State Task}
    (h : (pool Task).Run (initial up down) tr s) : Known s := by
  refine h.induct (P := fun _ s => Known s) ?_ fun tr s a hr hs ha => hs.next ha (mutex_owner hr)
  constructor <;> simp [initial]

end ThreadPool
