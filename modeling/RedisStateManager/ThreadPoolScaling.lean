/-
# Scaling under the default policies

A pool that nobody gives another policy.  The default `scaleUp` compares the
queue with the workers the manager still counts, so a queue that no worker
serves is served again only if it is long enough for that count.  `SparesLast`
is the condition on the steps that take the last serving worker away, and under
it a running pool never starves its queue (`neverStarves`).  The condition
cannot be weakened: a step that breaks it leads to a starving state
(`starves_of_not_sparesLast`).
-/
import Mathlib.Algebra.Ring.Nat
import RedisStateManager.ThreadPoolShutdown
import RedisStateManager.ThreadPoolWorker

namespace ThreadPool

variable {Task : Type}

/-! ## The default policies -/

def Label.keepsPolicies : Label Task → Bool
  | .setScaleUp _ | .setScaleDown _ => false
  | _ => true

/-- The pool with the policies it was constructed with. -/
def defaultPool (Task : Type) : TransitionSystem (State Task) (Label Task) :=
  (pool Task).restrict fun _ a => a.keepsPolicies = true

@[simp] theorem defaultPool_enabled (a : Label Task) (s : State Task) :
    (defaultPool Task).Enabled a s ↔ Enabled a s ∧ a.keepsPolicies = true :=
  Iff.rfl

@[simp] theorem defaultPool_next : (defaultPool Task).next = next := rfl

/-- The constructed pool. -/
def start : State Task := initial defaultScaleUp defaultScaleDown

theorem count_ofInt (n : ℕ) : UInt32.ofInt (n : ℤ) = UInt32.ofNat n := by
  have h : ((n : ℤ) % 2 ^ 32).toNat = n % 2 ^ 32 := by omega
  rw [UInt32.ofInt, h, ← UInt32.toNat_inj]
  simp

/-- The default `scaleUp`, in the numbers it is about: only the queue's length wraps. -/
theorem defaultScaleUp_iff {len n : ℕ} (hn : n ≤ 10) :
    defaultScaleUp (.ofNat len) (.ofInt n) = true ↔ 10 * n < len % 2 ^ 32 ∧ n < 10 := by
  have hmul : (10 * UInt32.ofNat n).toNat = 10 * n := by
    rw [UInt32.toNat_mul, UInt32.toNat_ofNat', show UInt32.toNat 10 = 10 from rfl]
    omega
  rw [defaultScaleUp, count_ofInt, Bool.and_eq_true, decide_eq_true_iff, decide_eq_true_iff,
    gt_iff_lt, UInt32.lt_iff_toNat_lt, UInt32.lt_iff_toNat_lt, hmul, UInt32.toNat_ofNat',
    UInt32.toNat_ofNat', show UInt32.toNat 10 = 10 from rfl]
  omega

/-- What holds of the policies and the worker count in every run of `defaultPool`. -/
structure Scaled (s : State Task) : Prop where
  scaleUp : s.scaleUp = defaultScaleUp
  atMost : s.workerPool.length ≤ 10
  room : s.manager = .spawn → s.workerPool.length < 10

/-- What the policy answers the manager for a queue of `len` entries. -/
theorem Scaled.scaleUp_ofNat_iff {s : State Task} (h : Scaled s)
    (hcount : s.workerCount = s.workerPool.length) (len : ℕ) :
    s.scaleUp (.ofNat len) s.count = true ↔
      10 * s.workerPool.length < len % 2 ^ 32 ∧ s.workerPool.length < 10 := by
  rw [h.scaleUp, State.count, hcount, defaultScaleUp_iff h.atMost]

theorem Scaled.scaleUp_iff {s : State Task} (h : Scaled s)
    (hcount : s.workerCount = s.workerPool.length) :
    s.scaleUp s.size s.count = true ↔
      10 * s.workerPool.length < s.taskQueue.length % 2 ^ 32 ∧ s.workerPool.length < 10 :=
  h.scaleUp_ofNat_iff hcount s.taskQueue.length

theorem scaleUp_next {a : Label Task} {s : State Task} (ha : a.keepsPolicies = true) :
    (next a s).scaleUp = s.scaleUp := by
  cases a with
  | worker w b => rw [next_worker]
  | manager b => rw [next_manager]
  | producer p b => rw [next_producer]
  | destructor b => rw [next_destructor]
  | setScaleUp func => exact absurd ha Bool.false_ne_true
  | setScaleDown func => rfl

/-- The default policy asks for no worker above the tenth. -/
theorem Scaled.capsAt {a : Label Task} {s : State Task} (hs : Scaled s)
    (hcount : s.workerCount = s.workerPool.length) : CapsAt 10 s a := by
  unfold CapsAt
  split
  · intro hfull
    by_contra hup
    rw [Bool.not_eq_false] at hup
    have hsize : s.queueSize = .ofNat s.queueSize.toNat := by simp
    rw [hsize, hs.scaleUp_ofNat_iff hcount] at hup
    omega
  · trivial

theorem Scaled.next {a : Label Task} {s : State Task} (hs : Scaled s)
    (hcount : s.workerCount = s.workerPool.length) (h : Enabled a s)
    (ha : a.keepsPolicies = true) : Scaled (next a s) := by
  have hcapped : Capped 10 s := ⟨hs.atMost, hs.room⟩
  obtain ⟨hatMost, hroom⟩ := hcapped.next h hcount (hs.capsAt hcount)
  exact ⟨by rw [scaleUp_next ha, hs.scaleUp], hatMost, hroom⟩

/-! ## Starving and the step condition -/

/-- No spawned worker is unfinished. -/
def State.AllFinished (s : State Task) : Prop :=
  ∀ pc ∈ s.workers, pc.finished = true

/-- If the queue of a running pool is not empty and no worker is unfinished,
the policy asks for a worker. -/
def NeverStarves (s : State Task) : Prop :=
  s.running = true → s.taskQueue ≠ [] → s.AllFinished → s.scaleUp s.size s.count = true

/-- While the pool runs, the last serving worker takes a kill signal only if the
queue is long enough for the policy to replace it; and the queue does not reach
a multiple of `2^32` entries while nobody serves it. -/
def SparesLast (s : State Task) : Label Task → Prop
  | .worker w (.casKill k false) =>
    s.killThread = k → s.running = true → (∀ v, v ≠ w → ¬ s.Serving v) →
      s.scaleUp s.size s.count = true
  | .producer _ (.push _) =>
    s.running = true → (∀ w, ¬ s.Serving w) → (s.taskQueue.length + 1) % 2 ^ 32 ≠ 0
  | _ => True

/-- A running pool that no worker serves has been reaped while its queue was
empty, or its queue is long enough for another worker. -/
def Covered (s : State Task) : Prop :=
  s.running = true → (∀ w, ¬ s.Serving w) →
    (s.taskQueue = [] ∧ s.workerPool = []) ∨ s.scaleUp s.size s.count = true

/-- A finished worker does not serve the queue. -/
theorem State.AllFinished.not_serving {s : State Task} (h : s.AllFinished) (w : ℕ) :
    ¬ s.Serving w := by
  intro hw
  obtain ⟨pc, hpc, hserving⟩ := (Option.any_eq_true _ _).mp hw
  have hfin := h pc (List.mem_of_getElem? hpc)
  cases pc <;>
    first | exact absurd hfin Bool.false_ne_true | exact absurd hserving Bool.false_ne_true

theorem Covered.neverStarves {s : State Task} (h : Covered s) : NeverStarves s := by
  intro hrun hq hfin
  rcases h hrun hfin.not_serving with ⟨hempty, -⟩ | hup
  · exact absurd hempty hq
  · exact hup

/-! ## A step keeps a running pool covered -/

/-- If nobody serves the queue, a step leaves it alone or pushes one element. -/
theorem taskQueue_next_of_not_serving {a : Label Task} {s : State Task} (h : Enabled a s)
    (hno : ∀ w, ¬ s.Serving w) :
    (∃ p e, a = .producer p (.push e) ∧ (next a s).taskQueue = s.taskQueue ++ [e]) ∨
      (next a s).taskQueue = s.taskQueue := by
  have hq := taskQueue_next h
  cases a with
  | worker w b =>
    cases b with
    | pop e =>
      -- a worker that pops is serving
      have hsrc : s.workers[w]? = some .testEmpty := h.1
      refine absurd ?_ (hno w)
      rw [State.Serving, hsrc]
      rfl
    | _ => exact Or.inr (by simpa [Label.push?, Label.at, WorkerAct.pop?] using hq.symm)
  | producer p b =>
    cases b with
    | push e => exact Or.inl ⟨p, e, rfl, rfl⟩
    | _ => exact Or.inr (by simpa [Label.push?, Label.at] using hq.symm)
  | _ => exact Or.inr (by simpa [Label.push?, Label.at] using hq.symm)

section Step

variable {a : Label Task} {s : State Task}

/-- Nobody served the queue before the step: pushes and joins keep it covered. -/
theorem covered_of_not_serving (h : Enabled a s) (hacc : Accounts s) (hsc : Scaled s)
    (hacc' : Accounts (next a s)) (hsc' : Scaled (next a s)) (hC : SparesLast s a)
    (hrun : s.running = true) (hno : ∀ w, ¬ s.Serving w) (hno' : ∀ w, ¬ (next a s).Serving w)
    (hs : (s.taskQueue = [] ∧ s.workerPool = []) ∨ s.scaleUp s.size s.count = true) :
    ((next a s).taskQueue = [] ∧ (next a s).workerPool = []) ∨
      (next a s).scaleUp (next a s).size (next a s).count = true := by
  rw [hsc.scaleUp_iff hacc.count] at hs
  rw [hsc'.scaleUp_iff hacc'.count]
  -- the pool does not grow: a spawned worker would serve the queue
  have hpool : (next a s).workerPool.length ≤ s.workerPool.length := by
    rcases workerPool_cases h with ⟨rfl, -⟩ | ⟨i, hi, hpool, -⟩ | ⟨-, hpool, -⟩
    · refine absurd ?_ (hno' s.workers.length)
      simp [State.Serving, next, managerMove, State.spawnWorker, WorkerPc.serving]
    · obtain ⟨hlt, -⟩ := exitedAt_getElem hi
      rw [hpool, State.joinAt, List.length_eraseIdx_of_lt hlt]
      omega
    · rw [hpool]
  rcases taskQueue_next_of_not_serving h hno with ⟨p, e, rfl, hq⟩ | hq
  -- a push: one task is enough for an empty pool, and a long queue gets longer
  · have hwrap : (s.taskQueue.length + 1) % 2 ^ 32 ≠ 0 := hC hrun hno
    right
    rw [hq, List.length_append, List.length_singleton]
    rcases hs with ⟨hempty, hpempty⟩ | ⟨hlt, hten⟩
    · rw [hempty, List.length_nil] at hwrap ⊢
      rw [hpempty, List.length_nil] at hpool
      omega
    · omega
  · rw [hq]
    rcases hs with ⟨hempty, hpempty⟩ | ⟨hlt, hten⟩
    · rw [hpempty, List.length_nil] at hpool
      exact Or.inl ⟨hempty, List.length_eq_zero_iff.mp (by omega)⟩
    · right
      omega

/-- The step lemma. -/
theorem covered_next (h : Enabled a s) (hacc : Accounts s) (hsc : Scaled s)
    (hacc' : Accounts (next a s)) (hsc' : Scaled (next a s))
    (hexit : ∀ w : ℕ, s.workers[w]? = some .exitQueue → s.running = false)
    (hC : SparesLast s a) (hs : Covered s) : Covered (next a s) := by
  intro hrun' hno'
  have hrun := running_of_next hrun'
  by_cases hno : ∀ w, ¬ s.Serving w
  · exact covered_of_not_serving h hacc hsc hacc' hsc' hC hrun hno hno' (hs hrun hno)
  · push Not at hno
    obtain ⟨w, hw⟩ := hno
    rcases serving_next h hw with hw' | ⟨k, rfl, hk⟩ | ⟨rfl, -⟩
    · exact absurd hw' (hno' w)
    · -- `w` was the last worker to serve the queue
      have hlast : ∀ v, v ≠ w → ¬ s.Serving v := by
        intro v hv hserving
        rcases serving_next h hserving with hv' | ⟨k', heq, -⟩ | ⟨heq, -⟩
        · exact hno' v hv'
        · cases heq; exact hv rfl
        · cases heq
      have hup := hC hk hrun hlast
      right
      simpa [State.size, State.count, next_worker, workerMove, hk] using hup
    · have hsrc : s.workers[w]? = some .exitQueue := h.1
      rw [hexit w hsrc] at hrun
      exact absurd hrun Bool.false_ne_true

end Step

section Runs

variable {tr : List (Label Task)} {s : State Task}

/-- What the scaling argument needs of every reachable state. -/
theorem scaled (h : (defaultPool Task).Run start tr s) :
    Scaled s ∧ ∀ w : ℕ, s.workers[w]? = some .exitQueue → s.running = false := by
  refine h.induct (P := fun _ s => Scaled s ∧
    ∀ w : ℕ, s.workers[w]? = some .exitQueue → s.running = false) ?_ ?_
  · refine ⟨⟨rfl, Nat.zero_le _, nofun⟩, fun w hw => ?_⟩
    exact absurd hw (by simp [start, initial])
  · rintro tr s a hr ⟨hsc, hexit⟩ ⟨ha, hkeep⟩
    exact ⟨hsc.next (accounts hr.of_restrict).count ha hkeep, fun w => exitQueue_next ha hexit⟩

/-- **A running pool does not starve its queue** if every step of the run meets
the condition. -/
theorem neverStarves (h : (defaultPool Task).RunBy (fun _ => SparesLast) start tr s) :
    NeverStarves s := by
  refine Covered.neverStarves (h.induct (P := fun _ s => Covered s) ?_ ?_)
  · exact fun _ _ => Or.inl ⟨rfl, rfl⟩
  · intro tr s a hr hs ha hC
    have hacc := accounts hr.run.of_restrict
    obtain ⟨hsc, hexit⟩ := scaled hr.run
    exact covered_next ha.1 hacc hsc (hacc.next ha.1) (hsc.next hacc.count ha.1 ha.2) hexit hC hs

end Runs

/-! ## The condition is exact -/

/-- Only finitely many callers have ever called `addTask`. -/
theorem exists_idle {up down : UInt32 → UInt32 → Bool} {tr : List (Label Task)} {s : State Task}
    (h : (pool Task).Run (initial up down) tr s) : ∃ p, s.producers p = .idle := by
  have hall : ∃ n, ∀ p, n ≤ p → s.producers p = .idle := by
    refine h.invariant (I := fun s => ∃ n, ∀ p, n ≤ p → s.producers p = .idle)
      ⟨0, fun _ _ => rfl⟩ ?_
    rintro a s ⟨n, hn⟩ -
    by_cases ha : ∃ q b, a = .producer q b
    · obtain ⟨q, b, rfl⟩ := ha
      refine ⟨max n (q + 1), fun p hp => ?_⟩
      show (next (.producer q b) s).producers p = _
      rw [producers_next (by rintro b' heq; injection heq; omega)]
      exact hn p (by omega)
    · push Not at ha
      refine ⟨n, fun p hp => ?_⟩
      show (next a s).producers p = _
      rw [producers_next (ha p)]
      exact hn p hp
  obtain ⟨n, hn⟩ := hall
  exact ⟨n, hn n le_rfl⟩

/-- A worker that does not serve has exited, unless it is the owner of the mutex. -/
theorem exited_of_not_serving {s : State Task} (hown : Owned s.Holds s.taskMutex) {t : Thread}
    (ht : s.Holds t) {v : ℕ} (hv : t ≠ .worker v) (hs : ¬ s.Serving v) {pc : WorkerPc Task}
    (hpc : s.workers[v]? = some pc) : pc = .exited := by
  have hholds : ¬ s.Holds (.worker v) := fun hw => hv (hown.unique ht hw)
  rw [State.Holds, hpc, Option.any_some] at hholds
  rw [State.Serving, hpc, Option.any_some] at hs
  cases pc <;> first | rfl | exact absurd rfl hs | exact absurd rfl hholds

/-- A worker about to take a kill signal owns the mutex: if it is the last to serve, the
others have exited. -/
theorem exited_of_casKill {s : State Task} (hown : Owned s.Holds s.taskMutex) {w k : ℕ}
    (hsrc : s.workers[w]? = some (.casKill k)) (hlast : ∀ v, v ≠ w → ¬ s.Serving v) {v : ℕ}
    {pc : WorkerPc Task} (hv : v ≠ w) (hpc : s.workers[v]? = some pc) : pc = .exited := by
  have hholds : s.Holds (.worker w) := by
    rw [State.Holds, hsrc]
    rfl
  refine exited_of_not_serving hown hholds ?_ (hlast v hv) hpc
  intro heq
  injection heq with heq
  exact hv heq.symm

/-- If all workers but `w` have exited, they are all finished once `w` is. -/
theorem finished_of_mem_set {s : State Task} {w : ℕ}
    (hothers : ∀ v pc, v ≠ w → s.workers[v]? = some pc → pc = .exited) (pc : WorkerPc Task)
    (hpc : pc.finished = true) : ∀ x ∈ s.workers.set w pc, x.finished = true := by
  intro x hx
  obtain ⟨v, hv⟩ := List.mem_iff_getElem?.mp hx
  by_cases hvw : v = w
  · subst hvw
    have hlt : v < s.workers.length := by
      have := (List.getElem?_eq_some_iff.mp hv).1
      rwa [List.length_set] at this
    rw [List.getElem?_set_self hlt] at hv
    cases hv
    exact hpc
  · rw [List.getElem?_set_ne (Ne.symm hvw)] at hv
    rw [hothers v x hvw hv]
    rfl

section Runs

variable {tr : List (Label Task)} {s : State Task}

/-- The last serving worker takes a kill signal although the policy would not
replace it: it sets its flag, at the latest the next `addTask` fills the queue,
and the pool starves. -/
theorem starves_of_casKill (t : WorkerTask Task) (h : (defaultPool Task).Run start tr s)
    {w k : ℕ} (ha : Enabled (.worker w (.casKill k false)) s) (hk : s.killThread = k)
    (hrun : s.running = true) (hlast : ∀ v, v ≠ w → ¬ s.Serving v)
    (hup : s.scaleUp s.size s.count ≠ true) :
    ∃ tr' s', (defaultPool Task).Run (next (.worker w (.casKill k false)) s) tr' s' ∧
      ¬ NeverStarves s' := by
  have hsrc : s.workers[w]? = some (.casKill k) := ha.1
  have hlt : w < s.workers.length := (List.getElem?_eq_some_iff.mp hsrc).1
  have hothers : ∀ v pc, v ≠ w → s.workers[v]? = some pc → pc = .exited :=
    fun v pc => exited_of_casKill (mutex_owner h.of_restrict) hsrc hlast
  have hkill : next (.worker w (.casKill k false)) s =
      { s with killThread := k - 1, workers := s.workers.set w .finishing } := by
    simp [next_worker, workerMove, hk]
  rw [hkill]
  by_cases hq : s.taskQueue = []
  -- the queue is empty: somebody adds a task
  · obtain ⟨p, hidle⟩ := exists_idle h.of_restrict
    refine ⟨[.worker w .finish, .worker w .leave, .producer p (.call t), .producer p (.lock t),
      .producer p (.push ⟨s.pushCount, t⟩)], _, TransitionSystem.run_of_legal ?_, fun hn => ?_⟩
    · simp [Enabled, next, workerMove, producerMove, State.setWorker, hlt, hidle,
        Label.keepsPolicies]
    · -- one task is queued, and the manager still counts `w`
      have hpos : 0 < s.workerPool.length := by
        rcases (accounts h.of_restrict).pooled w hlt with hmem | hex
        · exact List.length_pos_of_mem hmem
        · rw [hsrc] at hex
          exact absurd hex (by simp)
      have hone : s.scaleUp (.ofNat 1) s.count = true := by
        have hfin := finished_of_mem_set hothers .exited rfl
        have hup' := hn hrun (by simp [next, workerMove, producerMove, State.setWorker])
          (by simpa [State.AllFinished, next, workerMove, producerMove, State.setWorker] using hfin)
        simpa [next, workerMove, producerMove, State.setWorker, State.size, State.count, hq]
          using hup'
      rw [(scaled h).1.scaleUp_ofNat_iff (accounts h.of_restrict).count] at hone
      omega
  · refine ⟨[.worker w .finish], _, TransitionSystem.run_of_legal ?_, fun hn => hup ?_⟩
    · simp [Enabled, workerMove, hlt, Label.keepsPolicies]
    · have hfin := finished_of_mem_set hothers .leaving rfl
      have hup' := hn hrun hq
        (by simpa [State.AllFinished, next, workerMove, State.setWorker] using hfin)
      exact hup'

/-- The queue wraps to the size `0` while nobody serves it. -/
theorem starves_of_push (h : (defaultPool Task).Run start tr s) {p : ℕ} {e : Entry Task}
    (ha : Enabled (.producer p (.push e)) s) (hrun : s.running = true)
    (hno : ∀ w, ¬ s.Serving w) (hwrap : (s.taskQueue.length + 1) % 2 ^ 32 = 0) :
    ¬ NeverStarves (next (.producer p (.push e)) s) := by
  intro hn
  have hholds : s.Holds (.producer p) := by
    rw [State.Holds, ha.1]
    rfl
  have hfin : ∀ x ∈ s.workers, x.finished = true := by
    intro x hx
    obtain ⟨v, hv⟩ := List.mem_iff_getElem?.mp hx
    rw [exited_of_not_serving (mutex_owner h.of_restrict) hholds (by simp) (hno v) hv]
    rfl
  -- the policy would have to ask for a worker at size `0`
  have hzero : s.scaleUp (.ofNat (s.taskQueue.length + 1)) s.count = true := by
    have hup := hn hrun (by simp [next, producerMove]) hfin
    simpa [next, producerMove, State.size, State.count] using hup
  rw [(scaled h).1.scaleUp_ofNat_iff (accounts h.of_restrict).count] at hzero
  omega

/-- A step that breaks the condition leads to a starving state, if need be with
one more `addTask`. -/
theorem starves_of_not_sparesLast (t : WorkerTask Task) (h : (defaultPool Task).Run start tr s)
    {a : Label Task} (ha : (defaultPool Task).Enabled a s) (hC : ¬ SparesLast s a) :
    ∃ tr' s', (defaultPool Task).Run (next a s) tr' s' ∧ ¬ NeverStarves s' := by
  unfold SparesLast at hC
  split at hC
  · simp only [Classical.not_imp] at hC
    obtain ⟨hk, hrun, hlast, hup⟩ := hC
    exact starves_of_casKill t h ha.1 hk hrun hlast hup
  · simp only [Classical.not_imp, ne_eq, not_not] at hC
    obtain ⟨hrun, hno, hwrap⟩ := hC
    exact ⟨[], _, .nil, starves_of_push h ha.1 hrun hno hwrap⟩
  · exact absurd trivial hC

/-- **When a running pool starves its queue.**  It does not in a run whose steps
all meet `SparesLast`, and any step that does not meet it leads to a state in
which it does. -/
theorem neverStarves_exact (t : WorkerTask Task) (h : (defaultPool Task).Run start tr s) :
    ((defaultPool Task).RunBy (fun _ => SparesLast) start tr s → NeverStarves s) ∧
    ∀ a, (defaultPool Task).Enabled a s → ¬ SparesLast s a →
      ∃ tr' s', (defaultPool Task).Run (next a s) tr' s' ∧ ¬ NeverStarves s' :=
  ⟨neverStarves, fun _ ha hC => starves_of_not_sparesLast t h ha hC⟩

end Runs

/-! ## A burst, and two kill signals for two workers -/

/-- Worker `w` takes a kill signal and sets its flag. -/
def killedRun (w : ℕ) : List (Label ℕ) :=
  [.worker w .lock, .worker w .testQueue, .worker w .loadKill, .worker w (.casKill 1 false),
    .worker w .finish]

/-- Eleven jobs bring two workers, which execute six of them; the manager then
sends two kill signals in a row, the second before it has counted the first
worker out. -/
def starvedRun : List (Label ℕ) :=
  (List.range 11).flatMap (fun n => addTaskRun 0 (job n)) ++
    sampleRun ++ [.manager .spawn] ++ sampleRun ++ [.manager .spawn] ++
    (List.range 6).flatMap (fun n => takeRun 0 (job n) ++ [.worker 0 (.complete (job n) false)]) ++
    sampleRun ++ [.manager .testScaleDown, .manager .loadKill, .manager (.casKill false),
      .manager (.notify none), .manager .pause, .manager (.reap 0), .manager (.reap 1),
      .manager (.reap 2)] ++
    killedRun 0 ++ [.worker 0 .leave] ++
    sampleRun ++ [.manager .testScaleDown, .manager .loadKill, .manager (.casKill false)] ++
    killedRun 1

instance (s : State ℕ) : Decidable s.AllFinished :=
  inferInstanceAs (Decidable (∀ pc ∈ s.workers, _))

instance (s : State ℕ) : Decidable (NeverStarves s) :=
  inferInstanceAs (Decidable (_ → _ → _ → _))

instance : ∀ (a : Label ℕ) (s : State ℕ), Decidable ((defaultPool ℕ).Enabled a s) :=
  fun a s => inferInstanceAs (Decidable ((pool ℕ).Enabled a s ∧ a.keepsPolicies = true))

set_option maxRecDepth 20000 in
/-- Five jobs are left, no worker, and a count of two for which five jobs are too few. -/
theorem starves_starvedRun : ¬ ∀ (tr : List (Label ℕ)) (s : State ℕ),
    (defaultPool ℕ).Run start tr s → NeverStarves s := by
  intro hall
  have hlegal : (defaultPool ℕ).Legal starvedRun start := by decide
  exact absurd (hall _ _ (TransitionSystem.run_of_legal hlegal)) (by decide)

/-- No kill signal is taken, and few jobs are queued. -/
def keepsWorkers (s : State ℕ) : Label ℕ → Bool
  | .worker _ (.casKill _ _) => false
  | .producer _ (.push _) => s.taskQueue.length < 10
  | _ => true

theorem keepsWorkers_sparesLast {s : State ℕ} {a : Label ℕ} (h : keepsWorkers s a = true) :
    SparesLast s a := by
  unfold SparesLast
  split
  · exact absurd h Bool.false_ne_true
  · intro _ _
    have hlt : s.taskQueue.length < 10 := by simpa [keepsWorkers] using h
    omega
  · trivial

/-- The first job a fresh pool is given brings a worker. -/
theorem neverStarves_exact_addTask :
    NeverStarves ((defaultPool ℕ).after (addTaskRun 0 (job 0)) start) ∧
      ((defaultPool ℕ).after (addTaskRun 0 (job 0)) start).taskQueue = [job 0] := by
  have hlegal : ((defaultPool ℕ).restrict fun s a => keepsWorkers s a = true).Legal
      (addTaskRun 0 (job 0)) start := by decide
  have hby := TransitionSystem.runBy_of_legal (C := fun _ => SparesLast)
    (fun _ _ _ => keepsWorkers_sparesLast) hlegal
  exact ⟨(neverStarves_exact (job 0).work hby.run).1 hby, by decide⟩

end ThreadPool
