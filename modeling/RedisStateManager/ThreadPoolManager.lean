/-
# The manager's accounts

What `managerFunction` knows about its workers, and when it may leave its
scaling loop.  `Accounts` collects the facts: `running_` is cleared by the
destructor and never set again, the manager leaves its loop only after that,
`workerCount` counts `workerPool`, every worker is in `workerPool` or has
exited, and `managerFunction` returns with `workerPool` empty.
-/
import RedisStateManager.ThreadPoolStep

namespace ThreadPool

variable {Task : Type}

/-- `managerFunction` has left `while (this->running_)`. -/
def ManagerPc.leftLoop : ManagerPc → Bool
  | .finalNotify | .drain | .drainReap _ | .drainJoin _ | .returned => true
  | _ => false

/-- The facts the manager's bookkeeping maintains. -/
structure Accounts (s : State Task) : Prop where
  running_iff : s.running = true ↔ s.destructor = .idle ∨ s.destructor = .storeRunning
  leftLoop : s.manager.leftLoop = true → s.running = false
  count : s.workerCount = s.workerPool.length
  pooled : ∀ w < s.workers.length, w ∈ s.workerPool ∨ s.workers[w]? = some .exited
  returned : s.manager = .returned → s.workerPool = []
  joined : s.destructor = .returned → s.manager = .returned

/-- An exited worker stays exited. -/
theorem exited_next {a : Label Task} {s : State Task} (h : Enabled a s) {w : ℕ}
    (hw : s.workers[w]? = some .exited) : (next a s).workers[w]? = some .exited := by
  rcases worker_next h w with ⟨b, -, hsrc, -⟩ | ⟨-, hk | ⟨hb, -⟩ | ⟨-, hlen, -⟩⟩
  -- no step of a worker starts where it has exited
  · rw [hw] at hsrc
    cases b <;> exact absurd hsrc (by simp [workerMove])
  · rw [hk, hw]
  · rw [hw] at hb
    exact absurd hb (by simp)
  · rw [List.getElem?_eq_none hlen.ge] at hw
    exact absurd hw (by simp)

/-- Only a spawn adds a worker. -/
theorem length_workers_next {a : Label Task} {s : State Task} (ha : a ≠ .manager .spawn) :
    (next a s).workers.length = s.workers.length := by
  cases a with
  | worker w b => simp [next_worker]
  | manager b =>
    cases b with
    | spawn => exact absurd rfl ha
    | notify woken => cases woken <;> simp [next_manager, managerMove, notifyOne_eq]
    | casKill spurious => simp only [next_manager, managerMove]; split <;> rfl
    | finalNotify => simp [next_manager, managerMove, State.notifyAll]
    | _ => rfl
  | producer p b =>
    cases b with
    | notify woken => cases woken <;> simp [next_producer, producerMove, notifyOne_eq]
    | _ => rfl
  | destructor b => cases b <;> simp [next_destructor, destructorMove, State.notifyAll]
  | setScaleUp func => rfl
  | setScaleDown func => rfl

/-- The entry that is joined is in `workerPool` and has exited. -/
theorem exitedAt_getElem {s : State Task} {i : ℕ} (h : s.exitedAt i) :
    ∃ hi : i < s.workerPool.length, s.workers[s.workerPool[i]]? = some .exited := by
  rw [State.exitedAt, Option.bind_eq_some_iff] at h
  obtain ⟨w, hw, hex⟩ := h
  obtain ⟨hi, rfl⟩ := List.getElem?_eq_some_iff.mp hw
  exact ⟨hi, hex⟩

/-- `join` and `erase` keep the count right. -/
theorem joinAt_count {s : State Task} {i : ℕ} (h : s.exitedAt i)
    (hc : s.workerCount = s.workerPool.length) :
    (s.joinAt i).workerCount = (s.joinAt i).workerPool.length := by
  obtain ⟨hi, -⟩ := exitedAt_getElem h
  simp only [State.joinAt, hc, List.length_eraseIdx_of_lt hi]
  omega

/-- Whoever is erased from `workerPool` has exited. -/
theorem joinAt_pooled {s : State Task} {i : ℕ} (h : s.exitedAt i)
    (hp : ∀ w < s.workers.length, w ∈ s.workerPool ∨ s.workers[w]? = some .exited) {w : ℕ}
    (hw : w < s.workers.length) :
    w ∈ (s.joinAt i).workerPool ∨ (s.joinAt i).workers[w]? = some .exited := by
  obtain ⟨hi, hex⟩ := exitedAt_getElem h
  rcases hp w hw with hmem | hexit
  · by_cases hwi : w = s.workerPool[i]
    · exact Or.inr (by rw [hwi]; exact hex)
    -- any other entry of the pool is still there, one place lower at most
    · obtain ⟨j, hj, rfl⟩ := List.mem_iff_getElem.mp hmem
      have hji : j ≠ i := fun hji => hwi (by subst hji; rfl)
      exact Or.inl (List.mem_eraseIdx_iff_getElem?.mpr ⟨j, hji, List.getElem?_eq_getElem hj⟩)
  · exact Or.inr hexit

/-! ## A step keeps the accounts -/

theorem running_iff_next {a : Label Task} {s : State Task} (h : Enabled a s)
    (hs : s.running = true ↔ s.destructor = .idle ∨ s.destructor = .storeRunning) :
    (next a s).running = true ↔
      (next a s).destructor = .idle ∨ (next a s).destructor = .storeRunning := by
  cases a with
  | worker w b => rw [next_worker]; exact hs
  | manager b => rw [next_manager]; exact hs
  | producer p b => rw [next_producer]; exact hs
  | destructor b =>
    cases b with
    | call =>
      have hsrc : s.destructor = .idle := h.1
      simpa [hsrc, next, destructorMove] using hs
    | storeRunning => simp [next, destructorMove]
    | notifyAll =>
      have hsrc : s.destructor = .notifyAll := h.1
      simpa [hsrc, next, destructorMove, State.notifyAll] using hs
    | join =>
      have hsrc : s.destructor = .join := h.1
      simpa [hsrc, next, destructorMove] using hs
  | setScaleUp func => exact hs
  | setScaleDown func => exact hs

/-- `running_` is never set again. -/
theorem running_next {a : Label Task} {s : State Task} (hs : s.running = false) :
    (next a s).running = false := by
  cases a with
  | worker w b => rw [next_worker]; exact hs
  | manager b => rw [next_manager]; exact hs
  | producer p b => rw [next_producer]; exact hs
  | destructor b => cases b <;> first | exact hs | rfl
  | setScaleUp func => exact hs
  | setScaleDown func => exact hs

theorem running_of_next {a : Label Task} {s : State Task} (h : (next a s).running = true) :
    s.running = true := by
  by_contra hs
  rw [running_next (Bool.eq_false_of_not_eq_true hs)] at h
  exact Bool.false_ne_true h

/-- The manager's control point is its own. -/
theorem manager_next {a : Label Task} {s : State Task} (ha : ∀ b, a ≠ .manager b) :
    (next a s).manager = s.manager := by
  cases a with
  | worker w b => rw [next_worker]
  | manager b => exact absurd rfl (ha b)
  | producer p b => rw [next_producer]
  | destructor b => rw [next_destructor]
  | setScaleUp func => rfl
  | setScaleDown func => rfl

/-- **Leaving the scaling loop**: the manager is past it after a step iff it was
before, or it has just found `running_` cleared. -/
theorem leftLoop_next {a : Label Task} {s : State Task} (h : Enabled a s) :
    (next a s).manager.leftLoop = true ↔
      s.manager.leftLoop = true ∨ (a = .manager .testRunning ∧ s.running = false) := by
  by_cases ha : ∃ b, a = .manager b
  · obtain ⟨b, rfl⟩ := ha
    rw [h.1]
    have htgt : (next (.manager b) s).manager = (managerMove b s).target := rfl
    rw [htgt]
    cases b with
    | testRunning => cases hr : s.running <;> simp [managerMove, hr, ManagerPc.leftLoop]
    | testScaleUp | testScaleDown | loadKill | testCount | reap i | drainReap i =>
      simp only [managerMove]
      split_ifs <;> simp [ManagerPc.leftLoop]
    | _ => simp [managerMove, ManagerPc.leftLoop]
  · push Not at ha
    rw [manager_next ha]
    simp [ha]

theorem workerPool_next {a : Label Task} {s : State Task} (ha : ∀ b, a ≠ .manager b) :
    (next a s).workerPool = s.workerPool ∧ (next a s).workerCount = s.workerCount := by
  cases a with
  | worker w b => rw [next_worker]; exact ⟨rfl, rfl⟩
  | manager b => exact absurd rfl (ha b)
  | producer p b => rw [next_producer]; exact ⟨rfl, rfl⟩
  | destructor b => rw [next_destructor]; exact ⟨rfl, rfl⟩
  | setScaleUp func => exact ⟨rfl, rfl⟩
  | setScaleDown func => exact ⟨rfl, rfl⟩

/-- A step of the manager that neither spawns nor joins leaves `workerPool` alone. -/
theorem workerPool_manager {b : ManagerAct} {s : State Task} (hspawn : b ≠ .spawn)
    (hjoin : ∀ i, b ≠ .join i) (hdrain : ∀ i, b ≠ .drainJoin i) :
    (next (.manager b) s).workerPool = s.workerPool ∧
      (next (.manager b) s).workerCount = s.workerCount := by
  cases b with
  | spawn => exact absurd rfl hspawn
  | join i => exact absurd rfl (hjoin i)
  | drainJoin i => exact absurd rfl (hdrain i)
  | casKill spurious => simp only [next_manager, managerMove]; split <;> simp
  | notify woken => simp [next_manager, managerMove, notifyOne_eq]
  | _ => exact ⟨rfl, rfl⟩

/-- **How a step changes `workerPool`**: the manager spawns a worker, or joins
and erases one that has exited, or the pool stays as it is. -/
theorem workerPool_cases {a : Label Task} {s : State Task} (h : Enabled a s) :
    (a = .manager .spawn ∧ (next a s).workerPool = s.workerPool ++ [s.workers.length] ∧
      (next a s).workerCount = s.workerCount + 1) ∨
    (∃ i, s.exitedAt i ∧ (next a s).workerPool = (s.joinAt i).workerPool ∧
      (next a s).workerCount = (s.joinAt i).workerCount ∧ (next a s).workers = s.workers) ∨
    (a ≠ .manager .spawn ∧ (next a s).workerPool = s.workerPool ∧
      (next a s).workerCount = s.workerCount) := by
  by_cases ha : ∃ b, a = .manager b
  · obtain ⟨b, rfl⟩ := ha
    by_cases hspawn : b = .spawn
    · subst hspawn
      exact Or.inl ⟨rfl, rfl, rfl⟩
    by_cases hjoin : ∃ i, b = .join i ∨ b = .drainJoin i
    · obtain ⟨i, rfl | rfl⟩ := hjoin
      · exact Or.inr (Or.inl ⟨i, h.2, rfl, rfl, rfl⟩)
      · exact Or.inr (Or.inl ⟨i, h.2, rfl, rfl, rfl⟩)
    · push Not at hjoin
      exact Or.inr (Or.inr ⟨fun heq => hspawn (by injection heq),
        workerPool_manager hspawn (fun i => (hjoin i).1) (fun i => (hjoin i).2)⟩)
  · push Not at ha
    exact Or.inr (Or.inr ⟨ha _, workerPool_next ha⟩)

theorem pooled_next {a : Label Task} {s : State Task} (h : Enabled a s)
    (hs : ∀ w < s.workers.length, w ∈ s.workerPool ∨ s.workers[w]? = some .exited) {w : ℕ}
    (hw : w < (next a s).workers.length) :
    w ∈ (next a s).workerPool ∨ (next a s).workers[w]? = some .exited := by
  rcases workerPool_cases h with ⟨rfl, hpool, -⟩ | ⟨i, hi, hpool, -, hwork⟩ | ⟨ha, hpool, -⟩
  -- a spawned worker enters the pool; a joined one has exited
  · have hlen : (next (.manager .spawn) s).workers.length = s.workers.length + 1 := by
      simp [next, managerMove, State.spawnWorker]
    rw [hpool, List.mem_append, List.mem_singleton]
    rcases Nat.lt_succ_iff_lt_or_eq.mp (hlen ▸ hw) with hlt | heq
    · exact (hs w hlt).imp Or.inl (exited_next h)
    · exact Or.inl (Or.inr heq)
  · rw [hpool, hwork]
    exact joinAt_pooled hi hs (hwork ▸ hw)
  · rw [hpool]
    rw [length_workers_next ha] at hw
    exact (hs w hw).imp_right (exited_next h)

theorem count_next {a : Label Task} {s : State Task} (h : Enabled a s)
    (hs : s.workerCount = s.workerPool.length) :
    (next a s).workerCount = (next a s).workerPool.length := by
  rcases workerPool_cases h with ⟨-, hpool, hcount⟩ | ⟨i, hi, hpool, hcount, -⟩ | ⟨-, hpool, hcount⟩
  · rw [hpool, hcount, hs]
    simp
  · rw [hpool, hcount]
    exact joinAt_count hi hs
  · rw [hpool, hcount, hs]

theorem returned_next {a : Label Task} {s : State Task} (h : Enabled a s)
    (hc : s.workerCount = s.workerPool.length) (hs : s.manager = .returned → s.workerPool = [])
    (hret : (next a s).manager = .returned) : (next a s).workerPool = [] := by
  by_cases ha : ∃ b, a = .manager b
  · obtain ⟨b, rfl⟩ := ha
    have htgt : (managerMove b s).target = .returned := hret
    -- `managerFunction` returns when it has found no worker to count
    cases b with
    | testCount =>
      by_cases hz : s.workerCount = 0
      · have hlen : s.workerPool.length = 0 := by omega
        exact List.length_eq_zero_iff.mp hlen
      · simp [managerMove, hz] at htgt
    | testRunning | testScaleUp | testScaleDown | loadKill | reap i | drainReap i =>
      simp only [managerMove] at htgt
      split_ifs at htgt
    | _ => simp [managerMove] at htgt
  · push Not at ha
    rw [(workerPool_next ha).1]
    rw [manager_next ha] at hret
    exact hs hret

/-- The manager does not move once it has returned. -/
theorem manager_returned_next {a : Label Task} {s : State Task} (h : Enabled a s)
    (hs : s.manager = .returned) : (next a s).manager = .returned := by
  by_cases ha : ∃ b, a = .manager b
  · obtain ⟨b, rfl⟩ := ha
    have hsrc := h.1
    rw [hs] at hsrc
    cases b <;> exact absurd hsrc (by simp [managerMove])
  · push Not at ha
    rw [manager_next ha, hs]

theorem joined_next {a : Label Task} {s : State Task} (h : Enabled a s)
    (hs : s.destructor = .returned → s.manager = .returned)
    (hret : (next a s).destructor = .returned) : (next a s).manager = .returned := by
  refine manager_returned_next h ?_
  cases a with
  | worker w b => rw [next_worker] at hret; exact hs hret
  | manager b => rw [next_manager] at hret; exact hs hret
  | producer p b => rw [next_producer] at hret; exact hs hret
  | destructor b =>
    cases b with
    | join => exact h.2
    | _ => exact absurd hret (by simp [next, destructorMove])
  | setScaleUp func => exact hs hret
  | setScaleDown func => exact hs hret

theorem Accounts.next {a : Label Task} {s : State Task} (hs : Accounts s) (h : Enabled a s) :
    Accounts (next a s) where
  running_iff := running_iff_next h hs.running_iff
  leftLoop := fun hl => by
    rcases (leftLoop_next h).mp hl with hl | ⟨-, hr⟩
    · exact running_next (hs.leftLoop hl)
    · exact running_next hr
  count := count_next h hs.count
  pooled := fun _ hw => pooled_next h hs.pooled hw
  returned := returned_next h hs.count hs.returned
  joined := joined_next h hs.joined

/-- **The manager's accounts are right in every run.** -/
theorem accounts {up down : UInt32 → UInt32 → Bool} {tr : List (Label Task)} {s : State Task}
    (h : (pool Task).Run (initial up down) tr s) : Accounts s := by
  refine h.invariant (I := Accounts) ?_ fun a s hs ha => hs.next ha
  constructor <;> simp [initial, ManagerPc.leftLoop]

/-- When `managerFunction` returns, every worker has exited. -/
theorem Accounts.exited {s : State Task} (hs : Accounts s) (hret : s.manager = .returned)
    {w : ℕ} {pc : WorkerPc Task} (hw : s.workers[w]? = some pc) : pc = .exited := by
  have hlt : w < s.workers.length := (List.getElem?_eq_some_iff.mp hw).1
  rcases hs.pooled w hlt with hmem | hex
  · rw [hs.returned hret] at hmem
    exact absurd hmem (by simp)
  · exact Option.some.inj (hw.symm.trans hex)

/-! ## The bound of the scaling policies -/

/-- The manager decides to spawn only where the policy says so. -/
theorem spawn_next {a : Label Task} {s : State Task} (h : Enabled a s)
    (hspawn : (next a s).manager = .spawn) :
    (s.manager = .spawn ∧ (next a s).workerPool = s.workerPool) ∨
      (a = .manager .testScaleUp ∧ s.scaleUp s.queueSize s.count = true) := by
  by_cases ha : ∃ b, a = .manager b
  · obtain ⟨b, rfl⟩ := ha
    have htgt : (managerMove b s).target = .spawn := hspawn
    cases b with
    | testScaleUp =>
      by_cases hup : s.scaleUp s.queueSize s.count = true
      · exact Or.inr ⟨rfl, hup⟩
      · simp [managerMove, hup] at htgt
    | testRunning | testScaleDown | loadKill | testCount | reap i | drainReap i =>
      simp only [managerMove] at htgt
      split_ifs at htgt
    | _ => simp [managerMove] at htgt
  · push Not at ha
    rw [manager_next ha] at hspawn
    exact Or.inl ⟨hspawn, (workerPool_next ha).1⟩

/-- If there are `N` workers or more, an evaluation of `scaleUp` is false. -/
def CapsAt (N : ℕ) (s : State Task) : Label Task → Prop
  | .manager .testScaleUp => (N : ℤ) ≤ s.workerCount → s.scaleUp s.queueSize s.count = false
  | _ => True

/-- `workerPool` has at most `N` entries, and fewer when a worker is about to be spawned. -/
def Capped (N : ℕ) (s : State Task) : Prop :=
  s.workerPool.length ≤ N ∧ (s.manager = .spawn → s.workerPool.length < N)

theorem Capped.next {N : ℕ} {a : Label Task} {s : State Task} (hs : Capped N s) (h : Enabled a s)
    (hcount : s.workerCount = s.workerPool.length) (hC : CapsAt N s a) : Capped N (next a s) := by
  obtain ⟨hle, hroom⟩ := hs
  constructor
  · rcases workerPool_cases h with ⟨rfl, hpool, -⟩ | ⟨i, hi, hpool, -⟩ | ⟨-, hpool, -⟩
    · have hlt := hroom h.1
      rw [hpool, List.length_append, List.length_singleton]
      omega
    · obtain ⟨hlt, -⟩ := exitedAt_getElem hi
      rw [hpool, State.joinAt, List.length_eraseIdx_of_lt hlt]
      omega
    · rw [hpool]
      exact hle
  · intro hspawn
    rcases spawn_next h hspawn with ⟨hsrc, hpool⟩ | ⟨rfl, hup⟩
    · rw [hpool]
      exact hroom hsrc
    · -- the policy would have been false
      have hpool : (ThreadPool.next (.manager .testScaleUp) s).workerPool = s.workerPool := rfl
      rw [hpool]
      by_contra hfull
      have hfalse := hC (by omega)
      rw [hup] at hfalse
      exact absurd hfalse (by simp)

/-- **The policies bound the number of workers.** -/
theorem capped {N : ℕ} {up down : UInt32 → UInt32 → Bool} {tr : List (Label Task)}
    {s : State Task} (h : (pool Task).RunBy (fun _ => CapsAt N) (initial up down) tr s) :
    Capped N s := by
  refine h.induct (P := fun _ s => Capped N s) ⟨Nat.zero_le _, fun hspawn => by cases hspawn⟩ ?_
  exact fun tr s a hr hs ha hC => hs.next ha (accounts hr.run).count hC

end ThreadPool
