/-
# The floor of scaling down

The manager asks `scaleDown` with its count of the workers it has not joined,
and a worker that has taken a kill signal is counted until it is joined.  So a
policy that asks for fewer workers only above a floor can still lead below it.
The number of workers that serve the queue decides: as long as the manager
raises a kill signal only with more than `m` of them, `m` workers stay.
-/
import RedisStateManager.ThreadPoolScaling

namespace ThreadPool

variable {Task : Type}

/-! ## Live workers and serving workers -/

/-- The worker has been spawned and has not set its `finished` flag. -/
def WorkerPc.live (pc : WorkerPc Task) : Bool := !pc.finished

namespace State

variable (s : State Task)

def liveCount : ℕ := s.workers.countP WorkerPc.live

def servingCount : ℕ := s.workers.countP WorkerPc.serving

end State

/-- The policy asks for fewer workers only above the floor. -/
def AsksAbove (m : ℕ) (down : UInt32 → UInt32 → Bool) : Prop :=
  ∀ queueSize workerCount, down queueSize workerCount = true → m < workerCount.toNat

/-- So do the policies that are set during the run. -/
def SetsAbove (m : ℕ) (tr : List (Label Task)) : Prop :=
  ∀ func, Label.setScaleDown func ∈ tr → AsksAbove m func

/-- From `u` on to `s`, while the pool runs, the number of live workers does not
fall below the floor. -/
def FloorKept (m : ℕ) (u s : State Task) : Prop :=
  u.running = true → m ≤ u.liveCount → s.running = true → m ≤ s.liveCount

/-- A kill signal is raised only with more than `m` workers that serve the queue. -/
def SparesFloor (m : ℕ) (s : State Task) : Label Task → Prop
  | .manager (.casKill false) => s.killThread = 0 → m < s.servingCount
  | _ => True

theorem servingCount_le_liveCount (s : State Task) : s.servingCount ≤ s.liveCount := by
  refine List.countP_mono_left fun pc _ hpc => ?_
  cases pc <;> first | rfl | exact absurd hpc Bool.false_ne_true

theorem liveCount_le_length (s : State Task) : s.liveCount ≤ s.workers.length :=
  List.countP_le_length

/-! ## What a step does to the number of serving workers -/

section Step

variable {a : Label Task} {s : State Task}

/-- **How the number of serving workers changes**: a worker stops serving by taking a
kill signal, or by finding the queue empty at shutdown, and one begins to by being
spawned. -/
theorem servingCount_cases (h : Enabled a s) (hk : Known s) :
    (∃ w k, a = .worker w (.casKill k false) ∧ s.killThread = k ∧ k ≠ 0 ∧
      (next a s).servingCount + 1 = s.servingCount) ∨
    (∃ w, a = .worker w .exitQueue ∧ s.taskQueue = [] ∧
      (next a s).servingCount + 1 = s.servingCount) ∨
    (a = .manager .spawn ∧ (next a s).servingCount = s.servingCount + 1) ∨
    ((∀ w, a ≠ .worker w (.casKill s.killThread false)) ∧ a ≠ .manager .spawn ∧
      (next a s).servingCount = s.servingCount) := by
  rcases countP_workers_next WorkerPc.serving rfl h with ⟨w, b, rfl, hcount⟩ | ⟨rfl, hcount⟩ |
    ⟨hw, hspawn, hcount⟩
  · have hsame : (workerMove w b s).source.serving = (workerMove w b s).target.serving →
        (next (.worker w b) s).servingCount = s.servingCount := by
      intro heq
      rw [heq] at hcount
      exact Nat.add_right_cancel hcount
    cases b with
    | casKill k spurious =>
      by_cases hc : spurious = false ∧ s.killThread = k
      · refine Or.inl ⟨w, k, by rw [hc.1], hc.2, (hk.kill w k h.1).2, ?_⟩
        simpa [State.servingCount, workerMove, hc, WorkerPc.serving] using hcount
      · refine Or.inr (Or.inr (Or.inr ⟨?_, by simp,
          hsame (by simp [workerMove, hc, WorkerPc.serving])⟩))
        intro v heq
        injection heq with _ heq
        injection heq with hkill hspurious
        exact hc ⟨hspurious, hkill.symm⟩
    | exitQueue =>
      by_cases hq : s.taskQueue = []
      · refine Or.inr (Or.inl ⟨w, rfl, hq, ?_⟩)
        simpa [State.servingCount, workerMove, hq, WorkerPc.serving] using hcount
      · refine Or.inr (Or.inr (Or.inr ⟨by simp, by simp, hsame ?_⟩))
        simp [workerMove, hq, WorkerPc.serving]
    | testQueue | testRunning | testKill | loadKill | exitRunning =>
      refine Or.inr (Or.inr (Or.inr ⟨by simp, by simp, hsame ?_⟩))
      simp only [workerMove]
      split <;> rfl
    | _ => exact Or.inr (Or.inr (Or.inr ⟨by simp, by simp, hsame rfl⟩))
  · exact Or.inr (Or.inr (Or.inl ⟨rfl, hcount⟩))
  · exact Or.inr (Or.inr (Or.inr ⟨fun w => hw w _, hspawn, hcount⟩))

/-- While the pool runs nobody leaves because the queue is empty. -/
theorem servingCount_next (h : Enabled a s) (hk : Known s) (hrun : s.running = true) :
    (∃ w k, a = .worker w (.casKill k false) ∧ s.killThread = k ∧ k ≠ 0 ∧
      (next a s).servingCount + 1 = s.servingCount) ∨
    (a = .manager .spawn ∧ (next a s).servingCount = s.servingCount + 1) ∨
    ((∀ w, a ≠ .worker w (.casKill s.killThread false)) ∧ a ≠ .manager .spawn ∧
      (next a s).servingCount = s.servingCount) := by
  rcases servingCount_cases h hk with htake | ⟨w, rfl, -⟩ | hother
  · exact Or.inl htake
  · rw [hk.exit w h.1] at hrun
    exact absurd hrun Bool.false_ne_true
  · exact Or.inr hother

/-- Beside the worker that a pending kill signal will take, `m` workers serve. -/
def Floored (m : ℕ) (s : State Task) : Prop := s.killThread + m ≤ s.servingCount

/-- No kill signal has been raised. -/
def Unkilled (s : State Task) : Prop := s.killThread = 0 ∧ s.servingCount = s.workers.length

/-- The step lemma. -/
theorem floored_next {m : ℕ} (h : Enabled a s) (hk : Known s) (hrun : s.running = true)
    (hC : SparesFloor m s a) (hs : Floored m s) : Floored m (next a s) := by
  unfold Floored at hs ⊢
  rcases servingCount_next h hk hrun with ⟨w, k, rfl, hkill, hpos, hcount⟩ | ⟨rfl, hcount⟩ |
    ⟨hw, hspawn, hcount⟩
  -- the signal that is taken was pending
  · have htaken : (next (.worker w (.casKill k false)) s).killThread = k - 1 := by
      rw [next_worker]
      simp [workerMove, hkill]
    omega
  · have hsame : (next (.manager .spawn) s).killThread = s.killThread := rfl
    omega
  · rcases killThread_next (a := a) (s := s) with ⟨w, k, rfl, rfl, -⟩ | ⟨rfl, hz, hone⟩ | hsame
    · exact absurd rfl (hw w)
    · have hlt := hC hz
      omega
    · omega

/-- Without kill signals nobody stops serving; the first one leaves `m` workers. -/
theorem unkilled_next {m : ℕ} (h : Enabled a s) (hk : Known s) (hrun : s.running = true)
    (hC : SparesFloor m s a) (hs : Unkilled s) :
    Unkilled (next a s) ∨ Floored m (next a s) := by
  obtain ⟨hz, hall⟩ := hs
  rcases servingCount_next h hk hrun with ⟨w, k, rfl, hkill, hpos, hcount⟩ | ⟨rfl, hcount⟩ |
    ⟨hw, hspawn, hcount⟩
  · omega
  · refine Or.inl ⟨hz, ?_⟩
    rw [hcount, hall]
    simp [next, managerMove, State.spawnWorker]
  · rcases killThread_next (a := a) (s := s) with ⟨w, k, rfl, rfl, -⟩ | ⟨rfl, -, hone⟩ | hsame
    · exact absurd rfl (hw w)
    · have hlt := hC hz
      exact Or.inr (by unfold Floored; omega)
    · refine Or.inl ⟨hsame.trans hz, ?_⟩
      rw [hcount, hall, length_workers_next hspawn]

end Step

/-! ## The floor along a run -/

section Runs

variable {up down : UInt32 → UInt32 → Bool} {m : ℕ}

/-- At any time either no kill signal has been raised, or the floor is kept. -/
theorem unkilled_or_floored {tr : List (Label Task)} {s : State Task}
    (h : (pool Task).RunBy (fun _ => SparesFloor m) (initial up down) tr s)
    (hrun : s.running = true) : Unkilled s ∨ Floored m s := by
  refine h.induct (P := fun _ s => s.running = true → Unkilled s ∨ Floored m s) ?_ ?_ hrun
  · exact fun _ => Or.inl ⟨rfl, rfl⟩
  · intro tr s a hr hs ha hC hrun'
    have hrun := running_of_next hrun'
    rcases hs hrun with hu | hf
    · exact unkilled_next ha (known hr.run) hrun hC hu
    · exact Or.inr (floored_next ha (known hr.run) hrun hC hf)

/-- **Scaling down keeps its floor** if no step of the run raises a kill signal
with `m` or fewer workers that serve: once `m` workers are live, `m` are live as
long as the pool runs. -/
theorem floorKept {pre post : List (Label Task)} {u s : State Task}
    (h : (pool Task).RunBy (fun _ => SparesFloor m) (initial up down) (pre ++ post) s)
    (hu : (pool Task).Run (initial up down) pre u) : FloorKept m u s := by
  intro hrunu hlive hrun
  obtain ⟨v, hv, hpost⟩ := h.split
  obtain rfl : v = u := hv.run.unique hu
  -- from `v` on the floor is kept, whether or not a signal was raised before
  have hfloor : Floored m v := by
    rcases unkilled_or_floored hv hrunu with ⟨hz, hall⟩ | hf
    · have hle := liveCount_le_length v
      unfold Floored
      omega
    · exact hf
  have hend : s.running = true → Floored m s := by
    refine hpost.induct (P := fun _ s => s.running = true → Floored m s) (fun _ => hfloor) ?_
    intro tr s a hr hs ha hC hrun'
    have hrun := running_of_next hrun'
    exact floored_next ha (known (hu.append hr.run)) hrun hC (hs hrun)
  have hle := servingCount_le_liveCount s
  have hf := hend hrun
  unfold Floored at hf
  omega

end Runs

/-! ## Two kill signals for two workers -/

theorem asksAbove_defaultScaleDown : AsksAbove 1 defaultScaleDown := by
  intro queueSize workerCount h
  rw [defaultScaleDown, Bool.and_eq_true, decide_eq_true_iff] at h
  exact UInt32.lt_iff_toNat_lt.mp (by simpa using h.2)

/-- A pool that keeps two workers, under the default `scaleDown`. -/
def pair : State ℕ := initial (fun _ workerCount => workerCount < 2) defaultScaleDown

def pairRun : List (Label ℕ) :=
  sampleRun ++ [.manager .spawn] ++ sampleRun ++ [.manager .spawn]

/-- The manager finds the count too high and raises a kill signal; nobody sleeps. -/
def raiseRun : List (Label ℕ) :=
  sampleRun ++ [.manager .testScaleDown, .manager .loadKill, .manager (.casKill false),
    .manager (.notify none), .manager .pause]

/-- Worker `w` finds the queue empty, takes the kill signal and leaves. -/
def leaveRun (w : ℕ) : List (Label ℕ) :=
  [.worker w .lock, .worker w .testQueue, .worker w .testRunning, .worker w .testKill,
    .worker w .loadKill, .worker w (.casKill 1 false), .worker w .finish, .worker w .leave]

/-- Worker 0 leaves after the manager has looked for finished workers, so it is
still counted when the manager raises the second signal, and worker 1 leaves too. -/
def emptiedRun : List (Label ℕ) :=
  raiseRun ++ [.manager (.reap 0), .manager (.reap 1), .manager (.reap 2)] ++ leaveRun 0 ++
    raiseRun ++ leaveRun 1

theorem setsAbove_of_forall {m : ℕ} {tr : List (Label Task)}
    (h : ∀ a ∈ tr, a.keepsPolicies = true) : SetsAbove m tr :=
  fun _ hfunc => absurd (h _ hfunc) Bool.false_ne_true

/-- Of two workers the default policy, which asks for fewer above one, leaves none. -/
theorem floor_emptiedRun : ¬ ∀ (m : ℕ) (up down : UInt32 → UInt32 → Bool)
    (pre post : List (Label ℕ)) (u s : State ℕ), 1 ≤ m → AsksAbove m down →
    SetsAbove m (pre ++ post) → (pool ℕ).Run (initial up down) pre u → (pool ℕ).Run u post s →
    FloorKept m u s := by
  intro hall
  have hpre : (pool ℕ).Legal pairRun pair := by decide
  have hpost : (pool ℕ).Legal emptiedRun ((pool ℕ).after pairRun pair) := by decide
  have hkept : FloorKept 1 ((pool ℕ).after pairRun pair)
      ((pool ℕ).after emptiedRun ((pool ℕ).after pairRun pair)) :=
    hall 1 _ _ pairRun emptiedRun _ _ le_rfl asksAbove_defaultScaleDown
      (setsAbove_of_forall (by decide)) (TransitionSystem.run_of_legal hpre)
      (TransitionSystem.run_of_legal hpost)
  exact absurd (hkept (by decide) (by decide) (by decide)) (by decide)

/-- The first signal of the same pool is taken; one of the two workers stays. -/
def keptRun : List (Label ℕ) := raiseRun ++ leaveRun 0

/-- A kill signal is raised only with two workers that serve the queue. -/
def sparesOne (s : State ℕ) : Label ℕ → Bool
  | .manager (.casKill false) => 1 < s.servingCount
  | _ => true

theorem sparesOne_sparesFloor {s : State ℕ} {a : Label ℕ} (h : sparesOne s a = true) :
    SparesFloor 1 s a := by
  unfold SparesFloor
  split
  · intro _
    simpa [sparesOne] using h
  · trivial

theorem floorKept_keptRun :
    1 ≤ ((pool ℕ).after (pairRun ++ keptRun) pair).liveCount := by
  have hlegal : ((pool ℕ).restrict fun s a => sparesOne s a = true).Legal
      (pairRun ++ keptRun) pair := by decide
  have hby := TransitionSystem.runBy_of_legal (C := fun _ => SparesFloor 1)
    (fun _ _ _ => sparesOne_sparesFloor) hlegal
  have hpre : (pool ℕ).Legal pairRun pair := by decide
  exact floorKept hby (TransitionSystem.run_of_legal hpre) (by decide) (by decide) (by decide)

end ThreadPool
