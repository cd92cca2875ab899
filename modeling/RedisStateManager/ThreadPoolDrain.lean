/-
# Draining the queue after the scaling loop

Once the manager has left its scaling loop, and if nobody adds a task any more, the
queue is drained if some worker stays until it has seen the queue empty.  A worker stays
if more workers serve the queue than there are kill signals to take (`outnumbered_run`).
The workers whose `finished` flag is not set are more than those that serve: one of them
may have taken a kill signal and be about to set its flag, and then the queue is left
behind (`not_drained_abandonedRun`).  `drained_iff` is the exact condition.
-/
import RedisStateManager.ThreadPoolFloor

namespace ThreadPool

variable {Task : Type} {up down : UInt32 → UInt32 → Bool} {tr : List (Label Task)}
  {s u : State Task} {a : Label Task}

/-- The queue is empty, and every task ever added has been executed exactly once. -/
def Drained (tr : List (Label Task)) (s : State Task) : Prop :=
  s.taskQueue = [] ∧ ∀ e ∈ pushed tr, ExecutedOnce tr e.ticket

/-- If there are tasks in the queue then some worker serves it. -/
def State.Attended (s : State Task) : Prop := s.taskQueue ≠ [] → ∃ w, s.Serving w

/-- The last worker that serves the queue does not take a kill signal while there are
tasks in it. -/
def SparesServer (s : State Task) : Label Task → Prop
  | .worker w (.casKill k false) =>
    s.killThread = k → s.taskQueue ≠ [] → ∃ v, v ≠ w ∧ s.Serving v
  | _ => True

/-- More workers serve the queue than there are kill signals to take, if it is not empty. -/
def Outnumbered (s : State Task) : Prop := s.taskQueue ≠ [] → s.killThread < s.servingCount

section Step

/-- A queue into which nobody pushes does not become nonempty. -/
theorem taskQueue_ne_of_next (h : Enabled a s) (hpush : a.push? = none)
    (hq : (next a s).taskQueue ≠ []) : s.taskQueue ≠ [] :=
  fun hnil => hq (taskQueue_next_nil h hpush hnil)

/-- The step lemma. -/
theorem attended_next (h : Enabled a s) (hpush : a.push? = none) (hC : SparesServer s a)
    (hs : s.Attended) : (next a s).Attended := by
  intro hq
  have hold := taskQueue_ne_of_next h hpush hq
  obtain ⟨w, hw⟩ := hs hold
  rcases serving_next h hw with hw' | ⟨k, rfl, hk⟩ | ⟨-, hempty⟩
  · exact ⟨w, hw'⟩
  · -- another worker serves, and does not stop in this step
    obtain ⟨v, hne, hv⟩ := hC hk hold
    rcases serving_next h hv with hv' | ⟨k', heq, -⟩ | ⟨heq, -⟩
    · exact ⟨v, hv'⟩
    · cases heq
      exact absurd rfl hne
    · cases heq
  · exact absurd hempty hold

theorem exists_serving (h : 0 < s.servingCount) : ∃ w, s.Serving w := by
  obtain ⟨pc, hpc, hserving⟩ := List.countP_pos_iff.mp h
  obtain ⟨w, hw⟩ := List.mem_iff_getElem?.mp hpc
  refine ⟨w, ?_⟩
  rw [State.Serving, hw]
  exact hserving

/-- Past the loop a kill signal that is taken leaves the queue outnumbered. -/
theorem outnumbered_next (h : Enabled a s) (hk : Known s) (hleft : s.manager.leftLoop = true)
    (hpush : a.push? = none) (hs : Outnumbered s) : Outnumbered (next a s) := by
  intro hq
  have hold := taskQueue_ne_of_next h hpush hq
  have hlt := hs hold
  rcases servingCount_cases h hk with ⟨w, k, rfl, hkill, hpos, hcount⟩ | ⟨w, -, hempty, -⟩ |
    ⟨rfl, -⟩ | ⟨hw, -, hcount⟩
  · have htaken : (next (.worker w (.casKill k false)) s).killThread = k - 1 := by
      rw [next_worker]
      simp [workerMove, hkill]
    omega
  · exact absurd hempty hold
  · rw [h.1] at hleft
    exact absurd hleft Bool.false_ne_true
  · rcases killThread_next (a := a) (s := s) with ⟨w, k, rfl, rfl, -⟩ | ⟨rfl, -⟩ | hsame
    · exact absurd rfl (hw w)
    -- the manager raises no signal any more
    · rw [h.1] at hleft
      exact absurd hleft Bool.false_ne_true
    · omega

/-- Who is outnumbered has a server to spare. -/
theorem sparesServer_of_outnumbered (h : Enabled a s) (hk : Known s)
    (hleft : s.manager.leftLoop = true) (hs : Outnumbered s) : SparesServer s a := by
  unfold SparesServer
  split
  · rename_i w k
    intro hkill hq
    have hlt := hs hq
    have hpos := (hk.kill w k h.1).2
    rcases servingCount_cases h hk with ⟨w', k', heq, -, -, hcount⟩ | ⟨w', heq, -⟩ | ⟨heq, -⟩ |
      ⟨hne, -⟩
    · obtain ⟨v, hv⟩ := exists_serving (s := next (.worker w (.casKill k false)) s) (by omega)
      refine ⟨v, ?_, serving_of_next h hleft hv⟩
      rintro rfl
      have hlen := (List.getElem?_eq_some_iff.mp h.1).1
      simp [State.Serving, next_worker, workerMove, hkill, hlen, WorkerPc.serving] at hv
    · cases heq
    · cases heq
    · exact absurd (by rw [hkill]) (hne w)
  · trivial

end Step

section Runs

variable {post : List (Label Task)}

/-- What holds of the states past the loop. -/
theorem leftLoop_run (h : (pool Task).Run u post s) (hleft : u.manager.leftLoop = true) :
    s.manager.leftLoop = true := by
  refine h.invariant (I := fun s => s.manager.leftLoop = true) hleft ?_
  exact fun a s hs ha => (leftLoop_next ha).mpr (Or.inl hs)

/-- The run lemma. -/
theorem attended_run (h : (pool Task).RunBy (fun _ => SparesServer) u post s)
    (hpush : ∀ a ∈ post, a.push? = none) (hu : u.Attended) : s.Attended := by
  have hquiet : (pool Task).RunBy (fun _ _ a => a.push? = none) u post s :=
    h.run.runBy_of_forall fun a ha _ _ => hpush a ha
  refine (h.and hquiet).induct (P := fun _ s => s.Attended) hu ?_
  rintro tr s a - hs ha ⟨hC, hlast⟩
  exact attended_next ha hlast hC hs

/-- Past the loop, a queue that is outnumbered stays so, and its servers are spared. -/
theorem outnumbered_run {pre : List (Label Task)} (hpre : (pool Task).Run (initial up down) pre u)
    (h : (pool Task).Run u post s) (hleft : u.manager.leftLoop = true)
    (hpush : ∀ a ∈ post, a.push? = none) (hu : Outnumbered u) :
    Outnumbered s ∧ (pool Task).RunBy (fun _ => SparesServer) u post s := by
  have hquiet : (pool Task).RunBy (fun _ _ a => a.push? = none) u post s :=
    h.runBy_of_forall fun a ha _ _ => hpush a ha
  refine hquiet.induct (P := fun post s =>
    Outnumbered s ∧ (pool Task).RunBy (fun _ => SparesServer) u post s) ⟨hu, .nil⟩ ?_
  rintro tr s a hr ⟨hs, hby⟩ ha hlast
  have hk := known (hpre.append hr.run)
  have hl := leftLoop_run hr.run hleft
  exact ⟨outnumbered_next ha hk hl hlast hs, hby.snoc ha (sparesServer_of_outnumbered ha hk hl hs)⟩

/-- When `managerFunction` returns, an attended queue has been drained. -/
theorem drained_of_attended (h : (pool Task).Run (initial up down) tr s)
    (hret : s.manager = .returned) (hs : s.Attended) : Drained tr s := by
  have hexit : ∀ (w : ℕ) pc, s.workers[w]? = some pc → pc = .exited :=
    fun w pc hw => (accounts h).exited hret hw
  have hempty : s.taskQueue = [] := by
    by_contra hq
    obtain ⟨w, hw⟩ := hs hq
    obtain ⟨pc, hpc, hserving⟩ := (Option.any_eq_true _ _).mp hw
    rw [hexit w pc hpc] at hserving
    exact absurd hserving Bool.false_ne_true
  refine ⟨hempty, fun e he => executedOnce_of_exited h hexit ?_⟩
  rw [pushed_eq h, hempty, List.append_nil] at he
  obtain ⟨p, hp, rfl⟩ := List.mem_map.mp he
  exact List.mem_map_of_mem hp

/-- Past the loop, a queue that nobody serves is not drained. -/
theorem not_drained_of_not_attended (h : (pool Task).Run u post s)
    (hleft : u.manager.leftLoop = true) (hu : ¬ u.Attended) : s.taskQueue ≠ [] := by
  simp only [State.Attended, Classical.not_imp, not_exists] at hu
  obtain ⟨hq, hno⟩ := hu
  obtain ⟨e, q, hcons⟩ := List.exists_cons_of_ne_nil hq
  have hmem : e.ticket ∈ u.tickets := by
    rw [State.tickets, hcons]
    exact List.mem_cons_self
  intro hempty
  have hstuck := stuck_run h hleft hno hmem
  rw [State.tickets, hempty] at hstuck
  exact absurd hstuck List.not_mem_nil

/-- A step that takes the last server away leaves the queue unattended. -/
theorem not_attended_of_not_sparesServer (h : Enabled a s) (hleft : s.manager.leftLoop = true)
    (hC : ¬ SparesServer s a) : ¬ (next a s).Attended := by
  unfold SparesServer at hC
  split at hC
  · rename_i w k
    simp only [Classical.not_imp, not_exists, not_and] at hC
    obtain ⟨hkill, hq, hno⟩ := hC
    intro hs
    obtain ⟨v, hv⟩ := hs (by simpa [next_worker, workerMove, hkill] using hq)
    by_cases hvw : v = w
    · subst hvw
      have hlen := (List.getElem?_eq_some_iff.mp h.1).1
      simp [State.Serving, next_worker, workerMove, hkill, hlen, WorkerPc.serving] at hv
    · exact hno v hvw (serving_of_next h hleft hv)
  · exact absurd trivial hC

/-- The manager leaves its scaling loop. -/
theorem leftLoop_testRunning (hrun : u.running = false) :
    (next (.manager .testRunning) u).manager.leftLoop = true := by
  simp [next, managerMove, hrun, ManagerPc.leftLoop]

/-- A worker whose flag is not set serves, unless it is about to set it. -/
theorem liveCount_eq_servingCount (hu : .finishing ∉ u.workers) :
    u.liveCount = u.servingCount := by
  refine List.countP_congr fun pc hpc => ?_
  cases pc with
  | finishing => exact absurd hpc hu
  | _ => exact Iff.rfl

/-- **Draining, exactly.**  In every run in which the manager leaves its scaling loop in
state `u`, nobody adds a task after that, and `managerFunction` has returned: the queue
has been drained iff it was attended in `u` and the last worker that serves it was
spared since.  So it was if in `u` more workers were unfinished than there were kill
signals to take, and none of them was about to set its flag. -/
theorem drained_iff {pre : List (Label Task)} (hu : (pool Task).Run (initial up down) pre u)
    (hrun : u.running = false)
    (h : (pool Task).Run (initial up down) (pre ++ .manager .testRunning :: post) s)
    (hpush : ∀ a ∈ post, a.push? = none) (hret : s.manager = .returned) :
    (Drained (pre ++ .manager .testRunning :: post) s ↔ u.Attended ∧
      (pool Task).RunBy (fun _ => SparesServer) (next (.manager .testRunning) u) post s) ∧
    (u.killThread < u.liveCount → .finishing ∉ u.workers →
      Drained (pre ++ .manager .testRunning :: post) s) := by
  obtain ⟨v, hv, hleave, hpost⟩ := h.split_cons
  obtain rfl := hv.unique hu
  have hleft := leftLoop_testRunning hrun
  have hdrained : v.Attended →
      (pool Task).RunBy (fun _ => SparesServer) (next (.manager .testRunning) v) post s →
      Drained (pre ++ .manager .testRunning :: post) s :=
    fun hatt hby => drained_of_attended h hret (attended_run hby hpush hatt)
  refine ⟨⟨fun hd => ⟨?_, ?_⟩, fun hd => hdrained hd.1 hd.2⟩, fun hlt hfinishing => ?_⟩
  · by_contra hatt
    exact not_drained_of_not_attended hpost hleft hatt hd.1
  · refine TransitionSystem.runBy_iff.mpr ⟨hpost, fun mid a rest w htr hw => ?_⟩
    by_contra hC
    -- the step takes the last server away, and nobody comes back
    rw [htr] at hpost
    obtain ⟨w', hw', ha, hrest⟩ := hpost.split_cons
    obtain rfl := hw.unique hw'
    have hl := leftLoop_run hw hleft
    exact not_drained_of_not_attended hrest ((leftLoop_next ha).mpr (Or.inl hl))
      (not_attended_of_not_sparesServer ha hl hC) hd.1
  · rw [liveCount_eq_servingCount hfinishing] at hlt
    have hby := (outnumbered_run (hu.snoc hleave) hpost hleft hpush fun _ => hlt).2
    exact hdrained (fun _ => exists_serving (by omega)) hby

end Runs

/-! ## A worker that is about to leave, and one that stays -/

/-- The second worker of `starvedRun` has taken its kill signal and has not set its flag
when the pool is destroyed; the manager has joined the first one. -/
def departingRun : List (Label ℕ) :=
  starvedRun.dropLast ++
    [.manager (.notify none), .manager .pause, .manager (.reap 0), .manager (.join 0),
      .manager (.reap 0), .manager (.reap 1), .destructor .call, .destructor .storeRunning]

/-- The worker leaves, and the manager joins it and returns. -/
def abandonedRun : List (Label ℕ) :=
  [.manager .finalNotify, .worker 1 .finish, .worker 1 .leave, .manager .testCount,
    .manager (.drainReap 0), .manager (.drainJoin 0), .manager (.drainReap 0),
    .manager .testCount]

set_option maxRecDepth 20000 in
/-- One worker is unfinished and there is no kill signal to take, and five jobs are left. -/
theorem not_drained_abandonedRun : ¬ ∀ (up down : UInt32 → UInt32 → Bool)
    (pre post : List (Label ℕ)) (u s : State ℕ), (pool ℕ).Run (initial up down) pre u →
    u.running = false → u.killThread < u.liveCount →
    (pool ℕ).Run (initial up down) (pre ++ .manager .testRunning :: post) s →
    (∀ a ∈ post, a.push? = none) → s.manager = .returned →
    Drained (pre ++ .manager .testRunning :: post) s := by
  intro hall
  have hpre : (pool ℕ).Legal departingRun (initial defaultScaleUp defaultScaleDown) := by decide
  have hlegal : (pool ℕ).Legal (departingRun ++ .manager .testRunning :: abandonedRun)
      (initial defaultScaleUp defaultScaleDown) := by decide
  have hdrained := hall _ _ departingRun abandonedRun _ _ (TransitionSystem.run_of_legal hpre)
    (by decide) (by decide) (TransitionSystem.run_of_legal hlegal) (by decide) (by decide)
  exact absurd hdrained.1 (by decide)

/-- Two jobs, and one worker for them when the pool is destroyed. -/
def stayingRun : List (Label ℕ) :=
  addTaskRun 0 (job 0) ++ addTaskRun 0 (job 1) ++ sampleRun ++
    [.manager .spawn, .destructor .call, .destructor .storeRunning]

/-- Worker 0 executes the task at the front of the queue after `running_` was cleared. -/
def drainRun (e : Entry ℕ) : List (Label ℕ) :=
  [.worker 0 .lock, .worker 0 .testQueue, .worker 0 .loadKill, .worker 0 .exitRunning,
    .worker 0 .exitQueue, .worker 0 (.pop e), .worker 0 (.unlock e), .worker 0 (.invoke e),
    .worker 0 (.complete e true)]

def drainedQueueRun : List (Label ℕ) :=
  [.manager .finalNotify] ++ drainRun (job 0) ++ drainRun (job 1) ++
    [.worker 0 .lock, .worker 0 .testQueue, .worker 0 .testRunning, .worker 0 .loadKill,
      .worker 0 .exitRunning, .worker 0 .exitQueue, .worker 0 .finish, .worker 0 .leave,
      .manager .testCount, .manager (.drainReap 0), .manager (.drainJoin 0),
      .manager (.drainReap 0), .manager .testCount]

theorem drained_iff_drainedQueueRun :
    Drained (stayingRun ++ .manager .testRunning :: drainedQueueRun)
        ((pool ℕ).after (stayingRun ++ .manager .testRunning :: drainedQueueRun)
          (initial defaultScaleUp defaultScaleDown)) ∧
      ((pool ℕ).after stayingRun (initial defaultScaleUp defaultScaleDown)).taskQueue =
        [job 0, job 1] := by
  have hpre : (pool ℕ).Legal stayingRun (initial defaultScaleUp defaultScaleDown) := by decide
  have hlegal : (pool ℕ).Legal (stayingRun ++ .manager .testRunning :: drainedQueueRun)
      (initial defaultScaleUp defaultScaleDown) := by decide
  refine ⟨(drained_iff (TransitionSystem.run_of_legal hpre) (by decide)
    (TransitionSystem.run_of_legal hlegal) (by decide) (by decide)).2 ?_ ?_, by decide⟩
  · decide
  · decide

end ThreadPool
