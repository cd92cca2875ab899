/-
# The last notification

`shutdown` clears `running_`, and it and `managerFunction` each call `notify_all`,
without the mutex the workers wait on.  A worker that has found `running_` set
and has not blocked yet hears neither notification, so it sleeps on if both come
before it blocks.  `HearsShutdown` excludes just that, and `noneAsleep_exact`
shows that nothing else can leave a worker asleep.
-/
import RedisStateManager.ThreadPoolWorker

namespace ThreadPool

variable {Task : Type}

/-! ## Both notifications -/

/-- `managerFunction` has executed its final `notify_all`. -/
def ManagerPc.notified : ManagerPc → Bool
  | .drain | .drainReap _ | .drainJoin _ | .returned => true
  | _ => false

/-- `shutdown` has executed its `notify_all`. -/
def DestructorPc.notified : DestructorPc → Bool
  | .join | .returned => true
  | _ => false

/-- `running_` is cleared and both `notify_all` have been executed. -/
structure State.Notified (s : State Task) : Prop where
  running : s.running = false
  manager : s.manager.notified = true
  destructor : s.destructor.notified = true

/-- Once both notifications have been executed no worker is blocked. -/
def NoneAsleep (s : State Task) : Prop :=
  s.Notified → ∀ w : ℕ, s.workers[w]? ≠ some .blocked

/-- Worker `w` has found `running_` set, and blocks next. -/
def State.Dozing (s : State Task) (w : ℕ) : Prop :=
  s.workers[w]? = some .block ∨ (s.workers[w]? = some .testKill ∧ s.killThread = 0)

/-- The later of the two notifications comes at no worker on its way to block. -/
def HearsShutdown (s : State Task) : Label Task → Prop
  | .manager .finalNotify => s.destructor.notified = true → ∀ w, ¬ s.Dozing w
  | .destructor .notifyAll => s.manager.notified = true → ∀ w, ¬ s.Dozing w
  | _ => True

/-! ## What a step changes -/

theorem manager_notified_next {a : Label Task} {s : State Task} (h : Enabled a s)
    (hn : (next a s).manager.notified = true) :
    s.manager.notified = true ∨ a = .manager .finalNotify := by
  by_cases ha : ∃ b, a = .manager b
  · obtain ⟨b, rfl⟩ := ha
    have htgt : (next (.manager b) s).manager = (managerMove b s).target := rfl
    rw [htgt] at hn
    rw [h.1]
    cases b with
    | finalNotify => exact Or.inr rfl
    | testRunning | testScaleUp | testScaleDown | loadKill | testCount | reap i | drainReap i =>
      left
      revert hn
      simp only [managerMove]
      split_ifs <;> simp [ManagerPc.notified]
    | _ => exact Or.inl hn
  · push Not at ha
    rw [manager_next ha] at hn
    exact Or.inl hn

theorem destructor_notified_next {a : Label Task} {s : State Task} (h : Enabled a s)
    (hn : (next a s).destructor.notified = true) :
    s.destructor.notified = true ∨ a = .destructor .notifyAll := by
  cases a with
  | worker w b => rw [next_worker] at hn; exact Or.inl hn
  | manager b => rw [next_manager] at hn; exact Or.inl hn
  | producer p b => rw [next_producer] at hn; exact Or.inl hn
  | destructor b =>
    rw [h.1]
    cases b with
    | notifyAll => exact Or.inr rfl
    | join => exact Or.inl rfl
    | _ => exact absurd hn Bool.false_ne_true
  | setScaleUp func => exact Or.inl hn
  | setScaleDown func => exact Or.inl hn

/-! ## No worker falls asleep afterwards -/

/-- After a `notify_all` nobody is blocked, and those on their way to block go on. -/
theorem getElem?_notifyAll {s : State Task} {w : ℕ} {pc : WorkerPc Task}
    (hw : (s.workers.map State.wakeUp)[w]? = some pc) :
    pc ≠ .blocked ∧ (pc ≠ .woken → s.workers[w]? = some pc) := by
  rw [List.getElem?_map, Option.map_eq_some_iff] at hw
  obtain ⟨pc', hpc', rfl⟩ := hw
  cases pc' <;> simp [State.wakeUp, hpc']

/-- Nobody is blocked or on its way to block. -/
def State.Alert (s : State Task) : Prop :=
  ∀ w : ℕ, s.workers[w]? ≠ some .blocked ∧ ¬ s.Dozing w

section Step

variable {a : Label Task} {s : State Task}

/-- The step that completes the notifications wakes everybody up. -/
theorem alert_of_notify (hworkers : (next a s).workers = s.workers.map State.wakeUp)
    (hkill : (next a s).killThread = s.killThread) (hC : ∀ w, ¬ s.Dozing w) :
    (next a s).Alert := by
  intro w
  rw [State.Dozing, hworkers, hkill]
  refine ⟨fun hw => (getElem?_notifyAll hw).1 rfl, ?_⟩
  rintro (hw | ⟨hw, hk⟩)
  · exact hC w (Or.inl ((getElem?_notifyAll hw).2 (by simp)))
  · exact hC w (Or.inr ⟨(getElem?_notifyAll hw).2 (by simp), hk⟩)

/-- With `running_` cleared, a worker that is not on its way to block does not set out. -/
theorem alert_next (h : Enabled a s) (hown : Owned s.Holds s.taskMutex)
    (hrun : s.running = false) (hs : s.Alert) : (next a s).Alert := by
  intro w
  obtain ⟨hb, hd⟩ := hs w
  rcases worker_next h w with ⟨b, rfl, hsrc, -, htgt⟩ | ⟨hne, hk | ⟨hk, -⟩ | ⟨-, -, hk⟩⟩
  · rw [State.Dozing, htgt]
    cases b with
    | block => exact absurd (Or.inl hsrc) hd
    | testKill =>
      have hpos : s.killThread ≠ 0 := fun hz => hd (Or.inr ⟨hsrc, hz⟩)
      simp [workerMove, hpos]
    | testRunning => simp [workerMove, hrun]
    | testQueue | loadKill | exitRunning | exitQueue | casKill k spurious =>
      simp only [workerMove]
      split <;> simp
    | _ => simp [workerMove]
  · rw [State.Dozing, hk]
    refine ⟨hb, ?_⟩
    rintro (hw | ⟨hw, hz⟩)
    · exact hd (Or.inl hw)
    -- a kill signal taken meanwhile would put two workers into the critical section
    · rcases killThread_next (a := a) (s := s) with ⟨v, k, rfl, -⟩ | ⟨rfl, hz', -⟩ | hsame
      · have hvw := worker_unique hown h.1 hw rfl rfl
        exact hne _ (by rw [hvw])
      · exact hd (Or.inr ⟨hw, hz'⟩)
      · exact hd (Or.inr ⟨hw, hsame ▸ hz⟩)
  · exact absurd hk hb
  · rw [State.Dozing, hk]
    simp

/-- The step lemma. -/
theorem noneAsleep_next (h : Enabled a s) (hacc : Accounts s) (hown : Owned s.Holds s.taskMutex)
    (hC : HearsShutdown s a) (hs : s.Notified → s.Alert) :
    (next a s).Notified → (next a s).Alert := by
  intro hn
  by_cases hsn : s.Notified
  · exact alert_next h hown hsn.running (hs hsn)
  -- the step is the later notification
  · rcases manager_notified_next h hn.manager with hm | rfl
    · rcases destructor_notified_next h hn.destructor with hd | rfl
      · refine absurd ⟨hacc.leftLoop ?_, hm, hd⟩ hsn
        cases hpc : s.manager <;> rw [hpc] at hm <;>
          first | rfl | exact absurd hm Bool.false_ne_true
      · exact alert_of_notify rfl rfl (hC hm)
    · rcases destructor_notified_next h hn.destructor with hd | heq
      · exact alert_of_notify rfl rfl (hC hd)
      · exact absurd heq (by simp)

end Step

section Runs

variable {up down : UInt32 → UInt32 → Bool} {tr : List (Label Task)} {s : State Task}

/-- **Shutdown wakes every worker** if each step of the run meets the condition. -/
theorem noneAsleep (h : (pool Task).RunBy (fun _ => HearsShutdown) (initial up down) tr s) :
    NoneAsleep s := by
  have halert : s.Notified → s.Alert := by
    refine h.induct (P := fun _ s => s.Notified → s.Alert) ?_ ?_
    · rintro ⟨hrun, -, -⟩
      exact absurd hrun (by simp [initial])
    · intro tr s a hr hs ha hC
      exact noneAsleep_next ha (accounts hr.run) (mutex_owner hr.run) hC hs
  exact fun hn w => (halert hn w).1

/-! ## The condition is exact -/

/-- A worker on its way to block comes there. -/
theorem blocks_of_dozing {w : ℕ} (hw : s.Dozing w) : ∃ tr' s', (pool Task).Run s tr' s' ∧
    s'.workers[w]? = some .blocked ∧ s'.running = s.running ∧ s'.manager = s.manager ∧
    s'.destructor = s.destructor := by
  rcases hw with hw | ⟨hw, hk⟩
  · have hlt : w < s.workers.length := (List.getElem?_eq_some_iff.mp hw).1
    refine ⟨[.worker w .block], _, TransitionSystem.run_of_legal ⟨⟨hw, trivial⟩, trivial⟩, ?_⟩
    simp [pool, next_worker, workerMove, hlt]
  · have hlt : w < s.workers.length := (List.getElem?_eq_some_iff.mp hw).1
    refine ⟨[.worker w .testKill, .worker w .block], _, TransitionSystem.run_of_legal ?_, ?_⟩
    · have hsrc : s.workers[w] = .testKill := (List.getElem?_eq_some_iff.mp hw).2
      simp [pool, Enabled, next_worker, workerMove, hsrc, hk, hlt]
    · simp [pool, next_worker, workerMove, hk, hlt]

theorem dozing_notify {a : Label Task} {w : ℕ}
    (hworkers : (next a s).workers = s.workers.map State.wakeUp)
    (hkill : (next a s).killThread = s.killThread) (hw : s.Dozing w) : (next a s).Dozing w := by
  rw [State.Dozing, hworkers, hkill, List.getElem?_map]
  rcases hw with hw | ⟨hw, hk⟩
  · left
    rw [hw]
    rfl
  · right
    rw [hw]
    exact ⟨rfl, hk⟩

/-- A step that breaks the condition leaves a worker asleep. -/
theorem asleep_of_not_hears {a : Label Task} (h : (pool Task).Run (initial up down) tr s)
    (ha : Enabled a s) (hC : ¬ HearsShutdown s a) :
    ∃ tr' s', (pool Task).Run (next a s) tr' s' ∧ ¬ NoneAsleep s' := by
  -- the later notification leaves behind a worker on its way to block
  have hlate : (next a s).Notified ∧ ∃ w, (next a s).Dozing w := by
    unfold HearsShutdown at hC
    split at hC
    · push Not at hC
      obtain ⟨hd, w, hw⟩ := hC
      have hsrc : s.manager = .finalNotify := ha.1
      refine ⟨⟨(accounts h).leftLoop (by rw [hsrc]; rfl), rfl, hd⟩, w, ?_⟩
      exact dozing_notify rfl rfl hw
    · push Not at hC
      obtain ⟨hm, w, hw⟩ := hC
      have hsrc : s.destructor = .notifyAll := ha.1
      have hrun : s.running = false := by
        have hiff := (accounts h).running_iff
        rw [hsrc] at hiff
        simpa using hiff
      exact ⟨⟨hrun, hm, rfl⟩, w, dozing_notify rfl rfl hw⟩
    · exact absurd trivial hC
  obtain ⟨hn, w, hw⟩ := hlate
  obtain ⟨tr', s', hr, hb, hrun, hm, hd⟩ := blocks_of_dozing hw
  refine ⟨tr', s', hr, fun hno => hno ⟨?_, ?_, ?_⟩ w hb⟩
  · rw [hrun, hn.running]
  · rw [hm, hn.manager]
  · rw [hd, hn.destructor]

/-- **When shutdown leaves a worker asleep.**  It does not in a run whose steps
all meet `HearsShutdown`, and any step that does not meet it leads to a worker
that sleeps although both notifications are over. -/
theorem noneAsleep_exact (h : (pool Task).Run (initial up down) tr s) :
    ((pool Task).RunBy (fun _ => HearsShutdown) (initial up down) tr s → NoneAsleep s) ∧
    ∀ a, (pool Task).Enabled a s → ¬ HearsShutdown s a →
      ∃ tr' s', (pool Task).Run (next a s) tr' s' ∧ ¬ NoneAsleep s' :=
  ⟨noneAsleep, fun _ ha hC => asleep_of_not_hears h ha hC⟩

end Runs

/-! ## A worker that hears neither notification -/

/-- A pool that keeps one worker. -/
def single : State ℕ := initial (fun _ workerCount => workerCount < 1) fun _ _ => false

/-- The worker finds the queue empty, `running_` set and no kill signal; before
it blocks, both notifications are executed. -/
def asleepRun : List (Label ℕ) :=
  sampleRun ++ [.manager .spawn, .worker 0 .lock, .worker 0 .testQueue, .worker 0 .testRunning,
    .worker 0 .testKill, .destructor .call, .destructor .storeRunning, .destructor .notifyAll,
    .manager .testRunning, .manager .finalNotify, .worker 0 .block]

/-- The manager waits for a worker that nothing will wake. -/
theorem asleep_asleepRun : ¬ ∀ (up down : UInt32 → UInt32 → Bool) (tr : List (Label ℕ))
    (s : State ℕ), (pool ℕ).Run (initial up down) tr s → NoneAsleep s := by
  intro hall
  have hlegal : (pool ℕ).Legal asleepRun single := by decide
  have hn := hall _ _ _ _ (TransitionSystem.run_of_legal hlegal)
  exact hn ⟨by decide, by decide, by decide⟩ 0 (by decide)

/-- The worker blocks before the pool is shut down. -/
def wokenRun : List (Label ℕ) :=
  sampleRun ++ [.manager .spawn, .worker 0 .lock, .worker 0 .testQueue, .worker 0 .testRunning,
    .worker 0 .testKill, .worker 0 .block, .destructor .call, .destructor .storeRunning,
    .destructor .notifyAll, .manager .testRunning, .manager .finalNotify]

/-- At a `notify_all` no worker is about to test `killThread` or to block. -/
def hearsAll (s : State ℕ) : Label ℕ → Bool
  | .manager .finalNotify | .destructor .notifyAll =>
    s.workers.all fun pc => pc != .block && pc != .testKill
  | _ => true

theorem hearsAll_hearsShutdown {s : State ℕ} {a : Label ℕ} (h : hearsAll s a = true) :
    HearsShutdown s a := by
  have hno : (s.workers.all fun pc => pc != .block && pc != .testKill) = true →
      ∀ w, ¬ s.Dozing w := by
    intro hall w hw
    rw [List.all_eq_true] at hall
    rcases hw with hw | ⟨hw, -⟩
    · exact absurd (hall _ (List.mem_of_getElem? hw)) (by decide)
    · exact absurd (hall _ (List.mem_of_getElem? hw)) (by decide)
  unfold HearsShutdown
  split
  · exact fun _ => hno h
  · exact fun _ => hno h
  · trivial

theorem noneAsleep_exact_wokenRun :
    NoneAsleep ((pool ℕ).after wokenRun single) ∧
      ((pool ℕ).after wokenRun single).manager.notified = true := by
  have hlegal : ((pool ℕ).restrict fun s a => hearsAll s a = true).Legal wokenRun single := by
    decide
  have hby := TransitionSystem.runBy_of_legal (C := fun _ => HearsShutdown)
    (fun _ _ _ => hearsAll_hearsShutdown) hlegal
  exact ⟨(noneAsleep_exact hby.run).1 hby, by decide⟩

end ThreadPool
