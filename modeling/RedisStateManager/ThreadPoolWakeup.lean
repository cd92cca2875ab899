/-
# No task beside a sleeping pool

One condition variable announces tasks, kill signals and the end of the pool.
While the pool runs, every event leaves a worker awake to deal with it: a count
of the workers that are up, those that are asleep and the kill signal in flight
shows that a waiting task has one worker up beyond the one a kill signal may
still take away (`Tended`).  `Shift` says what a step does to these counts.
After `shutdown` has notified all, at most one worker can be asleep (`Settled`).
Between clearing `running_` and notifying, `shutdown` itself owes the wake-up.
-/
import RedisStateManager.ThreadPoolNotify

namespace ThreadPool

variable {Task : Type}

/-! ## Up, awake, asleep -/

/-- The worker has not decided to leave and is not blocked. -/
def WorkerPc.up : WorkerPc Task → Bool
  | .finishing | .leaving | .exited | .blocked => false
  | _ => true

/-- The worker executes a task, or evaluates the wait predicate, or will; a
worker that has found it false and blocks next is not awake. -/
def WorkerPc.awake : WorkerPc Task → Bool
  | .block => false
  | pc => pc.up

def WorkerPc.asleep : WorkerPc Task → Bool
  | .blocked => true
  | _ => false

/-- A caller of `addTask` between its push and its `notify_one`. -/
def ProducerPc.announcing : ProducerPc Task → Bool
  | .unlock | .notify => true
  | _ => false

namespace State

variable (s : State Task)

def upCount : ℕ := s.workers.countP WorkerPc.up

def asleepCount : ℕ := s.workers.countP WorkerPc.asleep

/-- The manager is between its `compare_exchange_weak` and its `notify_one`. -/
def raising : ℕ := if s.manager = .notify then 1 else 0

/-- A task is queued, and no `addTask` is about to announce one. -/
def Waiting : Prop := s.taskQueue ≠ [] ∧ ∀ p, (s.producers p).announcing = false

/-- A worker has found the predicate false and blocks next. -/
def Blocking : Prop := ∃ w : ℕ, s.workers[w]? = some .block

end State

/-- Beside each sleeping worker some other worker is awake, if a task waits and
the manager owes no notification. -/
def Attended (s : State Task) : Prop :=
  s.Waiting → s.manager ≠ .notify → ∀ w : ℕ, s.workers[w]? = some .blocked →
    ∃ v, v ≠ w ∧ (s.workers[v]?).any WorkerPc.awake = true

/-! ## Counting workers -/

section Counts

variable {s s' : State Task} {w : ℕ} {pc pc' : WorkerPc Task}

theorem upCount_set (h : s.workers[w]? = some pc) (hs' : s'.workers = s.workers.set w pc') :
    s'.upCount + pc.up.toNat = s.upCount + pc'.up.toNat := by
  rw [State.upCount, hs']
  exact countP_set_add _ h pc'

theorem asleepCount_set (h : s.workers[w]? = some pc) (hs' : s'.workers = s.workers.set w pc') :
    s'.asleepCount + pc.asleep.toNat = s.asleepCount + pc'.asleep.toNat := by
  rw [State.asleepCount, hs']
  exact countP_set_add _ h pc'

theorem asleepCount_pos (h : s.workers[w]? = some .blocked) : 1 ≤ s.asleepCount :=
  List.countP_pos_iff.mpr ⟨_, List.mem_of_getElem? h, rfl⟩

theorem asleepCount_eq_zero (h : WorkerPc.blocked ∉ s.workers) : s.asleepCount = 0 := by
  rw [State.asleepCount, List.countP_eq_zero]
  intro pc hpc hasleep
  cases pc <;> first | exact h hpc | exact absurd hasleep Bool.false_ne_true

theorem upCount_pos (h : s.workers[w]? = some pc) (hpc : pc.up = true) : 1 ≤ s.upCount :=
  List.countP_pos_iff.mpr ⟨_, List.mem_of_getElem? h, hpc⟩

/-- Some worker is up. -/
theorem exists_up (h : 1 ≤ s.upCount) : ∃ (v : ℕ) (pc : WorkerPc Task),
    s.workers[v]? = some pc ∧ pc.up = true := by
  obtain ⟨pc, hmem, hup⟩ := List.countP_pos_iff.mp h
  obtain ⟨v, hv⟩ := List.mem_iff_getElem?.mp hmem
  exact ⟨v, pc, hv, hup⟩

theorem counts_congr (h : s'.workers = s.workers) :
    s'.upCount = s.upCount ∧ s'.asleepCount = s.asleepCount := by
  rw [State.upCount, State.asleepCount, h]
  exact ⟨rfl, rfl⟩

end Counts

/-! ## What a step does to the counts -/

/-- The ways the counts move while the pool runs. -/
inductive Shift (s s' : State Task) : Prop
  /-- a worker takes a kill signal -/
  | taken (hup : s'.upCount + 1 = s.upCount) (hasleep : s'.asleepCount = s.asleepCount)
      (hkill : s'.killThread + 1 = s.killThread) (hraising : s'.raising = s.raising)
      (hwaiting : s'.Waiting → s.Waiting) (hblocking : ¬ s'.Blocking)
  /-- a worker blocks -/
  | slept (hup : s'.upCount + 1 = s.upCount) (hasleep : s'.asleepCount = s.asleepCount + 1)
      (hkill : s'.killThread = s.killThread) (hraising : s'.raising = s.raising)
      (hwaiting : ¬ s'.Waiting) (hblocking : s.Blocking ∧ ¬ s'.Blocking)
  /-- `addTask` wakes a worker, or it wakes spuriously -/
  | woken (hup : s'.upCount = s.upCount + 1) (hasleep : s'.asleepCount + 1 = s.asleepCount)
      (hkill : s'.killThread = s.killThread) (hraising : s'.raising = s.raising)
  /-- the manager's notification wakes a worker -/
  | heard (hup : s'.upCount = s.upCount + 1) (hasleep : s'.asleepCount + 1 = s.asleepCount)
      (hkill : s'.killThread = s.killThread) (hraising : s.raising = 1 ∧ s'.raising = 0)
      (hwaiting : s'.Waiting → s.Waiting) (hblocking : s'.Blocking → s.Blocking)
  /-- a notification finds nobody asleep -/
  | unheard (hasleep : s'.asleepCount = 0)
  /-- the manager raises a kill signal, or fails to -/
  | raised (hup : s'.upCount = s.upCount) (hasleep : s'.asleepCount = s.asleepCount)
      (hkill : s'.killThread ≤ s.killThread + 1) (hraising : s.raising = 0 ∧ s'.raising = 1)
      (hwaiting : s'.Waiting → s.Waiting)
  /-- any other step; a worker sets out to block only if there is no kill signal -/
  | quiet (hup : s.upCount ≤ s'.upCount) (hasleep : s'.asleepCount = s.asleepCount)
      (hkill : s'.killThread = s.killThread) (hraising : s'.raising = s.raising)
      (hwaiting : s'.Waiting → s.Waiting)
      (hblocking : s'.Blocking → s.Blocking ∨ s'.killThread = 0)

section Step

variable {a : Label Task} {s : State Task}

/-- **A task begins to wait** with the `notify_one` of its `addTask`. -/
theorem waiting_next (h : Enabled a s) (hw : (next a s).Waiting) :
    s.Waiting ∨ ∃ p woken, a = .producer p (.notify woken) := by
  obtain ⟨hq, hp⟩ := hw
  by_cases ha : ∃ p b, a = .producer p b
  · obtain ⟨p, b, rfl⟩ := ha
    have htgt : (next (.producer p b) s).producers p = (producerMove p b s).target :=
      Function.update_self ..
    have hother : ∀ q, q ≠ p → (s.producers q).announcing = false := by
      intro q hq
      have hq' : (next (.producer p b) s).producers q = s.producers q :=
        Function.update_of_ne hq _ _
      rw [← hq']
      exact hp q
    have hself : (producerMove p b s).source.announcing = false →
        ∀ q, (s.producers q).announcing = false := by
      intro hsrc q
      by_cases hqp : q = p
      · rw [hqp, h.1, hsrc]
      · exact hother q hqp
    have hann := hp p
    rw [htgt] at hann
    cases b with
    | call t => exact Or.inl ⟨hq, hself rfl⟩
    | lock t => exact Or.inl ⟨hq, hself rfl⟩
    | push e => exact absurd hann (by simp [producerMove, ProducerPc.announcing])
    | unlock => exact absurd hann (by simp [producerMove, ProducerPc.announcing])
    | notify woken => exact Or.inr ⟨p, woken, rfl⟩
  · push Not at ha
    have hpush : a.push? = none := by
      cases a with
      | producer p b => exact absurd rfl (ha p b)
      | _ => rfl
    refine Or.inl ⟨fun hnil => hq (taskQueue_next_nil h hpush hnil), fun p => ?_⟩
    rw [← producers_next (ha p)]
    exact hp p

/-- Only a worker that finds no kill signal sets out to block. -/
theorem blocking_next (h : Enabled a s) (hb : (next a s).Blocking) :
    s.Blocking ∨ ∃ w, a = .worker w .testKill ∧ s.killThread = 0 := by
  obtain ⟨w, hw⟩ := hb
  rcases worker_next h w with ⟨b, rfl, -, -, htgt⟩ | ⟨-, hk | ⟨-, hk⟩ | ⟨-, -, hk⟩⟩
  · have heq : (workerMove w b s).target = .block := Option.some.inj (htgt.symm.trans hw)
    cases b with
    | testKill =>
      by_cases hz : s.killThread = 0
      · exact Or.inr ⟨w, rfl, hz⟩
      · simp [workerMove, hz] at heq
    | testQueue | testRunning | loadKill | exitRunning | exitQueue | casKill =>
      simp only [workerMove] at heq
      split at heq <;> exact absurd heq (by simp)
    | _ => exact absurd heq (by simp [workerMove])
  · exact Or.inl ⟨w, hk ▸ hw⟩
  · exact absurd (hk.symm.trans hw) (by simp)
  · exact absurd (hk.symm.trans hw) (by simp)

/-- A step that leaves everybody as much up and asleep as they were. -/
theorem shift_quiet (h : Enabled a s) (hp : ∀ p woken, a ≠ .producer p (.notify woken))
    (hup : s.upCount ≤ (next a s).upCount) (hasleep : (next a s).asleepCount = s.asleepCount)
    (hkill : (next a s).killThread = s.killThread) (hraising : (next a s).raising = s.raising) :
    Shift s (next a s) := by
  refine .quiet hup hasleep hkill hraising (fun hw => ?_) fun hb => ?_
  · rcases waiting_next h hw with hw | ⟨p, woken, heq⟩
    · exact hw
    · exact absurd heq (hp p woken)
  · rcases blocking_next h hb with hb | ⟨w, -, hz⟩
    · exact Or.inl hb
    · exact Or.inr (hkill.trans hz)

theorem raising_next (ha : ∀ b, a ≠ .manager b) : (next a s).raising = s.raising := by
  rw [State.raising, State.raising, manager_next ha]

/-- A step of a worker that stays up, or stays down. -/
theorem shift_worker_quiet {w : ℕ} {b : WorkerAct Task} (h : Enabled (.worker w b) s)
    (hup : (workerMove w b s).source.up = (workerMove w b s).target.up)
    (hasleep : (workerMove w b s).source.asleep = (workerMove w b s).target.asleep)
    (hkill : (workerMove w b s).effect.killThread = s.killThread) :
    Shift s (next (.worker w b) s) := by
  have hworkers : (next (.worker w b) s).workers = s.workers.set w (workerMove w b s).target := by
    rw [next_worker]
  have hup' := upCount_set h.1 hworkers
  have hasleep' := asleepCount_set h.1 hworkers
  rw [hup] at hup'
  rw [hasleep] at hasleep'
  exact shift_quiet h (by simp) (by omega) (by omega) (by rw [next_worker]; exact hkill)
    (raising_next (by simp))

theorem shift_worker {w : ℕ} {b : WorkerAct Task} (h : Enabled (.worker w b) s)
    (hown : Owned s.Holds s.taskMutex) (hk : Known s) (hrun : s.running = true) :
    Shift s (next (.worker w b) s) := by
  have hworkers : (next (.worker w b) s).workers = s.workers.set w (workerMove w b s).target := by
    rw [next_worker]
  have hup := upCount_set h.1 hworkers
  have hasleep := asleepCount_set h.1 hworkers
  have hraising : (next (.worker w b) s).raising = s.raising := raising_next (by simp)
  -- while `w` owns the mutex, no other worker is about to block
  have hblocking : (workerMove w b s).source.holdsMutex = true →
      (workerMove w b s).target ≠ .block → (∀ v, Label.worker w b ≠ .worker v .testKill) →
      ¬ (next (.worker w b) s).Blocking := by
    rintro hholds htgt htest ⟨v, hv⟩
    by_cases hvw : v = w
    · subst hvw
      have hlt : v < s.workers.length := (List.getElem?_eq_some_iff.mp h.1).1
      rw [hworkers, List.getElem?_set_self hlt] at hv
      exact htgt (Option.some.inj hv)
    · rw [hworkers, List.getElem?_set_ne (Ne.symm hvw)] at hv
      exact hvw (worker_unique hown hv h.1 rfl hholds)
  cases b with
  | casKill k spurious =>
    by_cases hc : spurious = false ∧ s.killThread = k
    · have htgt : (workerMove w (.casKill k spurious) s).target = .finishing := by
        simp [workerMove, hc]
      have hkill : (next (.worker w (.casKill k spurious)) s).killThread = k - 1 := by
        rw [next_worker]
        simp [workerMove, hc]
      have hpos := (hk.kill w k h.1).2
      rw [htgt] at hup hasleep
      refine .taken ?_ ?_ ?_ hraising ?_ (hblocking rfl (by rw [htgt]; simp) (by simp))
      · simpa [workerMove, WorkerPc.up] using hup
      · simpa [workerMove, WorkerPc.asleep] using hasleep
      · omega
      · intro hw
        exact (waiting_next h hw).resolve_right (by simp)
    · refine shift_worker_quiet h ?_ ?_ ?_ <;> simp [workerMove, hc] <;> rfl
  | block =>
    refine .slept ?_ ?_ rfl hraising ?_ ⟨⟨w, h.1⟩, hblocking rfl (by simp [workerMove]) (by simp)⟩
    · simpa [workerMove, WorkerPc.up] using hup
    · simpa [workerMove, WorkerPc.asleep] using hasleep
    · exact fun hw => hw.1 (hk.empty w _ h.1 rfl)
  | wake =>
    refine .woken ?_ ?_ rfl hraising
    · simpa [workerMove, WorkerPc.up] using hup
    · simpa [workerMove, WorkerPc.asleep] using hasleep
  | exitQueue =>
    rw [hk.exit w h.1] at hrun
    exact absurd hrun Bool.false_ne_true
  | testQueue | testRunning | testKill | loadKill | exitRunning =>
    refine shift_worker_quiet h ?_ ?_ rfl <;> simp only [workerMove] <;> split <;> rfl
  | _ => exact shift_worker_quiet h rfl rfl rfl

/-- The worker a notification wakes. -/
theorem counts_notifyOne {w : ℕ} (hw : s.workers[w]? = some .blocked)
    (hworkers : (next a s).workers = (s.notifyOne (some w)).workers) :
    (next a s).upCount = s.upCount + 1 ∧ (next a s).asleepCount + 1 = s.asleepCount := by
  rw [notifyOne_eq, Option.elim_some] at hworkers
  have hup := upCount_set hw hworkers
  have hasleep := asleepCount_set hw hworkers
  exact ⟨by simpa [WorkerPc.up] using hup, by simpa [WorkerPc.asleep] using hasleep⟩

theorem asleepCount_unheard (hno : WorkerPc.blocked ∉ s.workers)
    (hworkers : (next a s).workers = s.workers) : (next a s).asleepCount = 0 := by
  rw [(counts_congr hworkers).2]
  exact asleepCount_eq_zero hno

theorem shift_manager {b : ManagerAct} (h : Enabled (.manager b) s) (hacc : Accounts s)
    (hrun : s.running = true) : Shift s (next (.manager b) s) := by
  have hwaiting : (next (.manager b) s).Waiting → s.Waiting := fun hw =>
    (waiting_next h hw).resolve_right (by simp)
  have hblocking : (next (.manager b) s).Blocking → s.Blocking := fun hb =>
    (blocking_next h hb).resolve_right (by simp)
  -- a step that is not the notification, and does not lead to it
  have hquiet : (managerMove b s).source ≠ .notify → (managerMove b s).target ≠ .notify →
      (next (.manager b) s).raising = s.raising := by
    intro hsrc htgt
    have hm : (next (.manager b) s).manager = (managerMove b s).target := rfl
    rw [State.raising, State.raising, hm, h.1, if_neg hsrc, if_neg htgt]
  have hsame : (next (.manager b) s).workers = s.workers →
      (next (.manager b) s).killThread = s.killThread →
      (managerMove b s).source ≠ .notify → (managerMove b s).target ≠ .notify →
      Shift s (next (.manager b) s) := by
    intro hworkers hkill hsrc htgt
    obtain ⟨hup, hasleep⟩ := counts_congr hworkers
    exact shift_quiet h (by simp) hup.ge hasleep hkill (hquiet hsrc htgt)
  cases b with
  | casKill spurious =>
    have hworkers : (next (.manager (.casKill spurious)) s).workers = s.workers := by
      simp only [next, managerMove]
      split <;> rfl
    obtain ⟨hup, hasleep⟩ := counts_congr hworkers
    have hsrc : s.manager = .casKill := h.1
    refine .raised hup hasleep ?_ ⟨by rw [State.raising, hsrc]; rfl, rfl⟩ hwaiting
    rcases killThread_next (a := .manager (.casKill spurious)) (s := s) with
      ⟨w, k, heq, -⟩ | ⟨-, hz, hone⟩ | hkill
    · exact absurd heq (by simp)
    · omega
    · omega
  | notify woken =>
    have hsrc : s.manager = .notify := h.1
    cases woken with
    | none => exact .unheard (asleepCount_unheard h.2 rfl)
    | some w =>
      obtain ⟨hup, hasleep⟩ := counts_notifyOne (a := .manager (.notify (some w))) h.2 rfl
      exact .heard hup hasleep rfl ⟨by rw [State.raising, hsrc]; rfl, rfl⟩ hwaiting hblocking
  | spawn =>
    refine shift_quiet h (by simp) ?_ ?_ rfl
      (hquiet (by simp [managerMove]) (by simp [managerMove]))
    · simp [State.upCount, next, managerMove, State.spawnWorker]
    · simp [State.asleepCount, next, managerMove, State.spawnWorker, WorkerPc.asleep]
  | finalNotify =>
    have hsrc : s.manager = .finalNotify := h.1
    rw [hacc.leftLoop (by rw [hsrc]; rfl)] at hrun
    exact absurd hrun Bool.false_ne_true
  | testRunning | testScaleUp | testScaleDown | loadKill | testCount | reap i | drainReap i =>
    refine hsame rfl rfl (by simp [managerMove]) ?_
    simp only [managerMove]
    split_ifs <;> simp
  | _ => exact hsame rfl rfl (by simp [managerMove]) (by simp [managerMove])

theorem shift_producer {p : ℕ} {b : ProducerAct Task} (h : Enabled (.producer p b) s) :
    Shift s (next (.producer p b) s) := by
  have hraising : (next (.producer p b) s).raising = s.raising := raising_next (by simp)
  cases b with
  | notify woken =>
    cases woken with
    | none => exact .unheard (asleepCount_unheard h.2 rfl)
    | some w =>
      obtain ⟨hup, hasleep⟩ := counts_notifyOne (a := .producer p (.notify (some w))) h.2 rfl
      exact .woken hup hasleep rfl hraising
  | _ => exact shift_quiet h (by simp) le_rfl rfl rfl hraising

/-- **What a step of a running pool does** to the counts. -/
theorem shift (h : Enabled a s) (hacc : Accounts s) (hown : Owned s.Holds s.taskMutex)
    (hk : Known s) (hrun : (next a s).running = true) : Shift s (next a s) := by
  have hrun' := running_of_next hrun
  cases a with
  | worker w b => exact shift_worker h hown hk hrun'
  | manager b => exact shift_manager h hacc hrun'
  | producer p b => exact shift_producer h
  | destructor b =>
    cases b with
    | storeRunning => exact absurd hrun Bool.false_ne_true
    | notifyAll =>
      have hsrc : s.destructor = .notifyAll := h.1
      rcases hacc.running_iff.mp hrun' with hd | hd <;> exact absurd (hsrc.symm.trans hd) (by simp)
    | _ => exact shift_quiet h (by simp) le_rfl rfl rfl rfl
  | setScaleUp func => exact shift_quiet h (by simp) le_rfl rfl rfl rfl
  | setScaleDown func => exact shift_quiet h (by simp) le_rfl rfl rfl rfl

end Step

/-! ## The running pool -/

/-- **While the pool runs**, as long as somebody sleeps: a waiting task has a
worker up beside the one a kill signal needs, where the manager's notification
stands for one more; a kill signal has one beside two sleepers; and a worker
that blocks on a signal it has not seen leaves another worker up. -/
structure Tended (s : State Task) : Prop where
  waiting : s.Waiting → 1 ≤ s.asleepCount → 1 + s.killThread ≤ s.upCount + s.raising
  kill : 2 ≤ s.asleepCount → s.killThread ≤ s.upCount + s.raising
  blocking : s.Blocking → s.killThread = 1 → s.raising = 0 → 1 ≤ s.asleepCount → 2 ≤ s.upCount

theorem State.raising_le (s : State Task) : s.raising ≤ 1 := by
  rw [State.raising]
  split <;> omega

/-- The step lemma. -/
theorem Tended.shift {s s' : State Task} (hs : Tended s) (h : Shift s s')
    (hkill : s.killThread ≤ 1) : Tended s' := by
  have hle := s.raising_le
  cases h with
  | taken hup hasleep hk hr hw hb =>
    refine ⟨fun hw' ha => ?_, fun ha => ?_, fun hb' => absurd hb' hb⟩
    · have := hs.waiting (hw hw') (by omega)
      omega
    · have := hs.kill (by omega)
      omega
  | slept hup hasleep hk hr hw hb =>
    refine ⟨fun hw' => absurd hw' hw, fun ha => ?_, fun hb' => absurd hb' hb.2⟩
    -- the signal was raised, and its notification executed, while the worker was about to block
    by_cases hone : s.killThread = 1 ∧ s.raising = 0
    · have := hs.blocking hb.1 hone.1 hone.2 (by omega)
      omega
    · omega
  | woken hup hasleep hk hr =>
    refine ⟨fun _ ha => ?_, fun ha => ?_, fun hb' hone hz ha => ?_⟩
    · have := hs.kill (by omega)
      omega
    · have := hs.kill (by omega)
      omega
    · have := hs.kill (by omega)
      omega
  | heard hup hasleep hk hr hw hb =>
    refine ⟨fun hw' ha => ?_, fun ha => ?_, fun hb' _ _ _ => ?_⟩
    · have := hs.waiting (hw hw') (by omega)
      omega
    · have := hs.kill (by omega)
      omega
    · obtain ⟨w, hblock⟩ := hb hb'
      have := upCount_pos hblock rfl
      omega
  | unheard hasleep =>
    refine ⟨fun _ ha => ?_, fun ha => ?_, fun _ _ _ ha => ?_⟩ <;> omega
  | raised hup hasleep hk hr hw =>
    refine ⟨fun hw' ha => ?_, fun ha => ?_, fun _ _ hz => ?_⟩
    · have := hs.waiting (hw hw') (by omega)
      omega
    · have := hs.kill (by omega)
      omega
    · omega
  | quiet hup hasleep hk hr hw hb =>
    refine ⟨fun hw' ha => ?_, fun ha => ?_, fun hb' hone hz ha => ?_⟩
    · have := hs.waiting (hw hw') (by omega)
      omega
    · have := hs.kill (by omega)
      omega
    · rcases hb hb' with hb | hzero
      · have := hs.blocking hb (by omega) (by omega) (by omega)
        omega
      · omega

/-! ## The pool that has been shut down -/

/-- The worker sleeps, or may still fall asleep with `running_` cleared. -/
def WorkerPc.drowsy : WorkerPc Task → Bool
  | .testKill | .block | .blocked => true
  | _ => false

/-- **Once `shutdown` has notified all**, at most one worker is drowsy, and
whoever sleeps fell asleep at an empty queue and is woken by the next task. -/
structure Settled (s : State Task) : Prop where
  unique : ∀ (v w : ℕ) pc pc', s.workers[v]? = some pc → s.workers[w]? = some pc' →
    pc.drowsy = true → pc'.drowsy = true → v = w
  waiting : s.Waiting → ∀ w : ℕ, s.workers[w]? ≠ some .blocked

section Step

variable {a : Label Task} {s : State Task}

/-- Nobody becomes drowsy when `running_` is cleared. -/
theorem drowsy_next (h : Enabled a s) (hrun : s.running = false) {w : ℕ} {pc : WorkerPc Task}
    (hw : (next a s).workers[w]? = some pc) (hpc : pc.drowsy = true) :
    ∃ pc', s.workers[w]? = some pc' ∧ pc'.drowsy = true := by
  rcases worker_next h w with ⟨b, rfl, hsrc, -, htgt⟩ | ⟨-, hk | ⟨-, hk⟩ | ⟨-, -, hk⟩⟩
  · refine ⟨_, hsrc, ?_⟩
    obtain rfl : (workerMove w b s).target = pc := Option.some.inj (htgt.symm.trans hw)
    cases b with
    | testRunning => simp [workerMove, hrun, WorkerPc.drowsy] at hpc
    | testQueue | loadKill | exitRunning | exitQueue | casKill =>
      simp only [workerMove] at hpc
      split at hpc <;> exact absurd hpc Bool.false_ne_true
    | testKill => rfl
    | block => rfl
    | _ => exact absurd hpc Bool.false_ne_true
  · exact ⟨pc, hk ▸ hw, hpc⟩
  · cases hk.symm.trans hw
    exact absurd hpc Bool.false_ne_true
  · cases hk.symm.trans hw
    exact absurd hpc Bool.false_ne_true

/-- The step lemma. -/
theorem Settled.next (hs : Settled s) (h : Enabled a s) (hk : Known s)
    (hrun : s.running = false) : Settled (next a s) where
  unique := by
    intro v w pc pc' hv hw hpc hpc'
    obtain ⟨pcv, hv', hpcv⟩ := drowsy_next h hrun hv hpc
    obtain ⟨pcw, hw', hpcw⟩ := drowsy_next h hrun hw hpc'
    exact hs.unique v w pcv pcw hv' hw' hpcv hpcw
  waiting := by
    intro hwaiting w hw
    rcases worker_next h w with ⟨b, rfl, hsrc, -, htgt⟩ | ⟨-, hsame | ⟨-, hsame⟩ | ⟨-, -, hsame⟩⟩
    -- the worker has just blocked, so the queue is empty
    · have heq : (workerMove w b s).target = .blocked := Option.some.inj (htgt.symm.trans hw)
      cases b with
      | block => exact hwaiting.1 (hk.empty w _ hsrc rfl)
      | testQueue | testRunning | testKill | loadKill | exitRunning | exitQueue | casKill =>
        simp only [workerMove] at heq
        split at heq <;> exact absurd heq (by simp)
      | _ => exact absurd heq (by simp [workerMove])
    · have hblocked : s.workers[w]? = some .blocked := hsame ▸ hw
      rcases waiting_next h hwaiting with hwaiting | ⟨p, woken, rfl⟩
      · exact hs.waiting hwaiting w hblocked
      -- the announcement wakes the one worker that sleeps
      · cases woken with
        | none => exact h.2 (List.mem_of_getElem? hblocked)
        | some v =>
          obtain rfl : v = w := hs.unique v w _ _ h.2 hblocked rfl rfl
          have hlt : v < s.workers.length := (List.getElem?_eq_some_iff.mp hblocked).1
          have hwoken : (ThreadPool.next (.producer p (.notify (some v))) s).workers[v]? =
              some .woken := by simp [next_producer, producerMove, notifyOne_eq, hlt]
          exact absurd (hwoken.symm.trans hw) (by simp)
    · exact absurd (hsame.symm.trans hw) (by simp)
    · exact absurd (hsame.symm.trans hw) (by simp)

/-- `notify_all` settles the pool. -/
theorem settled_notifyAll (hown : Owned s.Holds s.taskMutex)
    (hworkers : (next a s).workers = s.workers.map State.wakeUp) : Settled (next a s) where
  unique := by
    intro v w pc pc' hv hw hpc hpc'
    have hholds : ∀ {u : ℕ} {pc : WorkerPc Task}, (next a s).workers[u]? = some pc →
        pc.drowsy = true → s.workers[u]? = some pc ∧ pc.holdsMutex = true := by
      intro u pc hu hpc
      rw [hworkers] at hu
      obtain ⟨hne, hsame⟩ := getElem?_notifyAll hu
      refine ⟨hsame fun heq => ?_, ?_⟩
      · rw [heq] at hpc
        exact absurd hpc Bool.false_ne_true
      · cases pc <;> first | rfl | exact absurd rfl hne | exact absurd hpc Bool.false_ne_true
    obtain ⟨hv', hholds_v⟩ := hholds hv hpc
    obtain ⟨hw', hholds_w⟩ := hholds hw hpc'
    exact worker_unique hown hv' hw' hholds_v hholds_w
  waiting := by
    intro _ w hw
    rw [hworkers] at hw
    exact (getElem?_notifyAll hw).1 rfl

end Step

/-! ## Every run -/

section Runs

variable {up down : UInt32 → UInt32 → Bool} {tr : List (Label Task)} {s : State Task}

theorem tended (h : (pool Task).Run (initial up down) tr s) (hrun : s.running = true) :
    Tended s := by
  refine h.induct (P := fun _ s => s.running = true → Tended s) ?_ ?_ hrun
  · intro _
    refine ⟨fun _ ha => ?_, fun ha => ?_, fun hb => ?_⟩
    · exact absurd ha (by simp [State.asleepCount, initial])
    · exact absurd ha (by simp [State.asleepCount, initial])
    · obtain ⟨w, hw⟩ := hb
      exact absurd hw (by simp [initial])
  · intro tr s a hr hs ha hrun'
    exact (hs (running_of_next hrun')).shift
      (shift ha (accounts hr) (mutex_owner hr) (known hr) hrun')
      (known hr).kill_le

theorem settled (h : (pool Task).Run (initial up down) tr s)
    (hd : s.destructor.notified = true) : Settled s := by
  refine h.induct (P := fun _ s => s.destructor.notified = true → Settled s) ?_ ?_ hd
  · exact fun hd => absurd hd Bool.false_ne_true
  · intro tr s a hr hs ha hd'
    rcases destructor_notified_next ha hd' with hd | rfl
    · have hrun : s.running = false := by
        by_contra hr'
        have hidle := (accounts hr).running_iff.mp (Bool.eq_true_of_not_eq_false hr')
        rcases hidle with hi | hi <;> rw [hi] at hd <;> exact Bool.false_ne_true hd
      exact (hs hd).next ha (known hr) hrun
    · exact settled_notifyAll (a := .destructor .notifyAll) (mutex_owner hr) rfl

/-- **No task is stranded beside a sleeping worker**: in every run, if a task
waits and somebody sleeps, and neither an `addTask`, nor the manager, nor
`shutdown` is about to notify, then some other worker is awake. -/
theorem attended (h : (pool Task).Run (initial up down) tr s)
    (hd : s.destructor ≠ .notifyAll) : Attended s := by
  intro hwaiting hm w hw
  have hasleep := asleepCount_pos hw
  by_cases hrun : s.running = true
  · have hcount := (tended h hrun).waiting hwaiting hasleep
    have hraising : s.raising = 0 := if_neg hm
    obtain ⟨v, pc, hv, hup⟩ := exists_up (s := s) (by omega)
    refine ⟨v, ?_, ?_⟩
    · rintro rfl
      cases hv.symm.trans hw
      exact absurd hup Bool.false_ne_true
    · -- a worker that is about to block has found the queue empty
      have hne : pc ≠ .block := by
        rintro rfl
        exact hwaiting.1 ((known h).empty v _ hv rfl)
      rw [hv, Option.any_some]
      cases pc <;> first | exact hup | exact absurd rfl hne
  · have hnotified : s.destructor.notified = true := by
      have hiff := (accounts h).running_iff
      cases hpc : s.destructor with
      | idle => exact absurd (hiff.mpr (Or.inl hpc)) hrun
      | storeRunning => exact absurd (hiff.mpr (Or.inr hpc)) hrun
      | notifyAll => exact absurd hpc hd
      | join => rfl
      | returned => rfl
    exact absurd hw ((settled h hnotified).waiting hwaiting w)

end Runs

/-! ## Between `running_` and the notification of `shutdown` -/

/-- A pool that keeps three workers and always asks for fewer. -/
def crew : State ℕ := initial (fun _ workerCount => workerCount < 3) fun _ _ => true

/-- Worker `w` comes to wait at an empty queue. -/
def sleepRun (w : ℕ) : List (Label ℕ) :=
  [.worker w .lock, .worker w .testQueue, .worker w .testRunning, .worker w .testKill,
    .worker w .block]

/-- Three workers sleep. -/
def asleepCrewRun : List (Label ℕ) :=
  (List.range 3).flatMap fun w => sampleRun ++ [.manager .spawn] ++ sleepRun w

/-- A kill signal wakes worker 0; with `running_` cleared, it fails spuriously to
take the signal and leaves for the other reason.  A job is added; it wakes
worker 1, which takes the signal. -/
def strandedRun : List (Label ℕ) :=
  asleepCrewRun ++ sampleRun ++
    [.manager .testScaleDown, .manager .loadKill, .manager (.casKill false),
      .manager (.notify (some 0)), .manager .pause, .destructor .call, .destructor .storeRunning,
      .worker 0 .relock, .worker 0 .testQueue, .worker 0 .testRunning, .worker 0 .loadKill,
      .worker 0 (.casKill 1 true), .worker 0 .exitRunning, .worker 0 .exitQueue,
      .worker 0 .finish, .worker 0 .leave,
      .producer 0 (.call ⟨0, [106, 111, 98]⟩), .producer 0 (.lock ⟨0, [106, 111, 98]⟩),
      .producer 0 (.push ⟨0, 0, [106, 111, 98]⟩), .producer 0 .unlock,
      .producer 0 (.notify (some 1)),
      .worker 1 .relock, .worker 1 .testQueue, .worker 1 .loadKill, .worker 1 (.casKill 1 false),
      .worker 1 .finish, .worker 1 .leave]

/-- The job is queued, worker 2 sleeps, and the others have left. -/
theorem stranded_strandedRun : ¬ ∀ (up down : UInt32 → UInt32 → Bool) (tr : List (Label ℕ))
    (s : State ℕ), (pool ℕ).Run (initial up down) tr s → Attended s := by
  intro hall
  have hlegal : (pool ℕ).Legal strandedRun crew := by decide
  have hattended : Attended ((pool ℕ).after strandedRun crew) :=
    hall _ _ _ _ (TransitionSystem.run_of_legal hlegal)
  have hworkers : ((pool ℕ).after strandedRun crew).workers = [.exited, .exited, .blocked] := by
    decide
  have hwaiting : ((pool ℕ).after strandedRun crew).Waiting := by
    refine ⟨by decide, fun p => ?_⟩
    cases p <;> rfl
  obtain ⟨v, hne, hv⟩ := hattended hwaiting (by decide) 2 (by rw [hworkers]; rfl)
  rw [hworkers] at hv
  match v, hne, hv with
  | 0, _, hv => exact absurd hv (by decide)
  | 1, _, hv => exact absurd hv (by decide)
  | 2, hne, _ => exact hne rfl
  | v + 3, _, hv => exact absurd hv (by simp)

/-- Two jobs are added to the sleeping crew, and wake two workers. -/
def attendedRun : List (Label ℕ) :=
  asleepCrewRun ++
    [.producer 0 (.call ⟨0, [106, 111, 98]⟩), .producer 0 (.lock ⟨0, [106, 111, 98]⟩),
      .producer 0 (.push ⟨0, 0, [106, 111, 98]⟩), .producer 0 .unlock,
      .producer 0 (.notify (some 1))]

theorem attended_attendedRun : ∃ v, v ≠ 2 ∧
    (((pool ℕ).after attendedRun crew).workers[v]?).any WorkerPc.awake = true := by
  have hlegal : (pool ℕ).Legal attendedRun crew := by decide
  have hattended := attended (TransitionSystem.run_of_legal hlegal) (by decide)
  refine hattended ⟨by decide, fun p => ?_⟩ (by decide) 2 (by decide)
  cases p <;> rfl

end ThreadPool
