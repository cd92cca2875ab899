/-
# The destructor of the pool comes to its end

Once `running_` is cleared and nobody calls `addTask`, every step brings the workers, the
destructor and the manager nearer to their ends (`potential_next`), but for the loop in which
the manager waits for its workers: it looks at them again and again.  Where nothing else is
left to do, each worker has exited or is blocked.  If none is blocked, the manager joins them
all and the destructor returns (`shutdown_ends`).
-/
import RedisStateManager.ThreadPoolAccounting
import RedisStateManager.ThreadPoolDrain
import RedisStateManager.ThreadPoolWakeup
import Mathlib.Algebra.Order.BigOperators.Group.List
import Mathlib.Algebra.Order.Group.Nat

namespace ThreadPool

variable {Task : Type} {up down : UInt32 → UInt32 → Bool} {tr : List (Label Task)}
  {s u : State Task} {a : Label Task}

/-! ## How much there is to do -/

/-- The steps that a worker makes at most until it exits or pops a task, once `running_` is
cleared; it does not leave `testEmpty` for another round if there is a task to pop. -/
def WorkerPc.rank (empty : Bool) : WorkerPc Task → ℕ
  | .exited => 0
  | .leaving => 1
  | .finishing => 2
  | .exitQueue => 3
  | .exitRunning => 4
  | .casKill _ => 5
  | .loadKill => 6
  | .testRunning => 7
  | .testQueue => 8
  | .start | .woken => 9
  | .blocked | .running _ | .emptyQueue => 10
  | .block | .holding _ => 11
  | .testKill | .popped _ => 12
  | .testEmpty => if empty then 11 else 2

/-- What the workers have to do; a task is worth a round of a worker's loop. -/
def State.work (s : State Task) : ℕ :=
  11 * s.taskQueue.length + (s.workers.map (WorkerPc.rank s.taskQueue.isEmpty)).sum

/-- The steps of the manager until it only waits for its workers, where `pool` is the length of
`workerPool`; a worker that it spawns has something to do. -/
def ManagerPc.rank (pool : ℕ) : ManagerPc → ℕ
  | .drain | .drainReap _ | .drainJoin _ | .returned => 0
  | .finalNotify => 1
  | .testRunning => 2
  | .join i => 2 * (pool - i) + 2
  | .reap i => 2 * (pool - i) + 3
  | .pause => 2 * pool + 4
  | .notify => 2 * pool + 5
  | .casKill => 2 * pool + 6
  | .loadKill => 2 * pool + 7
  | .scaleDown => 2 * pool + 8
  | .spawn => 12
  | .scaleUp => 2 * pool + 13
  | .unlockSize => 2 * pool + 14
  | .readSize => 2 * pool + 15
  | .lockSize => 2 * pool + 16
  | .sleep => 2 * pool + 17

def DestructorPc.rank : DestructorPc → ℕ
  | .idle | .storeRunning | .returned => 0
  | .join => 1
  | .notifyAll => 2

def State.potential (s : State Task) : ℕ :=
  s.work + s.manager.rank s.workerPool.length + s.destructor.rank

/-- A step of a worker or of the destructor, or of the manager before it waits for its workers. -/
def Label.proceeds : Label Task → Bool
  | .manager .testCount | .manager (.drainReap _) | .manager (.drainJoin _) => false
  | .worker _ _ | .manager _ | .destructor _ => true
  | .producer _ _ | .setScaleUp _ | .setScaleDown _ => false

/-- A step of `addTask`. -/
def Label.produces : Label Task → Bool
  | .producer _ _ => true
  | _ => false

section Work

variable {w : ℕ} {b : WorkerAct Task}

theorem sum_map_set {α : Type} {l : List α} {i : ℕ} {x : α} (f : α → ℕ) (h : l[i]? = some x)
    (y : α) : ((l.set i y).map f).sum + f x = (l.map f).sum + f y := by
  induction l generalizing i with
  | nil => exact absurd h (by simp)
  | cons z l ih =>
    cases i with
    | zero =>
      obtain rfl : z = x := Option.some.inj h
      simp only [List.set_cons_zero, List.map_cons, List.sum_cons]
      omega
    | succ i =>
      have hrest := ih (i := i) h
      simp only [List.set_cons_succ, List.map_cons, List.sum_cons]
      omega

theorem rank_of_ne {pc : WorkerPc Task} (h : pc ≠ .testEmpty) (e e' : Bool) :
    pc.rank e = pc.rank e' := by
  cases pc with
  | testEmpty => exact absurd rfl h
  | _ => rfl

/-- A worker that does not pop a task comes nearer to its end. -/
theorem rank_move (hrun : s.running = false) (hguard : (workerMove w b s).guard)
    (hpop : ∀ e, b ≠ .pop e) :
    (workerMove w b s).target.rank s.taskQueue.isEmpty <
      (workerMove w b s).source.rank s.taskQueue.isEmpty := by
  cases b with
  | pop e => exact absurd rfl (hpop e)
  | seeEmpty =>
    have hempty : s.taskQueue = [] := hguard
    rw [hempty]
    exact Nat.lt_succ_self 10
  | exitQueue =>
    show (if s.taskQueue = [] then WorkerPc.finishing else .testEmpty).rank _ < 3
    cases hqueue : s.taskQueue with
    | nil => exact Nat.lt_succ_self 2
    | cons e q => exact Nat.lt_succ_self 2
  | testRunning | exitRunning =>
    simp only [workerMove, hrun]
    exact Nat.lt_succ_self _
  | testQueue | testKill | loadKill | casKill k spurious =>
    simp only [workerMove]
    split <;> simp [WorkerPc.rank]
  | _ => exact Nat.lt_succ_self _

/-- A worker pops a task: its round is paid for. -/
theorem work_pop {e : Entry Task} (hown : Owned s.Holds s.taskMutex)
    (h : Enabled (.worker w (.pop e)) s) : (next (.worker w (.pop e)) s).work + 1 = s.work := by
  have hsrc : s.workers[w]? = some .testEmpty := h.1
  obtain ⟨rest, hqueue⟩ : ∃ rest, s.taskQueue = e :: rest := List.head?_eq_some_iff.mp h.2
  have hwork : (next (.worker w (.pop e)) s).work = 11 * rest.length +
      ((s.workers.set w (.popped e)).map (WorkerPc.rank rest.isEmpty)).sum := by
    rw [next_worker]
    simp only [State.work, workerMove, hqueue, List.tail_cons]
  -- nobody else is about to pop
  have hsame : (s.workers.set w (.popped e)).map (WorkerPc.rank rest.isEmpty) =
      (s.workers.set w (.popped e)).map (WorkerPc.rank false) := by
    refine List.map_congr_left fun pc hpc => rank_of_ne ?_ _ _
    rintro rfl
    obtain ⟨v, hv⟩ := List.mem_iff_getElem?.mp hpc
    by_cases hvw : w = v
    · subst hvw
      rw [List.getElem?_set_self (List.getElem?_eq_some_iff.mp hsrc).1] at hv
      exact absurd hv (by simp)
    · rw [List.getElem?_set_ne hvw] at hv
      exact hvw (worker_unique hown hsrc hv rfl rfl)
  have hsum := sum_map_set (WorkerPc.rank false) hsrc (.popped e)
  have htest : (WorkerPc.testEmpty : WorkerPc Task).rank false = 2 := rfl
  have hpopped : (WorkerPc.popped e).rank false = 12 := rfl
  rw [hwork, hsame, State.work, hqueue, List.length_cons, List.isEmpty_cons]
  omega

/-- **A step of a worker.** -/
theorem work_worker (hown : Owned s.Holds s.taskMutex) (hrun : s.running = false)
    (h : Enabled (.worker w b) s) : (next (.worker w b) s).work < s.work := by
  by_cases hpop : ∃ e, b = .pop e
  · obtain ⟨e, rfl⟩ := hpop
    have heq := work_pop hown h
    omega
  · push Not at hpop
    have hqueue : (next (.worker w b) s).taskQueue = s.taskQueue := by
      rw [next_worker]
      cases b with
      | pop e => exact absurd rfl (hpop e)
      | casKill k spurious =>
        simp only [workerMove]
        split <;> rfl
      | _ => rfl
    have hworkers : (next (.worker w b) s).workers = s.workers.set w (workerMove w b s).target := by
      rw [next_worker]
    have hlt := rank_move hrun h.2 hpop
    have hsum := sum_map_set (WorkerPc.rank s.taskQueue.isEmpty) h.1 (workerMove w b s).target
    rw [State.work, State.work, hqueue, hworkers]
    omega

/-- A notification leaves no more to do. -/
theorem work_notifyOne {woken : Option ℕ} (h : s.Notifies woken) :
    (s.notifyOne woken).work ≤ s.work := by
  cases woken with
  | none => exact Nat.le_refl _
  | some v =>
    have hsum := sum_map_set (WorkerPc.rank s.taskQueue.isEmpty) h .woken
    have hblocked : (WorkerPc.blocked : WorkerPc Task).rank s.taskQueue.isEmpty = 10 := rfl
    have hwoken : (WorkerPc.woken : WorkerPc Task).rank s.taskQueue.isEmpty = 9 := rfl
    show 11 * s.taskQueue.length +
      ((s.workers.set v .woken).map (WorkerPc.rank s.taskQueue.isEmpty)).sum ≤ _
    rw [State.work]
    omega

theorem work_notifyAll (s : State Task) : s.notifyAll.work ≤ s.work := by
  have hle : ((s.workers.map State.wakeUp).map (WorkerPc.rank s.taskQueue.isEmpty)).sum ≤
      (s.workers.map (WorkerPc.rank s.taskQueue.isEmpty)).sum := by
    rw [List.map_map]
    refine List.sum_le_sum fun pc _ => ?_
    cases pc <;> simp [State.wakeUp, WorkerPc.rank]
  show 11 * s.taskQueue.length + _ ≤ 11 * s.taskQueue.length + _
  exact Nat.add_le_add_left hle _

/-- A spawn adds what one worker has to do. -/
theorem work_spawn (s : State Task) : (next (.manager .spawn) s).work = s.work + 9 := by
  show 11 * s.taskQueue.length +
    ((s.workers ++ [WorkerPc.start]).map (WorkerPc.rank s.taskQueue.isEmpty)).sum = _
  rw [List.map_append, List.sum_append]
  exact (Nat.add_assoc _ _ _).symm

theorem work_le (s : State Task) : s.work ≤ 11 * s.taskQueue.length + 12 * s.workers.length := by
  have hrank (pc : WorkerPc Task) : pc.rank s.taskQueue.isEmpty ≤ 12 := by
    cases pc with
    | testEmpty => cases s.taskQueue.isEmpty <;> simp [WorkerPc.rank]
    | _ => simp [WorkerPc.rank]
  have hsum := List.sum_le_card_nsmul (s.workers.map (WorkerPc.rank s.taskQueue.isEmpty)) 12
    fun n hn => by
      obtain ⟨pc, -, rfl⟩ := List.mem_map.mp hn
      exact hrank pc
  rw [List.length_map, Nat.nsmul_eq_mul] at hsum
  rw [State.work]
  omega

end Work

section Steps

/-- The manager, before it waits for its workers, leaves them no more to do than it saves. -/
theorem rank_manager {b : ManagerAct} (hrun : s.running = false) (h : Enabled (.manager b) s)
    (hproceeds : (Label.manager b : Label Task).proceeds = true) :
    (next (.manager b) s).work +
        (next (.manager b) s).manager.rank (next (.manager b) s).workerPool.length <
      s.work + s.manager.rank s.workerPool.length := by
  have hsrc : s.manager = (managerMove b s).source := h.1
  rw [hsrc]
  cases b with
  | testCount => exact absurd hproceeds Bool.false_ne_true
  | drainReap i => exact absurd hproceeds Bool.false_ne_true
  | drainJoin i => exact absurd hproceeds Bool.false_ne_true
  | spawn =>
    rw [work_spawn]
    show s.work + 9 + 2 < s.work + 12
    omega
  | notify woken =>
    have hle := work_notifyOne h.2
    have hpool : (s.notifyOne woken).workerPool = s.workerPool := by rw [notifyOne_eq]
    show (s.notifyOne woken).work + (2 * (s.notifyOne woken).workerPool.length + 4) < _
    rw [hpool]
    show _ < s.work + (2 * s.workerPool.length + 5)
    omega
  | finalNotify =>
    have hle := work_notifyAll s
    show s.notifyAll.work + 0 < s.work + 1
    omega
  | join i =>
    obtain ⟨hi, -⟩ := exitedAt_getElem h.2
    show s.work + (2 * ((s.workerPool.eraseIdx i).length - i) + 3) <
      s.work + (2 * (s.workerPool.length - i) + 2)
    rw [List.length_eraseIdx_of_lt hi]
    omega
  | reap i =>
    show s.work + (if i < s.workerPool.length then
      (if s.finishedAt i then ManagerPc.join i else .reap (i + 1)) else .testRunning).rank
        s.workerPool.length < s.work + (2 * (s.workerPool.length - i) + 3)
    refine Nat.add_lt_add_left ?_ _
    split_ifs <;> simp only [ManagerPc.rank] <;> omega
  | testRunning =>
    show s.work + (if s.running then ManagerPc.sleep else .finalNotify).rank _ < s.work + 2
    rw [hrun]
    exact Nat.lt_succ_self _
  | casKill spurious =>
    have hwork : (next (.manager (.casKill spurious)) s).work = s.work := by
      simp only [next, managerMove]
      split <;> rfl
    have hpool : (next (.manager (.casKill spurious)) s).workerPool = s.workerPool := by
      simp only [next, managerMove]
      split <;> rfl
    rw [hwork, hpool]
    exact Nat.lt_succ_self _
  | testScaleUp =>
    show s.work + (if s.scaleUp s.queueSize s.count then ManagerPc.spawn else .scaleDown).rank
      s.workerPool.length < s.work + (2 * s.workerPool.length + 13)
    refine Nat.add_lt_add_left ?_ _
    split <;> simp only [ManagerPc.rank] <;> omega
  | testScaleDown =>
    show s.work + (if s.scaleDown s.queueSize s.count then ManagerPc.loadKill
      else .testRunning).rank s.workerPool.length < s.work + (2 * s.workerPool.length + 8)
    refine Nat.add_lt_add_left ?_ _
    split <;> simp only [ManagerPc.rank] <;> omega
  | loadKill =>
    show s.work + (if s.killThread = 0 then ManagerPc.casKill else .reap 0).rank
      s.workerPool.length < s.work + (2 * s.workerPool.length + 7)
    refine Nat.add_lt_add_left ?_ _
    split <;> simp only [ManagerPc.rank] <;> omega
  | _ => exact Nat.lt_succ_self _

/-- The destructor leaves the workers no more to do. -/
theorem rank_destructor {b : DestructorAct} (hacc : Accounts s) (hrun : s.running = false)
    (h : Enabled (.destructor b) s) :
    (next (.destructor b) s).work + (next (.destructor b) s).destructor.rank <
      s.work + s.destructor.rank := by
  have hsrc : s.destructor = (destructorMove b s).source := h.1
  have hidle (hd : s.destructor = .idle ∨ s.destructor = .storeRunning) : False :=
    Bool.false_ne_true (hrun.symm.trans (hacc.running_iff.mpr hd))
  cases b with
  | call => exact (hidle (Or.inl hsrc)).elim
  | storeRunning => exact (hidle (Or.inr hsrc)).elim
  | notifyAll =>
    have hle := work_notifyAll s
    rw [hsrc]
    show s.notifyAll.work + 1 < s.work + 2
    omega
  | join =>
    rw [hsrc]
    exact Nat.lt_succ_self _

/-- **One step** once `running_` is cleared. -/
theorem potential_next (hacc : Accounts s) (hown : Owned s.Holds s.taskMutex)
    (hrun : s.running = false) (h : Enabled a s) (hproduces : a.produces = false) :
    (next a s).potential + (if a.proceeds then 1 else 0) ≤ s.potential := by
  cases a with
  | producer p b => exact absurd hproduces (by simp [Label.produces])
  | setScaleUp func => exact Nat.le_refl _
  | setScaleDown func => exact Nat.le_refl _
  | worker w b =>
    have hlt := work_worker hown hrun h
    have hrest : (next (.worker w b) s).potential = (next (.worker w b) s).work +
        s.manager.rank s.workerPool.length + s.destructor.rank := by
      rw [State.potential, next_worker]
    rw [hrest, State.potential]
    show _ + 1 ≤ _
    omega
  | destructor b =>
    have hlt := rank_destructor hacc hrun h
    have hrest : (next (.destructor b) s).potential = (next (.destructor b) s).work +
        s.manager.rank s.workerPool.length + (next (.destructor b) s).destructor.rank := by
      cases b <;> rfl
    rw [hrest, State.potential]
    show _ + 1 ≤ _
    omega
  | manager b =>
    have hdestructor : (next (.manager b) s).destructor = s.destructor := by rw [next_manager]
    rw [State.potential, State.potential, hdestructor]
    cases hproceeds : (Label.manager b : Label Task).proceeds with
    | true =>
      have hlt := rank_manager hrun h hproceeds
      show _ + 1 ≤ _
      omega
    | false =>
      have hsrc : s.manager = (managerMove b s).source := h.1
      rw [hsrc]
      show _ + 0 ≤ _
      cases b with
      | testCount =>
        show s.work +
          (if s.workerCount = 0 then ManagerPc.returned else .drainReap 0).rank _ + _ ≤ _
        split <;> exact Nat.le_refl _
      | drainReap i =>
        show s.work + (if i < s.workerPool.length then (if s.finishedAt i then ManagerPc.drainJoin i
          else .drainReap (i + 1)) else .drain).rank _ + _ ≤ _
        split_ifs <;> exact Nat.le_refl _
      | drainJoin i => exact Nat.le_refl _
      | _ => exact absurd hproceeds (by simp [Label.proceeds])

theorem potential_le (s : State Task) : s.potential ≤
    11 * s.taskQueue.length + 12 * s.workers.length + 2 * s.workerPool.length + 19 := by
  have hwork := work_le s
  have hmanager : s.manager.rank s.workerPool.length ≤ 2 * s.workerPool.length + 17 := by
    cases s.manager <;> simp only [ManagerPc.rank] <;> omega
  have hdestructor : s.destructor.rank ≤ 2 := by
    cases s.destructor <;> simp [DestructorPc.rank]
  rw [State.potential]
  omega

end Steps

/-! ## Where nothing is left but to wait -/

/-- No worker, nor the destructor or the manager before it waits for its workers, can make a
step, but for spurious wake-ups. -/
def State.Still (s : State Task) : Prop :=
  ∀ a : Label Task, a.proceeds = true → (∀ w, a ≠ .worker w .wake) → ¬ Enabled a s

section Still

/-- A worker that is neither blocked nor exited waits at most for the mutex. -/
theorem WorkerPc.exists_step {pc : WorkerPc Task} (s : State Task) (w : ℕ)
    (hblocked : pc ≠ .blocked) (hexited : pc ≠ .exited)
    (hmutex : pc.holdsMutex = true ∨ s.taskMutex = none) :
    ∃ b, b ≠ .wake ∧ (workerMove w b s).source = pc ∧ (workerMove w b s).guard := by
  cases pc with
  | start => exact ⟨.lock, nofun, rfl, hmutex.resolve_left Bool.false_ne_true⟩
  | woken => exact ⟨.relock, nofun, rfl, hmutex.resolve_left Bool.false_ne_true⟩
  | testQueue => exact ⟨.testQueue, nofun, rfl, trivial⟩
  | testRunning => exact ⟨.testRunning, nofun, rfl, trivial⟩
  | testKill => exact ⟨.testKill, nofun, rfl, trivial⟩
  | block => exact ⟨.block, nofun, rfl, trivial⟩
  | loadKill => exact ⟨.loadKill, nofun, rfl, trivial⟩
  | casKill k => exact ⟨.casKill k false, nofun, rfl, trivial⟩
  | exitRunning => exact ⟨.exitRunning, nofun, rfl, trivial⟩
  | exitQueue => exact ⟨.exitQueue, nofun, rfl, trivial⟩
  | finishing => exact ⟨.finish, nofun, rfl, trivial⟩
  | leaving => exact ⟨.leave, nofun, rfl, trivial⟩
  | testEmpty =>
    cases hqueue : s.taskQueue with
    | nil => exact ⟨.seeEmpty, nofun, rfl, hqueue⟩
    | cons e q => exact ⟨.pop e, nofun, rfl, congrArg List.head? hqueue⟩
  | popped e => exact ⟨.unlock e, nofun, rfl, trivial⟩
  | holding e => exact ⟨.invoke e, nofun, rfl, trivial⟩
  | running e => exact ⟨.complete e false, nofun, rfl, trivial⟩
  | emptyQueue => exact ⟨.skip, nofun, rfl, trivial⟩
  | blocked => exact absurd rfl hblocked
  | exited => exact absurd rfl hexited

theorem State.Still.worker (hstill : s.Still) {w : ℕ} {pc : WorkerPc Task}
    (hw : s.workers[w]? = some pc) (hmutex : pc.holdsMutex = true ∨ s.taskMutex = none) :
    pc = .exited ∨ pc = .blocked := by
  by_contra hne
  obtain ⟨hexited, hblocked⟩ := not_or.mp hne
  obtain ⟨b, hb, hsource, hguard⟩ := pc.exists_step s w hblocked hexited hmutex
  refine hstill (.worker w b) rfl (fun v hv => ?_) ⟨hw.trans (congrArg some hsource.symm), hguard⟩
  cases hv
  exact hb rfl

theorem State.Still.manager (hstill : s.Still) {b : ManagerAct}
    (hproceeds : (Label.manager b : Label Task).proceeds = true)
    (hsource : s.manager = (managerMove b s).source) : ¬ (managerMove b s).guard :=
  fun hguard => hstill (.manager b) hproceeds nofun ⟨hsource, hguard⟩

/-- Nobody holds the mutex. -/
theorem State.Still.taskMutex (hstill : s.Still) (hown : Owned s.Holds s.taskMutex)
    (hidle : ∀ p, s.producers p = .idle) : s.taskMutex = none := by
  by_contra hne
  obtain ⟨t, ht⟩ := Option.ne_none_iff_exists'.mp hne
  have hholds := (hown t).mpr ht
  cases t with
  | worker w =>
    obtain ⟨pc, hpc, hmutex⟩ := (Option.any_eq_true _ _).mp hholds
    rcases hstill.worker hpc (Or.inl hmutex) with rfl | rfl
    · exact absurd hmutex Bool.false_ne_true
    · exact absurd hmutex Bool.false_ne_true
  | producer p =>
    have hmutex : (s.producers p).holdsMutex = true := hholds
    rw [hidle p] at hmutex
    exact absurd hmutex Bool.false_ne_true
  | manager =>
    have hmutex : s.manager.holdsMutex = true := hholds
    cases hpc : s.manager with
    | readSize => exact hstill.manager (b := .readSize) rfl hpc trivial
    | unlockSize => exact hstill.manager (b := .unlock) rfl hpc trivial
    | _ =>
      rw [hpc] at hmutex
      exact absurd hmutex Bool.false_ne_true

theorem State.Still.manager_notified (hstill : s.Still)
    (h : (pool Task).Run (initial up down) tr s) (hmutex : s.taskMutex = none) :
    s.manager.notified = true := by
  cases hpc : s.manager with
  | drain => rfl
  | drainReap i => rfl
  | drainJoin i => rfl
  | returned => rfl
  | testRunning => exact absurd trivial (hstill.manager (b := .testRunning) rfl hpc)
  | sleep => exact absurd trivial (hstill.manager (b := .sleep) rfl hpc)
  | lockSize => exact absurd hmutex (hstill.manager (b := .lock) rfl hpc)
  | readSize => exact absurd trivial (hstill.manager (b := .readSize) rfl hpc)
  | unlockSize => exact absurd trivial (hstill.manager (b := .unlock) rfl hpc)
  | scaleUp => exact absurd trivial (hstill.manager (b := .testScaleUp) rfl hpc)
  | spawn => exact absurd trivial (hstill.manager (b := .spawn) rfl hpc)
  | scaleDown => exact absurd trivial (hstill.manager (b := .testScaleDown) rfl hpc)
  | loadKill => exact absurd trivial (hstill.manager (b := .loadKill) rfl hpc)
  | casKill => exact absurd trivial (hstill.manager (b := .casKill false) rfl hpc)
  | pause => exact absurd trivial (hstill.manager (b := .pause) rfl hpc)
  | reap i => exact absurd trivial (hstill.manager (b := .reap i) rfl hpc)
  | finalNotify => exact absurd trivial (hstill.manager (b := .finalNotify) rfl hpc)
  | notify =>
    by_cases hblocked : .blocked ∈ s.workers
    · obtain ⟨w, hw⟩ := List.mem_iff_getElem?.mp hblocked
      exact absurd hw (hstill.manager (b := .notify (some w)) rfl hpc)
    · exact absurd hblocked (hstill.manager (b := .notify none) rfl hpc)
  | join i =>
    -- the worker has set its flag, and does not wait for the mutex
    have hfinished := joining_finished h (congrArg ManagerPc.joining hpc)
    obtain ⟨pc, hw, hflag⟩ := (Option.any_eq_true _ _).mp hfinished
    obtain ⟨w, hi, hpool⟩ := Option.bind_eq_some_iff.mp hw
    rcases hstill.worker hpool (Or.inr hmutex) with rfl | rfl
    · exact absurd hw (hstill.manager (b := .join i) rfl hpc)
    · exact absurd hflag Bool.false_ne_true

theorem State.Still.notified (hstill : s.Still) (h : (pool Task).Run (initial up down) tr s)
    (hrun : s.running = false) (hmutex : s.taskMutex = none) : s.Notified where
  running := hrun
  manager := hstill.manager_notified h hmutex
  destructor := by
    have hiff := (accounts h).running_iff
    cases hpc : s.destructor with
    | idle => exact absurd (hiff.mpr (Or.inl hpc)) (Bool.not_eq_true _ ▸ hrun)
    | storeRunning => exact absurd (hiff.mpr (Or.inr hpc)) (Bool.not_eq_true _ ▸ hrun)
    | notifyAll => exact (hstill (.destructor .notifyAll) rfl nofun ⟨hpc, trivial⟩).elim
    | join => rfl
    | returned => rfl

end Still

/-! ## The last loop of the manager -/

/-- The steps of the manager until it returns, if all workers have exited; a look at entries
other than the first ones of `workerPool` is followed by one at those. -/
def ManagerPc.waitRank (pool : ℕ) : ManagerPc → ℕ
  | .drain => if pool = 0 then 1 else 2 * pool + 3
  | .drainReap i => 2 * pool + (if i = 0 then 2 else 4)
  | .drainJoin i => 2 * pool + (if i = 0 then 1 else 3)
  | _ => 0

/-- The steps of the manager and of the destructor until both have returned. -/
def State.joinRank (s : State Task) : ℕ :=
  s.manager.waitRank s.workerPool.length + s.destructor.rank

/-- A step of a worker, the manager or the destructor. -/
def Label.moves : Label Task → Bool
  | .worker _ _ | .manager _ | .destructor _ => true
  | .producer _ _ | .setScaleUp _ | .setScaleDown _ => false

/-- All workers have exited. -/
def State.Emptied (s : State Task) : Prop :=
  ∀ (w : ℕ) (pc : WorkerPc Task), s.workers[w]? = some pc → pc = .exited

section Notified

/-- After its last notification the manager makes one of the three steps of its last loop. -/
theorem ManagerPc.notified_cases {b : ManagerAct}
    (h : (managerMove b s).source.notified = true) :
    b = .testCount ∨ (∃ i, b = .drainReap i) ∨ ∃ i, b = .drainJoin i := by
  cases b with
  | testCount => exact Or.inl rfl
  | drainReap i => exact Or.inr (Or.inl ⟨i, rfl⟩)
  | drainJoin i => exact Or.inr (Or.inr ⟨i, rfl⟩)
  | _ => exact absurd h Bool.false_ne_true

theorem State.Notified.manager_cases {b : ManagerAct} (hn : s.Notified)
    (h : Enabled (.manager b) s) :
    b = .testCount ∨ (∃ i, b = .drainReap i) ∨ ∃ i, b = .drainJoin i := by
  have hmanager := hn.manager
  rw [h.1] at hmanager
  exact ManagerPc.notified_cases hmanager

/-- The destructor only waits for the manager. -/
theorem State.Notified.destructor_cases {b : DestructorAct} (hn : s.Notified)
    (h : Enabled (.destructor b) s) : b = .join := by
  have hdestructor := hn.destructor
  rw [h.1] at hdestructor
  cases b with
  | join => rfl
  | _ => exact absurd hdestructor Bool.false_ne_true

theorem State.Notified.next (hn : s.Notified) (h : Enabled a s) : (next a s).Notified where
  running := running_next hn.running
  manager := by
    by_cases ha : ∃ b, a = .manager b
    · obtain ⟨b, rfl⟩ := ha
      have htgt : (ThreadPool.next (.manager b) s).manager = (managerMove b s).target := rfl
      rw [htgt]
      obtain rfl | ⟨i, rfl⟩ | ⟨i, rfl⟩ := hn.manager_cases h
      · simp only [managerMove]
        split <;> rfl
      · simp only [managerMove]
        split_ifs <;> rfl
      · rfl
    · push Not at ha
      rw [manager_next ha]
      exact hn.manager
  destructor := by
    cases a with
    | worker w b => rw [next_worker]; exact hn.destructor
    | manager b => rw [next_manager]; exact hn.destructor
    | producer p b => rw [next_producer]; exact hn.destructor
    | destructor b =>
      obtain rfl := hn.destructor_cases h
      rfl
    | setScaleUp func => exact hn.destructor
    | setScaleDown func => exact hn.destructor

/-- Nobody notifies a blocked worker any more. -/
theorem State.Notified.blocked_next (hn : s.Notified) (h : Enabled a s)
    (hproduces : a.produces = false) {w : ℕ} (hw : s.workers[w]? = some .blocked)
    (hwake : a ≠ .worker w .wake) : (ThreadPool.next a s).workers[w]? = some .blocked := by
  cases a with
  | producer p b => exact absurd hproduces (by simp [Label.produces])
  | setScaleUp func => exact hw
  | setScaleDown func => exact hw
  | manager b =>
    obtain rfl | ⟨i, rfl⟩ | ⟨i, rfl⟩ := hn.manager_cases h
    · exact hw
    · exact hw
    · exact hw
  | destructor b =>
    obtain rfl := hn.destructor_cases h
    exact hw
  | worker v b =>
    rw [next_worker]
    by_cases hvw : v = w
    · subst hvw
      have hsrc : (workerMove v b s).source = .blocked := Option.some.inj (h.1.symm.trans hw)
      cases b with
      | wake => exact absurd rfl hwake
      | _ => exact absurd hsrc (by simp [workerMove])
    · exact (List.getElem?_set_ne hvw).trans hw

end Notified

section Emptied

/-- Whatever the manager looks at has exited. -/
theorem State.Emptied.exitedAt (he : s.Emptied)
    (hpool : ∀ w ∈ s.workerPool, w < s.workers.length) {i : ℕ} (hi : i < s.workerPool.length) :
    s.exitedAt i := by
  have hlt := hpool _ (List.getElem_mem hi)
  rw [State.exitedAt, List.getElem?_eq_getElem hi, Option.bind_some, List.getElem?_eq_getElem hlt]
  exact congrArg some (he _ _ (List.getElem?_eq_getElem hlt))

theorem State.Emptied.finishedAt (he : s.Emptied)
    (hpool : ∀ w ∈ s.workerPool, w < s.workers.length) {i : ℕ} (hi : i < s.workerPool.length) :
    s.finishedAt i = true := by
  have hexited : (s.workerPool[i]?).bind (s.workers[·]?) = some .exited := he.exitedAt hpool hi
  rw [State.finishedAt, hexited]
  rfl

/-- **A step of the manager in its last loop.** -/
theorem waitRank_next {b : ManagerAct} (hn : s.Notified) (he : s.Emptied)
    (hpool : ∀ w ∈ s.workerPool, w < s.workers.length)
    (hcount : s.workerCount = s.workerPool.length) (h : Enabled (.manager b) s) :
    (next (.manager b) s).manager.waitRank (next (.manager b) s).workerPool.length <
      s.manager.waitRank s.workerPool.length := by
  have hsrc : s.manager = (managerMove b s).source := h.1
  rw [hsrc]
  obtain rfl | ⟨i, rfl⟩ | ⟨i, rfl⟩ := hn.manager_cases h
  · show (if s.workerCount = 0 then ManagerPc.returned else .drainReap 0).waitRank
        s.workerPool.length < ManagerPc.waitRank s.workerPool.length .drain
    rw [hcount]
    by_cases hnil : s.workerPool.length = 0
    · rw [hnil]
      exact Nat.zero_lt_one
    · rw [if_neg (Int.natCast_ne_zero.mpr hnil)]
      simp only [ManagerPc.waitRank, if_neg hnil]
      exact Nat.lt_succ_self _
  · show (if i < s.workerPool.length then (if s.finishedAt i then ManagerPc.drainJoin i
        else .drainReap (i + 1)) else .drain).waitRank s.workerPool.length <
      ManagerPc.waitRank s.workerPool.length (.drainReap i)
    by_cases hi : i < s.workerPool.length
    · rw [if_pos hi, if_pos (he.finishedAt hpool hi)]
      simp only [ManagerPc.waitRank]
      split <;> omega
    · rw [if_neg hi]
      simp only [ManagerPc.waitRank]
      split_ifs <;> omega
  · obtain ⟨hi, -⟩ := exitedAt_getElem h.2
    show ManagerPc.waitRank (s.workerPool.eraseIdx i).length (.drainReap i) <
      ManagerPc.waitRank s.workerPool.length (.drainJoin i)
    rw [List.length_eraseIdx_of_lt hi]
    simp only [ManagerPc.waitRank]
    split <;> omega

/-- No worker has a step left, and the manager does not spawn another one. -/
theorem State.Emptied.next (he : s.Emptied) (hn : s.Notified) (h : Enabled a s) :
    (ThreadPool.next a s).Emptied := by
  intro w pc hw
  have hspawn : a ≠ .manager .spawn := by
    rintro rfl
    exact absurd (hn.manager_cases h) (by simp)
  have hlt : w < s.workers.length :=
    length_workers_next (s := s) hspawn ▸ (List.getElem?_eq_some_iff.mp hw).1
  have hexited : s.workers[w]? = some .exited :=
    (List.getElem?_eq_getElem hlt).trans (congrArg some (he _ _ (List.getElem?_eq_getElem hlt)))
  exact Option.some.inj (hw.symm.trans (exited_next h hexited))

/-- **One step** once all workers have exited. -/
theorem joinRank_next (hn : s.Notified) (he : s.Emptied)
    (hpool : ∀ w ∈ s.workerPool, w < s.workers.length)
    (hcount : s.workerCount = s.workerPool.length) (h : Enabled a s) :
    (next a s).joinRank + (if a.moves then 1 else 0) ≤ s.joinRank := by
  cases a with
  | worker w b =>
    -- an exited worker makes no step
    have hsrc : (workerMove w b s).source = .exited := he _ _ h.1
    cases b <;> exact absurd hsrc (by simp [workerMove])
  | manager b =>
    have hlt := waitRank_next hn he hpool hcount h
    have hdestructor : (next (.manager b) s).destructor = s.destructor := by rw [next_manager]
    rw [State.joinRank, State.joinRank, hdestructor]
    show _ + 1 ≤ _
    omega
  | destructor b =>
    obtain rfl := hn.destructor_cases h
    have hsrc : s.destructor = .join := h.1
    rw [State.joinRank, State.joinRank, hsrc]
    exact Nat.le_refl _
  | producer p b =>
    rw [next_producer]
    exact Nat.le_refl _
  | setScaleUp func => exact Nat.le_refl _
  | setScaleDown func => exact Nat.le_refl _

theorem joinRank_le (s : State Task) (hn : s.Notified) :
    s.joinRank ≤ 2 * s.workerPool.length + 5 := by
  have hmanager : s.manager.waitRank s.workerPool.length ≤ 2 * s.workerPool.length + 4 := by
    cases s.manager with
    | drain | drainReap i | drainJoin i =>
      simp only [ManagerPc.waitRank]
      split <;> omega
    | _ => exact Nat.zero_le _
  have hdestructor : s.destructor.rank ≤ 1 := by
    have hnotified := hn.destructor
    cases hpc : s.destructor <;> rw [hpc] at hnotified <;>
      first | exact absurd hnotified Bool.false_ne_true | simp [DestructorPc.rank]
  rw [State.joinRank]
  omega

end Emptied

/-! ## Runs of the pool that is being destroyed -/

section Runs

variable {pre : List (Label Task)}

/-- The entries of `workerPool` are workers. -/
theorem lt_of_mem_workerPool (h : (pool Task).Run (initial up down) tr s) {w : ℕ}
    (hw : w ∈ s.workerPool) : w < s.workers.length :=
  List.mem_range.mp ((pooled_joined h).subset (List.mem_append_left _ hw))

/-- The run lemma for the time until the manager waits for its workers. -/
theorem potential_run (hu : (pool Task).Run (initial up down) pre u) (hrun : u.running = false)
    (hidle : ∀ p, u.producers p = .idle)
    (h : (pool Task).RunBy (fun _ _ a => a.produces = false) u tr s) :
    s.running = false ∧ (∀ p, s.producers p = .idle) ∧
      s.potential + tr.countP Label.proceeds ≤ u.potential := by
  refine h.induct (P := fun tr s => s.running = false ∧ (∀ p, s.producers p = .idle) ∧
    s.potential + tr.countP Label.proceeds ≤ u.potential) ⟨hrun, hidle, Nat.le_refl _⟩ ?_
  rintro tr s a hr ⟨hrun, hidle, hle⟩ ha hproduces
  have hreached := hu.append hr.run
  have hstep := potential_next (accounts hreached) (mutex_owner hreached) hrun ha hproduces
  refine ⟨running_next hrun, fun p => ?_, ?_⟩
  · refine (producers_next fun b hb => ?_).trans (hidle p)
    rw [hb] at hproduces
    exact Bool.false_ne_true hproduces.symm
  · rw [List.countP_append, List.countP_singleton]
    show (next a s).potential + _ ≤ _
    omega

/-- The run lemma for the time after all workers have exited. -/
theorem joinRank_run (hu : (pool Task).Run (initial up down) pre u) (hn : u.Notified)
    (he : u.Emptied) (h : (pool Task).Run u tr s) :
    s.Notified ∧ s.Emptied ∧ s.joinRank + tr.countP Label.moves ≤ u.joinRank := by
  refine h.induct (P := fun tr s => s.Notified ∧ s.Emptied ∧
    s.joinRank + tr.countP Label.moves ≤ u.joinRank) ⟨hn, he, Nat.le_refl _⟩ ?_
  rintro tr s a hr ⟨hn, he, hle⟩ ha
  have hreached := hu.append hr
  have hstep := joinRank_next hn he (fun _ => lt_of_mem_workerPool hreached)
    (accounts hreached).count ha
  refine ⟨hn.next ha, he.next hn ha, ?_⟩
  rw [List.countP_append, List.countP_singleton]
  show (next a s).joinRank + _ ≤ _
  omega

/-- Once all workers have exited, the destructor is the last to stop. -/
theorem returned_of_stuck (h : (pool Task).Run (initial up down) tr s) (hn : s.Notified)
    (he : s.Emptied) (hstuck : ∀ a : Label Task, a.moves = true → ¬ Enabled a s) :
    s.destructor = .returned := by
  have hreturned : s.manager = .returned := by
    have hmanager := hn.manager
    cases hpc : s.manager with
    | returned => rfl
    | drain => exact absurd ⟨hpc, trivial⟩ (hstuck (.manager .testCount) rfl)
    | drainReap i => exact absurd ⟨hpc, trivial⟩ (hstuck (.manager (.drainReap i)) rfl)
    | drainJoin i =>
      -- the worker that the manager joins is one of `workerPool`
      have hfinished := joining_finished h (congrArg ManagerPc.joining hpc)
      obtain ⟨pc, hw, -⟩ := (Option.any_eq_true _ _).mp hfinished
      obtain ⟨w, hi, -⟩ := Option.bind_eq_some_iff.mp hw
      have hexited := he.exitedAt (fun _ => lt_of_mem_workerPool h)
        (List.getElem?_eq_some_iff.mp hi).1
      exact absurd ⟨hpc, hexited⟩ (hstuck (.manager (.drainJoin i)) rfl)
    | _ =>
      rw [hpc] at hmanager
      exact absurd hmanager Bool.false_ne_true
  have hdestructor := hn.destructor
  cases hpc : s.destructor with
  | returned => rfl
  | join => exact absurd ⟨hpc, hreturned⟩ (hstuck (.destructor .join) rfl)
  | _ =>
    rw [hpc] at hdestructor
    exact absurd hdestructor Bool.false_ne_true

/-- The destructor does not return over a worker that sleeps on. -/
theorem not_returned_of_blocked (hu : (pool Task).Run (initial up down) pre u)
    (hn : u.Notified) {w : ℕ} (hw : u.workers[w]? = some .blocked)
    (h : (pool Task).RunBy (fun _ _ a => a.produces = false ∧ a ≠ .worker w .wake) u tr s) :
    s.destructor ≠ .returned := by
  have hblocked : s.Notified ∧ s.workers[w]? = some .blocked := by
    refine h.induct (P := fun _ s => s.Notified ∧ s.workers[w]? = some .blocked) ⟨hn, hw⟩ ?_
    rintro tr s a - ⟨hn, hw⟩ ha ⟨hproduces, hwake⟩
    exact ⟨hn.next ha, hn.blocked_next ha hproduces hw hwake⟩
  intro hreturned
  have hacc := accounts (hu.append h.run)
  exact absurd (hacc.exited (hacc.joined hreturned) hblocked.2) (by simp)

/-- **How the destruction of the pool ends**, if nobody calls `addTask` any more.  From any
state in which `running_` is cleared, the workers, the destructor and the manager before it
waits for its workers make a bounded number of steps.  Where they can make no other step, all
workers but at most one have exited, and that one is blocked.  If there is none, the manager
and the destructor return after a bounded number of steps; if there is one, the destructor
does not return before the worker is woken spuriously. -/
theorem shutdown_ends (hu : (pool Task).Run (initial up down) pre u) (hrun : u.running = false)
    (hidle : ∀ p, u.producers p = .idle)
    (h : (pool Task).RunBy (fun _ _ a => a.produces = false) u tr s) :
    tr.countP Label.proceeds ≤
        11 * u.taskQueue.length + 12 * u.workers.length + 2 * u.workerPool.length + 19 ∧
      (s.Still →
        (∀ (w : ℕ) pc, s.workers[w]? = some pc → pc = .exited ∨ pc = .blocked) ∧
        (∀ v w : ℕ, s.workers[v]? = some .blocked → s.workers[w]? = some .blocked → v = w) ∧
        (.blocked ∉ s.workers → ∀ tr' s', (pool Task).Run s tr' s' →
          tr'.countP Label.moves ≤ 2 * s.workerPool.length + 5 ∧
            ((∀ a : Label Task, a.moves = true → ¬ Enabled a s') → s'.destructor = .returned)) ∧
        ∀ w, s.workers[w]? = some .blocked → ∀ tr' s',
          (pool Task).RunBy (fun _ _ a => a.produces = false ∧ a ≠ .worker w .wake) s tr' s' →
            s'.destructor ≠ .returned) := by
  obtain ⟨hrun', hidle', hle⟩ := potential_run hu hrun hidle h
  have hs := hu.append h.run
  refine ⟨?_, fun hstill => ?_⟩
  · have hbound := potential_le u
    omega
  have hmutex := hstill.taskMutex (mutex_owner hs) hidle'
  have hn := hstill.notified hs hrun' hmutex
  have hends (w : ℕ) (pc : WorkerPc Task) (hw : s.workers[w]? = some pc) :
      pc = .exited ∨ pc = .blocked := hstill.worker hw (Or.inr hmutex)
  refine ⟨hends, fun v w hv hw => (settled hs hn.destructor).unique v w _ _ hv hw rfl rfl,
    fun hno tr' s' h' => ?_, fun w hw tr' s' h' => not_returned_of_blocked hs hn hw h'⟩
  have he : s.Emptied := fun w pc hw =>
    (hends w pc hw).resolve_right fun hpc => hno (List.mem_of_getElem? (hpc ▸ hw))
  obtain ⟨hn', he', hle'⟩ := joinRank_run hs hn he h'
  refine ⟨?_, fun hstuck => returned_of_stuck (hs.append h') hn' he' hstuck⟩
  have hbound := joinRank_le s hn
  omega

end Runs

/-! ## A pool that is destroyed with two jobs in its queue -/

/-- Where all workers have exited and the manager has not returned, there is nothing to do but
for the manager to join them. -/
theorem State.Notified.still (hn : s.Notified) (he : s.Emptied) (hm : s.manager ≠ .returned) :
    s.Still := by
  intro a hproceeds hwake henabled
  cases a with
  | worker w b =>
    have hsrc : (workerMove w b s).source = .exited := he _ _ henabled.1
    cases b <;> exact absurd hsrc (by simp [workerMove])
  | manager b =>
    obtain rfl | ⟨i, rfl⟩ | ⟨i, rfl⟩ := hn.manager_cases henabled
    · exact absurd hproceeds Bool.false_ne_true
    · exact absurd hproceeds Bool.false_ne_true
    · exact absurd hproceeds Bool.false_ne_true
  | destructor b =>
    obtain rfl := hn.destructor_cases henabled
    exact hm henabled.2
  | producer p b => exact absurd hproceeds Bool.false_ne_true
  | setScaleUp func => exact absurd hproceeds Bool.false_ne_true
  | setScaleDown func => exact absurd hproceeds Bool.false_ne_true

/-- The worker executes both jobs and exits; both notifications are executed. -/
def closingRun : List (Label ℕ) :=
  [.manager .testRunning, .destructor .notifyAll, .manager .finalNotify] ++ drainRun (job 0) ++
    drainRun (job 1) ++
    [.worker 0 .lock, .worker 0 .testQueue, .worker 0 .testRunning, .worker 0 .loadKill,
      .worker 0 .exitRunning, .worker 0 .exitQueue, .worker 0 .finish, .worker 0 .leave]

/-- The manager joins the worker, and the destructor the manager. -/
def joinedRun : List (Label ℕ) :=
  [.manager .testCount, .manager (.drainReap 0), .manager (.drainJoin 0),
    .manager (.drainReap 0), .manager .testCount, .destructor .join]

theorem shutdown_ends_closingRun :
    closingRun.countP Label.proceeds ≤ 55 ∧ joinedRun.countP Label.moves ≤ 7 ∧
      ((pool ℕ).after (stayingRun ++ closingRun ++ joinedRun)
        (initial defaultScaleUp defaultScaleDown)).destructor = .returned := by
  let start : State ℕ := initial defaultScaleUp defaultScaleDown
  let u := (pool ℕ).after stayingRun start
  have hpre : (pool ℕ).Legal stayingRun start := by decide
  have hclosing : ((pool ℕ).restrict fun _ a => a.produces = false).Legal closingRun u := by
    decide
  have hjoined : (pool ℕ).Legal joinedRun ((pool ℕ).after closingRun u) := by decide
  obtain ⟨hbound, hends⟩ := shutdown_ends (TransitionSystem.run_of_legal hpre) (by decide)
    (fun p => by cases p <;> rfl)
    (TransitionSystem.runBy_of_legal (C := fun _ _ a => a.produces = false) (fun _ _ _ => id)
      hclosing)
  -- the worker has exited, and the manager waits for it
  have hworkers : ((pool ℕ).after closingRun u).workers = [.exited] := by decide
  have hstill : ((pool ℕ).after closingRun u).Still := by
    refine State.Notified.still ⟨by decide, by decide, by decide⟩ (fun w pc hw => ?_) (by decide)
    rw [hworkers] at hw
    exact List.mem_singleton.mp (List.mem_of_getElem? hw)
  obtain ⟨-, -, hreturns, -⟩ := hends hstill
  obtain ⟨hmoves, hreturned⟩ := hreturns (by rw [hworkers]; decide) joinedRun _
    (TransitionSystem.run_of_legal hjoined)
  have hpool : ((pool ℕ).after closingRun u).workerPool.length = 1 := by decide
  rw [hpool] at hmoves
  refine ⟨hbound, hmoves, ?_⟩
  rw [TransitionSystem.after_append, TransitionSystem.after_append]
  refine hreturned fun a hmoves henabled => ?_
  have hworkers' : ((pool ℕ).after joinedRun ((pool ℕ).after closingRun u)).workers =
      [.exited] := by decide
  have hmanager' : ((pool ℕ).after joinedRun ((pool ℕ).after closingRun u)).manager =
      .returned := by decide
  have hdestructor' : ((pool ℕ).after joinedRun ((pool ℕ).after closingRun u)).destructor =
      .returned := by decide
  cases a with
  | worker w b =>
    have hsrc := henabled.1
    rw [hworkers'] at hsrc
    have hexited := List.mem_singleton.mp (List.mem_of_getElem? hsrc)
    cases b <;> exact absurd hexited (by simp [workerMove])
  | manager b =>
    have hsrc := henabled.1
    rw [hmanager'] at hsrc
    cases b <;> exact absurd hsrc (by simp [managerMove])
  | destructor b =>
    have hsrc := henabled.1
    rw [hdestructor'] at hsrc
    cases b <;> exact absurd hsrc (by simp [destructorMove])
  | producer p b => exact absurd hmoves Bool.false_ne_true
  | setScaleUp func => exact absurd hmoves Bool.false_ne_true
  | setScaleDown func => exact absurd hmoves Bool.false_ne_true

end ThreadPool
