/-
# What a step of the thread pool can do

The field lemmas of the control tables, the account of how a step changes one
worker (`worker_next`), and the first invariant: `taskMutex_` is owned by the
one thread whose control point lies in a critical section (`mutex_owner`).
-/
import RedisStateManager.ThreadPool
import RedisStateManager.OwnedLock
import Mathlib.Logic.Function.Basic

namespace ThreadPool

variable {Task : Type}

/-! ## Decidability of the guards -/

instance [DecidableEq Task] (s : State Task) : ∀ woken, Decidable (s.Notifies woken)
  | some w => inferInstanceAs (Decidable (s.workers[w]? = some .blocked))
  | none => inferInstanceAs (Decidable (.blocked ∉ s.workers))

instance [DecidableEq Task] (s : State Task) (i : ℕ) : Decidable (s.exitedAt i) :=
  inferInstanceAs (Decidable (_ = _))

instance [DecidableEq Task] (w : ℕ) (s : State Task) :
    ∀ a : WorkerAct Task, Decidable (workerMove w a s).guard
  | .lock | .relock => inferInstanceAs (Decidable (s.taskMutex = none))
  | .pop e => inferInstanceAs (Decidable (s.taskQueue.head? = some e))
  | .seeEmpty => inferInstanceAs (Decidable (s.taskQueue = []))
  | .testQueue | .testRunning | .testKill | .block | .wake | .loadKill | .casKill _ _
  | .exitRunning | .exitQueue | .finish | .leave | .unlock _ | .invoke _ | .complete _ _
  | .skip => isTrue trivial

instance [DecidableEq Task] (s : State Task) :
    ∀ a : ManagerAct, Decidable (managerMove a s).guard
  | .lock => inferInstanceAs (Decidable (s.taskMutex = none))
  | .notify woken => inferInstanceAs (Decidable (s.Notifies woken))
  | .join i | .drainJoin i => inferInstanceAs (Decidable (s.exitedAt i))
  | .testRunning | .sleep | .readSize | .unlock | .testScaleUp | .spawn | .testScaleDown
  | .loadKill | .casKill _ | .pause | .reap _ | .finalNotify | .testCount
  | .drainReap _ => isTrue trivial

instance [DecidableEq Task] (p : ℕ) (s : State Task) :
    ∀ a : ProducerAct Task, Decidable (producerMove p a s).guard
  | .lock _ => inferInstanceAs (Decidable (s.taskMutex = none))
  | .push e => inferInstanceAs (Decidable (e.ticket = s.pushCount))
  | .notify woken => inferInstanceAs (Decidable (s.Notifies woken))
  | .call _ | .unlock => isTrue trivial

instance (s : State Task) : ∀ a : DestructorAct, Decidable (destructorMove a s).guard
  | .join => inferInstanceAs (Decidable (s.manager = .returned))
  | .call | .storeRunning | .notifyAll => isTrue trivial

instance [DecidableEq Task] : ∀ (a : Label Task) (s : State Task),
    Decidable ((pool Task).Enabled a s)
  | .worker w a, s => inferInstanceAs (Decidable (_ = _ ∧ (workerMove w a s).guard))
  | .manager a, s => inferInstanceAs (Decidable (_ = _ ∧ (managerMove a s).guard))
  | .producer p a, s => inferInstanceAs (Decidable (_ = _ ∧ (producerMove p a s).guard))
  | .destructor a, s => inferInstanceAs (Decidable (_ = _ ∧ (destructorMove a s).guard))
  | .setScaleUp _, s | .setScaleDown _, s => inferInstanceAs (Decidable (s.taskMutex = none))

/-! ## What each kind of thread changes -/

section Fields

variable (s : State Task)

/-- A notification touches the workers only. -/
theorem notifyOne_eq (woken : Option ℕ) :
    s.notifyOne woken = { s with workers := woken.elim s.workers (s.workers.set · .woken) } := by
  cases woken <;> rfl

/-- A worker changes the mutex, the queue, `killThread` and its control point. -/
theorem next_worker (w : ℕ) (b : WorkerAct Task) :
    next (.worker w b) s =
      { s with
        taskMutex := (workerMove w b s).effect.taskMutex
        taskQueue := (workerMove w b s).effect.taskQueue
        killThread := (workerMove w b s).effect.killThread
        workers := s.workers.set w (workerMove w b s).target } := by
  cases b with
  | casKill k spurious => simp only [next, workerMove]; split <;> rfl
  | _ => rfl

/-- The manager changes everything but the flag, the queue, the policies and
the other callers. -/
theorem next_manager (b : ManagerAct) :
    next (.manager b) s =
      { s with
        taskMutex := (managerMove b s).effect.taskMutex
        killThread := (managerMove b s).effect.killThread
        queueSize := (managerMove b s).effect.queueSize
        workerCount := (managerMove b s).effect.workerCount
        workerPool := (managerMove b s).effect.workerPool
        workers := (managerMove b s).effect.workers
        manager := (managerMove b s).target } := by
  cases b with
  | casKill spurious => simp only [next, managerMove]; split <;> rfl
  | notify woken => simp only [next, managerMove, notifyOne_eq]
  | _ => rfl

/-- A caller of `addTask` changes the mutex, the queue and the sleeping workers. -/
theorem next_producer (p : ℕ) (b : ProducerAct Task) :
    next (.producer p b) s =
      { s with
        taskMutex := (producerMove p b s).effect.taskMutex
        taskQueue := (producerMove p b s).effect.taskQueue
        pushCount := (producerMove p b s).effect.pushCount
        workers := (producerMove p b s).effect.workers
        producers := Function.update s.producers p (producerMove p b s).target } := by
  cases b with
  | notify woken => simp only [next, producerMove, notifyOne_eq]
  | _ => rfl

/-- The destructor changes the flag and the sleeping workers. -/
theorem next_destructor (b : DestructorAct) :
    next (.destructor b) s =
      { s with
        running := (destructorMove b s).effect.running
        workers := (destructorMove b s).effect.workers
        destructor := (destructorMove b s).target } := by
  cases b <;> rfl

end Fields

/-- A caller of `addTask` that does not move stays where it is. -/
theorem producers_next {a : Label Task} {s : State Task} {p : ℕ} (ha : ∀ b, a ≠ .producer p b) :
    (next a s).producers p = s.producers p := by
  cases a with
  | worker w b => rw [next_worker]
  | manager b => rw [next_manager]
  | producer q b =>
    have hne : p ≠ q := fun hp => ha b (by rw [hp])
    rw [next_producer]
    exact Function.update_of_ne hne _ _
  | destructor b => rw [next_destructor]
  | setScaleUp func => rfl
  | setScaleDown func => rfl

/-! ## What happens to one worker -/

/-- **How a step changes worker `w`**: by a row of its own control table, or by
being woken, or by being spawned, or not at all. -/
theorem worker_next {a : Label Task} {s : State Task} (h : Enabled a s) (w : ℕ) :
    (∃ b, a = .worker w b ∧ s.workers[w]? = some (workerMove w b s).source ∧
      (workerMove w b s).guard ∧ (next a s).workers[w]? = some (workerMove w b s).target) ∨
    ((∀ b, a ≠ .worker w b) ∧
      ((next a s).workers[w]? = s.workers[w]? ∨
        (s.workers[w]? = some .blocked ∧ (next a s).workers[w]? = some .woken) ∨
        (a = .manager .spawn ∧ w = s.workers.length ∧
          (next a s).workers[w]? = some .start))) := by
  -- a notification wakes `w` or leaves it alone
  have hnotify : ∀ woken, s.Notifies woken →
      (s.notifyOne woken).workers[w]? = s.workers[w]? ∨
        (s.workers[w]? = some .blocked ∧ (s.notifyOne woken).workers[w]? = some .woken) := by
    intro woken hw
    cases woken with
    | none => exact Or.inl rfl
    | some v =>
      rw [notifyOne_eq, Option.elim_some]
      rcases eq_or_ne v w with rfl | hne
      · exact Or.inr ⟨hw, List.getElem?_set_self (List.getElem?_eq_some_iff.mp hw).1⟩
      · exact Or.inl (List.getElem?_set_ne hne)
  have hall : (s.notifyAll).workers[w]? = s.workers[w]? ∨
      (s.workers[w]? = some .blocked ∧ (s.notifyAll).workers[w]? = some .woken) := by
    simp only [State.notifyAll, List.getElem?_map]
    rcases s.workers[w]? with _ | pc
    · exact Or.inl rfl
    · cases pc <;> simp [State.wakeUp]
  cases a with
  | worker v b =>
    rcases eq_or_ne v w with rfl | hne
    · refine Or.inl ⟨b, rfl, h.1, h.2, ?_⟩
      rw [next_worker]
      exact List.getElem?_set_self (List.getElem?_eq_some_iff.mp h.1).1
    · refine Or.inr ⟨fun b' hb => hne (by injection hb), Or.inl ?_⟩
      rw [next_worker]
      exact List.getElem?_set_ne hne
  | manager b =>
    refine Or.inr ⟨by simp, ?_⟩
    cases b with
    | notify woken => exact (hnotify woken h.2).imp_right Or.inl
    | finalNotify => exact hall.imp_right Or.inl
    | spawn =>
      have hspawn : (next (.manager .spawn) s).workers = s.workers ++ [.start] := rfl
      rw [hspawn]
      rcases lt_trichotomy w s.workers.length with hlt | rfl | hgt
      · exact Or.inl (List.getElem?_append_left hlt)
      · exact Or.inr (Or.inr ⟨rfl, rfl, List.getElem?_concat_length⟩)
      · refine Or.inl ?_
        rw [List.getElem?_eq_none (by simp; omega), List.getElem?_eq_none (by omega)]
    | casKill spurious => simp only [next, managerMove]; split <;> exact Or.inl rfl
    | _ => exact Or.inl rfl
  | producer p b =>
    refine Or.inr ⟨by simp, ?_⟩
    cases b with
    | notify woken => exact (hnotify woken h.2).imp_right Or.inl
    | _ => exact Or.inl rfl
  | destructor b =>
    refine Or.inr ⟨by simp, ?_⟩
    cases b with
    | notifyAll => exact hall.imp_right Or.inl
    | _ => exact Or.inl rfl
  | setScaleUp func => exact Or.inr ⟨by simp, Or.inl rfl⟩
  | setScaleDown func => exact Or.inr ⟨by simp, Or.inl rfl⟩

/-! ## The owner of `taskMutex_` -/

/-- The thread is inside a critical section of `taskMutex_`. -/
def State.Holds (s : State Task) : Thread → Prop
  | .worker w => (s.workers[w]?).any WorkerPc.holdsMutex = true
  | .producer p => (s.producers p).holdsMutex = true
  | .manager => s.manager.holdsMutex = true

theorem workerMove_lockStep (w : ℕ) (a : WorkerAct Task) (s : State Task)
    (hg : (workerMove w a s).guard) :
    LockStep (Thread.worker w) ((workerMove w a s).source.holdsMutex = true)
      ((workerMove w a s).target.holdsMutex = true) s.taskMutex
      (workerMove w a s).effect.taskMutex := by
  cases a with
  | lock | relock =>
    have hfree : s.taskMutex = none := hg
    rw [hfree]
    exact .acquire rfl
  | block | leave | unlock | skip => exact .release _ rfl Bool.false_ne_true
  | testQueue | testRunning | testKill | loadKill | exitRunning | exitQueue =>
    refine .keep _ ?_
    simp only [workerMove]
    split <;> exact Iff.rfl
  | casKill k spurious =>
    simp only [workerMove]
    split <;> exact .keep _ Iff.rfl
  | _ => exact .keep _ Iff.rfl

theorem managerMove_lockStep (a : ManagerAct) (s : State Task) (hg : (managerMove a s).guard) :
    LockStep Thread.manager ((managerMove a s).source.holdsMutex = true)
      ((managerMove a s).target.holdsMutex = true) s.taskMutex
      (managerMove a s).effect.taskMutex := by
  cases a with
  | lock =>
    have hfree : s.taskMutex = none := hg
    rw [hfree]
    exact .acquire rfl
  | unlock => exact .release _ rfl Bool.false_ne_true
  | testRunning | testScaleUp | testScaleDown | loadKill | testCount =>
    refine .keep _ ?_
    simp only [managerMove]
    split <;> exact Iff.rfl
  | reap i | drainReap i =>
    refine .keep _ ?_
    simp only [managerMove]
    split_ifs <;> exact Iff.rfl
  | casKill spurious =>
    simp only [managerMove]
    split <;> exact .keep _ Iff.rfl
  | notify woken =>
    simp only [managerMove, notifyOne_eq]
    exact .keep _ Iff.rfl
  | _ => exact .keep _ Iff.rfl

theorem producerMove_lockStep (p : ℕ) (a : ProducerAct Task) (s : State Task)
    (hg : (producerMove p a s).guard) :
    LockStep (Thread.producer p) ((producerMove p a s).source.holdsMutex = true)
      ((producerMove p a s).target.holdsMutex = true) s.taskMutex
      (producerMove p a s).effect.taskMutex := by
  cases a with
  | lock t =>
    have hfree : s.taskMutex = none := hg
    rw [hfree]
    exact .acquire rfl
  | unlock => exact .release _ rfl Bool.false_ne_true
  | notify woken =>
    simp only [producerMove, notifyOne_eq]
    exact .keep _ Iff.rfl
  | _ => exact .keep _ Iff.rfl

/-- A worker that does not move itself is inside its critical section after the
step iff it was before: only blocked workers are woken. -/
theorem holds_worker_next {a : Label Task} {s : State Task} (h : Enabled a s) {w : ℕ}
    (ha : ∀ b, a ≠ .worker w b) : (next a s).Holds (.worker w) ↔ s.Holds (.worker w) := by
  simp only [State.Holds]
  rcases worker_next h w with ⟨b, hb, -⟩ | ⟨-, hw | ⟨hb, hw⟩ | ⟨-, hlen, hw⟩⟩
  · exact absurd hb (ha b)
  · rw [hw]
  · rw [hw, hb]
    exact Iff.rfl
  · rw [hw, List.getElem?_eq_none hlen.ge]
    exact Iff.rfl

theorem mutex_next {a : Label Task} {s : State Task} (h : Enabled a s)
    (hs : Owned s.Holds s.taskMutex) : Owned (next a s).Holds (next a s).taskMutex := by
  have hworker : ∀ w, (∀ b, a ≠ .worker w b) →
      ((next a s).Holds (.worker w) ↔ s.Holds (.worker w)) := fun _ => holds_worker_next h
  cases a with
  | worker w b =>
    have htgt : (next (.worker w b) s).workers[w]? = some (workerMove w b s).target := by
      rcases worker_next h w with ⟨b', hb, -, -, hw⟩ | ⟨hb, -⟩
      · cases hb; exact hw
      · exact absurd rfl (hb b)
    have hm : (next (.worker w b) s).taskMutex = (workerMove w b s).effect.taskMutex := rfl
    refine hs.step (t := Thread.worker w) ?_ fun u hu => ?_
    · simpa [State.Holds, h.1, htgt, hm] using workerMove_lockStep w b s h.2
    · cases u with
      | worker v => exact hworker v fun b' hb => hu (by injection hb with hv; rw [hv])
      | producer p => rw [next_worker]; exact Iff.rfl
      | manager => rw [next_worker]; exact Iff.rfl
  | manager b =>
    refine hs.step (t := Thread.manager) ?_ fun u hu => ?_
    · have hstep := managerMove_lockStep b s h.2
      rw [← h.1] at hstep
      exact hstep
    · cases u with
      | worker v => exact hworker v fun _ => nofun
      | producer p => rw [next_manager]; exact Iff.rfl
      | manager => exact absurd rfl hu
  | producer p b =>
    refine hs.step (t := Thread.producer p) ?_ fun u hu => ?_
    · have hstep := producerMove_lockStep p b s h.2
      rw [← h.1] at hstep
      simpa [State.Holds, next] using hstep
    · cases u with
      | worker v => exact hworker v fun _ => nofun
      | producer q =>
        have hne : q ≠ p := fun hq => hu (by rw [hq])
        simp [State.Holds, next, hne]
      | manager => rw [next_producer]; exact Iff.rfl
  | destructor b =>
    refine hs.congr (by cases b <;> rfl) fun u => ?_
    cases u with
    | worker v => exact hworker v fun _ => nofun
    | _ => cases b <;> exact Iff.rfl
  | setScaleUp func => exact hs.congr rfl fun u => by cases u <;> exact Iff.rfl
  | setScaleDown func => exact hs.congr rfl fun u => by cases u <;> exact Iff.rfl

/-- **In every run, `taskMutex_` is owned by the thread inside its critical
section.** -/
theorem mutex_owner {up down : UInt32 → UInt32 → Bool} {tr : List (Label Task)} {s : State Task}
    (h : (pool Task).Run (initial up down) tr s) : Owned s.Holds s.taskMutex := by
  refine h.invariant (I := fun s => Owned s.Holds s.taskMutex) (fun t => ?_)
    fun a s hs ha => mutex_next ha hs
  cases t <;> simp [State.Holds, initial, ProducerPc.holdsMutex, ManagerPc.holdsMutex]

end ThreadPool
