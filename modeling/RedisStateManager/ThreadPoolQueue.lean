/-
# The task queue: exactly once, first in first out

What is pushed, popped, invoked and completed is read off the labels of a run.
The queue relates pushes and pops (`pushed_eq`), and each worker is a slot that
holds what it popped until it invokes it, and what it invoked until the task
ends (`ofWorker_slot`).
-/
import RedisStateManager.ThreadPoolStep
import Mathlib.Data.List.Nodup

namespace ThreadPool

variable {Task : Type}

/-! ## The history of a run -/

def Label.push? : Label Task → Option (Entry Task)
  | .producer _ (.push e) => some e
  | _ => none

def WorkerAct.pop? : WorkerAct Task → Option (Entry Task)
  | .pop e => some e
  | _ => none

def WorkerAct.invoke? : WorkerAct Task → Option (Entry Task)
  | .invoke e => some e
  | _ => none

def WorkerAct.complete? : WorkerAct Task → Option (Entry Task)
  | .complete e _ => some e
  | _ => none

/-- The worker and the queue element of a label, where `f` picks the step. -/
def Label.at (f : WorkerAct Task → Option (Entry Task)) : Label Task → Option (ℕ × Entry Task)
  | .worker w b => (f b).map (w, ·)
  | _ => none

/-- The pairs pushed, in push order. -/
def pushed (tr : List (Label Task)) : List (Entry Task) := tr.filterMap Label.push?

/-- The steps `f` picks, with the worker of each, in order. -/
def steps (f : WorkerAct Task → Option (Entry Task)) (tr : List (Label Task)) :
    List (ℕ × Entry Task) :=
  tr.filterMap (Label.at f)

/-- The pairs popped, each with the worker that popped it, in pop order. -/
def popped (tr : List (Label Task)) : List (ℕ × Entry Task) := steps WorkerAct.pop? tr

/-- The invocations of tasks. -/
def invoked (tr : List (Label Task)) : List (ℕ × Entry Task) := steps WorkerAct.invoke? tr

/-- The invocations that have ended, by a return or by a `std::exception`. -/
def completed (tr : List (Label Task)) : List (ℕ × Entry Task) := steps WorkerAct.complete? tr

/-- The part of a history that belongs to worker `w`. -/
def ofWorker (w : ℕ) (l : List (ℕ × Entry Task)) : List (Entry Task) :=
  (l.filter (·.1 = w)).map (·.2)

/-- What the worker has popped and not yet invoked. -/
def WorkerPc.pending : WorkerPc Task → Option (Entry Task)
  | .popped e | .holding e => some e
  | _ => none

/-- What the worker is executing. -/
def WorkerPc.current : WorkerPc Task → Option (Entry Task)
  | .running e => some e
  | _ => none

def State.pending (s : State Task) (w : ℕ) : Option (Entry Task) :=
  (s.workers[w]?).bind WorkerPc.pending

def State.current (s : State Task) (w : ℕ) : Option (Entry Task) :=
  (s.workers[w]?).bind WorkerPc.current

@[simp] theorem pushed_snoc (tr : List (Label Task)) (a : Label Task) :
    pushed (tr ++ [a]) = pushed tr ++ a.push?.toList := by
  cases h : a.push? <;> simp [pushed, h]

@[simp] theorem steps_snoc (f : WorkerAct Task → Option (Entry Task)) (tr : List (Label Task))
    (a : Label Task) : steps f (tr ++ [a]) = steps f tr ++ (a.at f).toList := by
  cases h : a.at f <;> simp [steps, h]

@[simp] theorem popped_snoc (tr : List (Label Task)) (a : Label Task) :
    popped (tr ++ [a]) = popped tr ++ (a.at WorkerAct.pop?).toList :=
  steps_snoc _ _ _

@[simp] theorem ofWorker_append (w : ℕ) (l l' : List (ℕ × Entry Task)) :
    ofWorker w (l ++ l') = ofWorker w l ++ ofWorker w l' := by
  simp [ofWorker]

/-- A step of worker `w` in the history of worker `w`. -/
theorem ofWorker_at_self (f : WorkerAct Task → Option (Entry Task)) (w : ℕ) (b : WorkerAct Task) :
    ofWorker w ((Label.worker w b).at f).toList = (f b).toList := by
  cases h : f b <;> simp [ofWorker, Label.at, h]

/-- Another step leaves the history of worker `w` alone. -/
theorem ofWorker_at_ne (f : WorkerAct Task → Option (Entry Task)) {w : ℕ} {a : Label Task}
    (ha : ∀ b, a ≠ .worker w b) : ofWorker w (a.at f).toList = [] := by
  cases a with
  | worker v b =>
    have hv : v ≠ w := fun hv => ha b (by rw [hv])
    cases h : f b <;> simp [ofWorker, Label.at, h, hv]
  | _ => rfl

/-! ## The queue -/

/-- A step pushes at the back or pops at the front. -/
theorem taskQueue_next {a : Label Task} {s : State Task} (h : Enabled a s) :
    s.taskQueue ++ a.push?.toList =
      (a.at WorkerAct.pop?).toList.map (·.2) ++ (next a s).taskQueue := by
  cases a with
  | worker w b =>
    cases b with
    | pop e =>
      have hhead : s.taskQueue.head? = some e := h.2
      have htail : (next (.worker w (.pop e)) s).taskQueue = s.taskQueue.tail := rfl
      rw [htail]
      -- the queue is not empty, and its front is what is popped
      cases hq : s.taskQueue with
      | nil => simp [hq] at hhead
      | cons e' q => simpa [hq, Label.push?, Label.at, WorkerAct.pop?] using hhead
    | casKill k spurious =>
      rw [next_worker]
      simp only [workerMove]
      split <;> simp [Label.push?, Label.at, WorkerAct.pop?]
    | _ => simp [next_worker, workerMove, Label.push?, Label.at, WorkerAct.pop?]
  | manager b => simp [next_manager, Label.push?, Label.at]
  | producer p b =>
    cases b with
    | notify woken => simp [next_producer, producerMove, notifyOne_eq, Label.push?, Label.at]
    | _ => simp [next_producer, producerMove, Label.push?, Label.at]
  | destructor b => simp [next_destructor, Label.push?, Label.at]
  | setScaleUp func => simp [next, Label.push?, Label.at]
  | setScaleDown func => simp [next, Label.push?, Label.at]

/-- A worker that executes a task has just invoked it, or did so before. -/
theorem executing_next {a : Label Task} {s : State Task} (h : Enabled a s) {w : ℕ} {e : Entry Task}
    (hw : (next a s).workers[w]? = some (.running e)) :
    (a = .worker w (.invoke e) ∧ s.workers[w]? = some (.holding e)) ∨
      ((∀ b, a ≠ .worker w b) ∧ s.workers[w]? = some (.running e)) := by
  rcases worker_next h w with ⟨b, rfl, hsrc, -, htgt⟩ | ⟨hne, hk | ⟨-, hk⟩ | ⟨-, -, hk⟩⟩
  · have heq : (workerMove w b s).target = .running e := Option.some.inj (htgt.symm.trans hw)
    cases b with
    | invoke e' =>
      cases heq
      exact Or.inl ⟨rfl, hsrc⟩
    | testQueue | testRunning | testKill | loadKill | exitRunning | exitQueue | casKill =>
      simp only [workerMove] at heq
      split at heq <;> cases heq
    | _ => cases heq
  · exact Or.inr ⟨hne, hk ▸ hw⟩
  · exact absurd (hk.symm.trans hw) (by simp)
  · exact absurd (hk.symm.trans hw) (by simp)

/-- A worker that has something in hand has just popped it, or did so before. -/
theorem pending_next {a : Label Task} {s : State Task} (h : Enabled a s) {w : ℕ} {e : Entry Task}
    (hw : (next a s).pending w = some e) :
    (a = .worker w (.pop e) ∧ s.taskQueue.head? = some e) ∨ s.pending w = some e := by
  rcases worker_next h w with ⟨b, rfl, hsrc, hguard, htgt⟩ | ⟨-, hk | ⟨-, hk⟩ | ⟨-, -, hk⟩⟩
  · rw [State.pending, htgt, Option.bind_some] at hw
    rw [State.pending, hsrc, Option.bind_some]
    cases b with
    | pop e' =>
      cases hw
      exact Or.inl ⟨rfl, hguard⟩
    | unlock e' => exact Or.inr hw
    | testQueue | testRunning | testKill | loadKill | exitRunning | exitQueue | casKill =>
      simp only [workerMove] at hw
      split at hw <;> cases hw
    | _ => cases hw
  · rw [State.pending, hk] at hw
    exact Or.inr hw
  · rw [State.pending, hk] at hw
    cases hw
  · rw [State.pending, hk] at hw
    cases hw

section Runs

variable {up down : UInt32 → UInt32 → Bool} {tr : List (Label Task)} {s : State Task}

/-- **First in, first out**: what was pushed is what was popped, in this order,
followed by the queue. -/
theorem pushed_eq (h : (pool Task).Run (initial up down) tr s) :
    pushed tr = (popped tr).map (·.2) ++ s.taskQueue := by
  refine h.induct (P := fun tr s => pushed tr = (popped tr).map (·.2) ++ s.taskQueue) rfl ?_
  intro tr s a _ ih ha
  rw [pushed_snoc, ih, popped_snoc, List.map_append, List.append_assoc, List.append_assoc,
    taskQueue_next ha]
  rfl

/-- **A worker is a slot**: if `enter` fills the slot of a control point and
`leave` empties it, then what a worker entered is what it left, in this order,
followed by what the slot holds. -/
theorem ofWorker_slot {slot : WorkerPc Task → Option (Entry Task)}
    {enter leave : WorkerAct Task → Option (Entry Task)}
    (hmove : ∀ w b (s : State Task), (slot (workerMove w b s).source).toList ++ (enter b).toList =
      (leave b).toList ++ (slot (workerMove w b s).target).toList)
    (hstart : slot .start = none) (hblocked : slot .blocked = none) (hwoken : slot .woken = none)
    (h : (pool Task).Run (initial up down) tr s) (w : ℕ) :
    ofWorker w (steps enter tr) =
      ofWorker w (steps leave tr) ++ ((s.workers[w]?).bind slot).toList := by
  refine h.induct (P := fun tr s => ofWorker w (steps enter tr) =
      ofWorker w (steps leave tr) ++ ((s.workers[w]?).bind slot).toList) rfl ?_
  intro tr s a _ ih ha
  rw [steps_snoc, steps_snoc, ofWorker_append, ofWorker_append, ih]
  -- a step of `w` moves its slot; any other step leaves slot and history alone
  rcases worker_next ha w with ⟨b, rfl, hsrc, -, htgt⟩ | ⟨hne, hw⟩
  · have htgt' : ((pool Task).next (.worker w b) s).workers[w]? = _ := htgt
    rw [ofWorker_at_self, ofWorker_at_self, hsrc, htgt', Option.bind_some, Option.bind_some,
      List.append_assoc, List.append_assoc, hmove]
  · rw [ofWorker_at_ne enter hne, ofWorker_at_ne leave hne, List.append_nil, List.append_nil]
    have hslot : (((pool Task).next a s).workers[w]?).bind slot = (s.workers[w]?).bind slot := by
      show ((next a s).workers[w]?).bind slot = _
      rcases hw with hw | ⟨hb, hw⟩ | ⟨-, hlen, hw⟩
      · rw [hw]
      · rw [hw, hb, Option.bind_some, Option.bind_some, hwoken, hblocked]
      · rw [hw, List.getElem?_eq_none hlen.ge, Option.bind_some, hstart]
        rfl
    rw [hslot]

/-- What a worker popped is what it invoked, and at most one more. -/
theorem ofWorker_popped (h : (pool Task).Run (initial up down) tr s) (w : ℕ) :
    ofWorker w (popped tr) = ofWorker w (invoked tr) ++ (s.pending w).toList := by
  refine ofWorker_slot (fun w b s => ?_) rfl rfl rfl h w
  cases b <;> simp only [workerMove] <;> (try split) <;> rfl

/-- What a worker invoked has ended, except for what it is executing. -/
theorem ofWorker_invoked (h : (pool Task).Run (initial up down) tr s) (w : ℕ) :
    ofWorker w (invoked tr) = ofWorker w (completed tr) ++ (s.current w).toList := by
  refine ofWorker_slot (fun w b s => ?_) rfl rfl rfl h w
  cases b <;> simp only [workerMove] <;> (try split) <;> rfl

/-- What a worker popped has ended, except for what it has in hand. -/
theorem ofWorker_popped_completed (h : (pool Task).Run (initial up down) tr s) (w : ℕ) :
    ofWorker w (popped tr) =
      ofWorker w (completed tr) ++ ((s.current w).toList ++ (s.pending w).toList) := by
  rw [ofWorker_popped h, ofWorker_invoked h, List.append_assoc]

/-- Tickets number the pushes. -/
theorem pushed_ticket (h : (pool Task).Run (initial up down) tr s) :
    (pushed tr).map Entry.ticket = List.range s.pushCount := by
  refine h.induct (P := fun tr s => (pushed tr).map Entry.ticket = List.range s.pushCount) rfl ?_
  intro tr s a _ ih ha
  rw [pushed_snoc, List.map_append, ih]
  show _ = List.range (next a s).pushCount
  cases a with
  | worker w b => simp [next_worker, Label.push?]
  | manager b => simp [next_manager, Label.push?]
  | producer p b =>
    cases b with
    | push e =>
      have hticket : e.ticket = s.pushCount := ha.2
      simp [next_producer, producerMove, Label.push?, hticket, List.range_succ]
    | notify woken => simp [next_producer, producerMove, notifyOne_eq, Label.push?]
    | _ => simp [next_producer, producerMove, Label.push?]
  | destructor b => simp [next_destructor, Label.push?]
  | setScaleUp func => simp [next, Label.push?]
  | setScaleDown func => simp [next, Label.push?]

/-- No element is popped twice. -/
theorem popped_ticket_nodup (h : (pool Task).Run (initial up down) tr s) :
    ((popped tr).map (·.2.ticket)).Nodup := by
  have hall : ((pushed tr).map Entry.ticket).Nodup := by
    rw [pushed_ticket h]
    exact List.nodup_range
  rw [pushed_eq h, List.map_append, List.map_map] at hall
  exact hall.of_append_left

/-- What was popped was popped by one worker. -/
theorem existsUnique_popped (h : (pool Task).Run (initial up down) tr s) {e : Entry Task}
    (he : e ∈ (popped tr).map (·.2)) : ∃! w, (w, e) ∈ popped tr := by
  obtain ⟨⟨w, e'⟩, hw, rfl⟩ := List.mem_map.mp he
  refine ⟨w, hw, fun v hv => ?_⟩
  have heq := List.inj_on_of_nodup_map (popped_ticket_nodup h) hv hw rfl
  exact congrArg Prod.fst heq

theorem mem_ofWorker {w : ℕ} {e : Entry Task} {l : List (ℕ × Entry Task)} :
    e ∈ ofWorker w l ↔ (w, e) ∈ l := by
  simp [ofWorker]

/-- What a worker has in hand it has popped. -/
theorem mem_popped_of_pending (h : (pool Task).Run (initial up down) tr s) {w : ℕ}
    {e : Entry Task} (he : s.pending w = some e) : (w, e) ∈ popped tr := by
  rw [← mem_ofWorker, ofWorker_popped h, he]
  exact List.mem_append_right _ (List.mem_singleton_self e)

theorem mem_invoked_of_current (h : (pool Task).Run (initial up down) tr s) {w : ℕ}
    {e : Entry Task} (he : s.current w = some e) : (w, e) ∈ invoked tr := by
  rw [← mem_ofWorker, ofWorker_invoked h, he]
  exact List.mem_append_right _ (List.mem_singleton_self e)

theorem mem_popped_of_invoked (h : (pool Task).Run (initial up down) tr s) {w : ℕ}
    {e : Entry Task} (he : (w, e) ∈ invoked tr) : (w, e) ∈ popped tr := by
  rw [← mem_ofWorker, ofWorker_popped h]
  exact List.mem_append_left _ (mem_ofWorker.mpr he)

/-- An element is named by its ticket. -/
theorem popped_unique (h : (pool Task).Run (initial up down) tr s) {v w : ℕ} {e e' : Entry Task}
    (he : (v, e) ∈ popped tr) (he' : (w, e') ∈ popped tr) (hticket : e.ticket = e'.ticket) :
    v = w ∧ e = e' :=
  Prod.mk.inj (List.inj_on_of_nodup_map (popped_ticket_nodup h) he he' hticket)

/-- **What a worker has in hand** is not what some worker has left behind. -/
theorem ticket_ne_of_slot (h : (pool Task).Run (initial up down) tr s)
    {left : List (ℕ × Entry Task)} {rest : ℕ → List (Entry Task)}
    (hsplit : ∀ w, ofWorker w (popped tr) = ofWorker w left ++ rest w) {v w : ℕ}
    {e e' : Entry Task} (he : e ∈ rest w) (he' : (v, e') ∈ left) : e'.ticket ≠ e.ticket := by
  intro hticket
  have hpopped : ∀ {u : ℕ} {x : Entry Task}, x ∈ ofWorker u left ++ rest u →
      (u, x) ∈ popped tr := by
    intro u x hx
    rwa [← hsplit, mem_ofWorker] at hx
  obtain ⟨rfl, rfl⟩ := popped_unique h (hpopped (List.mem_append_left _ (mem_ofWorker.mpr he')))
    (hpopped (List.mem_append_right _ he)) hticket
  -- the worker would have popped the element twice
  have hnodup : (ofWorker v (popped tr)).Nodup := by
    refine List.Nodup.map_on ?_ ((popped_ticket_nodup h).of_map.filter _)
    intro x hx y hy heq
    refine Prod.ext ?_ heq
    rw [of_decide_eq_true (List.mem_filter.mp hx).2, of_decide_eq_true (List.mem_filter.mp hy).2]
  rw [hsplit] at hnodup
  exact (List.nodup_append.mp hnodup).2.2 _ (mem_ofWorker.mpr he') _ he rfl

/-- What a worker is about to invoke has not been invoked. -/
theorem invoked_ticket_ne (h : (pool Task).Run (initial up down) tr s) {v w : ℕ}
    {e e' : Entry Task} (he : s.pending w = some e) (he' : (v, e') ∈ invoked tr) :
    e'.ticket ≠ e.ticket :=
  ticket_ne_of_slot h (ofWorker_popped h) (Option.mem_toList.mpr he) he'

/-- What a worker is executing has not ended. -/
theorem completed_ticket_ne (h : (pool Task).Run (initial up down) tr s) {v w : ℕ}
    {e e' : Entry Task} (he : s.current w = some e) (he' : (v, e') ∈ completed tr) :
    e'.ticket ≠ e.ticket := by
  exact ticket_ne_of_slot h (ofWorker_popped_completed h)
    (List.mem_append_left _ (Option.mem_toList.mpr he)) he'

/-- A task that ends, by a return or by a `std::exception`, puts its worker
back at the top of its loop and changes nothing else. -/
theorem next_complete (s : State Task) (w : ℕ) (e : Entry Task) (threw : Bool) :
    next (.worker w (.complete e threw)) s = { s with workers := s.workers.set w .start } :=
  rfl

/-- **Exactly once, first in first out.**  In every run, whatever the scaling
policies: the pushes are the pops, in order, followed by the queue; what was
popped was popped by one worker; a worker has invoked what it popped, in order,
except possibly the last, and all of it when it pops again or has finished; and
a task that throws a `std::exception` only sends its worker back to its loop. -/
theorem fifo_exactly_once (h : (pool Task).Run (initial up down) tr s) :
    pushed tr = (popped tr).map (·.2) ++ s.taskQueue ∧
    ((popped tr).map (·.2.ticket)).Nodup ∧
    (∀ e ∈ (popped tr).map (·.2), ∃! w, (w, e) ∈ popped tr) ∧
    (∀ w, ofWorker w (popped tr) = ofWorker w (invoked tr) ++ (s.pending w).toList) ∧
    (∀ w pc, s.workers[w]? = some pc → pc = .testEmpty ∨ pc.finished = true →
      ofWorker w (popped tr) = ofWorker w (invoked tr)) ∧
    (∀ w e, Enabled (.worker w (.complete e true)) s →
      next (.worker w (.complete e true)) s = { s with workers := s.workers.set w .start }) := by
  refine ⟨pushed_eq h, popped_ticket_nodup h, fun e he => existsUnique_popped h he,
    ofWorker_popped h, fun w pc hpc hend => ?_, fun w e _ => next_complete s w e true⟩
  -- at these control points the worker has nothing in hand
  have hnone : s.pending w = none := by
    rw [State.pending, hpc, Option.bind_some]
    rcases hend with rfl | hfin
    · rfl
    · cases pc <;> first | rfl | exact absurd hfin Bool.false_ne_true
  rw [ofWorker_popped h w, hnone]
  simp

end Runs

/-! ## Runs spelt out -/

/-- A call of `addTask` that nobody interrupts, with no worker asleep. -/
def addTaskRun (p : ℕ) (e : Entry Task) : List (Label Task) :=
  [.producer p (.call e.work), .producer p (.lock e.work), .producer p (.push e),
    .producer p .unlock, .producer p (.notify none)]

/-- The manager samples the queue and evaluates `scaleUp`. -/
def sampleRun : List (Label Task) :=
  [.manager .testRunning, .manager .sleep, .manager .lock, .manager .readSize, .manager .unlock,
    .manager .testScaleUp]

/-- Worker `w` takes the element at the front of the queue and enters its task. -/
def takeRun (w : ℕ) (e : Entry Task) : List (Label Task) :=
  [.worker w .lock, .worker w .testQueue, .worker w .loadKill, .worker w .exitRunning,
    .worker w (.pop e), .worker w (.unlock e), .worker w (.invoke e)]

/-- Job number `n`. -/
def job (n : ℕ) : Entry ℕ := ⟨n, n, [106, 111, 98]⟩

/-- Policies that keep two workers. -/
def upToTwo (_ workerCount : UInt32) : Bool := workerCount < 2

def neverDown (_ _ : UInt32) : Bool := false

/-- Two producers push four jobs.  Worker 0 is busy with the first, worker 1 has executed the
second, which has thrown, and has popped the third. -/
def sharedRun : List (Label ℕ) :=
  addTaskRun 0 (job 0) ++ addTaskRun 1 (job 1) ++ addTaskRun 1 (job 2) ++ addTaskRun 0 (job 3) ++
    sampleRun ++ [.manager .spawn] ++ sampleRun ++ [.manager .spawn] ++
    takeRun 0 (job 0) ++ takeRun 1 (job 1) ++ [.worker 1 (.complete (job 1) true)] ++
    (takeRun 1 (job 2)).dropLast

theorem fifo_exactly_once_sharedRun :
    pushed sharedRun = (popped sharedRun).map (·.2) ++
        ((pool ℕ).after sharedRun (initial upToTwo neverDown)).taskQueue ∧
      ((popped sharedRun).map (·.2.ticket)).Nodup ∧
      (∃! w, (w, job 2) ∈ popped sharedRun) ∧
      ofWorker 1 (popped sharedRun) = ofWorker 1 (invoked sharedRun) ++ [job 2] ∧
      popped sharedRun = [(0, job 0), (1, job 1), (1, job 2)] := by
  have hlegal : (pool ℕ).Legal sharedRun (initial upToTwo neverDown) := by decide
  obtain ⟨hpushed, hnodup, hunique, hworker, -, -⟩ :=
    fifo_exactly_once (TransitionSystem.run_of_legal hlegal)
  exact ⟨hpushed, hnodup, hunique (job 2) (by decide), hworker 1, by decide⟩

end ThreadPool
