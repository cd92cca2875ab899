/-
# Guaranteed execution at shutdown

Once the manager has left its scaling loop it spawns no worker, so the tasks
still queued are executed only if some worker is left that serves the queue: it
has not taken a kill signal, and it will not leave before it has seen the queue
empty.  `KeepsServer` is the condition on the two steps that can take the last
such worker away, and `guaranteed_iff` shows that it is exact.
-/
import RedisStateManager.ThreadPoolQueue
import RedisStateManager.ThreadPoolManager

namespace ThreadPool

variable {Task : Type}

/-! ## Tasks that are due -/

/-- Task `n` was added by a call of `addTask` that returned before `shutdown` began. -/
def Due (tr : List (Label Task)) (n : ℕ) : Prop :=
  ∃ p e woken, List.Sublist
      [.producer p (.push e), .producer p (.notify woken), .destructor .call] tr ∧ e.ticket = n

def State.tickets (s : State Task) : List ℕ := s.taskQueue.map Entry.ticket

/-- A task that is due is still in the queue. -/
def DueQueued (tr : List (Label Task)) (s : State Task) : Prop :=
  ∃ n, Due tr n ∧ n ∈ s.tickets

theorem Due.append {tr : List (Label Task)} {n : ℕ} (h : Due tr n) (tr' : List (Label Task)) :
    Due (tr ++ tr') n := by
  obtain ⟨p, e, woken, hsub, he⟩ := h
  exact ⟨p, e, woken, hsub.trans (List.sublist_append_left tr tr'), he⟩

/-- What is due was decided when `shutdown` began. -/
theorem Due.of_snoc {tr : List (Label Task)} {a : Label Task} {n : ℕ} (h : Due (tr ++ [a]) n)
    (ha : a ≠ .destructor .call) : Due tr n := by
  obtain ⟨p, e, woken, hsub, he⟩ := h
  refine ⟨p, e, woken, ?_, he⟩
  obtain ⟨l₁, l₂, hl, h₁, h₂⟩ := List.sublist_append_iff.mp hsub
  rcases List.sublist_singleton.mp h₂ with rfl | rfl
  · rw [List.append_nil] at hl
    rwa [hl]
  · -- the last label of the sublist would be `a`
    have hlast := congrArg List.getLast? hl
    simp at hlast
    exact absurd hlast.symm ha

section Runs

variable {up down : UInt32 → UInt32 → Bool} {tr : List (Label Task)} {s : State Task}

/-- What is due was pushed. -/
theorem Due.mem_pushed {n : ℕ} (h : Due tr n) : n ∈ (pushed tr).map Entry.ticket := by
  obtain ⟨p, e, woken, hsub, rfl⟩ := h
  have hmem : Label.producer p (.push e) ∈ tr := hsub.subset (by simp)
  exact List.mem_map_of_mem (List.mem_filterMap.mpr ⟨_, hmem, rfl⟩)

theorem Due.lt_pushCount (hr : (pool Task).Run (initial up down) tr s) {n : ℕ} (h : Due tr n) :
    n < s.pushCount := by
  have hmem := h.mem_pushed
  rw [pushed_ticket hr] at hmem
  exact List.mem_range.mp hmem

end Runs

/-! ## Workers that serve the queue -/

/-- The worker has neither taken a kill signal nor decided to leave. -/
def WorkerPc.serving : WorkerPc Task → Bool
  | .finishing | .leaving | .exited => false
  | _ => true

def State.Serving (s : State Task) (w : ℕ) : Prop :=
  (s.workers[w]?).any WorkerPc.serving = true

/-- **How a worker stops serving**: it takes a kill signal, or it finds the
queue empty after `running_` was cleared. -/
theorem serving_next {a : Label Task} {s : State Task} (h : Enabled a s) {w : ℕ}
    (hw : s.Serving w) : (next a s).Serving w ∨
      (∃ k, a = .worker w (.casKill k false) ∧ s.killThread = k) ∨
      (a = .worker w .exitQueue ∧ s.taskQueue = []) := by
  rcases worker_next h w with ⟨b, rfl, hsrc, -, htgt⟩ | ⟨-, hk | ⟨-, hk⟩ | ⟨-, -, hk⟩⟩
  · simp only [State.Serving, hsrc, htgt, Option.any_some] at hw ⊢
    -- the two steps that may end the service; every other one goes on serving
    cases b with
    | casKill k spurious =>
      by_cases hc : spurious = false ∧ s.killThread = k
      · exact Or.inr (Or.inl ⟨k, by rw [hc.1], hc.2⟩)
      · simp [workerMove, hc, WorkerPc.serving]
    | exitQueue =>
      by_cases hq : s.taskQueue = []
      · exact Or.inr (Or.inr ⟨rfl, hq⟩)
      · simp [workerMove, hq, WorkerPc.serving]
    | testQueue | testRunning | testKill | loadKill | exitRunning =>
      left
      simp only [workerMove]
      split <;> rfl
    | finish | leave => exact absurd hw Bool.false_ne_true
    | _ => exact Or.inl rfl
  · exact Or.inl (by rw [State.Serving, hk]; exact hw)
  · exact Or.inl (by rw [State.Serving, hk]; rfl)
  · exact Or.inl (by rw [State.Serving, hk]; rfl)

/-- A worker does not start to serve again, and past its loop the manager adds none. -/
theorem serving_of_next {a : Label Task} {s : State Task} (h : Enabled a s)
    (hleft : s.manager.leftLoop = true) {w : ℕ} (hw : (next a s).Serving w) : s.Serving w := by
  rcases worker_next h w with ⟨b, rfl, hsrc, -, htgt⟩ | ⟨-, hk | ⟨hb, -⟩ | ⟨ha, -, -⟩⟩
  · simp only [State.Serving, hsrc, htgt, Option.any_some] at hw ⊢
    cases b <;> first | rfl | exact absurd hw Bool.false_ne_true
  · rwa [State.Serving, ← hk]
  · rw [State.Serving, hb]
    rfl
  -- a spawn belongs to the loop the manager has left
  · subst ha
    have hsrc : s.manager = .spawn := h.1
    rw [hsrc] at hleft
    exact absurd hleft Bool.false_ne_true

/-- Nobody serves the queue: then nobody pops. -/
theorem mem_tickets_next {a : Label Task} {s : State Task} (h : Enabled a s)
    (hno : ∀ w, ¬ s.Serving w) {n : ℕ} (hn : n ∈ s.tickets) : n ∈ (next a s).tickets := by
  have hq := taskQueue_next h
  have hpop : a.at WorkerAct.pop? = none := by
    cases a with
    | worker w b =>
      cases b with
      | pop e =>
        -- a worker that pops is serving
        have hserving : s.Serving w := by
          have hsrc : s.workers[w]? = some .testEmpty := h.1
          rw [State.Serving, hsrc]
          rfl
        exact absurd hserving (hno w)
      | _ => rfl
    | _ => rfl
  rw [hpop, Option.toList_none, List.map_nil, List.nil_append] at hq
  rw [State.tickets, ← hq, List.map_append]
  exact List.mem_append_left _ hn

/-! ## The step condition -/

/-- The steps that would leave a due task to nobody are not taken: the manager
does not leave its scaling loop, and after that no worker takes a kill signal,
unless no due task is queued or some other worker serves the queue. -/
def KeepsServer (tr : List (Label Task)) (s : State Task) : Label Task → Prop
  | .manager .testRunning => s.running = false → DueQueued tr s → ∃ w, s.Serving w
  | .worker w (.casKill k false) =>
    s.killThread = k → s.manager.leftLoop = true → DueQueued tr s → ∃ v, v ≠ w ∧ s.Serving v
  | _ => True

/-- Once the manager has left its loop, a due task that is queued has a server. -/
def Served (tr : List (Label Task)) (s : State Task) : Prop :=
  s.manager.leftLoop = true → DueQueued tr s → ∃ w, s.Serving w

section Runs

variable {up down : UInt32 → UInt32 → Bool} {tr : List (Label Task)} {s : State Task}

/-- Past the loop, a due task that is queued after a step was due and queued before. -/
theorem DueQueued.of_next {a : Label Task} (hr : (pool Task).Run (initial up down) tr s)
    (h : Enabled a s) (hrun : s.running = false) (hd : DueQueued (tr ++ [a]) (next a s)) :
    DueQueued tr s := by
  obtain ⟨n, hdue, hn⟩ := hd
  -- `shutdown` began before `running_` was cleared
  have hcall : a ≠ .destructor .call := by
    rintro rfl
    have hidle : s.destructor = .idle := h.1
    have htrue := (accounts hr).running_iff.mpr (Or.inl hidle)
    rw [hrun] at htrue
    exact absurd htrue Bool.false_ne_true
  have hdue' := hdue.of_snoc hcall
  refine ⟨n, hdue', ?_⟩
  have hq : n ∈ (s.taskQueue ++ a.push?.toList).map Entry.ticket := by
    rw [taskQueue_next h, List.map_append]
    exact List.mem_append_right _ hn
  rw [List.map_append, List.mem_append] at hq
  refine hq.resolve_right fun hpush => ?_
  -- a task pushed in this step has a fresh ticket, so it is not due
  obtain ⟨e, he, rfl⟩ := List.mem_map.mp hpush
  have hfresh : e.ticket = s.pushCount := by
    cases a with
    | producer p b =>
      cases b with
      | push e' =>
        simp only [Label.push?, Option.toList_some, List.mem_singleton] at he
        rw [he]
        exact h.2
      | _ => simp [Label.push?] at he
    | _ => simp [Label.push?] at he
  have hlt := hdue'.lt_pushCount hr
  omega

/-- The step lemma: a step that meets the condition keeps due tasks served. -/
theorem served_next {a : Label Task} (hr : (pool Task).Run (initial up down) tr s)
    (h : Enabled a s) (hC : KeepsServer tr s a) (hs : Served tr s) :
    Served (tr ++ [a]) (next a s) := by
  intro hleft hd
  rcases (leftLoop_next h).mp hleft with hl | ⟨rfl, hrun⟩
  · have hdq := DueQueued.of_next hr h ((accounts hr).leftLoop hl) hd
    obtain ⟨w, hw⟩ := hs hl hdq
    -- its server serves on, or leaves the task to another, or finds no task
    rcases serving_next h hw with hw' | ⟨k, rfl, hk⟩ | ⟨-, hempty⟩
    · exact ⟨w, hw'⟩
    · obtain ⟨v, hne, hv⟩ := hC hk hl hdq
      rcases serving_next h hv with hv' | ⟨k', heq, -⟩ | ⟨heq, -⟩
      · exact ⟨v, hv'⟩
      · cases heq; exact absurd rfl hne
      · cases heq
    · obtain ⟨n, -, hn⟩ := hdq
      rw [State.tickets, hempty] at hn
      exact absurd hn (by simp)
  · have hdq := DueQueued.of_next hr h hrun hd
    obtain ⟨w, hw⟩ := hC hrun hdq
    exact ⟨w, by simpa [State.Serving, next, managerMove] using hw⟩

/-- The run lemma. -/
theorem served (h : (pool Task).RunBy KeepsServer (initial up down) tr s) : Served tr s := by
  refine h.induct (P := Served) ?_ ?_
  · intro hl
    exact absurd hl Bool.false_ne_true
  · intro tr s a hr hs ha hC
    exact served_next hr.run ha hC hs

/-! ## Executed exactly once -/

/-- Task `n` has been invoked once, and that invocation has ended. -/
def ExecutedOnce (tr : List (Label Task)) (n : ℕ) : Prop :=
  ((invoked tr).map (·.2.ticket)).count n = 1 ∧ ((completed tr).map (·.2.ticket)).count n = 1

/-- Two histories that agree worker by worker have the same steps. -/
theorem perm_of_ofWorker_eq {l l' : List (ℕ × Entry Task)}
    (h : ∀ w, ofWorker w l = ofWorker w l') : l.Perm l' := by
  classical
  -- a pair is counted in the history of its worker
  have hcount : ∀ (w : ℕ) (e : Entry Task) (l : List (ℕ × Entry Task)),
      l.count (w, e) = (ofWorker w l).count e := by
    intro w e l
    induction l with
    | nil => rfl
    | cons x l ih =>
      obtain ⟨v, e'⟩ := x
      by_cases hv : v = w
      · subst hv
        simp only [ofWorker, List.filter_cons, List.count_cons] at ih ⊢
        simp [ih, List.count_cons]
      · simp only [ofWorker, List.filter_cons, List.count_cons] at ih ⊢
        simp [ih, hv]
  refine List.perm_iff_count.mpr fun x => ?_
  rw [hcount x.1 x.2 l, hcount x.1 x.2 l', h]

/-- When every worker has exited, what was popped was invoked, and has ended. -/
theorem executedOnce_of_exited (hr : (pool Task).Run (initial up down) tr s)
    (hexit : ∀ (w : ℕ) pc, s.workers[w]? = some pc → pc = .exited) {n : ℕ}
    (hn : n ∈ (popped tr).map (·.2.ticket)) : ExecutedOnce tr n := by
  -- no worker has popped or entered anything it has not finished
  have hslot : ∀ (slot : WorkerPc Task → Option (Entry Task)), slot .exited = none →
      ∀ w : ℕ, (s.workers[w]?).bind slot = none := by
    intro slot hslot w
    cases hw : s.workers[w]? with
    | none => rfl
    | some pc => rw [Option.bind_some, hexit w pc hw, hslot]
  have hinv : (popped tr).Perm (invoked tr) := by
    refine perm_of_ofWorker_eq fun w => ?_
    rw [ofWorker_popped hr w, State.pending, hslot _ rfl w, Option.toList_none, List.append_nil]
  have hcomp : (invoked tr).Perm (completed tr) := by
    refine perm_of_ofWorker_eq fun w => ?_
    rw [ofWorker_invoked hr w, State.current, hslot _ rfl w, Option.toList_none, List.append_nil]
  have hone : ((popped tr).map (·.2.ticket)).count n = 1 :=
    List.count_eq_one_of_mem (popped_ticket_nodup hr) hn
  have hinv' := (hinv.map (·.2.ticket)).count_eq n
  have hcomp' := (hcomp.map (·.2.ticket)).count_eq n
  exact ⟨by omega, by omega⟩

/-! ## The guarantee -/

/-- **Guaranteed execution**: when `managerFunction` has returned no due task is
queued, and when `shutdown` has returned each due task was executed exactly once. -/
def Guaranteed (tr : List (Label Task)) (s : State Task) : Prop :=
  (s.manager = .returned → ∀ n, Due tr n → n ∉ s.tickets) ∧
  (s.destructor = .returned → ∀ n, Due tr n → ExecutedOnce tr n)

/-- No due task is left when `managerFunction` returns, if each step meets the condition. -/
theorem not_queued_of_returned (h : (pool Task).RunBy KeepsServer (initial up down) tr s)
    (hret : s.manager = .returned) {n : ℕ} (hn : Due tr n) : n ∉ s.tickets := by
  intro hmem
  obtain ⟨w, hw⟩ := served h (by rw [hret]; rfl) ⟨n, hn, hmem⟩
  obtain ⟨pc, hpc, hserving⟩ := (Option.any_eq_true _ _).mp hw
  rw [(accounts h.run).exited hret hpc] at hserving
  exact absurd hserving Bool.false_ne_true

theorem guaranteed_of_runBy (h : (pool Task).RunBy KeepsServer (initial up down) tr s) :
    Guaranteed tr s := by
  refine ⟨fun hret n hn => not_queued_of_returned h hret hn, fun hjoin n hn => ?_⟩
  have hret := (accounts h.run).joined hjoin
  refine executedOnce_of_exited h.run (fun w pc hw => (accounts h.run).exited hret hw) ?_
  have hmem := hn.mem_pushed
  rw [pushed_eq h.run, List.map_append, List.mem_append, List.map_map] at hmem
  exact hmem.resolve_right (not_queued_of_returned h hret hn)

/-- Past the loop, a queued task that nobody serves stays queued. -/
theorem stuck_run {u : State Task} {post : List (Label Task)} {n : ℕ}
    (h : (pool Task).Run u post s) (hleft : u.manager.leftLoop = true)
    (hno : ∀ w, ¬ u.Serving w) (hn : n ∈ u.tickets) : n ∈ s.tickets := by
  refine (h.invariant (I := fun v => v.manager.leftLoop = true ∧ (∀ w, ¬ v.Serving w) ∧
    n ∈ v.tickets) ⟨hleft, hno, hn⟩ ?_).2.2
  rintro a v ⟨hl, hv, hmem⟩ ha
  exact ⟨(leftLoop_next ha).mpr (Or.inl hl),
    fun w hw => hv w (serving_of_next ha hl hw), mem_tickets_next ha hv hmem⟩

/-- A step that breaks the condition strands a due task. -/
theorem stranded_of_not_keepsServer {a : Label Task} (h : Enabled a s)
    (hC : ¬ KeepsServer tr s a) : (next a s).manager.leftLoop = true ∧
      (∀ w, ¬ (next a s).Serving w) ∧ ∃ n, Due tr n ∧ n ∈ (next a s).tickets := by
  cases a with
  | manager b =>
    cases b with
    | testRunning =>
      simp only [KeepsServer, Classical.not_imp, not_exists] at hC
      obtain ⟨hrun, ⟨n, hn, hmem⟩, hno⟩ := hC
      refine ⟨(leftLoop_next h).mpr (Or.inr ⟨rfl, hrun⟩), fun w => ?_, n, hn, ?_⟩
      · simpa [State.Serving, next, managerMove] using hno w
      · simpa [State.tickets, next, managerMove] using hmem
    | _ => exact absurd trivial hC
  | worker w b =>
    cases b with
    | casKill k spurious =>
      cases spurious with
      | true => exact absurd trivial hC
      | false =>
        simp only [KeepsServer, Classical.not_imp, not_exists, not_and] at hC
        obtain ⟨hk, hl, ⟨n, hn, hmem⟩, hno⟩ := hC
        refine ⟨(leftLoop_next h).mpr (Or.inl hl), fun v hv => ?_, n, hn, ?_⟩
        · by_cases hvw : v = w
          · subst hvw
            have hlt : v < s.workers.length := (List.getElem?_eq_some_iff.mp h.1).1
            simp [State.Serving, next_worker, workerMove, hk, hlt, WorkerPc.serving] at hv
          · exact hno v hvw (serving_of_next h hl hv)
        · simpa [State.tickets, next_worker, workerMove, hk] using hmem
    | _ => exact absurd trivial hC
  | _ => exact absurd trivial hC

/-- **Guaranteed execution at shutdown, exactly.**  If every step of a run meets
`KeepsServer` then the guarantee holds; and in a run in which `shutdown` has
returned it holds only then. -/
theorem guaranteed_iff (h : (pool Task).Run (initial up down) tr s) :
    ((pool Task).RunBy KeepsServer (initial up down) tr s → Guaranteed tr s) ∧
    (s.destructor = .returned →
      (Guaranteed tr s ↔ (pool Task).RunBy KeepsServer (initial up down) tr s)) := by
  refine ⟨guaranteed_of_runBy, fun hjoin => ⟨fun hg => ?_, guaranteed_of_runBy⟩⟩
  refine TransitionSystem.runBy_iff.mpr ⟨h, fun pre a post u htr hu => ?_⟩
  by_contra hC
  -- the step strands a task, and the rest of the run cannot save it
  rw [htr] at h
  obtain ⟨u', hu', ha, hpost⟩ := h.split_cons
  obtain rfl := hu.unique hu'
  obtain ⟨hl, hno, n, hn, hmem⟩ := stranded_of_not_keepsServer ha hC
  have hret := (accounts h).joined hjoin
  refine hg.1 hret n ?_ (stuck_run hpost hl hno hmem)
  rw [htr]
  exact hn.append _

end Runs

/-! ## A task that is lost, and one that is not -/

/-- `addTask` returns, and the destructor clears `running_` before the manager
has looked at the queue: it leaves its loop without having spawned a worker. -/
def lostRun : List (Label ℕ) :=
  addTaskRun 0 ⟨0, 7, [112]⟩ ++
    [.destructor .call, .destructor .storeRunning, .manager .testRunning, .destructor .notifyAll,
      .manager .finalNotify, .manager .testCount, .destructor .join]

/-- A call of `addTask` that returns before `shutdown` starts makes its task due. -/
theorem due_addTaskRun (p : ℕ) (e : Entry Task) (mid post : List (Label Task)) :
    Due (addTaskRun p e ++ mid ++ .destructor .call :: post) e.ticket := by
  refine ⟨p, e, none, ?_, rfl⟩
  have hadd : List.Sublist [.producer p (.push e), .producer p (.notify none)]
      (addTaskRun p e) := .cons _ (.cons _ (.cons_cons _ (.cons _ (.cons_cons _ .slnil))))
  have hcall : List.Sublist [.destructor .call] ((.destructor .call : Label Task) :: post) :=
    .cons_cons _ (List.nil_sublist post)
  exact (hadd.append (List.nil_sublist mid)).append hcall

/-- The guarantee fails on `lostRun`: the task is never executed. -/
theorem not_guaranteed : ¬ ∀ (tr : List (Label ℕ)) (s : State ℕ),
    (pool ℕ).Run (initial defaultScaleUp defaultScaleDown) tr s → Guaranteed tr s := by
  intro hall
  have hlegal : (pool ℕ).Legal lostRun (initial defaultScaleUp defaultScaleDown) := by decide
  have hret : ((pool ℕ).after lostRun (initial defaultScaleUp defaultScaleDown)).manager =
      .returned := by decide
  have hdue : Due lostRun 0 := due_addTaskRun 0 ⟨0, 7, [112]⟩ [] _
  exact (hall _ _ (TransitionSystem.run_of_legal hlegal)).1 hret 0 hdue (by decide)

/-- The manager stops with the queue empty, and no kill signal is taken. -/
def stopsEmpty (s : State Task) : Label Task → Bool
  | .manager .testRunning => s.running || s.taskQueue.isEmpty
  | .worker _ (.casKill _ _) => false
  | _ => true

theorem stopsEmpty_keepsServer {tr : List (Label Task)} {s : State Task} {a : Label Task}
    (h : stopsEmpty s a = true) : KeepsServer tr s a := by
  unfold KeepsServer
  split
  · rintro hrun ⟨n, -, hn⟩
    have hempty : s.taskQueue = [] := by simpa [stopsEmpty, hrun] using h
    rw [State.tickets, hempty] at hn
    exact absurd hn (by simp)
  · exact absurd h Bool.false_ne_true
  · trivial

/-- The manager spawns worker `w`, which executes a task that throws. -/
def executeRun (w : ℕ) (e : Entry Task) : List (Label Task) :=
  sampleRun ++ [.manager .spawn] ++ takeRun w e ++ [.worker w (.complete e true)]

/-- A job that throws, executed by the one worker the manager has spawned for it. -/
def throwingRun : List (Label ℕ) :=
  addTaskRun 0 ⟨0, 7, [112]⟩ ++ executeRun 0 ⟨0, 7, [112]⟩

/-- The job is executed, then the pool is destroyed: its worker finds the queue empty. -/
def drainedRun : List (Label ℕ) :=
  throwingRun ++ .destructor .call :: [.destructor .storeRunning, .manager .testRunning,
    .destructor .notifyAll, .manager .finalNotify, .worker 0 .lock, .worker 0 .testQueue,
    .worker 0 .testRunning, .worker 0 .loadKill, .worker 0 .exitRunning, .worker 0 .exitQueue,
    .worker 0 .finish, .worker 0 .leave, .manager .testCount, .manager (.drainReap 0),
    .manager (.drainJoin 0), .manager (.drainReap 0), .manager .testCount, .destructor .join]

theorem guaranteed_iff_drainedRun :
    Guaranteed drainedRun
        ((pool ℕ).after drainedRun (initial defaultScaleUp defaultScaleDown)) ∧
      Due drainedRun 0 ∧
      ((pool ℕ).after drainedRun (initial defaultScaleUp defaultScaleDown)).destructor =
        .returned := by
  have hlegal : ((pool ℕ).restrict fun s a => stopsEmpty s a = true).Legal drainedRun
      (initial defaultScaleUp defaultScaleDown) := by decide
  have hby := TransitionSystem.runBy_of_legal (C := KeepsServer)
    (fun _ _ _ => stopsEmpty_keepsServer) hlegal
  have hdue : Due drainedRun 0 := due_addTaskRun 0 ⟨0, 7, [112]⟩ (executeRun 0 _) _
  exact ⟨(guaranteed_iff hby.run).1 hby, hdue, by decide⟩

end ThreadPool
