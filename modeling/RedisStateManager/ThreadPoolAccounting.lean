/-
# Worker accounting

The numbers of workers spawned, live, finished and joined, and of kill signals raised
and taken.  Joins and signals are read off a run: `joined` lists the workers that were
joined, `takers` the ones that took a signal.  Together with `workerPool` the joined
workers are all there ever were, each of them once (`pooled_joined`), and `killThread`
is what has been raised and not been taken (`signals`).  `worker_accounting` collects
the result, with the bound that the scaling policies put on the number of workers.
-/
import RedisStateManager.ThreadPoolFloor
import Mathlib.Data.List.Perm.Basic

namespace ThreadPool

variable {Task : Type} {up down : UInt32 → UInt32 → Bool} {tr : List (Label Task)}
  {s : State Task} {a : Label Task}

/-! ## Joins -/

/-- The worker whose thread a step joins. -/
def joins (s : State Task) : Label Task → Option ℕ
  | .manager (.join i) | .manager (.drainJoin i) => s.workerPool[i]?
  | _ => none

/-- The workers joined in a run, in order. -/
def joined (up down : UInt32 → UInt32 → Bool) (tr : List (Label Task)) : List ℕ :=
  (pool Task).observe joins tr (initial up down)

/-- The entry of `workerPool` that the manager is about to join. -/
def ManagerPc.joining : ManagerPc → Option ℕ
  | .join i | .drainJoin i => some i
  | _ => none

/-- A step that neither spawns nor joins. -/
theorem workerPool_next_of_joins_none (hspawn : a ≠ .manager .spawn)
    (hjoin : ∀ i, a ≠ .manager (.join i)) (hdrain : ∀ i, a ≠ .manager (.drainJoin i)) :
    (next a s).workerPool = s.workerPool ∧ joins s a = none := by
  cases a with
  | manager b =>
    refine ⟨(workerPool_manager (fun h => hspawn (congrArg _ h)) (fun i h => hjoin i (congrArg _ h))
      fun i h => hdrain i (congrArg _ h)).1, ?_⟩
    cases b with
    | join i => exact absurd rfl (hjoin i)
    | drainJoin i => exact absurd rfl (hdrain i)
    | _ => rfl
  | _ => exact ⟨(workerPool_next fun _ => by simp).1, rfl⟩

/-- Whoever is joined has exited. -/
theorem exited_of_joins (h : Enabled a s) {w : ℕ} (hw : joins s a = some w) :
    s.workers[w]? = some .exited := by
  have hexited : ∀ i, s.exitedAt i → s.workerPool[i]? = some w → s.workers[w]? = some .exited := by
    intro i hi hpool
    rw [State.exitedAt, hpool, Option.bind_some] at hi
    exact hi
  cases a with
  | manager b =>
    cases b with
    | join i => exact hexited i h.2 hw
    | drainJoin i => exact hexited i h.2 hw
    | _ => cases hw
  | _ => cases hw

/-- A join moves an entry from `workerPool` to the joined workers. -/
theorem joinAt_perm {l : List ℕ} {i : ℕ} (h : s.exitedAt i) :
    ((s.joinAt i).workerPool ++ (l ++ (s.workerPool[i]?).toList)).Perm (s.workerPool ++ l) := by
  obtain ⟨hi, -⟩ := exitedAt_getElem h
  rw [List.getElem?_eq_getElem hi, Option.toList_some]
  have hback : (s.workerPool.eraseIdx i ++ [s.workerPool[i]]).Perm s.workerPool :=
    (List.perm_append_singleton _ _).trans (List.getElem_cons_eraseIdx_perm hi)
  have hswap : (l ++ [s.workerPool[i]]).Perm ([s.workerPool[i]] ++ l) := List.perm_append_comm
  refine (hswap.append_left _).trans ?_
  rw [← List.append_assoc]
  exact hback.append_right l

/-- The step lemma. -/
theorem pooled_joined_next (h : Enabled a s) {l : List ℕ}
    (hs : (s.workerPool ++ l).Perm (List.range s.workers.length)) :
    ((next a s).workerPool ++ (l ++ (joins s a).toList)).Perm
      (List.range (next a s).workers.length) := by
  by_cases hspawn : a = .manager .spawn
  · subst hspawn
    have hlen : (next (.manager .spawn) s).workers.length = s.workers.length + 1 := by
      simp [next, managerMove, State.spawnWorker]
    rw [hlen, List.range_succ]
    show (s.workerPool ++ [s.workers.length] ++ (l ++ [])).Perm _
    have hswap : ([s.workers.length] ++ l).Perm (l ++ [s.workers.length]) := List.perm_append_comm
    rw [List.append_nil, List.append_assoc]
    refine (hswap.append_left _).trans ?_
    rw [← List.append_assoc]
    exact hs.append_right _
  rw [length_workers_next hspawn]
  by_cases hjoin : ∃ i, a = .manager (.join i) ∨ a = .manager (.drainJoin i)
  · obtain ⟨i, rfl | rfl⟩ := hjoin
    · exact (joinAt_perm h.2).trans hs
    · exact (joinAt_perm h.2).trans hs
  · push Not at hjoin
    obtain ⟨hpool, hnone⟩ := workerPool_next_of_joins_none (s := s) hspawn
      (fun i => (hjoin i).1) (fun i => (hjoin i).2)
    rw [hpool, hnone, Option.toList_none, List.append_nil]
    exact hs

/-- **Every worker is in `workerPool` or has been joined**, and is so once. -/
theorem pooled_joined (h : (pool Task).Run (initial up down) tr s) :
    (s.workerPool ++ joined up down tr).Perm (List.range s.workers.length) := by
  refine h.induct (P := fun tr s =>
    (s.workerPool ++ joined up down tr).Perm (List.range s.workers.length)) .nil ?_
  intro tr s a hr ih ha
  rw [joined, hr.observe_snoc]
  exact pooled_joined_next ha ih

/-- Whoever was joined has exited. -/
theorem exited_of_joined (h : (pool Task).Run (initial up down) tr s) {w : ℕ}
    (hw : w ∈ joined up down tr) : s.workers[w]? = some .exited := by
  refine h.induct (P := fun tr s => ∀ w ∈ joined up down tr, s.workers[w]? = some .exited)
    (fun _ hw => absurd hw List.not_mem_nil) ?_ w hw
  intro tr s a hr ih ha w hw
  rw [joined, hr.observe_snoc] at hw
  rcases List.mem_append.mp hw with hold | hnew
  · exact exited_next ha (ih w hold)
  · exact exited_next ha (exited_of_joins ha (Option.mem_toList.mp hnew))

/-! ## The `finished` flag -/

/-- The flag is not reset. -/
theorem finished_next (h : Enabled a s) {w : ℕ}
    (hw : (s.workers[w]?).any WorkerPc.finished = true) :
    ((next a s).workers[w]?).any WorkerPc.finished = true := by
  rcases worker_next h w with ⟨b, -, hsrc, -, htgt⟩ | ⟨-, hk | ⟨hb, -⟩ | ⟨-, hlen, -⟩⟩
  · rw [hsrc] at hw
    rw [htgt]
    cases b <;> first | exact absurd hw Bool.false_ne_true | rfl
  · rwa [hk]
  · rw [hb] at hw
    exact absurd hw Bool.false_ne_true
  · rw [List.getElem?_eq_none hlen.ge] at hw
    exact absurd hw Bool.false_ne_true

/-- The manager joins an entry only after it has seen its flag set. -/
theorem joining_next (h : Enabled a s) {i : ℕ}
    (hs : s.manager.joining = some i → s.finishedAt i = true)
    (hi : (next a s).manager.joining = some i) : (next a s).finishedAt i = true := by
  by_cases ha : ∃ b, a = .manager b
  · obtain ⟨b, rfl⟩ := ha
    have htgt : (managerMove b s).target.joining = some i := hi
    cases b with
    | reap j | drainReap j =>
      simp only [managerMove] at htgt
      split_ifs at htgt with hlt hfin
      · cases htgt
        exact hfin
      · cases htgt
      · cases htgt
    | testRunning | testScaleUp | testScaleDown | loadKill | testCount =>
      simp only [managerMove] at htgt
      split at htgt <;> cases htgt
    | _ => cases htgt
  · push Not at ha
    rw [manager_next ha] at hi
    have hfin := hs hi
    rw [State.finishedAt, Option.any_bind] at hfin ⊢
    rw [(workerPool_next ha).1]
    obtain ⟨w, hw, hflag⟩ := (Option.any_eq_true _ _).mp hfin
    exact (Option.any_eq_true _ _).mpr ⟨w, hw, finished_next h hflag⟩

theorem joining_finished (h : (pool Task).Run (initial up down) tr s) {i : ℕ}
    (hi : s.manager.joining = some i) : s.finishedAt i = true := by
  refine h.invariant (I := fun s => ∀ i, s.manager.joining = some i → s.finishedAt i = true)
    (fun i hi => by cases hi) ?_ i hi
  exact fun a s hs ha i => joining_next ha (hs i)

/-! ## Kill signals -/

/-- The manager raises a kill signal: its compare-and-swap does not fail. -/
def Label.raises : Label Task → Bool
  | .manager (.casKill false) => true
  | _ => false

/-- The worker that takes a kill signal. -/
def Label.takes : Label Task → Option ℕ
  | .worker w (.casKill _ false) => some w
  | _ => none

/-- The number of signals raised. -/
def raised (tr : List (Label Task)) : ℕ := tr.countP Label.raises

/-- The workers that took a signal, in order. -/
def takers (tr : List (Label Task)) : List ℕ := tr.filterMap Label.takes

/-- The worker has left its loop for good, or is about to: its next step sets the flag
or releases the mutex, and nobody can keep it from taking it. -/
def State.Ending (s : State Task) (w : ℕ) : Prop :=
  s.workers[w]? = some .exited ∨ Enabled (.worker w .finish) s ∨ Enabled (.worker w .leave) s

theorem takers_snoc (tr : List (Label Task)) (a : Label Task) :
    takers (tr ++ [a]) = takers tr ++ a.takes.toList := by
  cases h : a.takes <;> simp [takers, h]

theorem raised_snoc (tr : List (Label Task)) (a : Label Task) :
    raised (tr ++ [a]) = raised tr + a.raises.toNat := by
  cases h : a.raises <;> simp [raised, h]

/-- A worker that is ending goes on to its exit. -/
theorem ending_next (h : Enabled a s) {w : ℕ} (hw : s.Ending w) : (next a s).Ending w := by
  rcases worker_next h w with ⟨b, rfl, hsrc, -, htgt⟩ | ⟨-, hk | ⟨hb, -⟩ | ⟨-, hlen, -⟩⟩
  · rcases hw with hexit | ⟨hfinish, -⟩ | ⟨hleave, -⟩
    · rw [hexit] at hsrc
      cases b <;> cases hsrc
    · rw [hfinish] at hsrc
      cases b with
      | finish => exact Or.inr (Or.inr ⟨htgt, trivial⟩)
      | _ => cases hsrc
    · rw [hleave] at hsrc
      cases b with
      | leave => exact Or.inl htgt
      | _ => cases hsrc
  · rcases hw with hexit | ⟨hfinish, -⟩ | ⟨hleave, -⟩
    · exact Or.inl (hk.trans hexit)
    · exact Or.inr (Or.inl ⟨hk.trans hfinish, trivial⟩)
    · exact Or.inr (Or.inr ⟨hk.trans hleave, trivial⟩)
  · rcases hw with hw | ⟨hw, -⟩ | ⟨hw, -⟩ <;> cases hb.symm.trans hw
  · have hnone := List.getElem?_eq_none hlen.ge
    rcases hw with hw | ⟨hw, -⟩ | ⟨hw, -⟩ <;> cases hnone.symm.trans hw

/-- What a run of signals comes to. -/
structure Signals (tr : List (Label Task)) (s : State Task) : Prop where
  raising : s.manager = .casKill → s.killThread = 0
  balance : s.killThread + (takers tr).length = raised tr
  nodup : (takers tr).Nodup
  ending : ∀ w ∈ takers tr, s.Ending w

/-- **One step in the balance of signals**: no compare-and-swap is made on a value that
has changed. -/
theorem killThread_add_takes (h : Enabled a s) (hk : Known s)
    (hs : s.manager = .casKill → s.killThread = 0) :
    (next a s).killThread + a.takes.toList.length = s.killThread + a.raises.toNat := by
  cases a with
  | worker w b =>
    cases b with
    | casKill k spurious =>
      cases spurious with
      | true => simp [next_worker, workerMove, Label.takes, Label.raises]
      | false =>
        obtain ⟨hkill, hpos⟩ := hk.kill w k h.1
        simp only [next_worker, workerMove, hkill, Label.takes, Label.raises]
        simp
        omega
    | _ => rfl
  | manager b =>
    cases b with
    | casKill spurious =>
      cases spurious with
      | true => simp [next_manager, managerMove, Label.takes, Label.raises]
      | false => simp [next_manager, managerMove, hs h.1, Label.takes, Label.raises]
    | notify woken => simp [next_manager, managerMove, notifyOne_eq, Label.takes, Label.raises]
    | _ => rfl
  | producer p b => rw [next_producer]; rfl
  | destructor b => rw [next_destructor]; rfl
  | setScaleUp func => rfl
  | setScaleDown func => rfl

/-- The manager is about to raise a signal: it has seen none, and nobody else raises one. -/
theorem casKill_next (h : Enabled a s) (hk : Known s)
    (hs : s.manager = .casKill → s.killThread = 0) (hcas : (next a s).manager = .casKill) :
    (next a s).killThread = 0 := by
  by_cases ha : ∃ b, a = .manager b
  · obtain ⟨b, rfl⟩ := ha
    have htgt : (managerMove b s).target = .casKill := hcas
    cases b with
    | loadKill =>
      by_cases hz : s.killThread = 0
      · exact hz
      · simp [managerMove, hz] at htgt
    | testRunning | testScaleUp | testScaleDown | testCount | reap i | drainReap i =>
      simp only [managerMove] at htgt
      split_ifs at htgt
    | _ => simp [managerMove] at htgt
  · push Not at ha
    rw [manager_next ha] at hcas
    have hz := hs hcas
    rcases killThread_next (a := a) (s := s) with ⟨w, k, rfl, hkill, -⟩ | ⟨hraise, -⟩ | hsame
    · exact absurd (hkill.symm.trans hz) (hk.kill w k h.1).2
    · exact absurd hraise (ha _)
    · exact hsame.trans hz

/-- A worker that takes a signal has taken none before. -/
theorem ending_of_takes (h : Enabled a s) (hk : Known s) {w : ℕ} (hw : a.takes = some w) :
    ¬ s.Ending w ∧ (next a s).Ending w := by
  cases a with
  | worker v b =>
    cases b with
    | casKill k spurious =>
      cases spurious with
      | true => cases hw
      | false =>
        obtain rfl := Option.some.inj hw
        have hsrc : s.workers[v]? = some (.casKill k) := h.1
        constructor
        · rintro (hw' | ⟨hw', -⟩ | ⟨hw', -⟩) <;> cases hsrc.symm.trans hw'
        · have hlt := (List.getElem?_eq_some_iff.mp hsrc).1
          refine Or.inr (Or.inl ⟨?_, trivial⟩)
          rw [next_worker]
          simp [workerMove, (hk.kill v k hsrc).1, hlt]
    | _ => cases hw
  | _ => cases hw

theorem Signals.next (hs : Signals tr s) (h : Enabled a s) (hk : Known s) :
    Signals (tr ++ [a]) (next a s) where
  raising := casKill_next h hk hs.raising
  balance := by
    have hstep := killThread_add_takes h hk hs.raising
    have hbalance := hs.balance
    rw [takers_snoc, raised_snoc, List.length_append]
    omega
  nodup := by
    rw [takers_snoc]
    refine hs.nodup.append ?_ ?_
    · cases a.takes <;> simp
    · intro w hw hnew
      exact (ending_of_takes h hk (Option.mem_toList.mp hnew)).1 (hs.ending w hw)
  ending := by
    intro w hw
    rw [takers_snoc] at hw
    rcases List.mem_append.mp hw with hold | hnew
    · exact ending_next h (hs.ending w hold)
    · exact (ending_of_takes h hk (Option.mem_toList.mp hnew)).2

/-- **The signals of a run**: `killThread` is what was raised and not taken, and a
signal is taken by a worker that takes no other and ends. -/
theorem signals (h : (pool Task).Run (initial up down) tr s) : Signals tr s := by
  refine h.induct (P := Signals) ?_ fun tr s a hr hs ha => hs.next ha (known hr)
  refine ⟨?_, rfl, List.nodup_nil, fun _ hw => absurd hw List.not_mem_nil⟩
  exact fun hcas => by cases hcas

/-! ## The number of live workers -/

/-- Workers are counted by their numbers. -/
theorem countP_workers (p : WorkerPc Task → Bool) (l : List (WorkerPc Task)) :
    l.countP p = (List.range l.length).countP fun w : ℕ => (l[w]?).any p := by
  have hmap : (List.range l.length).map (l[·]?) = l.map some := by
    refine List.ext_getElem (by simp) fun i hi _ => ?_
    simp at hi
    simp [hi]
  have hp : (fun w : ℕ => (l[w]?).any p) = (Option.any p) ∘ (l[·]?) := rfl
  rw [hp, ← List.countP_map, hmap, List.countP_map]
  rfl

/-- Only workers that have not been joined are live. -/
theorem liveCount_le_pool (h : (pool Task).Run (initial up down) tr s) :
    s.liveCount ≤ s.workerPool.length := by
  have hjoined :
      (joined up down tr).countP (fun w : ℕ => (s.workers[w]?).any WorkerPc.live) = 0 := by
    refine List.countP_eq_zero.mpr fun w hw => ?_
    rw [exited_of_joined h hw]
    exact Bool.false_ne_true
  rw [State.liveCount, countP_workers, ← (pooled_joined h).countP_eq, List.countP_append, hjoined,
    Nat.add_zero]
  exact List.countP_le_length

/-- The number of workers that are counted, and so of those that are live, is bounded. -/
theorem bounded_of_capsAt {N : ℕ}
    (h : (pool Task).RunBy (fun _ => CapsAt N) (initial up down) tr s) :
    s.workerCount ≤ N ∧ s.liveCount ≤ N := by
  have hle := (capped h).1
  have hcount := (accounts h.run).count
  have hlive := liveCount_le_pool h.run
  exact ⟨by omega, by omega⟩

/-- When `managerFunction` has returned, everybody has been joined. -/
theorem joined_of_returned (h : (pool Task).Run (initial up down) tr s)
    (hret : s.manager = .returned) :
    (joined up down tr).Perm (List.range s.workers.length) := by
  have hperm := pooled_joined h
  rwa [(accounts h).returned hret, List.nil_append] at hperm

end ThreadPool

/-! ## The pool of the channel -/

namespace RedisChannel

def maxWorkerCount : UInt32 := 5

def upThreshold : UInt32 := 10

def downThreshold : UInt32 := 3

/-- The policies that the constructor of the channel sets. -/
def scaleUp (queueSize workerCount : UInt32) : Bool :=
  queueSize > upThreshold * workerCount && workerCount < maxWorkerCount

def scaleDown (queueSize workerCount : UInt32) : Bool :=
  queueSize < downThreshold * workerCount && workerCount > 1

end RedisChannel

namespace ThreadPool

variable {Task : Type} {tr : List (Label Task)} {s : State Task} {a : Label Task}

/-- The steps of the pool of a channel: only the constructor sets policies, and tasks
are added once it has set them. -/
def OfChannel (tr : List (Label Task)) (_ : State Task) : Label Task → Prop
  | .setScaleUp func => func = RedisChannel.scaleUp
  | .setScaleDown func => func = RedisChannel.scaleDown
  | .producer _ _ =>
    .setScaleUp RedisChannel.scaleUp ∈ tr ∧ .setScaleDown RedisChannel.scaleDown ∈ tr
  | _ => True

/-- The manager's `queueSize` is the size of the queue when it last looked. -/
theorem queueSize_next :
    (next a s).queueSize = s.queueSize ∨ (next a s).queueSize = s.size := by
  cases a with
  | worker w b => rw [next_worker]; exact Or.inl rfl
  | manager b =>
    cases b with
    | readSize => exact Or.inr rfl
    | casKill spurious =>
      simp only [next_manager, managerMove]
      split <;> exact Or.inl rfl
    | notify woken => simp [next_manager, managerMove, notifyOne_eq]
    | _ => exact Or.inl rfl
  | producer p b => rw [next_producer]; exact Or.inl rfl
  | destructor b => rw [next_destructor]; exact Or.inl rfl
  | setScaleUp func => exact Or.inl rfl
  | setScaleDown func => exact Or.inl rfl

/-- The default `scaleUp` is replaced before the queue is used. -/
def Replaced (tr : List (Label Task)) (s : State Task) : Prop :=
  s.scaleUp = RedisChannel.scaleUp ∨
    (.setScaleUp RedisChannel.scaleUp ∉ tr ∧ s.scaleUp = defaultScaleUp ∧ s.queueSize = 0 ∧
      s.taskQueue = [])

theorem Replaced.next (hs : Replaced tr s) (h : Enabled a s) (hC : OfChannel tr s a) :
    Replaced (tr ++ [a]) (next a s) := by
  by_cases hkeep : a.keepsPolicies = true
  · rcases hs with hup | ⟨hnot, hup, hsize, hqueue⟩
    · exact Or.inl ((scaleUp_next hkeep).trans hup)
    -- nobody adds a task yet
    · have hpush : a.push? = none := by
        cases a with
        | producer p b => exact absurd hC.1 hnot
        | _ => rfl
      refine Or.inr ⟨?_, (scaleUp_next hkeep).trans hup, ?_, taskQueue_next_nil h hpush hqueue⟩
      · rw [List.mem_append, List.mem_singleton]
        rintro (hold | rfl)
        · exact hnot hold
        · exact absurd hkeep Bool.false_ne_true
      · rcases queueSize_next (a := a) (s := s) with hsame | hread
        · rw [hsame, hsize]
        · rw [hread, State.size, hqueue]
          rfl
  · cases a with
    | setScaleUp func => exact Or.inl hC
    | setScaleDown func =>
      refine hs.imp id fun hold => ⟨?_, hold.2⟩
      simpa using hold.1
    | _ => exact absurd rfl hkeep

theorem Replaced.capsAt (hs : Replaced tr s) (hcount : s.workerCount = s.workerPool.length)
    (hle : s.workerPool.length ≤ 5) : CapsAt 5 s a := by
  unfold CapsAt
  split
  · intro hfull
    have hfive : s.workerCount = 5 := by omega
    rcases hs with hup | ⟨-, hup, hsize, -⟩
    · have hmax : s.count = RedisChannel.maxWorkerCount := by
        rw [State.count, hfive]
        rfl
      rw [hup, RedisChannel.scaleUp, hmax]
      simp
    · rw [hup, hsize, defaultScaleUp]
      simp
  · trivial

/-- **The pool of a channel** has at most `MAX_WORKER_COUNT` workers. -/
theorem capsAt_of_channel (h : (pool Task).RunBy OfChannel start tr s) :
    (pool Task).RunBy (fun _ => CapsAt 5) start tr s := by
  refine (h.induct (P := fun tr s => (pool Task).RunBy (fun _ => CapsAt 5) start tr s ∧
    Replaced tr s) ⟨.nil, Or.inr ⟨List.not_mem_nil, rfl, rfl, rfl⟩⟩ ?_).1
  rintro tr s a hr ⟨hcaps, hs⟩ ha hC
  exact ⟨hcaps.snoc ha (hs.capsAt (accounts hr.run).count (capped hcaps).1), hs.next ha hC⟩

/-! ## The accounts of a run -/

/-- **Worker accounting.**  In every run, whatever the scaling policies: `workerCount`
is the number of entries of `workerPool`; `killThread` is at most one, and is what was
raised and not taken; a worker takes one signal at most and then ends; every worker is
in `workerPool` or has been joined, once, after its flag was set; if every evaluation of
`scaleUp` is false with `N` workers or more there are never more than `N`, which is
`MAX_WORKER_COUNT` in the pool of a channel; and when `managerFunction` has returned,
every worker has exited and been joined. -/
theorem worker_accounting {up down : UInt32 → UInt32 → Bool}
    (h : (pool Task).Run (initial up down) tr s) :
    (s.workerCount = s.workerPool.length ∧ 0 ≤ s.workerCount) ∧
    (s.killThread ≤ 1 ∧ s.killThread + (takers tr).length = raised tr) ∧
    ((takers tr).Nodup ∧ ∀ w ∈ takers tr, s.Ending w) ∧
    ((s.workerPool ++ joined up down tr).Perm (List.range s.workers.length) ∧
      (joined up down tr).Nodup) ∧
    ((∀ i, s.manager.joining = some i → s.finishedAt i = true) ∧
      ∀ w ∈ joined up down tr, s.workers[w]? = some .exited) ∧
    (∀ N : ℕ, (pool Task).RunBy (fun _ => CapsAt N) (initial up down) tr s →
      s.workerCount ≤ N ∧ s.liveCount ≤ N) ∧
    ((pool Task).RunBy OfChannel start tr s →
      s.workerCount ≤ RedisChannel.maxWorkerCount.toNat ∧
        s.liveCount ≤ RedisChannel.maxWorkerCount.toNat) ∧
    (s.manager = .returned → (∀ pc ∈ s.workers, pc = .exited) ∧
      (joined up down tr).Perm (List.range s.workers.length)) := by
  have hacc := accounts h
  have hsignals := signals h
  have hpooled := pooled_joined h
  have hnodup : (s.workerPool ++ joined up down tr).Nodup := hpooled.nodup_iff.mpr List.nodup_range
  refine ⟨⟨hacc.count, by have := hacc.count; omega⟩, ⟨(known h).kill_le, hsignals.balance⟩,
    ⟨hsignals.nodup, hsignals.ending⟩, ⟨hpooled, hnodup.of_append_right⟩,
    ⟨fun _ hi => joining_finished h hi, fun _ hw => exited_of_joined h hw⟩,
    fun _ hcaps => bounded_of_capsAt hcaps, fun hby => bounded_of_capsAt (capsAt_of_channel hby),
    fun hret => ⟨fun pc hpc => ?_, joined_of_returned h hret⟩⟩
  obtain ⟨w, hw⟩ := List.mem_iff_getElem?.mp hpc
  exact hacc.exited hret hw

/-- The policy of `pair`, evaluated with two workers or more, is false. -/
def capsTwo (s : State ℕ) : Label ℕ → Bool
  | .manager .testScaleUp => s.workerCount < 2 || !s.scaleUp s.queueSize s.count
  | _ => true

theorem capsTwo_capsAt {s : State ℕ} {a : Label ℕ} (h : capsTwo s a = true) : CapsAt 2 s a := by
  unfold CapsAt
  split
  · intro hfull
    have hnot : ¬ s.workerCount < 2 := by omega
    simpa [capsTwo, hnot] using h
  · trivial

/-- Of two workers one has taken the signal that was raised. -/
theorem worker_accounting_keptRun :
    takers (pairRun ++ keptRun) = [0] ∧
      ((pool ℕ).after (pairRun ++ keptRun) pair).killThread + 1 = raised (pairRun ++ keptRun) ∧
      ((pool ℕ).after (pairRun ++ keptRun) pair).Ending 0 ∧
      ((pool ℕ).after (pairRun ++ keptRun) pair).liveCount ≤ 2 := by
  have hlegal : ((pool ℕ).restrict fun s a => capsTwo s a = true).Legal
      (pairRun ++ keptRun) pair := by decide
  have hby := TransitionSystem.runBy_of_legal (C := fun _ => CapsAt 2)
    (fun _ _ _ => capsTwo_capsAt) hlegal
  have htakers : takers (pairRun ++ keptRun) = [0] := by decide
  obtain ⟨-, ⟨-, hbalance⟩, ⟨-, hending⟩, -, -, hcaps, -⟩ := worker_accounting hby.run
  rw [htakers] at hbalance hending
  exact ⟨htakers, hbalance, hending 0 (List.mem_singleton_self 0), (hcaps 2 hby).2⟩

end ThreadPool
