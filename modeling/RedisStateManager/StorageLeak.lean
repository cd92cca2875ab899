/-
# Leaked locks

The clients that only write, erase and update.  A lock key without a holder
stays for ever: nobody acquires it, and nobody deletes it.  It comes about in
two ways, a `SETNX` that throws after it created its key and a `DEL` of a lock
key that throws before it took effect, and `noLeak_iff` shows that these are all.
-/
import RedisStateManager.StorageLock

namespace RedisStorage

open Redis

/-! ## Clients that write, erase and update -/

def Operation.mutates : Operation → Bool
  | .write _ _ | .erase _ | .update _ _ => true
  | _ => false

def Label.mutates : Label → Bool
  | .call _ op => op.mutates && !decide (lockPrefix <+: op.key)
  | _ => true

/-- Any number of clients that write, erase and update keys which do not begin
with the lock prefix. -/
def mutators : TransitionSystem State Label := storage.restrict fun _ a => a.mutates = true

@[simp] theorem mutators_enabled (a : Label) (s : State) :
    mutators.Enabled a s ↔ Enabled a s ∧ a.mutates = true :=
  Iff.rfl

@[simp] theorem mutators_next : mutators.next = next := rfl

/-- They keep to the protocol of the lock. -/
theorem Label.mutates_unlocksOwn {tr : List Label} {s : State} {a : Label}
    (h : a.mutates = true) : UnlocksOwn tr s a := by
  cases a with
  | call i op =>
    have hop : op.mutates = true ∧ ¬ lockPrefix <+: op.key := by
      simpa [Label.mutates] using h
    refine ⟨hop.2, fun k heq => ?_⟩
    rw [heq] at hop
    exact absurd hop.1 Bool.false_ne_true
  | _ => trivial

/-- What holds of them beyond the protocol: every call mutates, no lock outlives
its call, and a call holds no lock but that of its key. -/
structure Mutating (tr : List Label) (s : State) : Prop where
  disciplined : Disciplined tr s
  mutates : ∀ i call, s.clients i = some call → call.operation.mutates = true
  acquired : ∀ i, acquired i tr = []
  ownKey : ∀ i, ∀ k ∈ locks i tr, ∃ call, s.clients i = some call ∧
    k = lockKey call.operation.key

section Step

variable {tr : List Label} {s : State} {a : Label}

theorem Mutating.next (hs : Mutating tr s) (h : Enabled a s) (ha : a.mutates = true) :
    Mutating (tr ++ [a]) (next a s) := by
  have hd := hs.disciplined.next h (Label.mutates_unlocksOwn ha)
  have hacq : ∀ i, RedisStorage.acquired i (tr ++ [a]) = [] := by
    intro i
    rw [acquired_snoc, hs.acquired i]
    unfold Label.acquiredStep
    split
    -- no call of `tryLock` is in progress that could return
    · obtain ⟨call, hcall, hop, -⟩ := State.exists_call_of_result? h
      have hmut := hs.mutates _ call hcall
      rw [hop] at hmut
      exact absurd hmut Bool.false_ne_true
    · simp
    · rfl
  refine ⟨hd, fun i call hcall => ?_, hacq, fun i k hk => ?_⟩
  · rcases operation_next h hcall with ⟨call', hcall', hop⟩ | rfl
    · rw [← hop]
      exact hs.mutates i call' hcall'
    · have hop : call.operation.mutates = true ∧ ¬ lockPrefix <+: call.operation.key := by
        simpa [Label.mutates] using ha
      exact hop.1
  · -- a client without a call would hold what `tryLock` calls gave it
    cases hcall : (RedisStorage.next a s).clients i with
    | none =>
      rw [hd.idle i hcall, hacq i] at hk
      exact absurd hk (by simp)
    | some call =>
      refine ⟨call, rfl, ?_⟩
      rcases operation_next h hcall with ⟨call', hcall', hop⟩ | rfl
      · rw [← hop]
        rcases mem_locks_next hk with ⟨hmem, -⟩ | ⟨g, v, n, took, -, rfl⟩
        · obtain ⟨call'', hcall'', heq⟩ := hs.ownKey i k hmem
          rw [hcall', Option.some_inj] at hcall''
          rw [heq, hcall'']
        · obtain ⟨call'', hcall'', -, hallowed, -⟩ := hs.disciplined.command h
          rw [hcall', Option.some_inj] at hcall''
          rw [hcall'']
          exact hallowed
      · rcases mem_locks_next hk with ⟨hmem, -⟩ | ⟨g, v, n, took, -, heq⟩
        · rw [hs.disciplined.idle i h, hs.acquired i] at hmem
          exact absurd hmem (by simp)
        · exact absurd heq (by simp)

/-- A held lock stays held until its client deletes it. -/
theorem mem_locks_snoc {i : ℕ} {k : Bytes} (hk : k ∈ locks i tr)
    (hdel : ∀ g r took, a ≠ .command i g (.del k) r took) : k ∈ locks i (tr ++ [a]) := by
  rw [locks_snoc]
  cases a with
  | command j g c r took =>
    by_cases hj : j = i
    · subst hj
      simp only [Label.lockStep, if_true]
      cases c with
      | setnx k' v =>
        cases r with
        | integer n =>
          simp only [lockStep]
          split
          · exact hk
          · exact List.mem_cons_of_mem _ hk
        | _ => exact hk
      | del k' =>
        simp only [lockStep]
        split
        · have hne : k ≠ k' := fun heq => hdel g r took (by rw [heq])
          simpa using ⟨hk, hne⟩
        · exact hk
      | _ => exact hk
    · simpa only [Label.lockStep, if_neg hj] using hk
  | _ => exact hk

end Step

theorem mutating {store : Store} {tr : List Label} {s : State}
    (h : mutators.Run (initial store) tr s) : Mutating tr s := by
  refine h.induct (P := Mutating) ?_ ?_
  · refine ⟨?_, ?_, ?_, ?_⟩
    · constructor <;> simp [initial, locks, acquired]
    all_goals simp [initial, locks, acquired]
  · rintro tr s a - hs ⟨ha, hmut⟩
    exact hs.next ha hmut

/-! ## The two ways to leak a lock -/

/-- A lock key exists only while some client is inside an operation on its key,
between the `SETNX` of its `tryLock` and the `DEL` of its `unlock`. -/
def NoLeak (tr : List Label) (s : State) : Prop :=
  ∀ key, (s.store (lockKey key)).isSome →
    ∃ i call, s.clients i = some call ∧ call.operation.key = key ∧ Holds tr i key

/-- A `SETNX` that throws has not created its key, and a `DEL` of a lock key that
throws has deleted it. -/
def CleanFailure (s : State) : Label → Prop
  | .command _ _ (.setnx k _) .error true => s.store k ≠ none
  | .command _ _ (.del k) .error false => ¬ lockPrefix <+: k
  | _ => True

/-- The lock key exists and nobody holds the lock. -/
def Leaked (tr : List Label) (s : State) (key : Bytes) : Prop :=
  (s.store (lockKey key)).isSome ∧ ∀ i, ¬ Holds tr i key

section Step

variable {tr : List Label} {s : State} {a : Label}

/-- A lock that exists after a clean step has a holder, if those that existed
before had one. -/
theorem exists_holds_next (hs : Mutating tr s) (h : Enabled a s) (hC : CleanFailure s a)
    {key : Bytes} (hheld : (s.store (lockKey key)).isSome → ∃ i, Holds tr i key)
    (hkey : ((next a s).store (lockKey key)).isSome) : ∃ i, Holds (tr ++ [a]) i key := by
  -- a holder stays one, unless it deletes the key, and then the key is gone
  have hstay : (s.store (lockKey key)).isSome → ∃ i, Holds (tr ++ [a]) i key := by
    intro hsome
    obtain ⟨i, hi⟩ := hheld hsome
    refine ⟨i, mem_locks_snoc hi ?_⟩
    rintro g r took rfl
    have hgone : took = true := by
      rcases h.2 with rfl | ⟨-, htook⟩
      · by_contra htook
        rw [Bool.not_eq_true] at htook
        subst htook
        exact hC (lockPrefix_lockKey key)
      · exact htook
    subst hgone
    simp [next, Command.effect] at hkey
  rcases store_next (a := a) (s := s) with hst | ⟨i, g, c, r, rfl, hst⟩
  · exact hstay (by rwa [hst] at hkey)
  · by_cases hsome : (s.store (lockKey key)).isSome
    · exact hstay hsome
    · -- the key is new, so this is the `SETNX` of its `tryLock`
      have hnone : s.store (lockKey key) = none := by simpa using hsome
      have hckey : lockKey key = c.key := by
        by_contra hne
        rw [hst, Command.effect_of_ne hne, hnone] at hkey
        exact absurd hkey (by simp)
      obtain ⟨call, hcall, -, hallowed, -⟩ := hs.disciplined.command h
      cases c with
      | setnx k v =>
        obtain rfl : lockKey key = k := hckey
        have hr : r = .integer 1 := by
          rcases h.2 with rfl | ⟨hr, -⟩
          · exact absurd hnone hC
          · simpa [Command.reply, hnone] using hr
        refine ⟨i, ?_⟩
        rw [Holds, locks_snoc, hr]
        simp [Label.lockStep, lockStep]
      | set k v =>
        have hdata : k = call.operation.key := hallowed
        obtain rfl : lockKey key = k := hckey
        exact absurd (hdata ▸ lockPrefix_lockKey key) (hs.disciplined.dataKey i call hcall)
      | del k =>
        obtain rfl : lockKey key = k := hckey
        rw [hst] at hkey
        simp [Command.effect] at hkey
      | get k | keyExists k =>
        rw [hst] at hkey
        exact absurd hkey hsome

/-- A leaked lock stays leaked. -/
theorem Leaked.next {key : Bytes} (hs : Disciplined tr s) (h : Enabled a s)
    (hl : Leaked tr s key) : Leaked (tr ++ [a]) (next a s) key := by
  refine ⟨?_, fun i hi => ?_⟩
  · rcases store_next (a := a) (s := s) with hst | ⟨i, g, c, r, rfl, hst⟩
    · rw [hst]
      exact hl.1
    · rw [hst]
      refine Command.isSome_effect ?_ hl.1
      rintro rfl
      exact hl.2 i (hs.mem_of_del h (lockPrefix_lockKey key))
  · rcases mem_locks_next hi with ⟨hmem, -⟩ | ⟨g, v, n, took, hn, rfl⟩
    · exact hl.2 i hmem
    · have hsome := hl.1
      rw [(hs.acquire h hn).2.1] at hsome
      exact absurd hsome (by simp)

/-- A failure that is not clean leaks a lock. -/
theorem leaked_of_not_cleanFailure (hs : Mutating tr s) (h : Enabled a s)
    (hC : ¬ CleanFailure s a) : ∃ key, Leaked (tr ++ [a]) (next a s) key := by
  unfold CleanFailure at hC
  split at hC
  -- the `SETNX` threw after it had created the key
  · rename_i i g k v
    have hnone : s.store k = none := by simpa using hC
    obtain ⟨call, -, -, hallowed, -⟩ := hs.disciplined.command h
    obtain rfl : k = lockKey call.operation.key := hallowed
    refine ⟨call.operation.key, by simp [next, Command.effect, hnone], fun j hj => ?_⟩
    rcases mem_locks_next hj with ⟨hmem, -⟩ | ⟨g', v', n, took, -, heq⟩
    · have hsome := hs.disciplined.kept j _ hmem
      rw [hnone] at hsome
      exact absurd hsome (by simp)
    · exact absurd heq (by simp)
  -- the `DEL` threw before it had deleted the key
  · rename_i i g k
    have hp : lockPrefix <+: k := not_not.mp hC
    have hmem := hs.disciplined.mem_of_del h hp
    obtain ⟨call, -, rfl⟩ := hs.ownKey i k hmem
    refine ⟨call.operation.key, hs.disciplined.kept i _ hmem, fun j hj => ?_⟩
    rcases mem_locks_next hj with ⟨hmem', hdel⟩ | ⟨g', v', n, took, -, heq⟩
    · obtain rfl := hs.disciplined.unique i j _ hmem hmem'
      exact hdel g .error false hp rfl
    · exact absurd heq (by simp)
  · exact absurd trivial hC

end Step

section Runs

variable {store : Store} {tr : List Label} {s : State}

theorem noLeak_of_runBy (hstore : ∀ key, store (lockKey key) = none)
    (h : mutators.RunBy (fun _ => CleanFailure) (initial store) tr s) : NoLeak tr s := by
  have hheld : ∀ key, (s.store (lockKey key)).isSome → ∃ i, Holds tr i key := by
    refine h.induct (P := fun tr s => ∀ key, (s.store (lockKey key)).isSome →
      ∃ i, Holds tr i key) ?_ ?_
    · intro key hsome
      have hnone : (initial store).store (lockKey key) = none := hstore key
      rw [hnone] at hsome
      exact absurd hsome (by simp)
    · intro tr s a hr hs ha hC key
      exact exists_holds_next (mutating hr.run) ha.1 hC (hs key)
  intro key hsome
  obtain ⟨i, hi⟩ := hheld key hsome
  obtain ⟨call, hcall, hkey⟩ := (mutating h.run).ownKey i _ hi
  exact ⟨i, call, hcall, (List.append_cancel_left hkey).symm, hi⟩

/-- A leaked lock stays leaked in every run of writers, erasers and updaters. -/
theorem leaked_run {pre post : List Label} {u : State} {key : Bytes}
    (hu : mutators.Run (initial store) pre u) (hl : Leaked pre u key)
    (h : mutators.Run u post s) : Leaked (pre ++ post) s key := by
  refine (h.induct (P := fun tr v => mutators.Run (initial store) (pre ++ tr) v ∧
    Leaked (pre ++ tr) v key) ⟨by simpa using hu, by simpa using hl⟩ ?_).2
  rintro tr v a - ⟨hr, hv⟩ ha
  rw [← List.append_assoc]
  exact ⟨.snoc hr ha, hv.next (mutating hr).disciplined ha.1⟩

/-- **When no lock is leaked**: exactly in the runs in which every failure of a
lock command is clean. -/
theorem noLeak_iff (hstore : ∀ key, store (lockKey key) = none)
    (h : mutators.Run (initial store) tr s) :
    NoLeak tr s ↔ mutators.RunBy (fun _ => CleanFailure) (initial store) tr s := by
  refine ⟨fun hno => ?_, noLeak_of_runBy hstore⟩
  refine TransitionSystem.runBy_iff.mpr ⟨h, fun pre a post u htr hu => ?_⟩
  by_contra hC
  subst htr
  -- the lock leaks in this step, and the rest of the run cannot free it
  obtain ⟨u', hu', ha, hpost⟩ := h.split_cons
  obtain rfl := hu.unique hu'
  obtain ⟨key, hl⟩ := leaked_of_not_cleanFailure (mutating hu) ha.1 hC
  have hend := leaked_run (.snoc hu ha) hl hpost
  rw [List.append_assoc, List.singleton_append] at hend
  obtain ⟨i, -, -, -, hi⟩ := hno key hend.1
  exact hend.2 i hi

end Runs

/-! ## A lock that is leaked, and one that is not -/

instance : ∀ (a : Label) (s : State), Decidable (mutators.Enabled a s) :=
  fun a s => inferInstanceAs (Decidable (storage.Enabled a s ∧ a.mutates = true))

/-- The connection breaks after the server has executed the `SETNX`: `write`
returns false, and the lock stays. -/
def leakingRun : List Label :=
  [.call 0 (.write [1] [2]), .getClient 0 false,
    .command 0 0 (.setnx (lockKey [1]) locked) .error true,
    .ret 0 (.write [1] [2]) (.bool false)]

theorem leaks_leakingRun : ¬ ∀ (tr : List Label) (s : State),
    mutators.Run (initial fun _ => none) tr s → NoLeak tr s := by
  intro hall
  have hlegal : mutators.Legal leakingRun (initial fun _ => none) := by decide
  obtain ⟨i, call, hcall, -⟩ := hall _ _ (TransitionSystem.run_of_legal hlegal) [1] (by decide)
  have hidle : (mutators.after leakingRun (initial fun _ => none)).clients i = none := by
    by_cases hi : i = 0 <;>
      simp [leakingRun, next, State.setClient, initial, hi]
  rw [hidle] at hcall
  exact absurd hcall (by simp)

/-- A `write` in which nothing fails. -/
def writeRun (i : ℕ) (key value : Bytes) : List Label :=
  lockRun i (.write key value) 1 ++
    [.getClient i false, .command i 0 (.set key value) .status true, .getClient i false,
      .command i 0 (.del (lockKey key)) (.integer 1) true,
      .ret i (.write key value) (.bool true)]

def Label.succeeds : Label → Bool
  | .command _ _ _ .error _ => false
  | _ => true

theorem Label.succeeds_cleanFailure {s : State} {a : Label} (h : a.succeeds = true) :
    CleanFailure s a := by
  unfold CleanFailure
  split
  · exact absurd h Bool.false_ne_true
  · exact absurd h Bool.false_ne_true
  · trivial

theorem noLeak_iff_writeRun :
    NoLeak (writeRun 0 [1] [2])
      (mutators.after (writeRun 0 [1] [2]) (initial fun _ => none)) := by
  have hlegal : (mutators.restrict fun _ a => a.succeeds = true).Legal (writeRun 0 [1] [2])
      (initial fun _ => none) := by decide
  have hby := TransitionSystem.runBy_of_legal (C := fun _ => CleanFailure)
    (fun _ _ _ => Label.succeeds_cleanFailure) hlegal
  exact (noLeak_iff (fun _ => rfl) hby.run).mpr hby

end RedisStorage
