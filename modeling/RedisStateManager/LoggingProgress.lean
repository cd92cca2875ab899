/-
# Logging calls end

The calls of `Logging` under the factory's mutex and the loggers' own: every access to
the fields and the stream of a logger is made under its `log_mutex_`, but for the
filter's look at `level_`, and `global_logger_` under `logger_mutex_` (`guards`); a
`log_mutex_` is taken last.  So accesses do not meet (`logger_exclusive`), and as a
call takes no mutex that it holds, not even where `setLevel` and the constructor log,
the calls in progress all return after a bounded number of steps (`logging_ends`).
-/
import RedisStateManager.Mutexes
import RedisStateManager.CallBounds
import RedisStateManager.Logging

namespace Logging

open Redis (Bytes ascii)
open Program Service

/-! ## The mutexes -/

def lockAct : Action → LockAct Mutex
  | .lock m => .lock m
  | .unlock m => .unlock m
  | _ => .other

/-- The mutex an access is made under. -/
def guards : Action → Mutex → Prop
  | .storeLevel k _, m | .openFile k _, m | .storeUseFile k _, m | .tellp k, m | .closeFile k, m
  | .rename k _, m | .compose k _ _ _, m | .testFile k, m | .put k _ _, m => m = .logMutex k
  | .testGlobal, m | .loadGlobal, m | .storeGlobal _, m => m = .loggerMutex
  | .lock _, _ | .unlock _, _ | .construct .., _ | .loadLevel _, _ | .cerr _, _ => False

def Mutex.rank : Mutex → ℕ
  | loggerMutex => 0
  | logMutex _ => 1

@[simp] theorem owner_setLogger (s : Shared) (k : ℕ) (logger : DefaultLogger) :
    (s.setLogger k logger).owner = s.owner :=
  rfl

@[simp] theorem owner_openFile (s : Shared) (k : ℕ) (path : Bytes) :
    (s.openFile k path).owner = s.owner := by
  unfold Shared.openFile
  split <;> rfl

@[simp] theorem owner_rename (s : Shared) (path : Bytes) : (s.rename path).owner = s.owner := by
  unfold Shared.rename
  split <;> rfl

@[simp] theorem owner_putFile (s : Shared) (k : ℕ) (bytes : Bytes) :
    (s.putFile k bytes).owner = s.owner := by
  unfold Shared.putFile
  split <;> rfl

/-- Only the mutexes' own actions move them. -/
theorem owner_perform {a : Action} (h : lockAct a = .other) (i : ℕ) (s : Shared) (choice : Choice) :
    (perform i s choice a).owner = s.owner := by
  cases a with
  | lock m => exact absurd h (by simp [lockAct])
  | unlock m => exact absurd h (by simp [lockAct])
  | openFile k path =>
    by_cases hfailed : choice = .failed
    · rw [perform, if_pos hfailed]
      rfl
    · rw [perform, if_neg hfailed]
      exact owner_openFile s k path
  | rename k path =>
    by_cases hfailed : choice = .failed
    · rw [perform, if_pos hfailed]
    · rw [perform, if_neg hfailed]
      exact owner_rename s path
  | put k toFile bytes =>
    cases toFile with
    | true =>
      cases choice with
      | taken n => exact owner_putFile s k _
      | _ => rfl
    | false => cases choice <;> rfl
  | _ => rfl

/-- A mutex stays with its owner unless it is locked or unlocked. -/
theorem owner_perform_of_ne {i : ℕ} {s : Shared} {m : Mutex} {a : Action}
    (hlock : a ≠ .lock m) (hunlock : a ≠ .unlock m) (choice : Choice) :
    (perform i s choice a).owner m = s.owner m := by
  cases a with
  | lock n => exact Function.update_of_ne (fun h => hlock (congrArg _ h.symm)) ..
  | unlock n => exact Function.update_of_ne (fun h => hunlock (congrArg _ h.symm)) ..
  | _ => exact congrFun (owner_perform rfl i s choice) m

def mutexes : loggers.Mutexes Mutex where
  owner := Shared.owner
  kind := lockAct
  guards := guards
  rank := Mutex.rank
  bound := 1
  rank_le m := by cases m <;> simp [Mutex.rank]
  free := by
    intro i s choice a m hposs hkind
    cases a with
    | lock n =>
      obtain rfl : n = m := LockAct.lock.inj hkind
      cases n with
      | loggerMutex => exact hposs.2
      | logMutex k => exact hposs.2.1
    | _ => exact absurd hkind (by simp [lockAct])
  owner_lock := by
    intro i s choice a m hkind
    cases a with
    | lock n =>
      obtain rfl : n = m := LockAct.lock.inj hkind
      rfl
    | _ => exact absurd hkind (by simp [lockAct])
  owner_unlock := by
    intro i s choice a m hkind
    cases a with
    | unlock n =>
      obtain rfl : n = m := LockAct.unlock.inj hkind
      rfl
    | _ => exact absurd hkind (by simp [lockAct])
  owner_other := by
    intro i s choice a hkind
    exact owner_perform hkind i s choice

section Programs

variable {k : ℕ} {t : Mutex → Bool} {post : Unit → (Mutex → Bool) → Prop}

/-- The call holds no `log_mutex_`. -/
def Outside (t : Mutex → Bool) : Prop := ∀ k, t (.logMutex k) = false

theorem outside_nothing : Outside Mutexes.nothing := fun _ => rfl

/-- The mutexes of a call that has taken the one of logger `k`. -/
def within (k : ℕ) (t : Mutex → Bool) : Mutex → Bool := Function.update t (.logMutex k) true

theorem within_self : within k t (.logMutex k) = true := Function.update_self ..

theorem unlock_within (ht : Outside t) : Function.update (within k t) (.logMutex k) false = t := by
  unfold within
  rw [Function.update_idem, Function.update_eq_self_iff]
  exact (ht k).symm

theorem lock_allowed (ht : Outside t) : mutexes.protocol.Allowed t (.lock (.logMutex k)) := by
  refine ⟨fun m hm => ?_, fun _ h => h.elim⟩
  cases m with
  | loggerMutex => exact Nat.zero_lt_one
  | logMutex j => exact absurd hm (by simp [ht j])

theorem access_allowed {a : Action} (hkind : lockAct a = .other)
    (h : ∀ m, guards a m → t m = true) : mutexes.protocol.Allowed t a := by
  refine ⟨?_, h⟩
  show mutexes.AllowedAct t (lockAct a)
  rw [hkind]
  trivial

/-- An access to logger `k`, under its mutex. -/
theorem held_allowed {a : Action} (hkind : lockAct a = .other)
    (h : ∀ m, guards a m → m = .logMutex k) (hk : t (.logMutex k) = true) :
    mutexes.protocol.Allowed t a :=
  access_allowed hkind fun m hm => (h m hm) ▸ hk

theorem unlock_mutexes (ht : Outside t) (h : post () t) :
    (issue (.unlock (.logMutex k))).Obeys mutexes.protocol post (within k t) := by
  refine ⟨⟨within_self, fun _ h => h.elim⟩, fun _ _ => ?_⟩
  show post () (Function.update (within k t) (.logMutex k) false)
  rw [unlock_within ht]
  exact h

theorem emit_mutexes (hk : t (.logMutex k) = true) (h : post () t) (toFile : Bool) (fuel : ℕ)
    (bytes : Bytes) : (emit k toFile fuel bytes).Obeys mutexes.protocol post t := by
  induction fuel generalizing bytes with
  | zero => exact h
  | succ fuel ih =>
    unfold emit
    split
    · exact h
    · refine obeys_act_ret_bind.mpr ⟨held_allowed rfl (fun _ h => h) hk, fun taken _ => ?_⟩
      split
      · exact h
      · exact ih _

theorem log_mutexes (ht : Outside t) (h : post () t) (level message context : Bytes) :
    (log k level message context).Obeys mutexes.protocol post t := by
  refine obeys_act_ret_bind.mpr ⟨lock_allowed ht, fun _ _ => ?_⟩
  refine obeys_act_ret_bind.mpr ⟨held_allowed rfl (fun _ h => h) within_self, fun now _ => ?_⟩
  refine obeys_act_ret_bind.mpr ⟨held_allowed rfl (fun _ h => h) within_self, fun toFile _ => ?_⟩
  exact obeys_bind.mpr (emit_mutexes within_self (unlock_mutexes ht h) _ _ _)

theorem logAt_mutexes (ht : Outside t) (h : post () t) (level : LogLevel)
    (message context : Bytes) :
    (logAt k level message context).Obeys mutexes.protocol post t := by
  refine obeys_act_ret_bind.mpr ⟨access_allowed rfl (fun _ h => h.elim), fun own _ => ?_⟩
  split
  · exact h
  · exact log_mutexes ht h _ _ _

theorem setLevel_mutexes (ht : Outside t) (h : post () t) (level : LogLevel) :
    (setLevel k level).Obeys mutexes.protocol post t := by
  refine obeys_bind.mpr (logAt_mutexes ht ?_ _ _ _)
  refine obeys_act_ret_bind.mpr ⟨lock_allowed ht, fun _ _ => ?_⟩
  refine obeys_act_ret_bind.mpr ⟨held_allowed rfl (fun _ h => h) within_self, fun _ _ => ?_⟩
  exact unlock_mutexes ht h

theorem rotate_mutexes (hk : t (.logMutex k) = true) (h : post () t) (outputFile : Bytes) :
    (rotate k outputFile).Obeys mutexes.protocol post t := by
  refine obeys_act_ret_bind.mpr ⟨held_allowed rfl (fun _ h => h) hk, fun _ _ => ?_⟩
  refine obeys_act_ret_bind.mpr ⟨held_allowed rfl (fun _ h => h) hk, fun _ _ => ?_⟩
  refine obeys_act_ret_bind.mpr ⟨held_allowed rfl (fun _ h => h) hk, fun opened _ => ?_⟩
  cases opened with
  | true => exact h
  | false =>
    exact ⟨held_allowed rfl (fun _ h => h) hk, fun _ _ =>
      ⟨access_allowed rfl (fun _ h => h.elim), fun _ _ => h⟩⟩

theorem openOutput_mutexes (hk : t (.logMutex k) = true) (h : post () t) (outputFile : Bytes) :
    (openOutput k outputFile).Obeys mutexes.protocol post t := by
  refine obeys_act_ret_bind.mpr ⟨held_allowed rfl (fun _ h => h) hk, fun opened _ => ?_⟩
  cases opened with
  | true =>
    refine ⟨held_allowed rfl (fun _ h => h) hk, fun _ _ => ?_⟩
    refine ⟨held_allowed rfl (fun _ h => h) hk, fun size _ => ?_⟩
    show (if size > maxSize then rotate k outputFile else ret ()).Obeys _ _ _
    split
    · exact rotate_mutexes hk h outputFile
    · exact h
  | false =>
    exact ⟨held_allowed rfl (fun _ h => h) hk, fun _ _ =>
      ⟨access_allowed rfl (fun _ h => h.elim), fun _ _ => h⟩⟩

theorem setOutputFile_mutexes (ht : Outside t) (h : post () t) (outputFile : Bytes) :
    (setOutputFile k outputFile).Obeys mutexes.protocol post t := by
  refine obeys_act_ret_bind.mpr ⟨lock_allowed ht, fun _ _ => ?_⟩
  exact obeys_bind.mpr (openOutput_mutexes within_self (unlock_mutexes ht h) outputFile)

theorem newLogger_mutexes (ht : Outside t) {post : ℕ → (Mutex → Bool) → Prop}
    (h : ∀ k, post k t) (level : LogLevel) (outputFile : Bytes) :
    (newLogger level outputFile).Obeys mutexes.protocol post t := by
  refine obeys_act_ret_bind.mpr ⟨access_allowed rfl (fun _ h => h.elim), fun k _ => ?_⟩
  split
  · exact obeys_bind.mpr (logAt_mutexes ht (h k) _ _ _)
  · refine obeys_bind.mpr (setOutputFile_mutexes ht ?_ outputFile)
    exact obeys_bind.mpr (logAt_mutexes ht (h k) _ _ _)

/-- The mutexes of a call that holds the factory's. -/
def inFactory : Mutex → Bool := Function.update Mutexes.nothing .loggerMutex true

theorem outside_inFactory : Outside inFactory := fun _ => rfl

theorem factory_allowed {a : Action} (hkind : lockAct a = .other)
    (h : ∀ m, guards a m → m = .loggerMutex) : mutexes.protocol.Allowed inFactory a :=
  access_allowed hkind fun m hm => (h m hm) ▸ rfl

theorem lockFactory_allowed : mutexes.protocol.Allowed Mutexes.nothing (.lock .loggerMutex) :=
  ⟨fun _ hm => absurd hm Bool.false_ne_true, fun _ h => h.elim⟩

theorem unlockFactory_mutexes (h : post () Mutexes.nothing) :
    (issue (.unlock .loggerMutex)).Obeys mutexes.protocol post inFactory := by
  refine ⟨⟨rfl, fun _ h => h.elim⟩, fun _ _ => ?_⟩
  show post () (Function.update inFactory .loggerMutex false)
  have hback : Function.update inFactory .loggerMutex false = Mutexes.nothing := by
    unfold inFactory
    rw [Function.update_idem, Function.update_eq_self_iff]
    rfl
  rw [hback]
  exact h

theorem findLogger_mutexes {post : ℕ → (Mutex → Bool) → Prop} (h : ∀ k, post k inFactory) :
    findLogger.Obeys mutexes.protocol post inFactory := by
  have hload : (issue .loadGlobal).Obeys mutexes.protocol post inFactory :=
    ⟨factory_allowed rfl (fun _ h => h), fun k _ => h k⟩
  refine obeys_act_ret_bind.mpr ⟨factory_allowed rfl (fun _ h => h), fun null _ => ?_⟩
  cases null with
  | true =>
    refine obeys_bind.mpr (newLogger_mutexes outside_inFactory (fun k => ?_) _ _)
    exact obeys_act_ret_bind.mpr ⟨factory_allowed rfl (fun _ h => h), fun _ _ => hload⟩
  | false => exact hload

theorem getLogger_mutexes {post : ℕ → (Mutex → Bool) → Prop}
    (h : ∀ k, post k Mutexes.nothing) :
    getLogger.Obeys mutexes.protocol post Mutexes.nothing := by
  refine obeys_act_ret_bind.mpr ⟨lockFactory_allowed, fun _ _ => ?_⟩
  refine obeys_bind.mpr (findLogger_mutexes fun k => ?_)
  exact obeys_bind.mpr (unlockFactory_mutexes (h k))

theorem setGlobalLevel_mutexes (h : post () Mutexes.nothing) (level : LogLevel) :
    (setGlobalLevel level).Obeys mutexes.protocol post Mutexes.nothing := by
  refine obeys_bind.mpr (getLogger_mutexes fun k => ?_)
  refine obeys_act_ret_bind.mpr ⟨lockFactory_allowed, fun _ _ => ?_⟩
  exact obeys_bind.mpr (setLevel_mutexes outside_inFactory (unlockFactory_mutexes h) level)

theorem setLogger_mutexes (h : post () Mutexes.nothing) (logger : Option ℕ) :
    (setLogger logger).Obeys mutexes.protocol post Mutexes.nothing := by
  refine obeys_act_ret_bind.mpr ⟨lockFactory_allowed, fun _ _ => ?_⟩
  cases logger with
  | some k =>
    exact obeys_act_ret_bind.mpr ⟨factory_allowed rfl (fun _ h => h), fun _ _ =>
      unlockFactory_mutexes h⟩
  | none => exact unlockFactory_mutexes h

end Programs

theorem mutexes_disciplined : mutexes.Disciplined := by
  intro op
  cases op with
  | newLogger level outputFile =>
    refine obeys_bind.mpr (newLogger_mutexes outside_nothing ?_ level outputFile)
    exact fun _ => rfl
  | setLevel k level => exact obeys_bind.mpr (setLevel_mutexes outside_nothing rfl level)
  | setLevelString k level => exact obeys_bind.mpr (setLevel_mutexes outside_nothing rfl _)
  | log k level message context =>
    exact obeys_bind.mpr (log_mutexes outside_nothing rfl level message context)
  | logAt k level message context =>
    exact obeys_bind.mpr (logAt_mutexes outside_nothing rfl level message context)
  | setOutputFile k outputFile =>
    exact obeys_bind.mpr (setOutputFile_mutexes outside_nothing rfl outputFile)
  | getLogger => exact obeys_bind.mpr (getLogger_mutexes fun _ => rfl)
  | setGlobalLevel level => exact obeys_bind.mpr (setGlobalLevel_mutexes rfl level)
  | setGlobalLevelString level => exact obeys_bind.mpr (setGlobalLevel_mutexes rfl _)
  | setLogger logger => exact obeys_bind.mpr (setLogger_mutexes rfl logger)

variable {directory : Bytes → Option ℕ} {created : ℕ} {contents : ℕ → Bytes} {tr : List Label}
  {s : State}

theorem mutexes_holding (h : loggers.system.Run (initial directory created contents) tr s) :
    mutexes.Holding s :=
  Mutexes.holding mutexes_disciplined (fun _ => rfl) h

/-- **A logger is not touched by two threads at once**: a thread about to write an entry, to
change the level, or to open, rotate or close the file of a logger owns its `log_mutex_`, one
about to look at `global_logger_` owns `logger_mutex_`, and no other thread is about to make
such an access. -/
theorem logger_exclusive (h : loggers.system.Run (initial directory created contents) tr s)
    {i : ℕ} {a : Action} (ha : s.head? i = some a) {m : Mutex} (hm : guards a m) :
    s.shared.owner m = some i ∧ ∀ j b, s.head? j = some b → guards b m → j = i :=
  ⟨(mutexes_holding h).owner_of_guards ha hm,
    fun _ _ hb hmb => (mutexes_holding h).exclusive hb ha hmb hm⟩

/-! ## What a call knows of the loggers -/

/-- The loggers a call has got from the constructor or the factory, those whose stream it has
opened, and whether it has seen the factory's logger. -/
structure Known where
  got : List ℕ
  opened : List ℕ
  found : Bool

/-- The loggers that a call is given. -/
def Operation.given : Operation → List ℕ
  | setLevel k _ | setLevelString k _ | log k _ _ _ | logAt k _ _ _ | setOutputFile k _ => [k]
  | setLogger logger => logger.toList
  | newLogger .. | getLogger | setGlobalLevel _ | setGlobalLevelString _ => []

/-- A call uses the loggers `given` and those it has got, and streams it has opened. -/
def pointers (given : List ℕ) : Protocol Action Answer Known where
  Allowed t
    | .lock (.logMutex k) | .loadLevel k | .openFile k _ | .storeGlobal k => k ∈ given ++ t.got
    | .tellp k | .closeFile k => k ∈ t.opened
    | .loadGlobal => t.found = true
    | _ => True
  Possible _ _ _ := True
  after t
    | .construct .., (k : ℕ) | .loadGlobal, (k : ℕ) => { t with got := k :: t.got }
    | .openFile k _, _ => { t with opened := k :: t.opened }
    | .testGlobal, (null : Bool) => { t with found := t.found || !null }
    | .storeGlobal _, _ => { t with found := true }
    | _, _ => t

section Pointers

variable {k : ℕ} {given : List ℕ} {t : Known}

theorem emit_pointers {post : Unit → Known → Prop} (h : post () t) (toFile : Bool) (fuel : ℕ)
    (bytes : Bytes) : (emit k toFile fuel bytes).Obeys (pointers given) post t := by
  induction fuel generalizing bytes with
  | zero => exact h
  | succ fuel ih =>
    unfold emit
    split
    · exact h
    · refine obeys_act_ret_bind.mpr ⟨trivial, fun taken _ => ?_⟩
      split
      · exact h
      · exact ih _

theorem log_pointers {post : Unit → Known → Prop} (hk : k ∈ given ++ t.got) (h : post () t)
    (level message context : Bytes) :
    (log k level message context).Obeys (pointers given) post t := by
  refine obeys_act_ret_bind.mpr ⟨hk, fun _ _ => ?_⟩
  refine obeys_act_ret_bind.mpr ⟨trivial, fun now _ => ?_⟩
  refine obeys_act_ret_bind.mpr ⟨trivial, fun toFile _ => ?_⟩
  exact obeys_bind.mpr (emit_pointers ⟨trivial, fun _ _ => h⟩ _ _ _)

theorem logAt_pointers {post : Unit → Known → Prop} (hk : k ∈ given ++ t.got) (h : post () t)
    (level : LogLevel) (message context : Bytes) :
    (logAt k level message context).Obeys (pointers given) post t := by
  refine obeys_act_ret_bind.mpr ⟨hk, fun own _ => ?_⟩
  split
  · exact h
  · exact log_pointers hk h _ _ _

theorem setLevel_pointers {post : Unit → Known → Prop} (hk : k ∈ given ++ t.got) (h : post () t)
    (level : LogLevel) : (setLevel k level).Obeys (pointers given) post t := by
  refine obeys_bind.mpr (logAt_pointers hk ?_ _ _ _)
  exact obeys_act_ret_bind.mpr ⟨hk, fun _ _ => ⟨trivial, fun _ _ => ⟨trivial, fun _ _ => h⟩⟩⟩

theorem rotate_pointers {post : Unit → Known → Prop} (hk : k ∈ given ++ t.got)
    (hopened : k ∈ t.opened) (h : ∀ t', t'.got = t.got → post () t') (outputFile : Bytes) :
    (rotate k outputFile).Obeys (pointers given) post t := by
  refine obeys_act_ret_bind.mpr ⟨hopened, fun _ _ => ?_⟩
  refine obeys_act_ret_bind.mpr ⟨trivial, fun _ _ => ?_⟩
  refine obeys_act_ret_bind.mpr ⟨hk, fun opened _ => ?_⟩
  cases opened with
  | true => exact h _ rfl
  | false => exact ⟨trivial, fun _ _ => ⟨trivial, fun _ _ => h _ rfl⟩⟩

theorem openOutput_pointers {post : Unit → Known → Prop} (hk : k ∈ given ++ t.got)
    (h : ∀ t', t'.got = t.got → post () t') (outputFile : Bytes) :
    (openOutput k outputFile).Obeys (pointers given) post t := by
  refine obeys_act_ret_bind.mpr ⟨hk, fun opened _ => ?_⟩
  cases opened with
  | true =>
    refine ⟨trivial, fun _ _ => ⟨List.mem_cons_self, fun size _ => ?_⟩⟩
    show (if size > maxSize then rotate k outputFile else ret ()).Obeys (pointers given) post
      { t with opened := k :: t.opened }
    split
    · exact rotate_pointers (t := { t with opened := k :: t.opened }) hk List.mem_cons_self h
        outputFile
    · exact h _ rfl
  | false => exact ⟨trivial, fun _ _ => ⟨trivial, fun _ _ => h _ rfl⟩⟩

theorem setOutputFile_pointers {post : Unit → Known → Prop} (hk : k ∈ given ++ t.got)
    (h : ∀ t', t'.got = t.got → post () t') (outputFile : Bytes) :
    (setOutputFile k outputFile).Obeys (pointers given) post t := by
  refine obeys_act_ret_bind.mpr ⟨hk, fun _ _ => ?_⟩
  refine obeys_bind.mpr (openOutput_pointers hk (fun t' ht' => ?_) outputFile)
  exact ⟨trivial, fun _ _ => h t' ht'⟩

theorem newLogger_pointers {post : ℕ → Known → Prop}
    (h : ∀ k t', t'.got = k :: t.got → post k t') (level : LogLevel) (outputFile : Bytes) :
    (newLogger level outputFile).Obeys (pointers given) post t := by
  refine obeys_act_ret_bind.mpr ⟨trivial, fun k _ => ?_⟩
  have hlog (t' : Known) (ht' : t'.got = k :: t.got) :
      (logAt k .trace startingMessage loggerName >>= fun _ => ret k).Obeys (pointers given)
        post t' := by
    refine obeys_bind.mpr (logAt_pointers ?_ (h k t' ht') _ _ _)
    rw [ht']
    exact List.mem_append_right _ List.mem_cons_self
  split
  · exact hlog _ rfl
  · refine obeys_bind.mpr (setOutputFile_pointers ?_ (fun t' ht' => hlog t' ht') outputFile)
    exact List.mem_append_right _ List.mem_cons_self

theorem findLogger_pointers {post : ℕ → Known → Prop} (h : ∀ k t', k ∈ t'.got → post k t') :
    findLogger.Obeys (pointers given) post t := by
  have hload (t' : Known) (ht' : t'.found = true) :
      (issue .loadGlobal).Obeys (pointers given) post t' :=
    ⟨ht', fun k _ => h k _ List.mem_cons_self⟩
  refine obeys_act_ret_bind.mpr ⟨trivial, fun null _ => ?_⟩
  cases null with
  | true =>
    refine obeys_bind.mpr (newLogger_pointers (fun k t' ht' => ?_) _ _)
    refine obeys_act_ret_bind.mpr ⟨?_, fun _ _ => hload _ rfl⟩
    show k ∈ given ++ t'.got
    rw [ht']
    exact List.mem_append_right _ List.mem_cons_self
  | false => exact hload _ (Bool.or_true _)

theorem getLogger_pointers {post : ℕ → Known → Prop} (h : ∀ k t', k ∈ t'.got → post k t') :
    getLogger.Obeys (pointers given) post t := by
  refine obeys_act_ret_bind.mpr ⟨trivial, fun _ _ => ?_⟩
  refine obeys_bind.mpr (findLogger_pointers fun k t' hk => ?_)
  exact ⟨trivial, fun _ _ => h k _ hk⟩

theorem setGlobalLevel_pointers {post : Unit → Known → Prop} (h : ∀ t', post () t')
    (level : LogLevel) : (setGlobalLevel level).Obeys (pointers given) post t := by
  refine obeys_bind.mpr (getLogger_pointers fun k t' hk => ?_)
  refine obeys_act_ret_bind.mpr ⟨trivial, fun _ _ => ?_⟩
  exact obeys_bind.mpr (setLevel_pointers (List.mem_append_right _ hk)
    ⟨trivial, fun _ _ => h _⟩ level)

theorem setLogger_pointers {post : Unit → Known → Prop} (h : ∀ t', post () t')
    (logger : Option ℕ) (hgiven : ∀ k ∈ logger, k ∈ given) :
    (setLogger logger).Obeys (pointers given) post t := by
  refine obeys_act_ret_bind.mpr ⟨trivial, fun _ _ => ?_⟩
  cases logger with
  | some k =>
    refine obeys_act_ret_bind.mpr ⟨?_, fun _ _ => ⟨trivial, fun _ _ => h _⟩⟩
    exact List.mem_append_left _ (hgiven k rfl)
  | none => exact ⟨trivial, fun _ _ => h _⟩

end Pointers

def pointerDiscipline : loggers.Discipline Known where
  protocol op := pointers op.given
  start := ⟨[], [], false⟩
  Post _ _ _ := True
  obeys op := by
    have hgiven (k : ℕ) (l : List ℕ) : k ∈ [k] ++ l := List.mem_cons_self
    cases op with
    | newLogger level outputFile =>
      exact obeys_bind.mpr (newLogger_pointers (fun _ _ _ => trivial) level outputFile)
    | setLevel k level => exact obeys_bind.mpr (setLevel_pointers (hgiven k _) trivial level)
    | setLevelString k level => exact obeys_bind.mpr (setLevel_pointers (hgiven k _) trivial _)
    | log k level message context =>
      exact obeys_bind.mpr (log_pointers (hgiven k _) trivial level message context)
    | logAt k level message context =>
      exact obeys_bind.mpr (logAt_pointers (hgiven k _) trivial level message context)
    | setOutputFile k outputFile =>
      exact obeys_bind.mpr (setOutputFile_pointers (hgiven k _) (fun _ _ => trivial) outputFile)
    | getLogger => exact obeys_bind.mpr (getLogger_pointers fun _ _ _ => trivial)
    | setGlobalLevel level =>
      exact obeys_bind.mpr (setGlobalLevel_pointers (fun _ => trivial) level)
    | setGlobalLevelString level =>
      exact obeys_bind.mpr (setGlobalLevel_pointers (fun _ => trivial) _)
    | setLogger logger =>
      refine obeys_bind.mpr (setLogger_pointers (fun _ => trivial) logger fun k hk => ?_)
      exact Option.mem_toList.mpr hk

/-- What the call knows is so. -/
def Knows (_ : Operation) (_ : ℕ) (t : Known) (s : Shared) : Prop :=
  (∀ k ∈ t.got, k < s.made) ∧ (∀ k ∈ t.opened, k < s.made ∧ (s.stream? k).isSome = true) ∧
    (t.found = true → s.globalLogger.isSome = true)

/-- The factory's logger has been made. -/
def Shared.GlobalMade (s : Shared) : Prop := ∀ k ∈ s.globalLogger, k < s.made

/-! ### What the actions leave alone -/

/-- No logger is unmade, and none loses its stream. -/
structure Extends (s s' : Shared) : Prop where
  made : s.made ≤ s'.made
  stream : ∀ k < s.made, (s.stream? k).isSome = true → (s'.stream? k).isSome = true
  global : s.globalLogger.isSome = true → s'.globalLogger.isSome = true

section Extends

variable {s : Shared}

theorem Extends.of_eq {s' : Shared} (hmade : s'.made = s.made) (hstream : s'.stream? = s.stream?)
    (hglobal : s'.globalLogger = s.globalLogger) : Extends s s' :=
  ⟨hmade ▸ le_rfl, fun k _ h => by rw [hstream]; exact h, fun h => by rw [hglobal]; exact h⟩

theorem stream?_setLogger (k j : ℕ) (logger : DefaultLogger) :
    (s.setLogger k logger).stream? j = if j = k then logger.file_stream_ else s.stream? j := by
  unfold Shared.stream? Shared.setLogger
  by_cases hj : j = k
  · subst hj
    simp
  · simp [hj]

/-- A logger is given a stream, or keeps the one it has. -/
theorem Extends.setLogger {k : ℕ} {logger : DefaultLogger}
    (h : (s.stream? k).isSome = true → logger.file_stream_.isSome = true) :
    Extends s (s.setLogger k logger) := by
  refine ⟨le_rfl, fun j _ hj => ?_, id⟩
  rw [stream?_setLogger]
  split
  · next hjk =>
    subst hjk
    exact h hj
  · exact hj

theorem Extends.openFile (k : ℕ) (path : Bytes) : Extends s (s.openFile k path) := by
  unfold Shared.openFile
  split
  · exact Extends.setLogger fun _ => rfl
  · have hset : Extends s (s.setLogger k
        { s.loggers k with file_stream_ := some ⟨path, s.created, true, true⟩ }) :=
      Extends.setLogger fun _ => rfl
    exact ⟨hset.made, hset.stream, hset.global⟩

theorem Extends.mapStream (k : ℕ) (f : Stream → Stream) : Extends s (s.mapStream k f) :=
  Extends.setLogger fun h => by simpa using h

theorem extends_perform (i : ℕ) (choice : Choice) (a : Action) :
    Extends s (perform i s choice a) := by
  cases a with
  | construct level outputFile =>
    refine ⟨Nat.le_succ _, fun k hk h => ?_, id⟩
    show ((s.setLogger s.made _).stream? k).isSome = true
    rw [stream?_setLogger, if_neg (Nat.ne_of_lt hk)]
    exact h
  | storeLevel k level => exact Extends.setLogger id
  | storeUseFile k useFile => exact Extends.setLogger id
  | openFile k path =>
    by_cases hfailed : choice = .failed
    · rw [perform, if_pos hfailed]
      exact Extends.setLogger fun _ => rfl
    · rw [perform, if_neg hfailed]
      exact Extends.openFile k path
  | closeFile k => exact Extends.mapStream k _
  | rename k path =>
    by_cases hfailed : choice = .failed
    · rw [perform, if_pos hfailed]
      exact Extends.of_eq rfl rfl rfl
    · rw [perform, if_neg hfailed, Shared.rename]
      split <;> exact Extends.of_eq rfl rfl rfl
  | put k toFile bytes =>
    cases toFile with
    | true =>
      cases choice with
      | taken n =>
        show Extends s (s.putFile k (bytes.take n))
        rw [Shared.putFile]
        split <;> exact Extends.of_eq rfl rfl rfl
      | _ => exact Extends.mapStream k _
    | false => cases choice <;> exact Extends.of_eq rfl rfl rfl
  | storeGlobal k => exact ⟨le_rfl, fun _ _ h => h, fun _ => rfl⟩
  | _ => exact Extends.of_eq rfl rfl rfl

end Extends

/-- Only storing a logger in the factory changes the factory's logger. -/
theorem globalLogger_perform {s : Shared} {a : Action} (ha : ∀ k, a ≠ .storeGlobal k) (i : ℕ)
    (choice : Choice) : (perform i s choice a).globalLogger = s.globalLogger := by
  cases a with
  | storeGlobal k => exact absurd rfl (ha k)
  | openFile k path =>
    by_cases hfailed : choice = .failed
    · rw [perform, if_pos hfailed]
      rfl
    · rw [perform, if_neg hfailed, Shared.openFile]
      split <;> rfl
  | rename k path =>
    by_cases hfailed : choice = .failed
    · rw [perform, if_pos hfailed]
    · rw [perform, if_neg hfailed, Shared.rename]
      split <;> rfl
  | put k toFile bytes =>
    cases toFile with
    | true =>
      cases choice with
      | taken n =>
        show (s.putFile k _).globalLogger = _
        rw [Shared.putFile]
        split <;> rfl
      | _ => rfl
    | false => cases choice <;> rfl
  | _ => rfl

theorem globalMade_perform {i : ℕ} {s : Shared} {choice : Choice} {a : Action}
    (hposs : loggers.Possible i s choice a) (hs : s.GlobalMade) :
    (perform i s choice a).GlobalMade := by
  intro k hk
  by_cases hstore : ∃ j, a = .storeGlobal j
  · obtain ⟨j, rfl⟩ := hstore
    obtain rfl : j = k := Option.some.inj hk
    exact hposs.2
  · rw [globalLogger_perform (fun j hj => hstore ⟨j, hj⟩)] at hk
    exact lt_of_lt_of_le (hs k hk) (extends_perform i choice a).made

theorem globalMade (h : loggers.system.Run (initial directory created contents) tr s) :
    s.shared.GlobalMade := by
  refine h.invariant (I := fun s => s.shared.GlobalMade) (fun k hk => nomatch hk) ?_
  intro a s hs ha
  cases a with
  | act i b choice => exact globalMade_perform ha.2 hs
  | _ => exact hs

/-- What is known stays so. -/
theorem Knows.mono {op : Operation} {i : ℕ} {t : Known} {s s' : Shared} (h : Knows op i t s)
    (hext : Extends s s') : Knows op i t s' :=
  ⟨fun k hk => lt_of_lt_of_le (h.1 k hk) hext.made,
    fun k hk => ⟨lt_of_lt_of_le (h.2.1 k hk).1 hext.made,
      hext.stream k (h.2.1 k hk).1 (h.2.1 k hk).2⟩,
    fun hf => hext.global (h.2.2 hf)⟩

theorem knows_keeps :
    pointerDiscipline.Keeps Knows fun s _ => s.shared.GlobalMade where
  start _ _ _ := ⟨fun _ h => absurd h List.not_mem_nil, fun _ h => absurd h List.not_mem_nil,
    fun h => absurd h Bool.false_ne_true⟩
  own s i call t b choice _ _ ht _ hposs hglobal := by
    refine ⟨trivial, ?_⟩
    have hold := ht.mono (extends_perform (s := s.shared) i choice b)
    cases b with
    | construct level outputFile =>
      refine ⟨fun k hk => ?_, hold.2⟩
      rcases List.mem_cons.mp hk with rfl | hk
      · exact Nat.lt_succ_self _
      · exact hold.1 k hk
    | loadGlobal =>
      refine ⟨fun k hk => ?_, hold.2⟩
      rcases List.mem_cons.mp hk with hk | hk
      · obtain ⟨g, hg⟩ := Option.isSome_iff_exists.mp hposs.2
        have hkg : k = g := by rw [hk]; exact congrArg (·.getD 0) hg
        rw [hkg]
        exact hglobal g hg
      · exact hold.1 k hk
    | openFile k path =>
      refine ⟨hold.1, fun j hj => ?_, hold.2.2⟩
      rcases List.mem_cons.mp hj with rfl | hj
      · refine ⟨lt_of_lt_of_le hposs.2 (extends_perform i choice _).made, ?_⟩
        show ((perform i s.shared choice (.openFile j path)).stream? j).isSome = true
        by_cases hfailed : choice = .failed
        · rw [perform, if_pos hfailed, stream?_setLogger, if_pos rfl]
          rfl
        · rw [perform, if_neg hfailed, Shared.openFile]
          split
          · rw [stream?_setLogger, if_pos rfl]
            rfl
          · show ((s.shared.setLogger j _).stream? j).isSome = true
            rw [stream?_setLogger, if_pos rfl]
            rfl
      · exact hold.2.1 j hj
    | testGlobal =>
      refine ⟨hold.1, hold.2.1, fun hf => ?_⟩
      rcases (Bool.or_eq_true _ _).mp hf with hf | hf
      · exact hold.2.2 hf
      · have hnull : s.shared.globalLogger.isNone = false := (Bool.not_eq_true' _).mp hf
        show s.shared.globalLogger.isSome = true
        cases hglobal : s.shared.globalLogger with
        | none => exact absurd (hglobal ▸ hnull) (by decide)
        | some g => rfl
    | storeGlobal k => exact ⟨hold.1, hold.2.1, fun _ => rfl⟩
    | _ => exact hold
  other s i j call call' t u b choice _ _ _ ht _ _ _ _ _ := ht.mono (extends_perform j choice b)

/-! ## The calls end -/

section Bounds

variable {k : ℕ}

theorem emit_within (toFile : Bool) (fuel : ℕ) (bytes : Bytes) :
    (emit k toFile fuel bytes).Within fuel := by
  induction fuel generalizing bytes with
  | zero => exact within_ret () 0
  | succ fuel ih =>
    unfold emit
    split
    · exact within_ret () _
    · refine within_act_ret_bind fun taken => ?_
      split
      · exact within_ret () fuel
      · exact ih _

/-- The most actions a `log` issues: each byte may be put by itself. -/
def logBound (level message context : Bytes) : ℕ :=
  37 + level.length + message.length + context.length

theorem log_within (level message context : Bytes) :
    (log k level message context).Within (logBound level message context) := by
  have hlog : (log k level message context).Within
      (33 + level.length + message.length + context.length + 1 + 1 + 1 + 1) := by
    refine within_act_ret_bind fun _ => within_act_ret_bind fun now => ?_
    refine within_act_ret_bind fun toFile => ?_
    have hemit := (emit_within (k := k) toFile _ (logEntry now level message context)).mono
      (length_logEntry_le now level message context)
    exact Within.bind (m := 1) hemit fun _ => within_act fun _ => within_ret _ 0
  refine hlog.mono ?_
  unfold logBound
  omega

theorem logAt_within (level : LogLevel) (message context : Bytes) :
    (logAt k level message context).Within (45 + message.length + context.length + 1) := by
  have hlevel : (logLevelToString level).length ≤ 8 := by cases level <;> decide
  refine within_act_ret_bind fun own => ?_
  split
  · exact within_ret _ _
  · refine (log_within _ message context).mono ?_
    unfold logBound
    omega

/-- The entries that the loggers make themselves. -/
theorem ownLog_within {message : Bytes} (h : message.length ≤ 40) :
    (logAt k .trace message loggerName).Within 100 := by
  refine (logAt_within .trace message loggerName).mono ?_
  have hname : loggerName.length = 13 := rfl
  omega

theorem setLevel_within (level : LogLevel) : (setLevel k level).Within 103 := by
  have hmessage : (settingMessage level).length ≤ 40 := by cases level <;> decide
  refine Within.bind (m := 3) (ownLog_within hmessage) fun _ => ?_
  exact within_act fun _ => within_act fun _ => within_act fun _ => within_ret _ 0

theorem setOutputFile_within (outputFile : Bytes) : (setOutputFile k outputFile).Within 10 := by
  have hrotate : (rotate k outputFile).Within 5 := by
    refine within_act fun _ => within_act fun _ => within_act fun opened => ?_
    cases opened with
    | true => exact within_ret _ 2
    | false => exact within_act fun _ => within_act fun _ => within_ret _ 0
  have hopen : (openOutput k outputFile).Within 8 := by
    refine within_act fun opened => ?_
    cases opened with
    | true =>
      refine within_act fun _ => within_act fun size => ?_
      show (if size > maxSize then rotate k outputFile else ret ()).Within 5
      split
      · exact hrotate
      · exact within_ret _ 5
    | false => exact within_act fun _ => within_act fun _ => within_ret _ 5
  exact within_act_ret_bind fun _ => Within.bind (m := 1) hopen fun _ =>
    within_act fun _ => within_ret _ 0

theorem newLogger_within (level : LogLevel) (outputFile : Bytes) :
    (newLogger level outputFile).Within 111 := by
  have hlog (k : ℕ) : (logAt k .trace startingMessage loggerName >>= fun _ => ret k).Within 100 :=
    (ownLog_within (by decide)).map fun _ => k
  refine within_act_ret_bind fun k => ?_
  split
  · exact (hlog k).mono (by decide)
  · exact Within.bind (m := 100) (setOutputFile_within outputFile) fun _ => hlog k

theorem getLogger_within : getLogger.Within 116 := by
  have hfind : findLogger.Within 114 := by
    refine within_act_ret_bind fun null => ?_
    cases null with
    | true =>
      exact Within.bind (m := 2) (newLogger_within _ _) fun k =>
        within_act fun _ => within_act fun _ => within_ret _ 0
    | false => exact within_act fun _ => within_ret _ 112
  exact within_act_ret_bind fun _ => Within.bind (m := 1) hfind fun _ =>
    within_act fun _ => within_ret _ 0

theorem setGlobalLevel_within (level : LogLevel) : (setGlobalLevel level).Within 221 :=
  Within.bind (m := 105) getLogger_within fun _ => within_act_ret_bind fun _ =>
    Within.bind (m := 1) (setLevel_within level) fun _ => within_act fun _ => within_ret _ 0

theorem setLogger_within (logger : Option ℕ) : (setLogger logger).Within 3 := by
  refine within_act_ret_bind fun _ => ?_
  cases logger with
  | some k => exact within_act fun _ => within_act fun _ => within_ret _ 0
  | none => exact within_act fun _ => within_ret _ 1

end Bounds

/-- The most actions a call of the operation issues. -/
def Operation.bound : Operation → ℕ
  | log _ level message context => logBound level message context
  | logAt _ _ message context => 46 + message.length + context.length
  | newLogger .. | setLevel .. | setLevelString .. | setOutputFile .. | getLogger
  | setGlobalLevel _ | setGlobalLevelString _ | setLogger _ => 221

theorem procedure_within (op : Operation) : op.procedure.Within op.bound := by
  cases op with
  | newLogger level outputFile =>
    exact ((newLogger_within level outputFile).mono (show 111 ≤ 221 by decide)).map _
  | setLevel k level => exact ((setLevel_within level).mono (show 103 ≤ 221 by decide)).map _
  | setLevelString k level => exact ((setLevel_within _).mono (show 103 ≤ 221 by decide)).map _
  | log k level message context => exact (log_within level message context).map _
  | logAt k level message context =>
    refine ((logAt_within level message context).mono ?_).map _
    show _ ≤ 46 + message.length + context.length
    omega
  | setOutputFile k outputFile =>
    exact ((setOutputFile_within outputFile).mono (show 10 ≤ 221 by decide)).map _
  | getLogger => exact (getLogger_within.mono (show 116 ≤ 221 by decide)).map _
  | setGlobalLevel level => exact (setGlobalLevel_within level).map _
  | setGlobalLevelString level => exact (setGlobalLevel_within _).map _
  | setLogger logger => exact ((setLogger_within logger).mono (show 3 ≤ 221 by decide)).map _

/-- A thread is in a call on a logger that has not been made. -/
def Misused (s : State) : Prop :=
  ∃ i op k, s.operation? i = some op ∧ k ∈ op.given ∧ s.shared.made ≤ k

/-- A call in progress is on the loggers it was on before. -/
theorem Misused.of_next {a : Label} (ha : loggers.system.Enabled a s) (hcall : a.isCall = false)
    (h : Misused (loggers.system.next a s)) : Misused s := by
  obtain ⟨i, op, k, hop, hk, hmade⟩ := h
  obtain ⟨call, hnext, rfl⟩ := Option.map_eq_some_iff.mp hop
  have hle : s.shared.made ≤ (loggers.system.next a s).shared.made := by
    cases a with
    | act j b choice => exact (extends_perform j choice b).made
    | _ => exact le_rfl
  rcases call_next ha hnext with ⟨-, hold⟩ | ⟨op, rfl, -, -⟩ |
    ⟨call', b, choice, rfl, hold, -, -, rfl⟩
  · exact ⟨i, _, k, State.operation?_of_callers hold, hk, hle.trans hmade⟩
  · exact absurd hcall (by simp [Label.isCall])
  · exact ⟨i, _, k, State.operation?_of_callers hold, hk, hle.trans hmade⟩

/-- Calls that were given loggers that had been made stay so. -/
theorem Misused.of_run {tr' : List Label} {s' : State} (h' : loggers.system.Run s tr' s')
    (hcalls : ∀ a ∈ tr', a.isCall = false) (h : Misused s') : Misused s := by
  induction h' with
  | nil => exact h
  | @snoc tr' s' a _ ha ih =>
    refine ih (fun b hb => hcalls b (List.mem_append_left _ hb)) (h.of_next ha ?_)
    exact hcalls a (List.mem_append_right _ (List.mem_singleton_self a))

/-- The next action of a call can be made, unless it waits for a mutex. -/
theorem possible_of_allowed {i : ℕ} {u : Shared} {op : Operation} {t : Known} {a : Action}
    (ht : Knows op i t u) (hgiven : ∀ k ∈ op.given, k < u.made)
    (ha : (pointers op.given).Allowed t a) (hlock : ∀ m, a = .lock m → u.owner m = none) :
    ∃ choice, Possible i u choice a := by
  have hmade (k : ℕ) (hk : k ∈ op.given ++ t.got) : k < u.made := by
    rcases List.mem_append.mp hk with hk | hk
    · exact hgiven k hk
    · exact ht.1 k hk
  cases a with
  | lock m =>
    cases m with
    | loggerMutex => exact ⟨.ok, rfl, hlock _ rfl⟩
    | logMutex k => exact ⟨.ok, rfl, hlock _ rfl, hmade k ha⟩
  | loadLevel k => exact ⟨.ok, rfl, hmade k ha⟩
  | storeGlobal k => exact ⟨.ok, rfl, hmade k ha⟩
  | openFile k path => exact ⟨.ok, Or.inl rfl, hmade k ha⟩
  | rename k path => exact ⟨.ok, Or.inl rfl⟩
  | tellp k => exact ⟨.ok, Or.inl rfl, (ht.2.1 k ha).2⟩
  | closeFile k => exact ⟨.ok, rfl, (ht.2.1 k ha).2⟩
  | compose k level message context => exact ⟨.time midnight, trivial⟩
  | put k toFile bytes => exact ⟨.failed, trivial⟩
  | loadGlobal => exact ⟨.ok, rfl, ht.2.2 ha⟩
  | _ => exact ⟨.ok, rfl⟩

/-- **Progress**: while a call is in progress some call can go on or return, unless a logger
is used before it is made. -/
theorem progress (h : loggers.system.Run (initial directory created contents) tr s) {i : ℕ}
    {call : loggers.Call} (hcall : s.callers i = some call) :
    (∃ a : Label, loggers.system.Enabled a s ∧ a.isCall = false) ∨ Misused s := by
  obtain ⟨j, ⟨op, rest⟩, hj, hfree⟩ := (mutexes_holding h).exists_unblocked hcall
  cases rest with
  | ret r =>
    refine Or.inl ⟨.ret j op r, ?_, rfl⟩
    show s.result? j = some (op, r)
    rw [State.result?, hj]
    rfl
  | act a k =>
    have hhead : s.head? j = some a := by
      rw [State.head?, hj]
      rfl
    have hby := TransitionSystem.runBy_iff.mpr ⟨h, fun pre a post u _ hu => globalMade hu⟩
    obtain ⟨t, hat, ht⟩ := knows_keeps.holds hby j _ hj
    by_cases hgiven : ∀ k ∈ op.given, k < s.shared.made
    · obtain ⟨choice, hposs⟩ := possible_of_allowed ht hgiven (hat.allowed rfl)
        fun m hm => hfree m ⟨a, hhead, by rw [hm]; rfl⟩
      exact Or.inl ⟨.act j a choice, ⟨hhead, hposs⟩, rfl⟩
    · obtain ⟨k, hk⟩ := not_forall.mp hgiven
      obtain ⟨hmem, hunmade⟩ := Classical.not_imp.mp hk
      exact Or.inr ⟨j, op, k, State.operation?_of_callers hj, hmem, Nat.not_lt.mp hunmade⟩

/-- **The calls end.**  From every reachable state the calls in progress make a bounded
number of steps, however they interleave and whatever the streams do; where they can make no
more, all have returned, or a logger is used before it is made. -/
theorem logging_ends (h : loggers.system.Run (initial directory created contents) tr s) :
    ∃ bound, ∀ tr' s', loggers.system.Run s tr' s' → (∀ a ∈ tr', a.isCall = false) →
      tr'.length ≤ bound ∧
      ((∀ a : Label, a.isCall = false → ¬ loggers.system.Enabled a s') →
        (∀ i, s'.callers i = none) ∨ Misused s') := by
  obtain ⟨S, b, hb⟩ := exists_budget procedure_within h
  refine ⟨∑ i ∈ S, b i, fun tr' s' h' hcalls => ⟨length_le hb h' hcalls, fun hstuck => ?_⟩⟩
  by_cases hidle : ∀ i, s'.callers i = none
  · exact Or.inl hidle
  · obtain ⟨i, hi⟩ := not_forall.mp hidle
    obtain ⟨call, hcall⟩ := Option.ne_none_iff_exists'.mp hi
    rcases progress (h.append h') hcall with ⟨a, ha, hact⟩ | hmisused
    · exact absurd ha (hstuck a hact)
    · exact Or.inr hmisused

/-! ## A run -/

def noFiles : State := initial (fun _ => none) 0 fun _ => []

/-- Thread `i` makes a logger, which is the first. -/
def newLoggerRun (i : ℕ) : List Label :=
  [.call i (.newLogger .warning []), .act i (.construct .warning []) .ok,
    .act i (.loadLevel 0) .ok, .ret i (.newLogger .warning []) (.logger 0)]

/-- Two threads use one logger. -/
def sharedLoggerRun : List Label :=
  newLoggerRun 0 ++
    [.call 0 (.logAt 0 .error (ascii ['n', 'o']) []), .act 0 (.loadLevel 0) .ok,
      .call 1 (.setLevel 0 .debug), .act 1 (.loadLevel 0) .ok,
      .act 0 (.lock (.logMutex 0)) .ok]

theorem logger_exclusive_sharedLoggerRun :
    (loggers.system.after sharedLoggerRun noFiles).shared.owner (.logMutex 0) = some 0 ∧
      ∀ j b, (loggers.system.after sharedLoggerRun noFiles).head? j = some b →
        guards b (.logMutex 0) → j = 0 := by
  have hlegal : loggers.system.Legal sharedLoggerRun noFiles := by decide
  exact logger_exclusive (TransitionSystem.run_of_legal hlegal) (i := 0)
    (a := .compose 0 (logLevelToString .error) (ascii ['n', 'o']) []) (by decide) rfl

theorem logging_ends_sharedLoggerRun :
    ∃ bound, ∀ tr' s', loggers.system.Run (loggers.system.after sharedLoggerRun noFiles) tr' s' →
      (∀ a ∈ tr', a.isCall = false) → tr'.length ≤ bound ∧
        ((∀ a : Label, a.isCall = false → ¬ loggers.system.Enabled a s') →
          ∀ i, s'.callers i = none) := by
  have hlegal : loggers.system.Legal sharedLoggerRun noFiles := by decide
  have hgiven : ¬ Misused (loggers.system.after sharedLoggerRun noFiles) := by
    rintro ⟨i, op, k, hop, hk, hmade⟩
    have hcaller : ∀ a ∈ sharedLoggerRun, a.caller < 2 := by decide
    obtain ⟨call, hcall, -⟩ := Option.map_eq_some_iff.mp hop
    have hi : i < 2 := by
      by_contra hi
      have hidle := callers_of_run (TransitionSystem.run_of_legal hlegal) fun a ha h =>
        hi (lt_of_eq_of_lt h (hcaller a ha))
      exact absurd (hidle.symm.trans hcall) (by simp)
    have hk : k = 0 := by
      obtain rfl | rfl : i = 0 ∨ i = 1 := by omega
      · obtain rfl := Option.some.inj hop
        exact List.mem_singleton.mp hk
      · obtain rfl := Option.some.inj hop
        exact List.mem_singleton.mp hk
    subst hk
    exact absurd hmade (by decide)
  obtain ⟨bound, hbound⟩ := logging_ends (TransitionSystem.run_of_legal hlegal)
  refine ⟨bound, fun tr' s' h' hcalls => ⟨(hbound tr' s' h' hcalls).1, fun hstuck => ?_⟩⟩
  refine ((hbound tr' s' h' hcalls).2 hstuck).resolve_right fun hmisused => ?_
  exact hgiven (hmisused.of_run h' hcalls)

end Logging
