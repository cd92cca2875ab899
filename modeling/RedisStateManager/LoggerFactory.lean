/-
# One logger for all

`getLogger` looks for the factory's logger and makes one if there is none, all under
`logger_mutex_`: so a default logger never replaces a logger (`default_absent`), and while
no `setLogger` stores one, all calls of `getLogger` return the same, however they race
(`getLogger_same`).
-/
import RedisStateManager.LoggingProgress

namespace Logging

open Redis (Bytes ascii)
open Program Service

/-! ## What a call finds out -/

/-- What a call has found out about the factory's logger: that there is none, as long as
the call has the mutex, and which one it has loaded. -/
structure Finding where
  absent : Bool
  loaded : Option ℕ

/-- A logger is stored where there is none, or by `setLogger`. -/
def finding (op : Operation) : Protocol Action Answer Finding where
  Allowed t
    | .storeGlobal _ => t.absent = true ∨ ∃ logger, op = .setLogger logger
    | _ => True
  Possible _ _ _ := True
  after t
    | .lock .loggerMutex, _ | .unlock .loggerMutex, _ | .storeGlobal _, _ =>
      { t with absent := false }
    | .testGlobal, (null : Bool) => { t with absent := null }
    | .loadGlobal, (k : ℕ) => { t with loaded := some k }
    | _, _ => t

/-- The actions that have nothing to do with the factory. -/
def Apart : Action → Prop
  | .lock .loggerMutex | .unlock .loggerMutex | .storeGlobal _ | .testGlobal | .loadGlobal => False
  | _ => True

theorem finding_of_apart {op : Operation} {t : Finding} (a : Action) (ha : Apart a) :
    (finding op).Allowed t a ∧ ∀ r, (finding op).after t a r = t := by
  cases a with
  | lock m =>
    cases m with
    | loggerMutex => exact ha.elim
    | logMutex k => exact ⟨trivial, fun _ => rfl⟩
  | unlock m =>
    cases m with
    | loggerMutex => exact ha.elim
    | logMutex k => exact ⟨trivial, fun _ => rfl⟩
  | storeGlobal k => exact ha.elim
  | testGlobal => exact ha.elim
  | loadGlobal => exact ha.elim
  | _ => exact ⟨trivial, fun _ => rfl⟩

section Apart

variable {k : ℕ}

theorem emit_apart (toFile : Bool) (fuel : ℕ) (bytes : Bytes) :
    (emit k toFile fuel bytes).Issues Apart := by
  induction fuel generalizing bytes with
  | zero => trivial
  | succ fuel ih =>
    unfold emit
    split
    · trivial
    · refine issues_act_ret_bind trivial fun taken => ?_
      split
      · trivial
      · exact ih _

theorem log_apart (level message context : Bytes) :
    (log k level message context).Issues Apart := by
  refine issues_act_ret_bind trivial fun _ => issues_act_ret_bind trivial fun now => ?_
  refine issues_act_ret_bind trivial fun toFile => (emit_apart _ _ _).bind fun _ => ?_
  exact ⟨trivial, fun _ => trivial⟩

theorem logAt_apart (level : LogLevel) (message context : Bytes) :
    (logAt k level message context).Issues Apart := by
  refine issues_act_ret_bind trivial fun own => ?_
  split
  · trivial
  · exact log_apart _ _ _

theorem setLevel_apart (level : LogLevel) : (setLevel k level).Issues Apart := by
  refine (logAt_apart _ _ _).bind fun _ => issues_act_ret_bind trivial fun _ => ?_
  exact issues_act_ret_bind trivial fun _ => ⟨trivial, fun _ => trivial⟩

theorem rotate_apart (outputFile : Bytes) : (rotate k outputFile).Issues Apart := by
  refine issues_act_ret_bind trivial fun _ => issues_act_ret_bind trivial fun _ => ?_
  refine issues_act_ret_bind trivial fun opened => ?_
  cases opened with
  | true => trivial
  | false => exact issues_act_ret_bind trivial fun _ => ⟨trivial, fun _ => trivial⟩

theorem openOutput_apart (outputFile : Bytes) : (openOutput k outputFile).Issues Apart := by
  refine issues_act_ret_bind trivial fun opened => ?_
  cases opened with
  | true =>
    refine issues_act_ret_bind trivial fun _ => issues_act_ret_bind trivial fun size => ?_
    split
    · exact rotate_apart outputFile
    · trivial
  | false => exact issues_act_ret_bind trivial fun _ => ⟨trivial, fun _ => trivial⟩

theorem setOutputFile_apart (outputFile : Bytes) : (setOutputFile k outputFile).Issues Apart :=
  issues_act_ret_bind trivial fun _ =>
    (openOutput_apart outputFile).bind fun _ => ⟨trivial, fun _ => trivial⟩

theorem newLogger_apart (level : LogLevel) (outputFile : Bytes) :
    (newLogger level outputFile).Issues Apart := by
  refine issues_act_ret_bind trivial fun k => ?_
  split
  · exact (logAt_apart _ _ _).bind fun _ => trivial
  · exact (setOutputFile_apart outputFile).bind fun _ =>
      (logAt_apart _ _ _).bind fun _ => trivial

end Apart

/-- Nothing about the factory is found out in an action that is apart from it. -/
theorem finding_of_issues {α : Type} {op : Operation} {p : Procedure α} (h : p.Issues Apart)
    {post : α → Finding → Prop} {t : Finding} (hpost : ∀ x, post x t) :
    p.Obeys (finding op) post t := by
  refine (h.obeys fun a ha => finding_of_apart a ha).mono ?_
  rintro x t' rfl
  exact hpost x

theorem getLogger_finding {op : Operation} {post : ℕ → Finding → Prop} {t : Finding}
    (h : ∀ k, post k ⟨false, some k⟩) : getLogger.Obeys (finding op) post t := by
  have hload (t' : Finding) (ht' : t'.absent = false) : (issue .loadGlobal).Obeys (finding op)
      (fun k t => (issue (.unlock .loggerMutex) >>= fun _ => ret k).Obeys (finding op) post t)
      t' := ⟨trivial, fun k _ => ⟨trivial, fun _ _ => h k⟩⟩
  refine obeys_act_ret_bind.mpr ⟨trivial, fun _ _ => obeys_bind.mpr ?_⟩
  refine obeys_act_ret_bind.mpr ⟨trivial, fun null _ => ?_⟩
  cases null with
  | true =>
    refine obeys_bind.mpr (finding_of_issues (newLogger_apart _ _) fun k => ?_)
    exact obeys_act_ret_bind.mpr ⟨Or.inl rfl, fun _ _ => hload _ rfl⟩
  | false => exact hload _ rfl

theorem setGlobalLevel_finding {op : Operation} {post : Unit → Finding → Prop} {t : Finding}
    (h : ∀ t', post () t') (level : LogLevel) :
    (setGlobalLevel level).Obeys (finding op) post t := by
  refine obeys_bind.mpr (getLogger_finding fun k => ?_)
  refine obeys_act_ret_bind.mpr ⟨trivial, fun _ _ => obeys_bind.mpr ?_⟩
  exact finding_of_issues (setLevel_apart level) fun _ => ⟨trivial, fun _ _ => h _⟩

theorem setLogger_finding {post : Unit → Finding → Prop} {t : Finding} (h : ∀ t', post () t')
    (logger : Option ℕ) : (setLogger logger).Obeys (finding (.setLogger logger)) post t := by
  refine obeys_act_ret_bind.mpr ⟨trivial, fun _ _ => ?_⟩
  cases logger with
  | some k =>
    refine obeys_act_ret_bind.mpr ⟨Or.inr ⟨_, rfl⟩, fun _ _ => ⟨trivial, fun _ _ => h _⟩⟩
  | none => exact ⟨trivial, fun _ _ => h _⟩

/-- `getLogger` returns the logger that it loaded. -/
def findingDiscipline : loggers.Discipline Finding where
  protocol := finding
  start := ⟨false, none⟩
  Post op r t := ∀ k, op = .getLogger → r = .logger k → t.loaded = some k
  obeys op := by
    cases op with
    | newLogger level outputFile =>
      refine obeys_bind.mpr (finding_of_issues (newLogger_apart level outputFile) fun _ => ?_)
      exact fun _ h => nomatch h
    | setLevel k level =>
      refine obeys_bind.mpr (finding_of_issues (setLevel_apart level) fun _ => ?_)
      exact fun _ h => nomatch h
    | setLevelString k level =>
      refine obeys_bind.mpr (finding_of_issues (setLevel_apart _) fun _ => ?_)
      exact fun _ h => nomatch h
    | log k level message context =>
      refine obeys_bind.mpr (finding_of_issues (log_apart level message context) fun _ => ?_)
      exact fun _ h => nomatch h
    | logAt k level message context =>
      refine obeys_bind.mpr (finding_of_issues (logAt_apart level message context) fun _ => ?_)
      exact fun _ h => nomatch h
    | setOutputFile k outputFile =>
      refine obeys_bind.mpr (finding_of_issues (setOutputFile_apart outputFile) fun _ => ?_)
      exact fun _ h => nomatch h
    | getLogger =>
      refine obeys_bind.mpr (getLogger_finding fun k => ?_)
      exact fun j _ h => congrArg some (Outcome.logger.inj h)
    | setGlobalLevel level =>
      refine obeys_bind.mpr (setGlobalLevel_finding (fun _ => ?_) level)
      exact fun _ h => nomatch h
    | setGlobalLevelString level =>
      refine obeys_bind.mpr (setGlobalLevel_finding (fun _ => ?_) _)
      exact fun _ h => nomatch h
    | setLogger logger =>
      refine obeys_bind.mpr (setLogger_finding (fun _ => ?_) logger)
      exact fun _ h => nomatch h

/-! ## The default logger -/

/-- Where a call has found no logger there is none, as long as it has the mutex. -/
def Absent (_ : Operation) (i : ℕ) (t : Finding) (s : Shared) : Prop :=
  t.absent = true → s.globalLogger = none ∧ s.owner .loggerMutex = some i

theorem absent_keeps :
    findingDiscipline.Keeps Absent fun s a => mutexes.Holding s ∧ Enabled a s where
  start _ _ _ := fun h => absurd h Bool.false_ne_true
  own s i call t b choice _ _ ht _ _ hC := by
    obtain ⟨hholding, hb⟩ := hC
    refine ⟨trivial, ?_⟩
    have hkeep (hstore : ∀ k, b ≠ .storeGlobal k) (hlock : b ≠ .lock .loggerMutex)
        (hunlock : b ≠ .unlock .loggerMutex) :
        Absent call.operation i t (perform i s.shared choice b) := by
      intro h
      exact ⟨(globalLogger_perform hstore i choice).trans (ht h).1,
        (owner_perform_of_ne hlock hunlock choice).trans (ht h).2⟩
    cases b with
    | lock m =>
      cases m with
      | loggerMutex => exact fun h => absurd h Bool.false_ne_true
      | logMutex k => exact hkeep (by simp) (by simp) (by simp)
    | unlock m =>
      cases m with
      | loggerMutex => exact fun h => absurd h Bool.false_ne_true
      | logMutex k => exact hkeep (by simp) (by simp) (by simp)
    | testGlobal =>
      intro h
      exact ⟨Option.isNone_iff_eq_none.mp h, hholding.owner_of_guards hb.1 rfl⟩
    | storeGlobal k => exact fun h => absurd h Bool.false_ne_true
    | _ => exact hkeep (by simp) (by simp) (by simp)
  other s i j call call' t u b choice hij _ _ ht _ _ _ _ hC h := by
    obtain ⟨hnone, hown⟩ := ht h
    obtain ⟨hholding, hb⟩ := hC
    have hguards := hholding.not_guards hij hown hb.1
    have hstore (k : ℕ) : b ≠ .storeGlobal k := fun hk => hguards (hk ▸ rfl)
    exact ⟨(globalLogger_perform hstore j choice).trans hnone,
      hholding.owner_perform hij hown hb⟩

variable {directory : Bytes → Option ℕ} {created : ℕ} {contents : ℕ → Bytes} {tr : List Label}
  {s : State}

/-- **A default logger replaces no logger**: who is about to store one, other than for
`setLogger`, finds none there. -/
theorem default_absent (h : loggers.system.Run (initial directory created contents) tr s)
    {i k : ℕ} {op : Operation} (hop : s.operation? i = some op)
    (hsetting : ∀ logger, op ≠ .setLogger logger) (hstore : s.head? i = some (.storeGlobal k)) :
    s.shared.globalLogger = none := by
  obtain ⟨call, hcall, hhead⟩ := State.head?_eq_some.mp hstore
  obtain rfl : call.operation = op :=
    Option.some.inj ((State.operation?_of_callers hcall).symm.trans hop)
  have hby := TransitionSystem.runBy_iff.mpr ⟨h, fun pre a post u _ hu => mutexes_holding hu⟩
  have hby := hby.mono fun _ s a ha (hC : mutexes.Holding s) => And.intro hC ha
  obtain ⟨t, hat, ht⟩ := absent_keeps.holds hby i call hcall
  rcases hat.allowed hhead with habsent | ⟨logger, hlogger⟩
  · exact (ht habsent).1
  · exact absurd hlogger (hsetting logger)

/-! ## The same logger -/

/-- The step is not one of `setLogger` storing a logger. -/
def LeavesGlobal (s : State) (a : Label) : Prop :=
  ∀ i k choice logger, a = .act i (.storeGlobal k) choice →
    s.operation? i ≠ some (.setLogger logger)

theorem globalLogger_next (h : loggers.system.Run (initial directory created contents) tr s)
    {a : Label} (ha : loggers.system.Enabled a s) (hC : LeavesGlobal s a) {k : ℕ}
    (hk : s.shared.globalLogger = some k) : (next a s).shared.globalLogger = some k := by
  cases a with
  | act i b choice =>
    by_cases hstore : ∃ j, b = .storeGlobal j
    · obtain ⟨j, rfl⟩ := hstore
      obtain ⟨call, hcall, -⟩ := State.head?_eq_some.mp ha.1
      have hop := State.operation?_of_callers hcall
      have hnone := default_absent h hop
        (fun logger hlogger => hC i j choice logger rfl (hlogger ▸ hop)) ha.1
      exact absurd (hnone.symm.trans hk) (by simp)
    · exact (globalLogger_perform (fun j hj => hstore ⟨j, hj⟩) i choice).trans hk
  | _ => exact hk

theorem globalLogger_run (h : loggers.system.Run (initial directory created contents) tr s)
    {tr' : List Label} {s' : State}
    (h' : loggers.system.RunBy (fun _ => LeavesGlobal) s tr' s') {k : ℕ}
    (hk : s.shared.globalLogger = some k) : s'.shared.globalLogger = some k := by
  refine h'.induct (P := fun _ s => s.shared.globalLogger = some k) hk ?_
  intro tr u a hu hk ha hC
  exact globalLogger_next (h.append hu.run) ha hC hk

/-- Only loading the factory's logger changes what has been loaded. -/
theorem loaded_of_after {op : Operation} {t : Finding} {a : Action} {r : Answer a} {k : ℕ}
    (ha : a ≠ .loadGlobal) (h : ((finding op).after t a r).loaded = some k) :
    t.loaded = some k := by
  cases a with
  | lock m => cases m <;> exact h
  | unlock m => cases m <;> exact h
  | loadGlobal => exact absurd rfl ha
  | _ => exact h

/-- The calls that have begun in `tr` have loaded the factory's logger, or none yet. -/
def LoadedSince (tr : List Label) (s : State) : Prop :=
  ∀ i call, s.callers i = some call → (∃ op, Label.call i op ∈ tr) →
    ∃ t, findingDiscipline.At call t ∧ ∀ k, t.loaded = some k → s.shared.globalLogger = some k

theorem LoadedSince.next (h : loggers.system.Run (initial directory created contents) tr s)
    {tr' : List Label} (hs : LoadedSince tr' s) {a : Label} (ha : loggers.system.Enabled a s)
    (hC : LeavesGlobal s a) : LoadedSince (tr' ++ [a]) (next a s) := by
  rintro i call hcall ⟨op, hop⟩
  rcases call_next ha hcall with ⟨hne, hcall'⟩ | ⟨op, rfl, -, rfl⟩ |
    ⟨call', b, choice, rfl, hcall', hhead, hposs, rfl⟩
  · have hmem : Label.call i op ∈ tr' := by
      rcases List.mem_append.mp hop with hop | hop
      · exact hop
      · rw [← List.mem_singleton.mp hop] at hne
        exact absurd rfl hne
    obtain ⟨t, hat, ht⟩ := hs i call hcall' ⟨op, hmem⟩
    exact ⟨t, hat, fun k hk => globalLogger_next h ha hC (ht k hk)⟩
  · exact ⟨findingDiscipline.start, findingDiscipline.obeys op, fun k hk => nomatch hk⟩
  · have hmem : Label.call i op ∈ tr' := by
      rcases List.mem_append.mp hop with hop | hop
      · exact hop
      · exact nomatch List.mem_singleton.mp hop
    obtain ⟨t, hat, ht⟩ := hs i call' hcall' ⟨op, hmem⟩
    refine ⟨_, Obeys.step hat hhead trivial, fun k hk => ?_⟩
    by_cases hload : b = .loadGlobal
    · subst hload
      obtain ⟨g, hg⟩ := Option.isSome_iff_exists.mp hposs.2
      have hgk : s.shared.globalLogger.getD 0 = k := Option.some.inj hk
      rw [hg] at hgk
      obtain rfl : g = k := hgk
      exact hg
    · exact globalLogger_next h ha hC (ht k (loaded_of_after hload hk))

/-- **One logger for all.**  While no `setLogger` stores a logger, the factory keeps the one it
has, and every `getLogger` that begins and returns meanwhile returns the one it then has, even
if it found none at first and others were making one too. -/
theorem getLogger_same (h : loggers.system.Run (initial directory created contents) tr s)
    {tr' : List Label} {s' : State}
    (h' : loggers.system.RunBy (fun _ => LeavesGlobal) s tr' s') :
    (∀ k, s.shared.globalLogger = some k → s'.shared.globalLogger = some k) ∧
      ∀ pre post i op k, tr' = pre ++ .ret i .getLogger (.logger k) :: post →
        .call i op ∈ pre → s'.shared.globalLogger = some k := by
  refine ⟨fun k hk => globalLogger_run h h' hk, ?_⟩
  rintro pre post i op k rfl hcall
  obtain ⟨u, hu, hret, -, hpost⟩ := h'.split_cons
  have hsince : LoadedSince pre u := by
    refine hu.induct (P := fun tr s => LoadedSince tr s) ?_ ?_
    · rintro i call - ⟨op, hop⟩
      exact absurd hop List.not_mem_nil
    · intro tr' v a hv hs ha hC
      exact hs.next (h.append hv.run) ha hC
  obtain ⟨call, hcaller, hmap⟩ := Option.bind_eq_some_iff.mp hret
  obtain ⟨r, hr, hpair⟩ := Option.map_eq_some_iff.mp hmap
  obtain ⟨t, hat, ht⟩ := hsince i call hcaller ⟨op, hcall⟩
  have hloaded := Obeys.result hat hr k (congrArg Prod.fst hpair) (congrArg Prod.snd hpair)
  have hrun : loggers.system.Run (initial directory created contents) (tr ++ (pre ++
      [.ret i .getLogger (.logger k)])) (next (.ret i .getLogger (.logger k)) u) :=
    h.append (hu.run.snoc hret)
  exact globalLogger_run hrun hpost (ht k hloaded)

/-! ## A run -/

/-- The check of `LeavesGlobal` for one step. -/
def leavesGlobal (s : State) : Label → Bool
  | .act i (.storeGlobal _) _ =>
    match s.operation? i with
    | some (.setLogger _) => false
    | _ => true
  | _ => true

theorem leavesGlobal_iff {s : State} {a : Label} (h : leavesGlobal s a = true) :
    LeavesGlobal s a := by
  rintro i k choice logger rfl hop
  simp only [leavesGlobal, hop] at h
  exact absurd h Bool.false_ne_true

/-- Two threads look for the factory's logger when there is none. -/
def racingRun : List Label :=
  [.call 0 .getLogger, .call 1 .getLogger, .act 1 (.lock .loggerMutex) .ok,
    .act 1 .testGlobal .ok, .act 1 (.construct .warning []) .ok, .act 1 (.loadLevel 0) .ok,
    .act 1 (.storeGlobal 0) .ok, .act 1 .loadGlobal .ok, .act 1 (.unlock .loggerMutex) .ok,
    .act 0 (.lock .loggerMutex) .ok, .act 0 .testGlobal .ok, .act 0 .loadGlobal .ok,
    .act 0 (.unlock .loggerMutex) .ok]

theorem getLogger_same_racingRun :
    (loggers.system.after (racingRun ++ [.ret 0 .getLogger (.logger 0)])
      noFiles).shared.globalLogger = some 0 := by
  have hlegal : (loggers.system.restrict fun s a => leavesGlobal s a = true).Legal
      (racingRun ++ [.ret 0 .getLogger (.logger 0)]) noFiles := by decide
  have hby := TransitionSystem.runBy_of_legal (C := fun _ => LeavesGlobal)
    (fun _ _ _ h => leavesGlobal_iff h) hlegal
  exact (getLogger_same .nil hby).2 racingRun [] 0 .getLogger 0 rfl List.mem_cons_self

end Logging
