/-
# Entries are whole

What a call does under the mutex of a logger goes through stages (`Stage`): it composes
an entry, finds out where the entry goes and puts all of it there unless the stream fails;
or it opens the file, finds it large, closes it, renames it and opens it again.  As the
mutex keeps the others out (`untouched`), the output of a logger is made of whole entries,
one after the other, but for one that is being written and those at which the stream
failed (`entries_whole`).
-/
import RedisStateManager.Auxiliary
import RedisStateManager.LoggingProgress

namespace Logging

open Redis (Bytes ascii)
open Program Service

/-! ## Stages -/

/-- Where a call stands in what it does under the mutex of a logger. -/
inductive Stage
  | outside
  | entered (k : ℕ)
  | composed (k : ℕ) (entry : Bytes)
  /-- `rest` of the entry has not been put -/
  | writing (k : ℕ) (toFile : Bool) (rest : Bytes)
  | failed (k : ℕ)
  | opened (k : ℕ) (path : Bytes)
  /-- the file has been found to be larger than `maxSize` -/
  | large (k : ℕ) (path : Bytes)
  | closed (k : ℕ) (path : Bytes)
  deriving DecidableEq, Repr

namespace Stage

/-- The mutex of logger `k` may be given up. -/
def Final (k : ℕ) (t : Stage) : Prop :=
  t = entered k ∨ (∃ toFile, t = writing k toFile []) ∨ t = failed k ∨ ∃ path, t = opened k path

/-- An entry has been composed and not all of it has been put. -/
def Putting : Stage → Prop
  | composed .. => True
  | writing _ _ rest => rest ≠ []
  | _ => False

/-- The logger whose mutex the call holds. -/
def logger? : Stage → Option ℕ
  | outside => none
  | entered k | composed k _ | writing k _ _ | failed k | opened k _ | large k _ | closed k _ =>
    some k

/-- The stages at which the call has the mutex. -/
theorem logger?_of_final {k : ℕ} {t : Stage} (h : t.Final k) : t.logger? = some k := by
  rcases h with rfl | ⟨toFile, rfl⟩ | rfl | ⟨path, rfl⟩ <;> rfl

/-- The stage after an action. -/
def after (t : Stage) : (a : Action) → Answer a → Stage
  | .lock (.logMutex k), _ => entered k
  | .unlock (.logMutex _), _ => outside
  | .compose k level message context, (now : Time) =>
    composed k (logEntry now level message context)
  | .testFile k, (toFile : Bool) =>
    match t with
    | composed _ entry => writing k toFile entry
    | _ => t
  | .put k toFile bytes, (taken : ℕ) =>
    if taken = 0 then failed k else writing k toFile (bytes.drop taken)
  | .openFile k path, (isOpen : Bool) => if isOpen = true then opened k path else entered k
  | .tellp k, (size : Int) =>
    match t with
    | opened _ path => if size > maxSize then large k path else t
    | _ => t
  | .closeFile k, _ =>
    match t with
    | large _ path => closed k path
    | _ => t
  | .rename k _, _ => entered k
  | _, _ => t

end Stage

/-- The stages of a call. -/
def stages : Protocol Action Answer Stage where
  Allowed t
    | .lock (.logMutex _) => t = .outside
    | .unlock (.logMutex k) => t.Final k
    | .storeLevel k _ | .compose k _ _ _ | .openFile k _ => t = .entered k
    | .testFile k => ∃ entry, t = .composed k entry
    | .put k toFile bytes => t = .writing k toFile bytes
    | .storeUseFile k _ => t = .entered k ∨ ∃ path, t = .opened k path
    | .tellp k => ∃ path, t = .opened k path
    | .closeFile k => ∃ path, t = .large k path
    | .rename k path => t = .closed k path
    | _ => ¬ t.Putting
  Possible _ _ _ := True
  after := Stage.after

section Stages

variable {k : ℕ}

theorem emit_stages {post : Unit → Stage → Prop} {toFile : Bool}
    (hend : post () (.writing k toFile [])) (hfailed : post () (.failed k)) (fuel : ℕ)
    (bytes : Bytes) (hfuel : bytes.length ≤ fuel) :
    (emit k toFile fuel bytes).Obeys stages post (.writing k toFile bytes) := by
  induction fuel generalizing bytes with
  | zero =>
    obtain rfl : bytes = [] := List.length_eq_zero_iff.mp (Nat.le_zero.mp hfuel)
    exact hend
  | succ fuel ih =>
    unfold emit
    split
    · next hnil =>
      subst hnil
      exact hend
    · refine obeys_act_ret_bind.mpr ⟨rfl, fun (taken : ℕ) _ => ?_⟩
      show (if taken = 0 then ret () else emit k toFile fuel (bytes.drop taken)).Obeys stages post
        (if taken = 0 then .failed k else .writing k toFile (bytes.drop taken))
      split
      · exact hfailed
      · refine ih _ ?_
        rw [List.length_drop]
        omega

theorem log_stages {post : Unit → Stage → Prop} (h : post () .outside)
    (level message context : Bytes) :
    (log k level message context).Obeys stages post .outside := by
  refine obeys_act_ret_bind.mpr ⟨rfl, fun _ _ => ?_⟩
  refine obeys_act_ret_bind.mpr ⟨rfl, fun now _ => ?_⟩
  refine obeys_act_ret_bind.mpr ⟨⟨_, rfl⟩, fun toFile _ => ?_⟩
  refine obeys_bind.mpr (emit_stages ?_ ?_ _ _ le_rfl)
  · exact ⟨Or.inr (Or.inl ⟨toFile, rfl⟩), fun _ _ => h⟩
  · exact ⟨Or.inr (Or.inr (Or.inl rfl)), fun _ _ => h⟩

theorem logAt_stages {post : Unit → Stage → Prop} (h : post () .outside) (level : LogLevel)
    (message context : Bytes) :
    (logAt k level message context).Obeys stages post .outside := by
  refine obeys_act_ret_bind.mpr ⟨id, fun own _ => ?_⟩
  split
  · exact h
  · exact log_stages h _ _ _

theorem setLevel_stages {post : Unit → Stage → Prop} (h : post () .outside) (level : LogLevel) :
    (setLevel k level).Obeys stages post .outside := by
  refine obeys_bind.mpr (logAt_stages ?_ _ _ _)
  refine obeys_act_ret_bind.mpr ⟨rfl, fun _ _ => ?_⟩
  exact obeys_act_ret_bind.mpr ⟨rfl, fun _ _ => ⟨Or.inl rfl, fun _ _ => h⟩⟩

/-- The file is open, or the logger is back where it was. -/
theorem rotate_stages {post : Unit → Stage → Prop} {outputFile : Bytes}
    (hopened : post () (.opened k outputFile)) (hentered : post () (.entered k)) :
    (rotate k outputFile).Obeys stages post (.large k outputFile) := by
  refine obeys_act_ret_bind.mpr ⟨⟨_, rfl⟩, fun _ _ => ?_⟩
  refine obeys_act_ret_bind.mpr ⟨rfl, fun _ _ => ?_⟩
  refine obeys_act_ret_bind.mpr ⟨rfl, fun opened _ => ?_⟩
  cases opened with
  | true => exact hopened
  | false => exact ⟨Or.inl rfl, fun _ _ => ⟨id, fun _ _ => hentered⟩⟩

theorem openOutput_stages {post : Unit → Stage → Prop} {outputFile : Bytes}
    (hopened : post () (.opened k outputFile)) (hentered : post () (.entered k)) :
    (openOutput k outputFile).Obeys stages post (.entered k) := by
  refine obeys_act_ret_bind.mpr ⟨rfl, fun opened _ => ?_⟩
  cases opened with
  | true =>
    refine ⟨Or.inr ⟨outputFile, rfl⟩, fun _ _ => ⟨⟨outputFile, rfl⟩, fun (size : Int) _ => ?_⟩⟩
    show (if size > maxSize then rotate k outputFile else ret ()).Obeys stages post
      (if size > maxSize then .large k outputFile else .opened k outputFile)
    split
    · exact rotate_stages hopened hentered
    · exact hopened
  | false => exact ⟨Or.inl rfl, fun _ _ => ⟨id, fun _ _ => hentered⟩⟩

theorem setOutputFile_stages {post : Unit → Stage → Prop} (h : post () .outside)
    (outputFile : Bytes) : (setOutputFile k outputFile).Obeys stages post .outside := by
  refine obeys_act_ret_bind.mpr ⟨rfl, fun _ _ => obeys_bind.mpr (openOutput_stages ?_ ?_)⟩
  · exact ⟨Or.inr (Or.inr (Or.inr ⟨outputFile, rfl⟩)), fun _ _ => h⟩
  · exact ⟨Or.inl rfl, fun _ _ => h⟩

theorem newLogger_stages {post : ℕ → Stage → Prop} (h : ∀ k, post k .outside) (level : LogLevel)
    (outputFile : Bytes) : (newLogger level outputFile).Obeys stages post .outside := by
  refine obeys_act_ret_bind.mpr ⟨id, fun k _ => ?_⟩
  have hlog : (logAt k .trace startingMessage loggerName >>= fun _ => ret k).Obeys stages post
      .outside := obeys_bind.mpr (logAt_stages (h k) _ _ _)
  split
  · exact hlog
  · exact obeys_bind.mpr (setOutputFile_stages hlog outputFile)

theorem getLogger_stages {post : ℕ → Stage → Prop} (h : ∀ k, post k .outside) :
    getLogger.Obeys stages post .outside := by
  have hload : (issue .loadGlobal).Obeys stages
      (fun k t => (issue (.unlock .loggerMutex) >>= fun _ => ret k).Obeys stages post t)
      .outside := ⟨id, fun k _ => ⟨id, fun _ _ => h k⟩⟩
  refine obeys_act_ret_bind.mpr ⟨id, fun _ _ => obeys_bind.mpr ?_⟩
  refine obeys_act_ret_bind.mpr ⟨id, fun null _ => ?_⟩
  cases null with
  | true =>
    refine obeys_bind.mpr (newLogger_stages (fun k => ?_) _ _)
    exact obeys_act_ret_bind.mpr ⟨id, fun _ _ => hload⟩
  | false => exact hload

theorem setGlobalLevel_stages {post : Unit → Stage → Prop} (h : post () .outside)
    (level : LogLevel) : (setGlobalLevel level).Obeys stages post .outside := by
  refine obeys_bind.mpr (getLogger_stages fun k => ?_)
  refine obeys_act_ret_bind.mpr ⟨id, fun _ _ => ?_⟩
  exact obeys_bind.mpr (setLevel_stages ⟨id, fun _ _ => h⟩ level)

theorem setLogger_stages {post : Unit → Stage → Prop} (h : post () .outside)
    (logger : Option ℕ) : (setLogger logger).Obeys stages post .outside := by
  refine obeys_act_ret_bind.mpr ⟨id, fun _ _ => ?_⟩
  cases logger with
  | some k => exact obeys_act_ret_bind.mpr ⟨id, fun _ _ => ⟨id, fun _ _ => h⟩⟩
  | none => exact ⟨id, fun _ _ => h⟩

end Stages

/-- Every call ends outside. -/
def stageDiscipline : loggers.Discipline Stage where
  protocol _ := stages
  start := .outside
  Post _ _ t := t = .outside
  obeys op := by
    cases op with
    | newLogger level outputFile =>
      refine obeys_bind.mpr (newLogger_stages ?_ level outputFile)
      exact fun _ => rfl
    | setLevel k level => exact obeys_bind.mpr (setLevel_stages rfl level)
    | setLevelString k level => exact obeys_bind.mpr (setLevel_stages rfl _)
    | log k level message context => exact obeys_bind.mpr (log_stages rfl level message context)
    | logAt k level message context =>
      exact obeys_bind.mpr (logAt_stages rfl level message context)
    | setOutputFile k outputFile => exact obeys_bind.mpr (setOutputFile_stages rfl outputFile)
    | getLogger => exact obeys_bind.mpr (getLogger_stages fun _ => rfl)
    | setGlobalLevel level => exact obeys_bind.mpr (setGlobalLevel_stages rfl level)
    | setGlobalLevelString level => exact obeys_bind.mpr (setGlobalLevel_stages rfl _)
    | setLogger logger => exact obeys_bind.mpr (setLogger_stages rfl logger)

/-! ## Who touches a logger -/

/-- What is not done under the mutex of a logger leaves the logger alone. -/
theorem loggers_perform {k : ℕ} {s : Shared} (hk : k < s.made) {a : Action}
    (ha : ¬ guards a (.logMutex k)) (i : ℕ) (choice : Choice) :
    (perform i s choice a).loggers k = s.loggers k := by
  have hset (j : ℕ) (hj : k ≠ j) (logger : DefaultLogger) :
      (s.setLogger j logger).loggers k = s.loggers k := Function.update_of_ne hj ..
  have hne (j : ℕ) (hj : ¬ Mutex.logMutex k = .logMutex j) : k ≠ j := fun h => hj (h ▸ rfl)
  cases a with
  | construct level outputFile => exact hset _ (Nat.ne_of_lt hk) _
  | storeLevel j level => exact hset j (hne j ha) _
  | storeUseFile j useFile => exact hset j (hne j ha) _
  | closeFile j => exact hset j (hne j ha) _
  | openFile j path =>
    by_cases hfailed : choice = .failed
    · rw [perform, if_pos hfailed]
      exact hset j (hne j ha) _
    · rw [perform, if_neg hfailed, Shared.openFile]
      split
      · exact hset j (hne j ha) _
      · exact hset j (hne j ha) _
  | rename j path =>
    by_cases hfailed : choice = .failed
    · rw [perform, if_pos hfailed]
    · rw [perform, if_neg hfailed, Shared.rename]
      split <;> rfl
  | put j toFile bytes =>
    cases toFile with
    | true =>
      cases choice with
      | taken n =>
        show (s.putFile j (bytes.take n)).loggers k = _
        rw [Shared.putFile]
        split <;> rfl
      | _ => exact hset j (hne j ha) _
    | false => cases choice <;> rfl
  | _ => rfl

/-- **The others leave a logger alone** while its mutex is held. -/
theorem untouched {s : State} (hs : mutexes.Holding s) {i j k : ℕ} (hij : i ≠ j)
    (hown : s.shared.owner (.logMutex k) = some i) (hk : k < s.shared.made) {b : Action}
    {choice : Choice} (hb : Enabled (.act j b choice) s) :
    ¬ guards b (.logMutex k) ∧
      (perform j s.shared choice b).loggers k = s.shared.loggers k ∧
      (perform j s.shared choice b).owner (.logMutex k) = some i := by
  have hguards := hs.not_guards hij hown hb.1
  exact ⟨hguards, loggers_perform hk hguards j choice, hs.owner_perform hij hown hb⟩

/-! ## Outputs -/

/-- An entry, what has been put of it, and whether the stream failed at it. -/
structure Record where
  entry : Bytes
  written : Bytes
  failed : Bool
  deriving DecidableEq, Repr

/-- Nothing more of the entry will be put. -/
def Record.Settled (r : Record) : Prop := r.failed = true ∨ r.written = r.entry

/-- What has been put out, and the entries it comes from, the latest first. -/
structure Output where
  bytes : Bytes
  records : List Record
  deriving DecidableEq, Repr

namespace Output

variable {g : Output} {entry rest : Bytes}

def start (g : Output) (entry : Bytes) : Output :=
  { g with records := ⟨entry, [], false⟩ :: g.records }

def put (g : Output) (piece : Bytes) : Output where
  bytes := g.bytes ++ piece
  records := g.records.modifyHead fun r => { r with written := r.written ++ piece }

def fail (g : Output) : Output :=
  { g with records := g.records.modifyHead fun r => { r with failed := true } }

def Settled (g : Output) : Prop := ∀ r ∈ g.records, r.Settled

/-- The latest entry has `rest` left. -/
def Rest (g : Output) (rest : Bytes) : Prop :=
  ∃ r, g.records.head? = some r ∧ r.entry = r.written ++ rest

/-- The output is made of the beginnings of entries, all but the latest settled. -/
structure WellFormed (g : Output) : Prop where
  bytes_eq : g.bytes = (g.records.reverse.map (·.written)).flatten
  prefixes : ∀ r ∈ g.records, r.written <+: r.entry
  settled : ∀ r ∈ g.records.tail, r.Settled

theorem wellFormed_empty : WellFormed ⟨[], []⟩ :=
  ⟨rfl, fun _ h => absurd h List.not_mem_nil, fun _ h => absurd h List.not_mem_nil⟩

theorem WellFormed.start (h : g.WellFormed) (hsettled : g.Settled) (entry : Bytes) :
    (g.start entry).WellFormed ∧ (g.start entry).Rest entry := by
  refine ⟨⟨?_, fun r hr => ?_, hsettled⟩, ⟨_, rfl, rfl⟩⟩
  · show g.bytes = ((⟨entry, [], false⟩ :: g.records).reverse.map (·.written)).flatten
    rw [List.reverse_cons, List.map_append, List.flatten_append, ← h.bytes_eq]
    simp
  · rcases List.mem_cons.mp hr with rfl | hr
    · exact List.nil_prefix
    · exact h.prefixes r hr

/-- Putting the first `n` bytes of what is left. -/
theorem WellFormed.put (h : g.WellFormed) (hrest : g.Rest rest) (n : ℕ) :
    (g.put (rest.take n)).WellFormed ∧ (g.put (rest.take n)).Rest (rest.drop n) := by
  obtain ⟨bytes, records⟩ := g
  obtain ⟨r, hhead, hentry⟩ := hrest
  obtain ⟨rs, rfl⟩ : ∃ rs, records = r :: rs := ⟨_, List.eq_cons_of_mem_head? hhead⟩
  have hsplit : r.entry = (r.written ++ rest.take n) ++ rest.drop n := by
    rw [List.append_assoc, List.take_append_drop]
    exact hentry
  refine ⟨⟨?_, fun q hq => ?_, h.settled⟩, ⟨_, rfl, hsplit⟩⟩
  · have hbytes := h.bytes_eq
    simp only [List.reverse_cons, List.map_append, List.flatten_append, List.map_cons,
      List.map_nil, List.flatten_cons, List.flatten_nil, List.append_nil] at hbytes
    show bytes ++ rest.take n = _
    simp [Output.put, hbytes]
  · rcases List.mem_cons.mp hq with rfl | hq
    · exact ⟨rest.drop n, hsplit.symm⟩
    · exact h.prefixes q (List.mem_cons_of_mem r hq)

theorem WellFormed.fail (h : g.WellFormed) (hrest : g.Rest rest) :
    g.fail.WellFormed ∧ g.fail.Settled := by
  obtain ⟨bytes, records⟩ := g
  obtain ⟨r, hhead, -⟩ := hrest
  obtain ⟨rs, rfl⟩ : ∃ rs, records = r :: rs := ⟨_, List.eq_cons_of_mem_head? hhead⟩
  refine ⟨⟨?_, fun q hq => ?_, h.settled⟩, fun q hq => ?_⟩
  · have hbytes := h.bytes_eq
    simpa [Output.fail] using hbytes
  · rcases List.mem_cons.mp hq with rfl | hq
    · exact h.prefixes r List.mem_cons_self
    · exact h.prefixes q (List.mem_cons_of_mem r hq)
  · rcases List.mem_cons.mp hq with rfl | hq
    · exact Or.inl rfl
    · exact h.settled q hq

/-- Nothing is left of the latest entry. -/
theorem WellFormed.settled_of_rest (h : g.WellFormed) (hrest : g.Rest []) : g.Settled := by
  obtain ⟨r, hhead, hentry⟩ := hrest
  have hrecords := List.eq_cons_of_mem_head? hhead
  intro q hq
  rw [hrecords] at hq
  rcases List.mem_cons.mp hq with rfl | hq
  · exact Or.inr (by rw [hentry, List.append_nil])
  · exact h.settled q hq

end Output

/-! ## The output of a logger -/

/-- Where the entries of logger `k` go: to the file opened by a name, or to `std::cout`. -/
def Shared.target (s : Shared) (k : ℕ) (toFile : Bool) : Option Bytes :=
  if toFile = true then (s.stream? k).map (·.path) else none

/-- What an action does to the output of logger `k` at `d`. -/
def Output.after (k : ℕ) (d : Option Bytes) (g : Output) (s : Shared) : Action → Choice → Output
  | .compose j level message context, .time now =>
    if j = k ∧ s.target k (s.toFile k) = d then g.start (logEntry now level message context)
    else g
  | .put j toFile bytes, .taken n =>
    if j = k ∧ s.target k toFile = d then g.put (bytes.take n) else g
  | .put j toFile _, .failed => if j = k ∧ s.target k toFile = d then g.fail else g
  | _, _ => g

/-- What logger `k` has put to `d` in a run, and the entries meant for it. -/
def output (k : ℕ) (d : Option Bytes) (tr : List Label) (s₀ : State) : Output :=
  auxiliary (Output.after k d) ⟨[], []⟩ tr s₀

/-- How the latest entry stands, by the stage of the call that has the mutex. -/
def Stage.Says (k : ℕ) (d : Option Bytes) (g : Output) (s : Shared) : Stage → Prop
  | composed _ entry => if s.target k (s.toFile k) = d then g.Rest entry else g.Settled
  | writing _ toFile rest => if s.target k toFile = d then g.Rest rest else g.Settled
  | _ => g.Settled

/-- A call in progress at a stage with logger `k` has the mutex of `k`. -/
def Writes (k : ℕ) (d : Option Bytes) (i : ℕ) (t : Stage) (g : Output) (s : Shared) : Prop :=
  t.logger? = some k → s.owner (.logMutex k) = some i ∧ k < s.made ∧ t.Says k d g s

/-- While nobody has the mutex no entry is being written. -/
def Quiet (k : ℕ) (g : Output) (s : Shared) : Prop :=
  g.WellFormed ∧ (s.owner (.logMutex k) = none → g.Settled)

section Entries

variable {k : ℕ} {d : Option Bytes} {i : ℕ} {t : Stage} {g : Output} {s s' : Shared}

/-- What is said of the latest entry depends on the fields of the logger. -/
theorem Stage.Says.congr (h : t.Says k d g s) (hlogger : s'.loggers k = s.loggers k) :
    t.Says k d g s' := by
  have hstream : s'.stream? k = s.stream? k := congrArg DefaultLogger.file_stream_ hlogger
  have htoFile : s'.toFile k = s.toFile k := by
    unfold Shared.toFile
    rw [hlogger, hstream]
  have htarget (toFile : Bool) : s'.target k toFile = s.target k toFile := by
    unfold Shared.target
    rw [hstream]
  cases t with
  | composed j entry =>
    show if s'.target k (s'.toFile k) = d then g.Rest entry else g.Settled
    rw [htoFile, htarget]
    exact h
  | writing j toFile rest =>
    show if s'.target k toFile = d then g.Rest rest else g.Settled
    rw [htarget]
    exact h
  | _ => exact h

theorem Stage.Final.settled (ht : t.Final k) (hg : g.WellFormed) (h : t.Says k d g s) :
    g.Settled := by
  rcases ht with rfl | ⟨toFile, rfl⟩ | rfl | ⟨path, rfl⟩
  · exact h
  · have hrest : if s.target k toFile = d then g.Rest [] else g.Settled := h
    split at hrest
    · exact hg.settled_of_rest hrest
    · exact hrest
  · exact h
  · exact h

/-- What is not done under the mutex of logger `k` is not seen in its output. -/
theorem after_of_not_guards {a : Action} (ha : ¬ guards a (.logMutex k)) (choice : Choice) :
    g.after k d s a choice = g := by
  have hne (j : ℕ) (hj : ¬ Mutex.logMutex k = .logMutex j) : ¬ j = k := fun h => hj (h ▸ rfl)
  cases a with
  | compose j level message context =>
    cases choice with
    | time now => exact if_neg fun h => hne j ha h.1
    | _ => rfl
  | put j toFile bytes =>
    cases choice with
    | taken n => exact if_neg fun h => hne j ha h.1
    | failed => exact if_neg fun h => hne j ha h.1
    | _ => rfl
  | _ => rfl

/-- An action that says nothing about logger `k`. -/
theorem Writes.of_after (hwrites : Writes k d i t g s) (hquiet : Quiet k g s) {a : Action}
    {choice : Choice} (hg : g.after k d s a choice = g)
    (howner : s'.owner (.logMutex k) = s.owner (.logMutex k)) (hmade : s.made ≤ s'.made)
    (hlogger : k < s.made → s'.loggers k = s.loggers k) :
    Quiet k (g.after k d s a choice) s' ∧ Writes k d i t (g.after k d s a choice) s' := by
  rw [hg]
  refine ⟨⟨hquiet.1, fun hnone => hquiet.2 (howner ▸ hnone)⟩, fun ht => ?_⟩
  obtain ⟨hown, hk, hlatest⟩ := hwrites ht
  exact ⟨howner.trans hown, lt_of_lt_of_le hk hmade, hlatest.congr (hlogger hk)⟩

/-- An action under the mutex of logger `k`, between stages at which nothing is being put. -/
theorem Writes.of_settled (hwrites : Writes k d i t g s) (hquiet : Quiet k g s)
    {a : Action} {choice : Choice} {t' : Stage} (hg : g.after k d s a choice = g)
    (ha : lockAct a = .other) (ht : t.logger? = some k) (hsettled : t.Says k d g s → g.Settled)
    (hlatest : ∀ s', g.Settled → t'.Says k d g s') :
    Quiet k (g.after k d s a choice) (perform i s choice a) ∧
      Writes k d i t' (g.after k d s a choice) (perform i s choice a) := by
  obtain ⟨hown, hk, ht⟩ := hwrites ht
  rw [hg]
  refine ⟨⟨hquiet.1, fun _ => hsettled ht⟩, fun _ => ⟨?_, ?_, hlatest _ (hsettled ht)⟩⟩
  · rw [owner_perform ha]
    exact hown
  · exact lt_of_lt_of_le hk (extends_perform i choice a).made

/-- What is not done under the mutex of logger `k` does not lead to a stage with `k`. -/
theorem Stage.after_eq_self {a : Action} {r : Answer a} (hallowed : stages.Allowed t a)
    (hguards : ¬ guards a (.logMutex k)) (hlock : a ≠ .lock (.logMutex k))
    (h : (t.after a r).logger? = some k) : t.after a r = t := by
  have hne (j : ℕ) (hj : ¬ Mutex.logMutex k = .logMutex j) : ¬ some j = some k :=
    fun h => hj (Option.some.inj h ▸ rfl)
  have hlogger {j : ℕ} (t₁ t₂ : Stage) (p : Prop) [Decidable p] (h₁ : t₁.logger? = some j)
      (h₂ : t₂.logger? = some j) (hj : ¬ Mutex.logMutex k = .logMutex j) :
      ¬ (if p then t₁ else t₂).logger? = some k := by
    split
    · exact h₁ ▸ hne j hj
    · exact h₂ ▸ hne j hj
  cases a with
  | lock m =>
    cases m with
    | loggerMutex => rfl
    | logMutex j =>
      obtain rfl : j = k := Option.some.inj h
      exact absurd rfl hlock
  | unlock m =>
    cases m with
    | loggerMutex => rfl
    | logMutex j => exact absurd h (by simp [Stage.after, Stage.logger?])
  | compose j level message context => exact absurd h (hne j hguards)
  | testFile j =>
    obtain ⟨entry, rfl⟩ := hallowed
    exact absurd h (hne j hguards)
  | put j toFile bytes =>
    exact absurd h (hlogger (failed j) (writing j toFile (bytes.drop r)) _ rfl rfl hguards)
  | openFile j path =>
    exact absurd h (hlogger (opened j path) (entered j) _ rfl rfl hguards)
  | tellp j =>
    obtain ⟨path, rfl⟩ := hallowed
    exact absurd h (hlogger (large j path) (opened j path) _ rfl rfl hguards)
  | closeFile j =>
    obtain ⟨path, rfl⟩ := hallowed
    exact absurd h (hne j hguards)
  | rename j path => exact absurd h (hne j hguards)
  | _ => rfl

/-- Taking bytes leaves the fields of the loggers alone. -/
theorem loggers_put (s : Shared) {toFile : Bool} {bytes : Bytes} {n : ℕ} :
    (perform i s (.taken n) (.put k toFile bytes)).loggers k = s.loggers k := by
  cases toFile with
  | true =>
    show (s.putFile k (bytes.take n)).loggers k = _
    unfold Shared.putFile
    split <;> rfl
  | false => rfl

section Put

variable {toFile : Bool} {bytes : Bytes} {n : ℕ}

theorem after_compose (level message context : Bytes) (now : Time) :
    g.after k d s (.compose k level message context) (.time now) =
      if s.target k (s.toFile k) = d then g.start (logEntry now level message context) else g := by
  simp [Output.after]

theorem after_put_taken : g.after k d s (.put k toFile bytes) (.taken n) =
    if s.target k toFile = d then g.put (bytes.take n) else g := by
  simp [Output.after]

theorem after_put_failed : g.after k d s (.put k toFile bytes) .failed =
    if s.target k toFile = d then g.fail else g := by
  simp [Output.after]

/-- The call that has the mutex composes an entry, for `d` or for something else. -/
theorem Writes.compose (hquiet : Quiet k g s) (hwrites : Writes k d i (.entered k) g s)
    (level message context : Bytes) (now : Time) :
    Quiet k (g.after k d s (.compose k level message context) (.time now)) s ∧
      Writes k d i (.composed k (logEntry now level message context))
        (g.after k d s (.compose k level message context) (.time now)) s := by
  obtain ⟨hown, hk, hsettled⟩ := hwrites rfl
  rw [after_compose]
  by_cases hd : s.target k (s.toFile k) = d
  · rw [if_pos hd]
    obtain ⟨hformed, hrest⟩ := hquiet.1.start hsettled (logEntry now level message context)
    refine ⟨⟨hformed, fun hnone => absurd (hown.symm.trans hnone) (by simp)⟩, fun _ => ?_⟩
    exact ⟨hown, hk, (if_pos hd).mpr hrest⟩
  · rw [if_neg hd]
    exact ⟨hquiet, fun _ => ⟨hown, hk, (if_neg hd).mpr hsettled⟩⟩

/-- What a put leaves to be shown: the mutex is still held. -/
theorem Writes.of_says {choice : Choice} {t' : Stage} {g' : Output}
    (hwrites : Writes k d i t g s) (ht : t.logger? = some k) (hformed : g'.WellFormed)
    (hlatest : t'.Says k d g' (perform i s choice (.put k toFile bytes))) :
    Quiet k g' (perform i s choice (.put k toFile bytes)) ∧
      Writes k d i t' g' (perform i s choice (.put k toFile bytes)) := by
  obtain ⟨hown, hk, -⟩ := hwrites ht
  have hown' : (perform i s choice (.put k toFile bytes)).owner (.logMutex k) = some i := by
    rw [owner_perform rfl]
    exact hown
  have hk' := lt_of_lt_of_le hk (extends_perform (s := s) i choice (.put k toFile bytes)).made
  exact ⟨⟨hformed, fun hnone => absurd (hown'.symm.trans hnone) (by simp)⟩,
    fun _ => ⟨hown', hk', hlatest⟩⟩

/-- The stream takes some bytes of the entry. -/
theorem Writes.put_taken (hquiet : Quiet k g s)
    (hwrites : Writes k d i (.writing k toFile bytes) g s) :
    Quiet k (g.after k d s (.put k toFile bytes) (.taken n))
        (perform i s (.taken n) (.put k toFile bytes)) ∧
      Writes k d i (.writing k toFile (bytes.drop n))
        (g.after k d s (.put k toFile bytes) (.taken n))
        (perform i s (.taken n) (.put k toFile bytes)) := by
  have hlatest : if s.target k toFile = d then g.Rest bytes else g.Settled := (hwrites rfl).2.2
  rw [after_put_taken]
  by_cases hd : s.target k toFile = d
  · rw [if_pos hd] at hlatest ⊢
    obtain ⟨hformed, hrest⟩ := hquiet.1.put hlatest n
    have hlatest' : (Stage.writing k toFile (bytes.drop n)).Says k d (g.put (bytes.take n)) s :=
      (if_pos hd).mpr hrest
    exact hwrites.of_says rfl hformed (hlatest'.congr (loggers_put s))
  · rw [if_neg hd] at hlatest ⊢
    have hlatest' : (Stage.writing k toFile (bytes.drop n)).Says k d g s :=
      (if_neg hd).mpr hlatest
    exact hwrites.of_says rfl hquiet.1 (hlatest'.congr (loggers_put s))

/-- The stream fails. -/
theorem Writes.put_failed (hquiet : Quiet k g s)
    (hwrites : Writes k d i (.writing k toFile bytes) g s) :
    Quiet k (g.after k d s (.put k toFile bytes) .failed)
        (perform i s .failed (.put k toFile bytes)) ∧
      Writes k d i (.failed k) (g.after k d s (.put k toFile bytes) .failed)
        (perform i s .failed (.put k toFile bytes)) := by
  have hlatest : if s.target k toFile = d then g.Rest bytes else g.Settled := (hwrites rfl).2.2
  rw [after_put_failed]
  by_cases hd : s.target k toFile = d
  · rw [if_pos hd] at hlatest ⊢
    obtain ⟨hformed, hsettled⟩ := hquiet.1.fail hlatest
    exact hwrites.of_says rfl hformed hsettled
  · rw [if_neg hd] at hlatest ⊢
    exact hwrites.of_says rfl hquiet.1 hlatest

end Put

/-- The call that has the mutex composes an entry, finds out where it goes, or puts it. -/
theorem Writes.entry {a : Action} {choice : Choice} (hposs : Possible i s choice a)
    (hquiet : Quiet k g s) (hwrites : Writes k d i t g s) (hallowed : stages.Allowed t a)
    (ha : (∃ level message context, a = .compose k level message context) ∨ a = .testFile k ∨
      ∃ toFile bytes, a = .put k toFile bytes) :
    Quiet k (g.after k d s a choice) (perform i s choice a) ∧
      Writes k d i (t.after a (answer s choice a)) (g.after k d s a choice)
        (perform i s choice a) := by
  rcases ha with ⟨level, message, context, rfl⟩ | rfl | ⟨toFile, bytes, rfl⟩
  · obtain rfl : t = .entered k := hallowed
    cases choice with
    | time now => exact hwrites.compose hquiet level message context now
    | _ => exact hposs.elim
  · obtain ⟨entry, rfl⟩ := hallowed
    exact ⟨hquiet, fun _ => hwrites rfl⟩
  · obtain rfl : t = .writing k toFile bytes := hallowed
    cases choice with
    | taken n =>
      have hstage : Stage.after (.writing k toFile bytes) (.put k toFile bytes) n =
          .writing k toFile (bytes.drop n) := if_neg (Nat.ne_of_gt hposs.1)
      show Quiet k _ _ ∧ Writes k d i
        (Stage.after (.writing k toFile bytes) (.put k toFile bytes) n) _ _
      rw [hstage]
      exact hwrites.put_taken hquiet
    | failed => exact hwrites.put_failed hquiet
    | _ => exact hposs.elim

/-- The call that has the mutex does something else under it. -/
theorem Writes.other {a : Action} {choice : Choice} (hquiet : Quiet k g s)
    (hwrites : Writes k d i t g s) (hallowed : stages.Allowed t a)
    (hguards : guards a (.logMutex k)) (hcompose : ∀ level message context,
      a ≠ .compose k level message context) (htest : a ≠ .testFile k)
    (hput : ∀ toFile bytes, a ≠ .put k toFile bytes) :
    Quiet k (g.after k d s a choice) (perform i s choice a) ∧
      Writes k d i (t.after a (answer s choice a)) (g.after k d s a choice)
        (perform i s choice a) := by
  have heq {j : ℕ} (h : Mutex.logMutex k = .logMutex j) : j = k := (Mutex.logMutex.inj h).symm
  cases a with
  | storeLevel j level =>
    obtain rfl := heq hguards
    obtain rfl : t = .entered j := hallowed
    exact hwrites.of_settled hquiet rfl rfl rfl id fun _ h => h
  | storeUseFile j useFile =>
    obtain rfl := heq hguards
    rcases hallowed with rfl | ⟨path, rfl⟩
    · exact hwrites.of_settled hquiet rfl rfl rfl id fun _ h => h
    · exact hwrites.of_settled hquiet rfl rfl rfl id fun _ h => h
  | openFile j path =>
    obtain rfl := heq hguards
    have hlatest (p : Prop) [Decidable p] (s' : Shared) (h : g.Settled) :
        (if p then Stage.opened j path else .entered j).Says j d g s' := by
      split <;> exact h
    obtain rfl : t = .entered j := hallowed
    exact hwrites.of_settled hquiet rfl rfl rfl id (hlatest _)
  | tellp j =>
    obtain rfl := heq hguards
    obtain ⟨path, rfl⟩ := hallowed
    refine hwrites.of_settled hquiet rfl rfl rfl id fun s' h => ?_
    show (if _ then Stage.large j path else .opened j path).Says j d g s'
    split <;> exact h
  | closeFile j =>
    obtain rfl := heq hguards
    obtain ⟨path, rfl⟩ := hallowed
    exact hwrites.of_settled hquiet rfl rfl rfl id fun _ h => h
  | rename j path =>
    obtain rfl := heq hguards
    obtain rfl : t = .closed j path := hallowed
    exact hwrites.of_settled hquiet rfl rfl rfl id fun _ h => h
  | compose j level message context =>
    obtain rfl := heq hguards
    exact absurd rfl (hcompose _ _ _)
  | testFile j =>
    obtain rfl := heq hguards
    exact absurd rfl htest
  | put j toFile bytes =>
    obtain rfl := heq hguards
    exact absurd rfl (hput _ _)
  | _ => exact absurd hguards (by simp [guards])

/-- **What an action does to the output of a logger**, by the stage of its call. -/
theorem Writes.step {a : Action} {choice : Choice} (hposs : Possible i s choice a)
    (hquiet : Quiet k g s) (hwrites : Writes k d i t g s) (hallowed : stages.Allowed t a) :
    Quiet k (g.after k d s a choice) (perform i s choice a) ∧
      Writes k d i (t.after a (answer s choice a)) (g.after k d s a choice)
        (perform i s choice a) := by
  by_cases hlock : a = .lock (.logMutex k)
  · subst hlock
    have hsettled := hquiet.2 hposs.2.1
    refine ⟨⟨hquiet.1, fun _ => hsettled⟩, fun _ => ⟨?_, hposs.2.2, hsettled⟩⟩
    exact Function.update_self ..
  by_cases hunlock : a = .unlock (.logMutex k)
  · subst hunlock
    obtain ⟨-, -, hlatest⟩ := hwrites (Stage.logger?_of_final hallowed)
    exact ⟨⟨hquiet.1, fun _ => Stage.Final.settled hallowed hquiet.1 hlatest⟩,
      fun h => absurd h (by simp [Stage.after, Stage.logger?])⟩
  by_cases hguards : guards a (.logMutex k)
  · by_cases hentry : (∃ level message context, a = .compose k level message context) ∨
        a = .testFile k ∨ ∃ toFile bytes, a = .put k toFile bytes
    · exact hwrites.entry hposs hquiet hallowed hentry
    · refine hwrites.other hquiet hallowed hguards ?_ ?_ ?_
      · exact fun level message context h => hentry (Or.inl ⟨level, message, context, h⟩)
      · exact fun h => hentry (Or.inr (Or.inl h))
      · exact fun toFile bytes h => hentry (Or.inr (Or.inr ⟨toFile, bytes, h⟩))
  · obtain ⟨hquiet', hwrites'⟩ : Quiet k (g.after k d s a choice) (perform i s choice a) ∧
        Writes k d i t (g.after k d s a choice) (perform i s choice a) :=
      hwrites.of_after hquiet (after_of_not_guards hguards choice)
        (owner_perform_of_ne hlock hunlock choice) (extends_perform i choice a).made
        fun hk => loggers_perform hk hguards i choice
    refine ⟨hquiet', fun h => ?_⟩
    have hstage := Stage.after_eq_self hallowed hguards hlock h
    rw [hstage] at h ⊢
    exact hwrites' h

end Entries

theorem entries_keeps (k : ℕ) (d : Option Bytes) :
    stageDiscipline.KeepsWith (Output.after k d) (Quiet k) (fun _ => Writes k d)
      fun s _ => mutexes.Holding s where
  start _ _ _ _ := fun h => absurd h (by simp [stageDiscipline, Stage.logger?])
  own g s i call t b choice _ _ hb hholding hquiet hwrites hallowed := by
    exact ⟨trivial, hwrites.step hb.2 hquiet hallowed⟩
  other g s i j call call' t u b choice hij _ _ _ hb hholding _ hwrites _ _ := by
    intro ht
    obtain ⟨hown, hk, hlatest⟩ := hwrites ht
    obtain ⟨hguards, hlogger, howner⟩ := untouched hholding hij hown hk hb
    rw [after_of_not_guards hguards]
    exact ⟨howner, lt_of_lt_of_le hk (extends_perform j choice b).made, hlatest.congr hlogger⟩

/-! ## Who is writing -/

/-- Thread `i` is about to find out where an entry of logger `k` goes, or to put some of it. -/
def IsPutting (s : State) (i k : ℕ) : Prop :=
  s.head? i = some (.testFile k) ∨ ∃ toFile bytes, s.head? i = some (.put k toFile bytes)

section Writer

variable {k i : ℕ} {t : Stage}

/-- What is done under the mutex of logger `k` is done by a call that has it. -/
theorem logger?_of_guards {a : Action} (hallowed : stages.Allowed t a)
    (hguards : guards a (.logMutex k)) : t.logger? = some k := by
  have heq {j : ℕ} (h : Mutex.logMutex k = .logMutex j) : some j = some k :=
    congrArg some (Mutex.logMutex.inj h).symm
  cases a with
  | storeLevel j level => exact (congrArg Stage.logger? hallowed).trans (heq hguards)
  | compose j level message context =>
    exact (congrArg Stage.logger? hallowed).trans (heq hguards)
  | openFile j q => exact (congrArg Stage.logger? hallowed).trans (heq hguards)
  | put j toFile bytes => exact (congrArg Stage.logger? hallowed).trans (heq hguards)
  | rename j q => exact (congrArg Stage.logger? hallowed).trans (heq hguards)
  | storeUseFile j useFile =>
    rcases hallowed with rfl | ⟨q, rfl⟩
    · exact heq hguards
    · exact heq hguards
  | testFile j =>
    obtain ⟨entry, rfl⟩ := hallowed
    exact heq hguards
  | tellp j =>
    obtain ⟨q, rfl⟩ := hallowed
    exact heq hguards
  | closeFile j =>
    obtain ⟨q, rfl⟩ := hallowed
    exact heq hguards
  | _ => exact absurd hguards (by simp [guards])

/-- **The stage tells the mutex**: what is left of a call that has the mutex of logger `k`
would have to give it up, so its stage is one with `k`. -/
theorem logger?_of_held {α : Type} {p : Procedure α} {post : α → Stage → Prop}
    {held : Mutex → Bool} (hstages : p.Obeys stages post t)
    (hmutexes : p.Obeys mutexes.protocol (fun _ held => held = Mutexes.nothing) held)
    (hk : held (.logMutex k) = true) : t.logger? = some k := by
  induction p generalizing t held with
  | ret x =>
    obtain rfl : held = Mutexes.nothing := hmutexes
    exact absurd hk Bool.false_ne_true
  | act a kont ih =>
    obtain ⟨hallowed, hrest⟩ := hstages
    obtain ⟨⟨hact, -⟩, hrest'⟩ := hmutexes
    -- any reply will do
    have r : Answer a := answer (initial (fun _ => none) 0 fun _ => []).shared .ok a
    by_cases hguards : guards a (.logMutex k)
    · exact logger?_of_guards hallowed hguards
    by_cases hunlock : a = .unlock (.logMutex k)
    · subst hunlock
      exact Stage.logger?_of_final hallowed
    have hlock : a ≠ .lock (.logMutex k) := by
      rintro rfl
      exact absurd (hact _ hk) (Nat.lt_irrefl _)
    have hk' : Mutexes.afterAct held (lockAct a) (.logMutex k) = true := by
      cases a with
      | lock m => exact (Function.update_of_ne (fun h => hlock (congrArg _ h.symm)) ..).trans hk
      | unlock m => exact (Function.update_of_ne (fun h => hunlock (congrArg _ h.symm)) ..).trans hk
      | _ => exact hk
    have ht := ih r (hrest r trivial) (hrest' r trivial) hk'
    have hstage : t.after a r = t := Stage.after_eq_self hallowed hguards hlock ht
    exact (congrArg Stage.logger? hstage).symm.trans ht

/-- While a call is putting an entry it does nothing else. -/
theorem Stage.Putting.action (hputting : t.Putting) (ht : t.logger? = some k) {a : Action}
    (hallowed : stages.Allowed t a) :
    a = .testFile k ∨ ∃ toFile bytes, a = .put k toFile bytes := by
  cases a with
  | testFile j =>
    obtain ⟨entry, rfl⟩ := hallowed
    obtain rfl : j = k := Option.some.inj ht
    exact Or.inl rfl
  | put j toFile bytes =>
    obtain rfl : t = .writing j toFile bytes := hallowed
    obtain rfl : j = k := Option.some.inj ht
    exact Or.inr ⟨toFile, bytes, rfl⟩
  | lock m =>
    cases m with
    | loggerMutex => exact absurd hputting hallowed
    | logMutex j =>
      obtain rfl : t = .outside := hallowed
      exact hputting.elim
  | unlock m =>
    cases m with
    | loggerMutex => exact absurd hputting hallowed
    | logMutex j =>
      rcases hallowed with rfl | ⟨toFile, rfl⟩ | rfl | ⟨path, rfl⟩
      · exact hputting.elim
      · exact absurd rfl hputting
      · exact hputting.elim
      · exact hputting.elim
  | storeLevel j level | compose j level message context | openFile j path =>
    obtain rfl : t = .entered j := hallowed
    exact hputting.elim
  | storeUseFile j useFile =>
    rcases hallowed with rfl | ⟨path, rfl⟩
    · exact hputting.elim
    · exact hputting.elim
  | tellp j | closeFile j =>
    obtain ⟨path, rfl⟩ := hallowed
    exact hputting.elim
  | rename j path =>
    obtain rfl : t = .closed j path := hallowed
    exact hputting.elim
  | _ => exact absurd hputting hallowed

/-- The call that has the mutex is putting an entry, unless all of them are settled. -/
theorem settled_or_isPutting {d : Option Bytes} {g : Output} {s : State} {call : loggers.Call}
    (hformed : g.WellFormed) (hcall : s.callers i = some call) (hat : stageDiscipline.At call t)
    (ht : t.logger? = some k) (hsaid : t.Says k d g s.shared) : g.Settled ∨ IsPutting s i k := by
  by_cases hputting : t.Putting
  · obtain ⟨op, rest⟩ := call
    cases rest with
    | ret x =>
      obtain rfl : t = .outside := hat
      exact hputting.elim
    | act a kont =>
      have hhead : s.head? i = some a := State.head?_of_callers hcall
      rcases hputting.action ht hat.1 with rfl | ⟨toFile, bytes, rfl⟩
      · exact Or.inr (Or.inl hhead)
      · exact Or.inr (Or.inr ⟨toFile, bytes, hhead⟩)
  · left
    cases t with
    | composed j entry => exact absurd trivial hputting
    | writing j toFile rest =>
      obtain rfl : rest = [] := not_not.mp hputting
      have hrest : if s.shared.target k toFile = d then g.Rest [] else g.Settled := hsaid
      split at hrest
      · exact hformed.settled_of_rest hrest
      · exact hrest
    | _ => exact hsaid

end Writer

variable {directory : Bytes → Option ℕ} {created : ℕ} {contents : ℕ → Bytes} {tr : List Label}
  {s : State}

/-- **Entries are whole.**  Whatever threads use the loggers, what logger `k` has put to `d`
is the concatenation of what it has put of each entry, in the order of the entries, and this
is a beginning of the entry: all of it unless the stream failed at it, or the entry is the
latest and the thread that has the mutex of `k` is putting an entry. -/
theorem entries_whole (h : loggers.system.Run (initial directory created contents) tr s) (k : ℕ)
    (d : Option Bytes) :
    let g := output k d tr (initial directory created contents)
    g.bytes = (g.records.reverse.map (·.written)).flatten ∧
      (∀ r ∈ g.records, r.written <+: r.entry) ∧
      (∀ r ∈ g.records.tail, r.failed = true ∨ r.written = r.entry) ∧
      ((∀ r ∈ g.records, r.failed = true ∨ r.written = r.entry) ∨
        ∃ i, s.shared.owner (.logMutex k) = some i ∧ IsPutting s i k) := by
  have hby := TransitionSystem.runBy_iff.mpr ⟨h, fun pre a post u _ hu => mutexes_holding hu⟩
  have hempty : Quiet k ⟨[], []⟩ (initial directory created contents).shared :=
    ⟨Output.wellFormed_empty, fun _ _ hr => absurd hr List.not_mem_nil⟩
  obtain ⟨⟨hformed, hquiet⟩, hcalls⟩ := (entries_keeps k d).holds hempty hby
  refine ⟨hformed.bytes_eq, hformed.prefixes, hformed.settled, ?_⟩
  rcases hown : s.shared.owner (.logMutex k) with _ | i
  · exact Or.inl (hquiet hown)
  · obtain ⟨call, hcall⟩ := (mutexes_holding h).exists_call hown
    obtain ⟨t, hat, hwrites⟩ := hcalls i call hcall
    have ht : t.logger? = some k :=
      logger?_of_held hat ((mutexes_holding h).busy i call hcall) (decide_eq_true hown)
    rcases settled_or_isPutting hformed hcall hat ht (hwrites ht).2.2 with hsettled | hputting
    · exact Or.inl hsettled
    · exact Or.inr ⟨i, rfl, hputting⟩

/-! ## A run -/

def noEntry : Bytes := logEntry midnight (logLevelToString .error) (ascii ['n', 'o']) []

/-- The stream takes the entry in two pieces, between which another thread waits. -/
def piecesRun : List Label :=
  sharedLoggerRun ++
    [.act 0 (.compose 0 (logLevelToString .error) (ascii ['n', 'o']) []) (.time midnight),
      .act 0 (.testFile 0) .ok, .act 0 (.put 0 false noEntry) (.taken 5), .call 2 .getLogger,
      .act 0 (.put 0 false (noEntry.drop 5)) (.taken 32), .act 0 (.unlock (.logMutex 0)) .ok,
      .act 1 (.lock (.logMutex 0)) .ok, .act 1 (.storeLevel 0 .debug) .ok,
      .act 1 (.unlock (.logMutex 0)) .ok]

theorem entries_whole_piecesRun :
    (output 0 none piecesRun noFiles).records = [⟨noEntry, noEntry, false⟩] ∧
      ∀ r ∈ (output 0 none piecesRun noFiles).records, r.failed = true ∨ r.written = r.entry := by
  have hlegal : loggers.system.Legal piecesRun noFiles := by decide
  have hfree : (loggers.system.after piecesRun noFiles).shared.owner (.logMutex 0) = none := by
    decide
  refine ⟨by decide, ?_⟩
  refine (entries_whole (TransitionSystem.run_of_legal hlegal) 0 none).2.2.2.resolve_right ?_
  rintro ⟨i, hown, -⟩
  exact absurd (hfree.symm.trans hown) (by simp)

end Logging
