/-
# The log file and its backup

`setOutputFile` renames a file that has grown beyond `maxSize` to its backup, which
replaces the backup there was, and begins a new one.  `Segments` is what that comes to for
the pieces of a log kept in two segments: only the oldest are lost.  Where logger `k` alone
opens `path`, the file is that of its stream and of nobody else's (`Files`), so the two
files hold the latest of what was put there, each entry in one of them, and either nothing
has been lost or the backup is larger than `maxSize` (`rotation_keeps`).
-/
import RedisStateManager.LoggingEntries

/-! ## A log in two segments -/

section Segments

variable {α : Type*} {bound : ℕ} {pieces : List (List α)} {piece x backup current : List α}

/-- The latest of `pieces` are in the backup and in the current segment; where some have been
lost, the backup is larger than `bound`. -/
def Segments (bound : ℕ) (pieces : List (List α)) (backup current : List α) : Prop :=
  ∃ lost old new, pieces = lost ++ old ++ new ∧ backup = old.flatten ∧ current = new.flatten ∧
    (lost = [] ∨ bound < backup.length)

/-- The same while `piece` is being written to the current segment. -/
def SegmentsWriting (bound : ℕ) (pieces : List (List α)) (piece backup current : List α) : Prop :=
  ∃ rest, Segments bound pieces backup rest ∧ current = rest ++ piece

theorem segments_start (backup current : List α) :
    Segments bound [backup, current] backup current :=
  ⟨[], [backup], [current], rfl, by simp, by simp, Or.inl rfl⟩

/-- A new piece begins. -/
theorem Segments.writing (h : Segments bound pieces backup current) :
    SegmentsWriting bound pieces [] backup current :=
  ⟨current, h, (List.append_nil _).symm⟩

theorem SegmentsWriting.append (h : SegmentsWriting bound pieces piece backup current)
    (x : List α) : SegmentsWriting bound pieces (piece ++ x) backup (current ++ x) := by
  obtain ⟨rest, hrest, rfl⟩ := h
  exact ⟨rest, hrest, List.append_assoc ..⟩

/-- The piece being written counts as one of the pieces. -/
theorem SegmentsWriting.segments (h : SegmentsWriting bound pieces piece backup current) :
    Segments bound (pieces ++ [piece]) backup current := by
  obtain ⟨rest, ⟨lost, old, new, rfl, hbackup, rfl, hlost⟩, rfl⟩ := h
  exact ⟨lost, old, new ++ [piece], (List.append_assoc ..), hbackup, by simp, hlost⟩

/-- **Rotation**: the current segment becomes the backup. -/
theorem Segments.rotate (h : Segments bound pieces backup current)
    (hlarge : bound < current.length) : Segments bound pieces current [] := by
  obtain ⟨lost, old, new, rfl, -, rfl, -⟩ := h
  exact ⟨lost ++ old, new, [], (List.append_nil _).symm, rfl, rfl, Or.inr hlarge⟩

end Segments

namespace Logging

open Redis (Bytes ascii)
open Program Service

/-! ## The files -/

namespace Shared

/-- What the file that `path` names holds. -/
def content (s : Shared) (path : Bytes) : Bytes := ((s.directory path).map s.contents).getD []

end Shared

theorem backupFile_ne (path : Bytes) : backupFile path ≠ path := by
  intro h
  have hlength := congrArg List.length h
  simp [backupFile, ascii] at hlength

theorem backupFile_inj {p q : Bytes} (h : backupFile q = backupFile p) : q = p :=
  List.append_cancel_right h

/-- The file opened by `q` and its backup are not those of `path`. -/
def Elsewhere (path q : Bytes) : Prop :=
  q ≠ path ∧ q ≠ backupFile path ∧ backupFile q ≠ path

/-- Logger `j` opens `q`, and only logger `k` opens `path`. -/
def Sole (k : ℕ) (path : Bytes) (j : ℕ) (q : Bytes) : Prop :=
  (j = k ∧ q = path) ∨ Elsewhere path q

/-- Only logger `k` opens `path`, nobody its backup, and it is nobody's backup. -/
def SoleLabel (k : ℕ) (path : Bytes) : Label → Prop
  | .act _ (.openFile j q) _ => Sole k path j q
  | _ => True

/-- An open stream of logger `j` writes to the file of `path` if it is that of logger `k`
that was opened by this name, and otherwise neither to it nor to the backup. -/
structure StreamOk (k : ℕ) (path : Bytes) (directory : Bytes → Option ℕ) (created j : ℕ)
    (u : Stream) : Prop where
  fresh : u.file < created
  own : u.path = path → j = k ∧ directory path = some u.file
  apart : u.path ≠ path → directory path ≠ some u.file ∧ directory (backupFile path) ≠ some u.file

/-- Files have one name each. -/
structure Files (k : ℕ) (path : Bytes) (s : Shared) : Prop where
  fresh : ∀ q file, s.directory q = some file → file < s.created
  inj : ∀ q q' file, s.directory q = some file → s.directory q' = some file → q = q'
  streams : ∀ j u, s.stream? j = some u → u.isOpen = true →
    StreamOk k path s.directory s.created j u

section Files

variable {k j i : ℕ} {path q : Bytes} {s s' : Shared}

/-- No stream has been opened anew. -/
theorem Files.of_streams (hs : Files k path s) (hdirectory : s'.directory = s.directory)
    (hcreated : s'.created = s.created)
    (hstreams : ∀ j u, s'.stream? j = some u → u.isOpen = true →
      ∃ v, s.stream? j = some v ∧ v.isOpen = true ∧ v.path = u.path ∧ v.file = u.file) :
    Files k path s' := by
  refine ⟨?_, ?_, fun j u hu hopen => ?_⟩
  · rw [hdirectory, hcreated]
    exact hs.fresh
  · rw [hdirectory]
    exact hs.inj
  · obtain ⟨v, hv, hvopen, hpath, hfile⟩ := hstreams j u hu hopen
    obtain ⟨hfresh, hown, hapart⟩ := hs.streams j v hv hvopen
    rw [hfile] at hfresh hown hapart
    rw [hpath] at hown hapart
    rw [hcreated, hdirectory]
    exact ⟨hfresh, hown, hapart⟩

/-- The logger is changed, and gets no open stream that it had not. -/
theorem Files.setLogger (hs : Files k path s) {logger : DefaultLogger}
    (h : ∀ u, logger.file_stream_ = some u → u.isOpen = true →
      ∃ v, s.stream? j = some v ∧ v.isOpen = true ∧ v.path = u.path ∧ v.file = u.file) :
    Files k path (s.setLogger j logger) := by
  refine hs.of_streams rfl rfl fun j' u hu hopen => ?_
  rw [stream?_setLogger] at hu
  split at hu
  · next hj =>
    subst hj
    exact h u hu hopen
  · exact ⟨u, hu, hopen, rfl, rfl⟩

/-- A stream that has just been opened, by the only name of its file. -/
theorem streamOk_opened (hsole : Sole k path j q) {directory : Bytes → Option ℕ}
    {created file : ℕ} (hlt : file < created) (hfile : directory q = some file)
    (honly : ∀ x, directory x = some file → x = q) :
    StreamOk k path directory created j ⟨q, file, true, true⟩ := by
  refine ⟨hlt, fun hq => ?_, fun hq => ?_⟩
  · rcases hsole with ⟨hj, -⟩ | helse
    · exact ⟨hj, hq ▸ hfile⟩
    · exact absurd hq helse.1
  · rcases hsole with ⟨-, hpath⟩ | helse
    · exact absurd hpath hq
    · exact ⟨fun h => helse.1 (honly _ h).symm, fun h => helse.2.1 (honly _ h).symm⟩

section Create

variable {directory : Bytes → Option ℕ} {created file : ℕ} {x : Bytes} {u : Stream}

/-- The other files had their names before. -/
theorem directory_of_create (h : Function.update directory q (some created) x = some file)
    (hne : file ≠ created) : directory x = some file := by
  by_cases hx : x = q
  · rw [hx, Function.update_self] at h
    exact absurd (Option.some.inj h).symm hne
  · rwa [Function.update_of_ne hx] at h

/-- The new file has one name. -/
theorem eq_of_create (hfresh : directory x ≠ some created)
    (h : Function.update directory q (some created) x = some created) : x = q := by
  by_contra hx
  rw [Function.update_of_ne hx] at h
  exact hfresh h

/-- The streams that were open before a file was created. -/
theorem StreamOk.create (h : StreamOk k path directory created j u) (hnone : directory q = none) :
    StreamOk k path (Function.update directory q (some created)) (created + 1) j u := by
  have hne := Nat.ne_of_lt h.fresh
  refine ⟨Nat.lt_succ_of_lt h.fresh, fun hpath => ⟨(h.own hpath).1, ?_⟩, fun hpath => ?_⟩
  · rw [Function.update_of_ne fun hq => by rw [← hq, (h.own hpath).2] at hnone; cases hnone]
    exact (h.own hpath).2
  · exact ⟨fun hx => (h.apart hpath).1 (directory_of_create hx hne),
      fun hx => (h.apart hpath).2 (directory_of_create hx hne)⟩

end Create

/-- A stream is opened. -/
theorem Files.openFile (hs : Files k path s) (hsole : Sole k path j q) :
    Files k path (s.openFile j q) := by
  unfold Shared.openFile
  split
  · next file hfile =>
    refine ⟨hs.fresh, hs.inj, fun j' u hu hopen => ?_⟩
    rw [stream?_setLogger] at hu
    split at hu
    · next hj =>
      subst hj
      obtain rfl := Option.some.inj hu
      exact streamOk_opened hsole (hs.fresh q file hfile) hfile fun x hx => hs.inj x q file hx hfile
    · exact hs.streams j' u hu hopen
  · next hnone =>
    have hfresh (x : Bytes) : s.directory x ≠ some s.created := fun h =>
      absurd (hs.fresh x _ h) (Nat.lt_irrefl _)
    refine ⟨fun x file hx => ?_, fun x x' file hx hx' => ?_, fun j' u hu hopen => ?_⟩
    · by_cases hfile : file = s.created
      · exact hfile ▸ Nat.lt_succ_self _
      · exact Nat.lt_succ_of_lt (hs.fresh x file (directory_of_create hx hfile))
    · by_cases hfile : file = s.created
      · subst hfile
        rw [eq_of_create (hfresh x) hx, eq_of_create (hfresh x') hx']
      · exact hs.inj x x' file (directory_of_create hx hfile) (directory_of_create hx' hfile)
    · have hu : (s.setLogger j _).stream? j' = some u := hu
      rw [stream?_setLogger] at hu
      split at hu
      · next hj =>
        subst hj
        obtain rfl := Option.some.inj hu
        exact streamOk_opened hsole (Nat.lt_succ_self _) (Function.update_self ..) fun x hx =>
          eq_of_create (hfresh x) hx
      · exact (hs.streams j' u hu hopen).create hnone

/-- The names once the file that had name `q` is its backup. -/
def renamed (directory : Bytes → Option ℕ) (q : Bytes) (file : ℕ) : Bytes → Option ℕ :=
  Function.update (Function.update directory q none) (backupFile q) (some file)

section Renamed

variable {directory : Bytes → Option ℕ} {created file : ℕ} {x : Bytes} {u : Stream}

theorem renamed_backupFile : renamed directory q file (backupFile q) = some file :=
  Function.update_self ..

theorem renamed_self : renamed directory q file q = none := by
  unfold renamed
  rw [Function.update_of_ne (Ne.symm (backupFile_ne q)), Function.update_self]

theorem renamed_of_ne (hx : x ≠ q) (hx' : x ≠ backupFile q) :
    renamed directory q file x = directory x := by
  unfold renamed
  rw [Function.update_of_ne hx', Function.update_of_ne hx]

theorem renamed_eq_some {f : ℕ} (h : renamed directory q file x = some f) :
    (x = backupFile q ∧ f = file) ∨ (x ≠ q ∧ directory x = some f) := by
  by_cases hx' : x = backupFile q
  · subst hx'
    exact Or.inl ⟨rfl, Option.some.inj (h.symm.trans renamed_backupFile)⟩
  · by_cases hx : x = q
    · subst hx
      exact absurd (renamed_self.symm.trans h) (by simp)
    · exact Or.inr ⟨hx, (renamed_of_ne hx hx').symm.trans h⟩

/-- A file that has nothing to do with `path` is renamed. -/
theorem StreamOk.renamed_elsewhere (h : StreamOk k path directory created j u)
    (helse : Elsewhere path q) : StreamOk k path (renamed directory q file) created j u := by
  have hpath : renamed directory q file path = directory path :=
    renamed_of_ne (Ne.symm helse.1) (Ne.symm helse.2.2)
  have hbackup : renamed directory q file (backupFile path) = directory (backupFile path) :=
    renamed_of_ne (Ne.symm helse.2.1) fun h => helse.1 (backupFile_inj h).symm
  refine ⟨h.fresh, ?_, ?_⟩
  · rw [hpath]
    exact h.own
  · rw [hpath, hbackup]
    exact h.apart

/-- The file of `path` is renamed, and the stream is not that of `path`. -/
theorem StreamOk.renamed_self (h : StreamOk k path directory created j u)
    (hfile : directory path = some file) (hpath : u.path ≠ path) :
    StreamOk k path (renamed directory path file) created j u := by
  refine ⟨h.fresh, fun heq => absurd heq hpath, fun _ => ⟨fun hx => ?_, fun hx => ?_⟩⟩
  · exact absurd (Logging.renamed_self.symm.trans hx) (by simp)
  · exact (h.apart hpath).1 (hfile.trans (renamed_backupFile.symm.trans hx))

end Renamed

/-- A file is renamed that is not that of `path`, or that is no longer open. -/
theorem Files.rename (hs : Files k path s)
    (hq : Elsewhere path q ∨ q = path ∧ ∀ u, s.stream? k = some u → u.isOpen = false) :
    Files k path (s.rename q) := by
  unfold Shared.rename
  split
  · next file hfile =>
    refine ⟨fun x f hx => ?_, fun x x' f hx hx' => ?_, fun j u hu hopen => ?_⟩
    · rcases renamed_eq_some hx with ⟨-, rfl⟩ | ⟨-, h⟩
      · exact hs.fresh q f hfile
      · exact hs.fresh x f h
    · rcases renamed_eq_some hx with ⟨rfl, rfl⟩ | ⟨hxq, h⟩
      · rcases renamed_eq_some hx' with ⟨rfl, -⟩ | ⟨hxq, h⟩
        · rfl
        · exact absurd (hs.inj _ _ _ h hfile) hxq
      · rcases renamed_eq_some hx' with ⟨rfl, rfl⟩ | ⟨-, h'⟩
        · exact absurd (hs.inj _ _ _ h hfile) hxq
        · exact hs.inj x x' f h h'
    · have hok := hs.streams j u hu hopen
      rcases hq with helse | ⟨rfl, hclosed⟩
      · exact hok.renamed_elsewhere helse
      · refine hok.renamed_self hfile fun hpath => ?_
        obtain ⟨rfl, -⟩ := hok.own hpath
        exact absurd (hopen.symm.trans (hclosed u hu)) (by simp)
  · exact hs

/-- What an action does to the files but for putting something into them. -/
theorem Files.perform (hs : Files k path s) {a : Action}
    (hopen : ∀ j q, a = .openFile j q → Sole k path j q)
    (hrename : ∀ j q, a = .rename j q →
      Elsewhere path q ∨ q = path ∧ ∀ u, s.stream? k = some u → u.isOpen = false)
    (i : ℕ) (choice : Choice) : Files k path (perform i s choice a) := by
  have hsame {s' : Shared} (hdirectory : s'.directory = s.directory)
      (hcreated : s'.created = s.created) (hstream : s'.stream? = s.stream?) :
      Files k path s' := by
    refine hs.of_streams hdirectory hcreated fun j u hu h => ⟨u, ?_, h, rfl, rfl⟩
    rw [← hstream]
    exact hu
  cases a with
  | construct level outputFile =>
    have hset : Files k path (s.setLogger s.made ⟨level, none, decide (outputFile ≠ [])⟩) :=
      hs.setLogger fun u hu _ => nomatch hu
    exact ⟨hset.fresh, hset.inj, hset.streams⟩
  | storeLevel j level => exact hs.setLogger fun u hu h => ⟨u, hu, h, rfl, rfl⟩
  | storeUseFile j useFile => exact hs.setLogger fun u hu h => ⟨u, hu, h, rfl, rfl⟩
  | openFile j q =>
    by_cases hfailed : choice = .failed
    · rw [Logging.perform, if_pos hfailed]
      refine hs.setLogger fun u hu h => ?_
      obtain rfl := Option.some.inj hu
      exact absurd h Bool.false_ne_true
    · rw [Logging.perform, if_neg hfailed]
      exact hs.openFile (hopen j q rfl)
  | closeFile j =>
    refine hs.setLogger fun u hu h => ?_
    obtain ⟨v, -, rfl⟩ := Option.map_eq_some_iff.mp hu
    exact absurd h Bool.false_ne_true
  | rename j q =>
    by_cases hfailed : choice = .failed
    · rw [Logging.perform, if_pos hfailed]
      exact hs
    · rw [Logging.perform, if_neg hfailed]
      exact hs.rename (hrename j q rfl)
  | put j toFile bytes =>
    cases toFile with
    | true =>
      cases choice with
      | taken n =>
        show Files k path (s.putFile j (bytes.take n))
        unfold Shared.putFile
        split
        · exact hsame rfl rfl rfl
        · exact hs
      | _ =>
        refine hs.setLogger fun u hu h => ?_
        obtain ⟨v, hv, rfl⟩ := Option.map_eq_some_iff.mp hu
        exact ⟨v, hv, h, rfl, rfl⟩
    | false => cases choice <;> exact hsame rfl rfl rfl
  | _ => exact hsame rfl rfl rfl

/-! ### What they hold -/

theorem content_of_eq {x : Bytes} (hdirectory : s'.directory = s.directory)
    (hcontents : s'.contents = s.contents) : s'.content x = s.content x := by
  unfold Shared.content
  rw [hdirectory, hcontents]

theorem content_of_some {x : Bytes} {file : ℕ} (h : s.directory x = some file) :
    s.content x = s.contents file := by
  unfold Shared.content
  rw [h]
  rfl

theorem content_of_none {x : Bytes} (h : s.directory x = none) : s.content x = [] := by
  unfold Shared.content
  rw [h]
  rfl

/-- A file that is opened holds what it held, or nothing if it is new. -/
theorem content_openFile (hs : Files k path s) (x : Bytes) :
    (s.openFile j q).content x = s.content x := by
  unfold Shared.openFile
  split
  · exact content_of_eq rfl rfl
  · next hnone =>
    by_cases hx : x = q
    · subst hx
      rw [content_of_none hnone]
      refine (content_of_some (Function.update_self ..)).trans ?_
      exact Function.update_self ..
    · have hname : Function.update s.directory q (some s.created) x = s.directory x :=
        Function.update_of_ne hx ..
      cases hfile : s.directory x with
      | none =>
        rw [content_of_none hfile]
        exact content_of_none (hname.trans hfile)
      | some file =>
        rw [content_of_some hfile]
        refine (content_of_some (hname.trans hfile)).trans ?_
        exact Function.update_of_ne (Nat.ne_of_lt (hs.fresh x file hfile)) ..

/-- A file that is renamed elsewhere. -/
theorem content_rename_elsewhere (hq : Elsewhere path q) {x : Bytes}
    (hx : x = path ∨ x = backupFile path) : (s.rename q).content x = s.content x := by
  have hne : x ≠ q ∧ x ≠ backupFile q := by
    rcases hx with rfl | rfl
    · exact ⟨Ne.symm hq.1, Ne.symm hq.2.2⟩
    · exact ⟨Ne.symm hq.2.1, fun h => hq.1 (backupFile_inj h).symm⟩
  unfold Shared.rename
  split
  · show ((Function.update (Function.update s.directory q none) _ _ x).map s.contents).getD [] = _
    rw [Function.update_of_ne hne.2, Function.update_of_ne hne.1]
    rfl
  · rfl

/-- The file of `path` becomes the backup. -/
theorem content_rename_self (h : s.content path ≠ []) :
    (s.rename path).content (backupFile path) = s.content path ∧
      (s.rename path).content path = [] := by
  unfold Shared.rename
  split
  · next file hfile =>
    rw [content_of_some hfile]
    refine ⟨content_of_some (Function.update_self ..), content_of_none ?_⟩
    exact (Function.update_of_ne (Ne.symm (backupFile_ne path)) ..).trans (Function.update_self ..)
  · next hnone => exact absurd (content_of_none hnone) h

/-- What logger `k` puts into the stream it opened by `path`. -/
theorem content_putFile_own (hs : Files k path s) {u : Stream} (hu : s.stream? k = some u)
    (hopen : u.isOpen = true) (hpath : u.path = path) (bytes : Bytes) :
    (s.putFile k bytes).content path = s.content path ++ bytes ∧
      (s.putFile k bytes).content (backupFile path) = s.content (backupFile path) := by
  have hfile := ((hs.streams k u hu hopen).own hpath).2
  unfold Shared.putFile
  rw [hu]
  constructor
  · rw [content_of_some hfile]
    show ((s.directory path).map _).getD [] = _
    rw [hfile]
    exact Function.update_self ..
  · cases hbackup : s.directory (backupFile path) with
    | none =>
      rw [content_of_none hbackup]
      exact content_of_none hbackup
    | some file =>
      rw [content_of_some hbackup]
      show ((s.directory (backupFile path)).map _).getD [] = _
      rw [hbackup]
      refine Function.update_of_ne (fun h => ?_) ..
      subst h
      exact backupFile_ne path (hs.inj _ _ _ hbackup hfile)

/-- What is put into a stream opened by another name. -/
theorem content_putFile_other (hs : Files k path s) {u : Stream} (hu : s.stream? j = some u)
    (hopen : u.isOpen = true) (hpath : u.path ≠ path) (bytes : Bytes) {x : Bytes}
    (hx : x = path ∨ x = backupFile path) : (s.putFile j bytes).content x = s.content x := by
  have hapart : s.directory x ≠ some u.file := by
    rcases hx with rfl | rfl
    · exact ((hs.streams j u hu hopen).apart hpath).1
    · exact ((hs.streams j u hu hopen).apart hpath).2
  unfold Shared.putFile
  rw [hu]
  cases hfile : s.directory x with
  | none =>
    rw [content_of_none hfile]
    exact content_of_none hfile
  | some file =>
    rw [content_of_some hfile]
    show ((s.directory x).map _).getD [] = _
    rw [hfile]
    refine Function.update_of_ne (fun h => ?_) ..
    exact hapart (h ▸ hfile)

/-- What an action does that neither puts something into the file of `path` nor renames it. -/
theorem content_perform (hs : Files k path s) {a : Action} {choice : Choice}
    (hput : ∀ j bytes n, a = .put j true bytes → choice = .taken n →
      ∃ u, s.stream? j = some u ∧ u.isOpen = true ∧ u.path ≠ path)
    (hrename : ∀ j q, a = .rename j q → Elsewhere path q) {x : Bytes}
    (hx : x = path ∨ x = backupFile path) (i : ℕ) :
    (perform i s choice a).content x = s.content x := by
  cases a with
  | openFile j q =>
    by_cases hfailed : choice = .failed
    · rw [perform, if_pos hfailed]
      exact content_of_eq rfl rfl
    · rw [perform, if_neg hfailed]
      exact content_openFile hs x
  | rename j q =>
    by_cases hfailed : choice = .failed
    · rw [perform, if_pos hfailed]
    · rw [perform, if_neg hfailed]
      exact content_rename_elsewhere (hrename j q rfl) hx
  | put j toFile bytes =>
    cases toFile with
    | true =>
      cases choice with
      | taken n =>
        obtain ⟨u, hu, hopen, hpath⟩ := hput j bytes n rfl rfl
        exact content_putFile_other hs hu hopen hpath _ hx
      | _ => exact content_of_eq rfl rfl
    | false => cases choice <;> exact content_of_eq rfl rfl
  | _ => exact content_of_eq rfl rfl

end Files

/-! ## What is kept -/

/-- What was in the files at `first`, and what has been put of each entry. -/
def pieces (first : List Bytes) (records : List Record) : List Bytes :=
  first ++ records.reverse.map (·.written)

theorem pieces_cons (first : List Bytes) (r : Record) (records : List Record) :
    pieces first (r :: records) = pieces first records ++ [r.written] := by
  unfold pieces
  rw [List.reverse_cons, List.map_append, List.append_assoc]
  rfl

/-- The file and its backup hold the latest pieces. -/
def Kept (path : Bytes) (first : List Bytes) (g : Output) (s : Shared) : Prop :=
  Segments maxSize.toNat (pieces first g.records) (s.content (backupFile path)) (s.content path)

/-- The latest piece is being written to the file. -/
def KeptWriting (path : Bytes) (first : List Bytes) (g : Output) (s : Shared) : Prop :=
  ∃ r records, g.records = r :: records ∧
    SegmentsWriting maxSize.toNat (pieces first records) r.written
      (s.content (backupFile path)) (s.content path)

namespace Stage

/-- The file that the call has opened. -/
def Opened (k : ℕ) (path : Bytes) : Stage → Prop
  | opened j q | large j q | closed j q => Sole k path j q
  | _ => True

/-- How the file of `path` stands, by the stage of the call that has the mutex of `k`. -/
def Tells (k : ℕ) (path : Bytes) (first : List Bytes) (g : Output) (s : Shared) : Stage → Prop
  | composed _ _ => s.target k (s.toFile k) = some path → KeptWriting path first g s
  | writing _ toFile _ => s.target k toFile = some path → KeptWriting path first g s
  | opened _ q => ∃ u, s.stream? k = some u ∧ u.isOpen = true ∧ u.path = q
  | large _ q => q = path → maxSize.toNat < (s.content path).length
  | closed _ q =>
    (∀ u, s.stream? k = some u → u.isOpen = false) ∧
      (q = path → maxSize.toNat < (s.content path).length)
  | _ => True

end Stage

/-- What a call in progress knows of the file of `path`. -/
def Rotates (k : ℕ) (path : Bytes) (first : List Bytes) (i : ℕ) (t : Stage) (g : Output)
    (s : Shared) : Prop :=
  Writes k (some path) i t g s ∧ t.Opened k path ∧ (t.logger? = some k → t.Tells k path first g s)

section Kept

variable {k i : ℕ} {path : Bytes} {first : List Bytes} {t : Stage} {g : Output} {s s' : Shared}

theorem Stage.Tells.congr (h : t.Tells k path first g s)
    (hlogger : s'.loggers k = s.loggers k)
    (hcontent : ∀ x, x = path ∨ x = backupFile path → s'.content x = s.content x) :
    t.Tells k path first g s' := by
  have hstream : s'.stream? k = s.stream? k := congrArg DefaultLogger.file_stream_ hlogger
  have htoFile : s'.toFile k = s.toFile k := by
    unfold Shared.toFile
    rw [hlogger, hstream]
  have htarget (toFile : Bool) : s'.target k toFile = s.target k toFile := by
    unfold Shared.target
    rw [hstream]
  have hpath := hcontent path (Or.inl rfl)
  have hbackup := hcontent (backupFile path) (Or.inr rfl)
  have hwriting (h : KeptWriting path first g s) : KeptWriting path first g s' := by
    unfold KeptWriting
    rw [hpath, hbackup]
    exact h
  cases t with
  | composed j entry =>
    intro hd
    rw [htoFile, htarget] at hd
    exact hwriting (h hd)
  | writing j toFile rest =>
    intro hd
    rw [htarget] at hd
    exact hwriting (h hd)
  | opened j q =>
    show ∃ u, s'.stream? k = some u ∧ _
    rw [hstream]
    exact h
  | large j q =>
    intro hq
    rw [hpath]
    exact h hq
  | closed j q =>
    refine ⟨fun u hu => h.1 u (hstream ▸ hu), fun hq => ?_⟩
    rw [hpath]
    exact h.2 hq
  | _ => trivial

/-- The stage remembers which file was opened. -/
theorem Stage.Opened.after {a : Action} {r : Answer a} (h : t.Opened k path)
    (hallowed : stages.Allowed t a) (hopen : ∀ j q, a = .openFile j q → Sole k path j q) :
    (t.after a r).Opened k path := by
  cases a with
  | lock m => cases m <;> first | exact h | trivial
  | unlock m => cases m <;> first | exact h | trivial
  | testFile j =>
    obtain ⟨entry, rfl⟩ := hallowed
    trivial
  | put j toFile bytes =>
    show (if _ then Stage.failed j else writing j toFile _).Opened k path
    split <;> trivial
  | openFile j q =>
    show (if _ then Stage.opened j q else entered j).Opened k path
    split
    · exact hopen j q rfl
    · trivial
  | tellp j =>
    obtain ⟨q, rfl⟩ := hallowed
    show (if _ then Stage.large j q else opened j q).Opened k path
    split <;> exact h
  | closeFile j =>
    obtain ⟨q, rfl⟩ := hallowed
    exact h
  | compose j level message context => trivial
  | rename j q => trivial
  | _ => exact h

theorem Kept.congr (h : Kept path first g s)
    (hcontent : ∀ x, x = path ∨ x = backupFile path → s'.content x = s.content x) :
    Kept path first g s' := by
  unfold Kept
  rw [hcontent path (Or.inl rfl), hcontent (backupFile path) (Or.inr rfl)]
  exact h

/-- What is not done under the mutex of logger `k` leaves the two files alone. -/
theorem content_of_not_guards (hs : Files k path s) {a : Action} {choice : Choice}
    (hposs : Possible i s choice a) (hguards : ¬ guards a (.logMutex k))
    (hrename : ∀ j q, a = .rename j q → Sole k path j q) {x : Bytes}
    (hx : x = path ∨ x = backupFile path) :
    (perform i s choice a).content x = s.content x := by
  refine content_perform hs ?_ ?_ hx i
  · rintro j bytes n rfl rfl
    obtain ⟨u, hu, hgood⟩ := (Option.any_eq_true _ _).mp (hposs.2.2 rfl)
    have hopen := (Bool.and_eq_true_iff.mp hgood).1
    refine ⟨u, hu, hopen, fun hpath => hguards ?_⟩
    rw [((hs.streams j u hu hopen).own hpath).1]
    rfl
  · rintro j q rfl
    rcases hrename j q rfl with ⟨rfl, -⟩ | helse
    · exact absurd rfl hguards
    · exact helse

/-- An entry is composed. -/
theorem Kept.start (h : Kept path first g s) (entry : Bytes) :
    Kept path first (g.start entry) s ∧ KeptWriting path first (g.start entry) s := by
  refine ⟨?_, ⟨_, _, rfl, Segments.writing h⟩⟩
  show Segments _ (pieces first (_ :: g.records)) _ _
  rw [pieces_cons]
  exact (Segments.writing h).segments

/-- The stream takes some bytes of the entry. -/
theorem KeptWriting.put (h : KeptWriting path first g s) {bytes : Bytes}
    (hpath : s'.content path = s.content path ++ bytes)
    (hbackup : s'.content (backupFile path) = s.content (backupFile path)) :
    Kept path first (g.put bytes) s' ∧ KeptWriting path first (g.put bytes) s' := by
  obtain ⟨r, records, hrecords, hwriting⟩ := h
  have hput : (g.put bytes).records = { r with written := r.written ++ bytes } :: records := by
    unfold Output.put
    rw [hrecords]
    rfl
  have hnext := hwriting.append bytes
  rw [← hpath, ← hbackup] at hnext
  refine ⟨?_, ⟨_, _, hput, hnext⟩⟩
  unfold Kept
  rw [hput, pieces_cons]
  exact hnext.segments

/-- A failure loses nothing. -/
theorem Kept.fail (h : Kept path first g s) : Kept path first g.fail s := by
  have hpieces : pieces first g.fail.records = pieces first g.records := by
    obtain ⟨bytes, records⟩ := g
    cases records with
    | nil => rfl
    | cons r records =>
      rw [pieces_cons]
      exact pieces_cons first _ records
  unfold Kept
  rw [hpieces]
  exact h

/-- The large file becomes the backup. -/
theorem Kept.rename (h : Kept path first g s) (hlarge : maxSize.toNat < (s.content path).length) :
    Kept path first g (s.rename path) := by
  have hne : s.content path ≠ [] := List.ne_nil_of_length_pos (Nat.zero_lt_of_lt hlarge)
  obtain ⟨hbackup, hpath⟩ := content_rename_self hne
  unfold Kept
  rw [hbackup, hpath]
  exact Segments.rotate h hlarge

theorem stream?_openFile (s : Shared) (k : ℕ) (q : Bytes) :
    ∃ u, (s.openFile k q).stream? k = some u ∧ u.isOpen = true ∧ u.path = q := by
  unfold Shared.openFile
  split
  · next file _ =>
    refine ⟨⟨q, file, true, true⟩, ?_, rfl, rfl⟩
    rw [stream?_setLogger, if_pos rfl]
  · refine ⟨⟨q, s.created, true, true⟩, ?_, rfl, rfl⟩
    show (s.setLogger k _).stream? k = _
    rw [stream?_setLogger, if_pos rfl]

/-- The size of the file that logger `k` has opened. -/
theorem size_eq (hs : Files k path s) {u : Stream} (hu : s.stream? k = some u)
    (hopen : u.isOpen = true) (hpath : u.path = path) : s.size k = (s.content path).length := by
  unfold Shared.size
  rw [hu, content_of_some ((hs.streams k u hu hopen).own hpath).2]
  rfl

section Put

variable {toFile : Bool} {bytes : Bytes} {n : ℕ}

/-- A put to the file of `path` goes through the open stream of that name. -/
theorem stream_of_put (hposs : Possible i s (.taken n) (.put k toFile bytes))
    (hd : s.target k toFile = some path) :
    toFile = true ∧ ∃ u, s.stream? k = some u ∧ u.isOpen = true ∧ u.path = path := by
  obtain rfl : toFile = true := by
    by_contra hfalse
    exact absurd ((if_neg hfalse).symm.trans hd) (by simp)
  obtain ⟨u, hu, hgood⟩ := (Option.any_eq_true _ _).mp (hposs.2.2 rfl)
  have hpath : (s.stream? k).map (·.path) = some path := hd
  rw [hu] at hpath
  exact ⟨rfl, u, hu, (Bool.and_eq_true_iff.mp hgood).1, Option.some.inj hpath⟩

/-- A put that goes elsewhere leaves the two files alone. -/
theorem content_put_of_ne (hs : Files k path s)
    (hposs : Possible i s (.taken n) (.put k toFile bytes)) (hd : s.target k toFile ≠ some path)
    {x : Bytes} (hx : x = path ∨ x = backupFile path) :
    (perform i s (.taken n) (.put k toFile bytes)).content x = s.content x := by
  refine content_perform hs ?_ ?_ hx i
  · rintro j bytes' m haction -
    obtain ⟨rfl, rfl, -⟩ := Action.put.inj haction
    obtain ⟨u, hu, hgood⟩ := (Option.any_eq_true _ _).mp (hposs.2.2 rfl)
    refine ⟨u, hu, (Bool.and_eq_true_iff.mp hgood).1, fun hpath => hd ?_⟩
    show (s.stream? k).map (·.path) = some path
    rw [hu, ← hpath]
    rfl
  · rintro j q haction
    cases haction

/-- The stream of logger `k` takes some bytes. -/
theorem Kept.put_taken (hposs : Possible i s (.taken n) (.put k toFile bytes))
    (hs : Files k path s) (hkept : Kept path first g s)
    (htells : s.target k toFile = some path → KeptWriting path first g s) :
    Kept path first (g.after k (some path) s (.put k toFile bytes) (.taken n))
        (perform i s (.taken n) (.put k toFile bytes)) ∧
      ((perform i s (.taken n) (.put k toFile bytes)).target k toFile = some path →
        KeptWriting path first (g.after k (some path) s (.put k toFile bytes) (.taken n))
          (perform i s (.taken n) (.put k toFile bytes))) := by
  have hstream : (perform i s (.taken n) (.put k toFile bytes)).stream? k = s.stream? k :=
    congrArg DefaultLogger.file_stream_ (loggers_put s)
  have htarget : (perform i s (.taken n) (.put k toFile bytes)).target k toFile =
      s.target k toFile := by
    unfold Shared.target
    rw [hstream]
  rw [after_put_taken, htarget]
  by_cases hd : s.target k toFile = some path
  · obtain ⟨rfl, u, hu, hopen, hpath⟩ := stream_of_put hposs hd
    obtain ⟨hcontent, hbackup⟩ := content_putFile_own hs hu hopen hpath (bytes.take n)
    obtain ⟨hkept', hwriting⟩ := (htells hd).put hcontent hbackup
    rw [if_pos hd]
    exact ⟨hkept', fun _ => hwriting⟩
  · rw [if_neg hd]
    exact ⟨hkept.congr fun x hx => content_put_of_ne hs hposs hd hx, fun h => absurd h hd⟩

/-- The stream of logger `k` fails. -/
theorem Kept.put_failed (hkept : Kept path first g s) :
    Kept path first (g.after k (some path) s (.put k toFile bytes) .failed)
      (perform i s .failed (.put k toFile bytes)) := by
  have hcontent (x : Bytes) :
      (perform i s .failed (.put k toFile bytes)).content x = s.content x := by
    cases toFile <;> exact content_of_eq rfl rfl
  refine Kept.congr ?_ fun x _ => hcontent x
  rw [after_put_failed]
  split
  · exact hkept.fail
  · exact hkept

/-- A put of logger `k`. -/
theorem Kept.put {choice : Choice} (hposs : Possible i s choice (.put k toFile bytes))
    (hs : Files k path s) (hkept : Kept path first g s)
    (htells : s.target k toFile = some path → KeptWriting path first g s) :
    Kept path first (g.after k (some path) s (.put k toFile bytes) choice)
        (perform i s choice (.put k toFile bytes)) ∧
      ((Stage.writing k toFile bytes).after (.put k toFile bytes)
        (answer s choice (.put k toFile bytes))).Tells k path first
          (g.after k (some path) s (.put k toFile bytes) choice)
          (perform i s choice (.put k toFile bytes)) := by
  cases choice with
  | taken n =>
    have hstage : (Stage.writing k toFile bytes).after (.put k toFile bytes) n =
        .writing k toFile (bytes.drop n) := if_neg (Nat.ne_of_gt hposs.1)
    show Kept path first _ _ ∧ Stage.Tells k path first _ _
      ((Stage.writing k toFile bytes).after (.put k toFile bytes) n)
    rw [hstage]
    exact hkept.put_taken hposs hs htells
  | failed => exact ⟨hkept.put_failed, trivial⟩
  | _ => exact hposs.elim

end Put

/-- Logger `k` opens a file. -/
theorem Kept.openFile (hkept : Kept path first g s) (hs : Files k path s) (t : Stage) (q : Bytes)
    {choice : Choice} :
    Kept path first g (perform i s choice (.openFile k q)) ∧
      (t.after (.openFile k q) (answer s choice (.openFile k q))).Tells k path first g
        (perform i s choice (.openFile k q)) := by
  by_cases hfailed : choice = .failed
  · subst hfailed
    exact ⟨hkept, trivial⟩
  · have hperform : perform i s choice (.openFile k q) = s.openFile k q := if_neg hfailed
    have hstage : t.after (.openFile k q) (answer s choice (.openFile k q)) = .opened k q :=
      if_pos (decide_eq_true hfailed)
    rw [hperform, hstage]
    exact ⟨hkept.congr fun x _ => content_openFile hs x, stream?_openFile s k q⟩

/-- A file is found to be large if it is. -/
theorem tells_tellp (hs : Files k path s) (choice : Choice) {q : Bytes}
    (htells : (Stage.opened k q).Tells k path first g s) :
    ((Stage.opened k q).after (.tellp k) (answer s choice (.tellp k))).Tells k path first g s := by
  show Stage.Tells k path first g s
    (if answer s choice (.tellp k) > maxSize then .large k q else .opened k q)
  split
  · next hsize =>
    rintro rfl
    obtain ⟨u, hu, hopen, hq⟩ := htells
    rw [← size_eq hs hu hopen hq]
    have hmax : 0 ≤ maxSize := by decide
    have hanswer : (if choice = .failed then (-1 : Int) else s.size k) > maxSize := hsize
    split at hanswer <;> omega
  · exact htells

/-- Logger `k` renames the file that it has closed. -/
theorem Kept.closed (hkept : Kept path first g s) (choice : Choice) {q : Bytes}
    (hsole : Sole k path k q) (hlarge : q = path → maxSize.toNat < (s.content path).length) :
    Kept path first g (perform i s choice (.rename k q)) := by
  by_cases hfailed : choice = .failed
  · rw [show perform i s choice (.rename k q) = s from if_pos hfailed]
    exact hkept
  · rw [show perform i s choice (.rename k q) = s.rename q from if_neg hfailed]
    rcases hsole with ⟨-, rfl⟩ | helse
    · exact hkept.rename (hlarge rfl)
    · exact hkept.congr fun x hx => content_rename_elsewhere helse hx

/-- Logger `k` composes an entry, for the file or for something else. -/
theorem Kept.compose (hkept : Kept path first g s) (level message context : Bytes) (now : Time) :
    Kept path first (g.after k (some path) s (.compose k level message context) (.time now)) s ∧
      (s.target k (s.toFile k) = some path → KeptWriting path first
        (g.after k (some path) s (.compose k level message context) (.time now)) s) := by
  rw [after_compose]
  by_cases hd : s.target k (s.toFile k) = some path
  · rw [if_pos hd]
    obtain ⟨hkept', hwriting⟩ := hkept.start (logEntry now level message context)
    exact ⟨hkept', fun _ => hwriting⟩
  · rw [if_neg hd]
    exact ⟨hkept, fun h => absurd h hd⟩

/-- **What an action under the mutex of logger `k` does to the two files.** -/
theorem Kept.step {a : Action} {choice : Choice} (hposs : Possible i s choice a)
    (hs : Files k path s) (hkept : Kept path first g s) (ht : t.logger? = some k)
    (hrot : Rotates k path first i t g s) (hallowed : stages.Allowed t a)
    (hguards : guards a (.logMutex k)) :
    Kept path first (g.after k (some path) s a choice) (perform i s choice a) ∧
      (t.after a (answer s choice a)).Tells k path first (g.after k (some path) s a choice)
        (perform i s choice a) := by
  obtain ⟨-, hopened, htells⟩ := hrot
  have htells := htells ht
  have heq {j : ℕ} (h : Mutex.logMutex k = .logMutex j) : j = k := (Mutex.logMutex.inj h).symm
  cases a with
  | storeLevel j level =>
    obtain rfl := heq hguards
    obtain rfl : t = .entered j := hallowed
    exact ⟨hkept, trivial⟩
  | storeUseFile j useFile =>
    obtain rfl := heq hguards
    refine ⟨hkept, ?_⟩
    rcases hallowed with rfl | ⟨q, rfl⟩
    · trivial
    · obtain ⟨u, hu, hopen, hq⟩ := htells
      refine ⟨u, ?_, hopen, hq⟩
      exact (stream?_setLogger _ _ _).trans ((if_pos rfl).trans hu)
  | openFile j q =>
    obtain rfl := heq hguards
    exact hkept.openFile hs t q
  | tellp j =>
    obtain rfl := heq hguards
    obtain ⟨q, rfl⟩ := hallowed
    exact ⟨hkept, tells_tellp hs choice htells⟩
  | closeFile j =>
    obtain rfl := heq hguards
    obtain ⟨q, rfl⟩ := hallowed
    refine ⟨hkept, fun u hu => ?_, htells⟩
    rw [show (perform i s choice (.closeFile j)).stream? j = (s.stream? j).map _ from
      (stream?_setLogger _ _ _).trans (if_pos rfl)] at hu
    obtain ⟨v, -, rfl⟩ := Option.map_eq_some_iff.mp hu
    rfl
  | rename j q =>
    obtain rfl := heq hguards
    obtain rfl : t = .closed j q := hallowed
    exact ⟨hkept.closed choice hopened htells.2, trivial⟩
  | compose j level message context =>
    obtain rfl := heq hguards
    cases choice with
    | time now =>
      exact hkept.compose level message context now
    | _ => exact hposs.elim
  | testFile j =>
    obtain rfl := heq hguards
    obtain ⟨entry, rfl⟩ := hallowed
    exact ⟨hkept, htells⟩
  | put j toFile bytes =>
    obtain rfl := heq hguards
    obtain rfl : t = .writing j toFile bytes := hallowed
    exact hkept.put hposs hs htells
  | _ => exact absurd hguards (by simp [guards])

/-- A call renames the file that it has opened. -/
theorem Stage.Opened.rename {a : Action} (h : t.Opened k path) (hallowed : stages.Allowed t a)
    (j : ℕ) (q : Bytes) (ha : a = .rename j q) : Sole k path j q := by
  subst ha
  obtain rfl : t = .closed j q := hallowed
  exact h

end Kept

theorem rotates_keeps (k : ℕ) (path : Bytes) (first : List Bytes) :
    stageDiscipline.KeepsWith (Output.after k (some path))
      (fun g s => Quiet k g s ∧ Files k path s ∧ Kept path first g s)
      (fun _ => Rotates k path first) fun s a => mutexes.Holding s ∧ SoleLabel k path a where
  start _ _ _ _ :=
    ⟨fun h => absurd h (by simp [stageDiscipline, Stage.logger?]), trivial,
      fun h => absurd h (by simp [stageDiscipline, Stage.logger?])⟩
  own g s i call t b choice _ _ hb hC hG hrot hallowed := by
    obtain ⟨hquiet, hs, hkept⟩ := hG
    obtain ⟨hquiet', hwrites'⟩ := hrot.1.step hb.2 hquiet hallowed
    have hopen (j : ℕ) (q : Bytes) (h : b = .openFile j q) : Sole k path j q := by
      subst h
      exact hC.2
    have hrename := hrot.2.1.rename hallowed
    have hs' : Files k path (perform i s.shared choice b) := by
      refine hs.perform hopen (fun j q h => ?_) i choice
      rcases hrename j q h with ⟨rfl, rfl⟩ | helse
      · subst h
        obtain rfl : t = .closed j q := hallowed
        exact Or.inr ⟨rfl, (hrot.2.2 rfl).1⟩
      · exact Or.inl helse
    refine ⟨trivial, ⟨hquiet', hs', ?_⟩, hwrites', hrot.2.1.after hallowed hopen, ?_⟩
    all_goals by_cases hguards : guards b (.logMutex k)
    · exact (hkept.step hb.2 hs (logger?_of_guards hallowed hguards) hrot hallowed hguards).1
    · rw [after_of_not_guards hguards]
      exact hkept.congr fun x hx => content_of_not_guards hs hb.2 hguards hrename hx
    · exact fun _ =>
        (hkept.step hb.2 hs (logger?_of_guards hallowed hguards) hrot hallowed hguards).2
    · intro ht
      by_cases hlock : b = .lock (.logMutex k)
      · subst hlock
        trivial
      · have hstage := Stage.after_eq_self hallowed hguards hlock ht
        have ht' : t.logger? = some k := hstage ▸ ht
        show (t.after b _).Tells k path first _ _
        rw [hstage, after_of_not_guards hguards]
        exact (hrot.2.2 ht').congr (loggers_perform (hrot.1 ht').2.1 hguards i choice)
          fun x hx => content_of_not_guards hs hb.2 hguards hrename hx
  other g s i j call call' t u b choice hij hcall hat hcall' hb hC hG hrot hrot' hallowed := by
    refine ⟨?_, hrot.2.1, fun ht => ?_⟩
    · exact (entries_keeps k (some path)).other g s i j call call' t u b choice hij hcall hat
        hcall' hb hC.1 hG.1 hrot.1 hrot'.1 hallowed
    · obtain ⟨hown, hk, -⟩ := hrot.1 ht
      obtain ⟨hguards, hlogger, -⟩ := untouched hC.1 hij hown hk hb
      rw [after_of_not_guards hguards]
      exact (hrot.2.2 ht).congr hlogger fun x hx =>
        content_of_not_guards hG.2.1 hb.2 hguards (hrot'.2.1.rename hallowed) hx

variable {directory : Bytes → Option ℕ} {created : ℕ} {contents : ℕ → Bytes} {tr : List Label}
  {s : State} {k : ℕ} {path : Bytes}

/-- **Rotation loses the oldest only.**  Where only logger `k` opens `path` and nobody its
backup, what the two files held at first and what was put of each entry falls into three parts:
the oldest pieces are lost, the next ones are the backup, and the latest are the file.  So no
entry is cut by a rotation; and either nothing has been lost, or the backup holds more than
`maxSize` bytes. -/
theorem rotation_keeps (h : loggers.system.Run (initial directory created contents) tr s)
    (hfresh : ∀ q file, directory q = some file → file < created)
    (hinj : ∀ q q' file, directory q = some file → directory q' = some file → q = q')
    (hsole : ∀ a ∈ tr, SoleLabel k path a) :
    let s₀ := initial directory created contents
    let first := [s₀.shared.content (backupFile path), s₀.shared.content path]
    let written := (output k (some path) tr s₀).records.reverse.map (·.written)
    Segments maxSize.toNat (first ++ written) (s.shared.content (backupFile path))
      (s.shared.content path) := by
  have hholding := TransitionSystem.runBy_iff.mpr ⟨h, fun pre a post u _ hu => mutexes_holding hu⟩
  have hby := hholding.and (h.runBy_of_forall fun a ha _ _ => hsole a ha)
  have hquiet : Quiet k ⟨[], []⟩ (initial directory created contents).shared :=
    ⟨Output.wellFormed_empty, fun _ _ hr => absurd hr List.not_mem_nil⟩
  have hfiles : Files k path (initial directory created contents).shared :=
    ⟨hfresh, hinj, fun j u hu => nomatch hu⟩
  have hkept : Kept path [(initial directory created contents).shared.content (backupFile path),
      (initial directory created contents).shared.content path] ⟨[], []⟩
      (initial directory created contents).shared := segments_start _ _
  exact ((rotates_keeps k path _).holds ⟨hquiet, hfiles, hkept⟩ hby).1.2.2

/-! ## A run -/

instance (k : ℕ) (path : Bytes) : ∀ a, Decidable (SoleLabel k path a)
  | .act _ a _ =>
    match a with
    | .openFile j q =>
      inferInstanceAs (Decidable ((j = k ∧ q = path) ∨
        q ≠ path ∧ q ≠ backupFile path ∧ backupFile q ≠ path))
    | .lock _ | .unlock _ | .construct .. | .loadLevel _ | .storeLevel .. | .storeUseFile ..
    | .tellp _ | .closeFile _ | .rename .. | .cerr _ | .compose .. | .testFile _ | .put ..
    | .testGlobal | .loadGlobal | .storeGlobal _ => isTrue trivial
  | .call .. | .ret .. => isTrue trivial

def logPath : Bytes := ascii ['l', 'o', 'g']

def oneFile (q : Bytes) : Option ℕ := if q = logPath then some 0 else none

def oneFileInitial (old : Bytes) : State := initial oneFile 1 fun _ => old

/-- A logger opens the file that was there. -/
def openedRun : List Label :=
  newLoggerRun 0 ++
    [.call 0 (.setOutputFile 0 logPath), .act 0 (.lock (.logMutex 0)) .ok,
      .act 0 (.openFile 0 logPath) .ok, .act 0 (.storeUseFile 0 true) .ok]

/-- The file becomes the backup, and an entry is written to the new one. -/
def rotatedRun : List Label :=
  [.act 0 (.closeFile 0) .ok, .act 0 (.rename 0 logPath) .ok, .act 0 (.openFile 0 logPath) .ok,
    .act 0 (.unlock (.logMutex 0)) .ok, .ret 0 (.setOutputFile 0 logPath) .done,
    .call 0 (.log 0 (logLevelToString .error) (ascii ['n', 'o']) []),
    .act 0 (.lock (.logMutex 0)) .ok,
    .act 0 (.compose 0 (logLevelToString .error) (ascii ['n', 'o']) []) (.time midnight),
    .act 0 (.testFile 0) .ok, .act 0 (.put 0 true noEntry) (.taken 37)]

def fileRun : List Label := openedRun ++ .act 0 (.tellp 0) .ok :: rotatedRun

/-- The logger has found the file large. -/
def rotatingCall : loggers.Call where
  operation := .setOutputFile 0 logPath
  rest := (fun _ => Outcome.done) <$>
    (rotate 0 logPath >>= fun _ => issue (.unlock (.logMutex 0)))

theorem next_tellp {old : Bytes} (hlarge : (old.length : Int) > maxSize) :
    loggers.system.next (.act 0 (.tellp 0) .ok)
        (loggers.system.after openedRun (oneFileInitial old)) =
      (loggers.system.after openedRun (oneFileInitial old)).setCaller 0 (some rotatingCall) := by
  have hrest : (if (old.length : Int) > maxSize then rotate 0 logPath else ret ()) =
      rotate 0 logPath := if_pos hlarge
  show State.setCaller _ 0 (some (Call.mk (Operation.setOutputFile 0 logPath)
    ((fun _ => Outcome.done) <$>
      ((if (old.length : Int) > maxSize then rotate 0 logPath else ret ()) >>=
        fun _ => issue (.unlock (.logMutex 0)))))) = _
  rw [hrest]
  rfl

/-- What the file holds at first: more than `maxSize` bytes. -/
def oldEntries : Bytes := List.replicate (maxSize.toNat + 1) 120

theorem legal_fileRun : loggers.system.Legal fileRun (oneFileInitial oldEntries) := by
  have hlarge : (oldEntries.length : Int) > maxSize := by
    rw [oldEntries, List.length_replicate]
    decide
  refine TransitionSystem.legal_append.mpr ⟨by decide, by decide, ?_⟩
  rw [next_tellp hlarge]
  decide

theorem rotation_keeps_fileRun :
    let s := (loggers.system.after fileRun (oneFileInitial oldEntries)).shared
    Segments maxSize.toNat [[], oldEntries, noEntry] (s.content (backupFile logPath))
        (s.content logPath) ∧
      s.content (backupFile logPath) = oldEntries ∧ s.content logPath = noEntry := by
  have hname (q : Bytes) (file : ℕ) (h : oneFile q = some file) : q = logPath ∧ file = 0 := by
    unfold oneFile at h
    split at h
    · next hq => exact ⟨hq, (Option.some.inj h).symm⟩
    · cases h
  have hfresh (q : Bytes) (file : ℕ) (h : oneFile q = some file) : file < 1 := by
    rw [(hname q file h).2]
    exact Nat.one_pos
  have hinj (q q' : Bytes) (file : ℕ) (h : oneFile q = some file) (h' : oneFile q' = some file) :
      q = q' := (hname q file h).1.trans (hname q' file h').1.symm
  have hsole : ∀ a ∈ fileRun, SoleLabel 0 logPath a := by decide
  refine ⟨?_, rfl, by decide⟩
  exact rotation_keeps (TransitionSystem.run_of_legal legal_fileRun) hfresh hinj hsole

end Logging
