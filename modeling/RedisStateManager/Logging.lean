/-
# Loggers

`src/logging/DefaultLogger.cpp` and `src/logging/LoggerFactory.cpp`.  A logger writes an
entry to its file, or to `std::cout`, under its `log_mutex_`; the factory hands out one
logger for all, under its `logger_mutex_`.  The functions are programs that issue one
action for each access to a mutex, to a field, to the clock or to a stream.  A stream
takes the bytes of an entry piece by piece and may fail; a file is opened by its name
and stays the same file when it is renamed.  Loggers that are not `DefaultLogger`s are
left out.
-/
import RedisStateManager.Callers
import RedisStateManager.RedisServer

namespace Logging

open Redis (Bytes ascii)
open Program

/-! ## Levels -/

inductive LogLevel
  | trace
  | debug
  | info
  | warning
  | error
  | critical
  deriving DecidableEq, Repr

/-- `static_cast<int>(level)`. -/
def LogLevel.toNat : LogLevel → ℕ
  | trace => 0
  | debug => 1
  | info => 2
  | warning => 3
  | error => 4
  | critical => 5

def logLevelToString : LogLevel → Bytes
  | .trace => ascii ['T', 'R', 'A', 'C', 'E']
  | .debug => ascii ['D', 'E', 'B', 'U', 'G']
  | .info => ascii ['I', 'N', 'F', 'O']
  | .warning => ascii ['W', 'A', 'R', 'N', 'I', 'N', 'G']
  | .error => ascii ['E', 'R', 'R', 'O', 'R']
  | .critical => ascii ['C', 'R', 'I', 'T', 'I', 'C', 'A', 'L']

/-- The comparisons are case sensitive, and what is no level is `ERROR`. -/
def stringToLogLevel (level : Bytes) : LogLevel :=
  if level = ascii ['T', 'R', 'A', 'C', 'E'] then .trace
  else if level = ascii ['D', 'E', 'B', 'U', 'G'] then .debug
  else if level = ascii ['I', 'N', 'F', 'O'] then .info
  else if level = ascii ['W', 'A', 'R', 'N', 'I', 'N', 'G'] then .warning
  else if level = ascii ['E', 'R', 'R', 'O', 'R'] then .error
  else if level = ascii ['C', 'R', 'I', 'T', 'I', 'C', 'A', 'L'] then .critical
  else .error

/-! ## Entries -/

/-- A local time, and the milliseconds. -/
structure Time where
  year : Fin 10000
  month : Fin 13
  day : Fin 32
  hour : Fin 24
  minute : Fin 60
  second : Fin 61
  millisecond : Fin 1000
  deriving DecidableEq, Repr

/-- The last `width` decimal digits of `n`. -/
def padded : (width : ℕ) → ℕ → Bytes
  | 0, _ => []
  | width + 1, n => padded width (n / 10) ++ [(48 + n % 10).toUInt8]

def timestamp (t : Time) : Bytes :=
  padded 4 t.year ++ ascii ['-'] ++ padded 2 t.month ++ ascii ['-'] ++ padded 2 t.day ++
    ascii [' '] ++ padded 2 t.hour ++ ascii [':'] ++ padded 2 t.minute ++ ascii [':'] ++
    padded 2 t.second ++ ascii ['.'] ++ padded 3 t.millisecond

def logEntry (t : Time) (level message context : Bytes) : Bytes :=
  ascii ['['] ++ timestamp t ++ ascii [']', ' ', '['] ++ level ++ ascii [']'] ++
    (if context = [] then [] else ascii [' ', '['] ++ context ++ ascii [']']) ++
    ascii [' '] ++ message ++ ascii ['\n']

theorem length_padded (width n : ℕ) : (padded width n).length = width := by
  induction width generalizing n with
  | zero => rfl
  | succ width ih => rw [padded, List.length_append, ih]; rfl

theorem length_timestamp (t : Time) : (timestamp t).length = 23 := by
  simp [timestamp, length_padded, ascii]

/-- The length of an entry does not depend on the time. -/
theorem length_logEntry_le (t : Time) (level message context : Bytes) :
    (logEntry t level message context).length ≤
      33 + level.length + message.length + context.length := by
  unfold logEntry
  split
  · simp only [List.length_append, length_timestamp, ascii, List.length_map, List.length_cons,
      List.length_nil]
    omega
  · simp only [List.length_append, length_timestamp, ascii, List.length_map, List.length_cons,
      List.length_nil]
    omega

/-! ## Actions -/

/-- `logger_mutex_` of the factory, and the `log_mutex_` of logger `k`. -/
inductive Mutex
  | loggerMutex
  | logMutex (k : ℕ)
  deriving DecidableEq, Repr

/-- What a call issues, on the logger `k`. -/
inductive Action
  | lock (m : Mutex)
  /-- the end of a `lock_guard` -/
  | unlock (m : Mutex)
  /-- the fields of a new `DefaultLogger` -/
  | construct (level : LogLevel) (outputFile : Bytes)
  | loadLevel (k : ℕ)
  | storeLevel (k : ℕ) (level : LogLevel)
  /-- `file_stream_ = make_unique<ofstream>(path, ios::app)` and `is_open()` -/
  | openFile (k : ℕ) (path : Bytes)
  | storeUseFile (k : ℕ) (useFile : Bool)
  /-- `seekp` to the end and `tellp` -/
  | tellp (k : ℕ)
  | closeFile (k : ℕ)
  /-- `rename(path, path + ".bak")` -/
  | rename (k : ℕ) (path : Bytes)
  | cerr (message : Bytes)
  /-- `log_entry`, with the time of the clock -/
  | compose (k : ℕ) (level message context : Bytes)
  /-- `use_file_output_ && file_stream_ && file_stream_->is_open()` -/
  | testFile (k : ℕ)
  /-- the stream takes some of `bytes` -/
  | put (k : ℕ) (toFile : Bool) (bytes : Bytes)
  /-- `!global_logger_` -/
  | testGlobal
  | loadGlobal
  | storeGlobal (k : ℕ)
  deriving DecidableEq, Repr

/-- The answer to an action: of a `put`, the number of bytes taken, `0` if it failed. -/
@[reducible] def Answer : Action → Type
  | .construct .. | .put .. | .loadGlobal => ℕ
  | .loadLevel _ => LogLevel
  | .openFile .. | .testFile _ | .testGlobal => Bool
  | .tellp _ => Int
  | .compose .. => Time
  | .lock _ | .unlock _ | .storeLevel .. | .storeUseFile .. | .closeFile _ | .rename .. | .cerr _
  | .storeGlobal _ => Unit

abbrev Procedure := Program Action Answer

def issue (a : Action) : Procedure (Answer a) := .act a .ret

/-! ## `DefaultLogger` -/

/-- Puts `bytes` into the stream, until it fails; a piece has at least one byte. -/
def emit (k : ℕ) (toFile : Bool) : (fuel : ℕ) → Bytes → Procedure Unit
  | 0, _ => return ()
  | fuel + 1, bytes => do
    if bytes = [] then return ()
    else
      let taken ← issue (.put k toFile bytes)
      if taken = 0 then return () else emit k toFile fuel (bytes.drop taken)

/-- `log`, whose level is a string: it does not look at `level_`. -/
def log (k : ℕ) (level message context : Bytes) : Procedure Unit := do
  issue (.lock (.logMutex k))
  let now ← issue (.compose k level message context)
  let toFile ← issue (.testFile k)
  emit k toFile (logEntry now level message context).length (logEntry now level message context)
  issue (.unlock (.logMutex k))

/-- `log`, whose level is a `LogLevel`; `level_` is read without the mutex. -/
def logAt (k : ℕ) (level : LogLevel) (message context : Bytes) : Procedure Unit := do
  let own ← issue (.loadLevel k)
  if level.toNat < own.toNat then return ()
  else log k (logLevelToString level) message context

def loggerName : Bytes :=
  ascii ['D', 'e', 'f', 'a', 'u', 'l', 't', 'L', 'o', 'g', 'g', 'e', 'r']

/-- `"Setting DefaultLogger level to " + logLevelToString(level)`. -/
def settingMessage (level : LogLevel) : Bytes :=
  ascii ['S', 'e', 't', 't', 'i', 'n', 'g', ' '] ++ loggerName ++
    ascii [' ', 'l', 'e', 'v', 'e', 'l', ' ', 't', 'o', ' '] ++ logLevelToString level

def setLevel (k : ℕ) (level : LogLevel) : Procedure Unit := do
  logAt k .trace (settingMessage level) loggerName
  issue (.lock (.logMutex k))
  issue (.storeLevel k level)
  issue (.unlock (.logMutex k))

def maxSize : Int := 1024 * 1024

def backupFile (outputFile : Bytes) : Bytes := outputFile ++ ascii ['.', 'b', 'a', 'k']

/-- `"Failed to open log file: " + outputFile`. -/
def failedMessage (outputFile : Bytes) : Bytes :=
  ascii ['F', 'a', 'i', 'l', 'e', 'd', ' ', 't', 'o', ' ', 'o', 'p', 'e', 'n', ' ', 'l', 'o', 'g',
    ' ', 'f', 'i', 'l', 'e', ':', ' '] ++ outputFile ++ ascii ['\n']

/-- `"Failed to open log file after rotation: " + outputFile`. -/
def failedAfterMessage (outputFile : Bytes) : Bytes :=
  ascii ['F', 'a', 'i', 'l', 'e', 'd', ' ', 't', 'o', ' ', 'o', 'p', 'e', 'n', ' ', 'l', 'o', 'g',
    ' ', 'f', 'i', 'l', 'e', ' ', 'a', 'f', 't', 'e', 'r', ' ', 'r', 'o', 't', 'a', 't', 'i', 'o',
    'n', ':', ' '] ++ outputFile ++ ascii ['\n']

/-- The rotation of a file that has grown too large. -/
def rotate (k : ℕ) (outputFile : Bytes) : Procedure Unit := do
  issue (.closeFile k)
  issue (.rename k outputFile)
  if ← issue (.openFile k outputFile) then return ()
  else
    issue (.storeUseFile k false)
    issue (.cerr (failedAfterMessage outputFile))

/-- The body of `setOutputFile`, under the mutex. -/
def openOutput (k : ℕ) (outputFile : Bytes) : Procedure Unit := do
  if ← issue (.openFile k outputFile) then
    issue (.storeUseFile k true)
    let size ← issue (.tellp k)
    if size > maxSize then rotate k outputFile else return ()
  else
    issue (.storeUseFile k false)
    issue (.cerr (failedMessage outputFile))

def setOutputFile (k : ℕ) (outputFile : Bytes) : Procedure Unit := do
  issue (.lock (.logMutex k))
  openOutput k outputFile
  issue (.unlock (.logMutex k))

/-- `"Starting DefaultLogger"`. -/
def startingMessage : Bytes :=
  ascii ['S', 't', 'a', 'r', 't', 'i', 'n', 'g', ' '] ++ loggerName

/-- The constructor. -/
def newLogger (level : LogLevel) (outputFile : Bytes) : Procedure ℕ := do
  let k ← issue (.construct level outputFile)
  if outputFile = [] then
    logAt k .trace startingMessage loggerName
    return k
  else
    setOutputFile k outputFile
    logAt k .trace startingMessage loggerName
    return k

/-! ## `LoggerFactory` -/

/-- The body of `getLogger`, under the mutex. -/
def findLogger : Procedure ℕ := do
  if ← issue .testGlobal then
    let k ← newLogger .warning []
    issue (.storeGlobal k)
    issue .loadGlobal
  else issue .loadGlobal

def getLogger : Procedure ℕ := do
  issue (.lock .loggerMutex)
  let logger ← findLogger
  issue (.unlock .loggerMutex)
  return logger

/-- `LoggerFactory::setLevel`. -/
def setGlobalLevel (level : LogLevel) : Procedure Unit := do
  let logger ← getLogger
  issue (.lock .loggerMutex)
  setLevel logger level
  issue (.unlock .loggerMutex)

/-- A null pointer is ignored. -/
def setLogger (logger : Option ℕ) : Procedure Unit := do
  issue (.lock .loggerMutex)
  match logger with
  | some k =>
    issue (.storeGlobal k)
    issue (.unlock .loggerMutex)
  | none => issue (.unlock .loggerMutex)

/-! ## Calls -/

inductive Operation
  | newLogger (level : LogLevel) (outputFile : Bytes)
  | setLevel (k : ℕ) (level : LogLevel)
  | setLevelString (k : ℕ) (level : Bytes)
  | log (k : ℕ) (level message context : Bytes)
  | logAt (k : ℕ) (level : LogLevel) (message context : Bytes)
  | setOutputFile (k : ℕ) (outputFile : Bytes)
  | getLogger
  | setGlobalLevel (level : LogLevel)
  | setGlobalLevelString (level : Bytes)
  | setLogger (logger : Option ℕ)
  deriving DecidableEq, Repr

inductive Outcome
  | done
  | logger (k : ℕ)
  deriving DecidableEq, Repr

def Operation.procedure : Operation → Procedure Outcome
  | newLogger level outputFile => Outcome.logger <$> Logging.newLogger level outputFile
  | setLevel k level => (fun _ => Outcome.done) <$> Logging.setLevel k level
  | setLevelString k level =>
    (fun _ => Outcome.done) <$> Logging.setLevel k (stringToLogLevel level)
  | log k level message context => (fun _ => Outcome.done) <$> Logging.log k level message context
  | logAt k level message context =>
    (fun _ => Outcome.done) <$> Logging.logAt k level message context
  | setOutputFile k outputFile => (fun _ => Outcome.done) <$> Logging.setOutputFile k outputFile
  | getLogger => Outcome.logger <$> Logging.getLogger
  | setGlobalLevel level => (fun _ => Outcome.done) <$> Logging.setGlobalLevel level
  | setGlobalLevelString level =>
    (fun _ => Outcome.done) <$> Logging.setGlobalLevel (stringToLogLevel level)
  | setLogger logger => (fun _ => Outcome.done) <$> Logging.setLogger logger

/-! ## The state -/

/-- A `std::ofstream`: the name it was opened by, and the file it writes to. -/
structure Stream where
  path : Bytes
  file : ℕ
  isOpen : Bool
  good : Bool
  deriving DecidableEq, Repr

structure DefaultLogger where
  level_ : LogLevel
  file_stream_ : Option Stream
  use_file_output_ : Bool
  deriving DecidableEq, Repr

/-- What the threads share: the first `made` loggers, the logger of the factory, and the
files, numbered as they are created. -/
structure Shared where
  made : ℕ
  loggers : ℕ → DefaultLogger
  globalLogger : Option ℕ
  owner : Mutex → Option ℕ
  directory : Bytes → Option ℕ
  created : ℕ
  contents : ℕ → Bytes
  stdout : Bytes
  stderr : Bytes

namespace Shared

def stream? (s : Shared) (k : ℕ) : Option Stream := (s.loggers k).file_stream_

/-- `use_file_output_ && file_stream_ && file_stream_->is_open()`. -/
def toFile (s : Shared) (k : ℕ) : Bool :=
  (s.loggers k).use_file_output_ && (s.stream? k).any (·.isOpen)

def setLogger (s : Shared) (k : ℕ) (logger : DefaultLogger) : Shared :=
  { s with loggers := Function.update s.loggers k logger }

/-- The file that `path` names is opened, or created. -/
def openFile (s : Shared) (k : ℕ) (path : Bytes) : Shared :=
  match s.directory path with
  | some file => s.setLogger k { s.loggers k with file_stream_ := some ⟨path, file, true, true⟩ }
  | none =>
    { s.setLogger k { s.loggers k with file_stream_ := some ⟨path, s.created, true, true⟩ } with
      directory := Function.update s.directory path (some s.created)
      contents := Function.update s.contents s.created []
      created := s.created + 1 }

/-- The file that `path` names gets another name, if there is one. -/
def rename (s : Shared) (path : Bytes) : Shared :=
  match s.directory path with
  | some file =>
    { s with
      directory := Function.update (Function.update s.directory path none) (backupFile path)
        (some file) }
  | none => s

/-- What is put into the stream of logger `k` goes to the end of its file. -/
def putFile (s : Shared) (k : ℕ) (bytes : Bytes) : Shared :=
  match s.stream? k with
  | some stream =>
    { s with
      contents := Function.update s.contents stream.file (s.contents stream.file ++ bytes) }
  | none => s

/-- The stream of logger `k` is changed. -/
def mapStream (s : Shared) (k : ℕ) (f : Stream → Stream) : Shared :=
  s.setLogger k { s.loggers k with file_stream_ := (s.stream? k).map f }

/-- The size of the file of logger `k`. -/
def size (s : Shared) (k : ℕ) : ℕ := ((s.stream? k).map fun u => (s.contents u.file).length).getD 0

end Shared

/-- How an action turns out. -/
inductive Choice
  | ok
  | failed
  /-- the clock shows `now` -/
  | time (now : Time)
  /-- a stream takes `n` bytes -/
  | taken (n : ℕ)
  deriving DecidableEq, Repr

/-- When thread `i` can make an action, and how it may turn out.  An access to a logger that
has not been made, or through a null pointer, is undefined behaviour, after which the model
has no step. -/
def Possible (_ : ℕ) (s : Shared) (choice : Choice) : Action → Prop
  | .lock .loggerMutex => choice = .ok ∧ s.owner .loggerMutex = none
  | .lock (.logMutex k) => choice = .ok ∧ s.owner (.logMutex k) = none ∧ k < s.made
  | .loadLevel k | .storeGlobal k => choice = .ok ∧ k < s.made
  | .unlock _ | .construct .. | .storeLevel .. | .storeUseFile .. | .testFile _ | .cerr _
  | .testGlobal => choice = .ok
  | .openFile k _ => (choice = .ok ∨ choice = .failed) ∧ k < s.made
  | .rename .. => choice = .ok ∨ choice = .failed
  | .tellp k => (choice = .ok ∨ choice = .failed) ∧ (s.stream? k).isSome = true
  | .closeFile k => choice = .ok ∧ (s.stream? k).isSome = true
  | .compose .. =>
    match choice with
    | .time _ => True
    | .ok | .failed | .taken _ => False
  | .put k toFile bytes =>
    match choice with
    | .taken n =>
      0 < n ∧ n ≤ bytes.length ∧
        (toFile = true → (s.stream? k).any (fun u => u.isOpen && u.good) = true)
    | .failed => True
    | .ok | .time _ => False
  | .loadGlobal => choice = .ok ∧ s.globalLogger.isSome = true

def midnight : Time := ⟨0, 0, 0, 0, 0, 0, 0⟩

/-- The answers of the shared state. -/
def answer (s : Shared) (choice : Choice) : ∀ a, Answer a
  | .construct .. => s.made
  | .put .. =>
    match choice with
    | .taken n => n
    | .ok | .failed | .time _ => (0 : ℕ)
  | .loadGlobal => s.globalLogger.getD 0
  | .loadLevel k => (s.loggers k).level_
  | .openFile .. => decide (choice ≠ .failed)
  | .testFile k => s.toFile k
  | .testGlobal => s.globalLogger.isNone
  | .tellp k => if choice = .failed then (-1 : Int) else s.size k
  | .compose .. =>
    match choice with
    | .time now => now
    | .ok | .failed | .taken _ => midnight
  | .lock _ | .unlock _ | .storeLevel .. | .storeUseFile .. | .closeFile _ | .rename .. | .cerr _
  | .storeGlobal _ => ()

/-- What an action of thread `i` does to the shared state. -/
def perform (i : ℕ) (s : Shared) (choice : Choice) : Action → Shared
  | .lock m => { s with owner := Function.update s.owner m (some i) }
  | .unlock m => { s with owner := Function.update s.owner m none }
  | .construct level outputFile =>
    { s.setLogger s.made ⟨level, none, decide (outputFile ≠ [])⟩ with made := s.made + 1 }
  | .storeLevel k level => s.setLogger k { s.loggers k with level_ := level }
  | .openFile k path =>
    if choice = .failed then
      s.setLogger k { s.loggers k with file_stream_ := some ⟨path, 0, false, false⟩ }
    else s.openFile k path
  | .storeUseFile k useFile => s.setLogger k { s.loggers k with use_file_output_ := useFile }
  | .closeFile k => s.mapStream k fun u => { u with isOpen := false }
  | .rename _ path => if choice = .failed then s else s.rename path
  | .cerr message => { s with stderr := s.stderr ++ message }
  | .put k true bytes =>
    match choice with
    | .taken n => s.putFile k (bytes.take n)
    | .ok | .failed | .time _ => s.mapStream k fun u => { u with good := false }
  | .put _ false bytes =>
    match choice with
    | .taken n => { s with stdout := s.stdout ++ bytes.take n }
    | .ok | .failed | .time _ => s
  | .storeGlobal k => { s with globalLogger := some k }
  | .loadLevel _ | .tellp _ | .compose .. | .testFile _ | .testGlobal | .loadGlobal => s

/-- Any number of threads use the loggers. -/
def loggers : Service Action Answer Shared Choice Operation Outcome where
  procedure := Operation.procedure
  Possible := Possible
  answer := answer
  perform := perform

abbrev State := loggers.State

abbrev Label := loggers.Label

/-- No logger has been made; the files are those of `directory`. -/
def initial (directory : Bytes → Option ℕ) (created : ℕ) (contents : ℕ → Bytes) : State :=
  loggers.start
    { made := 0, loggers := fun _ => ⟨.warning, none, false⟩, globalLogger := none
      owner := fun _ => none, directory := directory, created := created, contents := contents
      stdout := [], stderr := [] }

instance (i : ℕ) (s : Shared) (choice : Choice) : ∀ a, Decidable (loggers.Possible i s choice a)
  | .lock .loggerMutex =>
    inferInstanceAs (Decidable (choice = .ok ∧ s.owner .loggerMutex = none))
  | .lock (.logMutex k) =>
    inferInstanceAs (Decidable (choice = .ok ∧ s.owner (.logMutex k) = none ∧ k < s.made))
  | .loadLevel k | .storeGlobal k => inferInstanceAs (Decidable (choice = .ok ∧ k < s.made))
  | .unlock _ | .construct .. | .storeLevel .. | .storeUseFile .. | .testFile _ | .cerr _
  | .testGlobal => inferInstanceAs (Decidable (choice = .ok))
  | .openFile k _ =>
    inferInstanceAs (Decidable ((choice = .ok ∨ choice = .failed) ∧ k < s.made))
  | .rename .. => inferInstanceAs (Decidable (choice = .ok ∨ choice = .failed))
  | .tellp k =>
    inferInstanceAs
      (Decidable ((choice = .ok ∨ choice = .failed) ∧ (s.stream? k).isSome = true))
  | .closeFile k =>
    inferInstanceAs (Decidable (choice = .ok ∧ (s.stream? k).isSome = true))
  | .compose .. =>
    match choice with
    | .time _ => isTrue trivial
    | .ok | .failed | .taken _ => isFalse id
  | .put k toFile bytes =>
    match choice with
    | .taken n =>
      inferInstanceAs (Decidable (0 < n ∧ n ≤ bytes.length ∧
        (toFile = true → (s.stream? k).any (fun u => u.isOpen && u.good) = true)))
    | .failed => isTrue trivial
    | .ok | .time _ => isFalse id
  | .loadGlobal => inferInstanceAs (Decidable (choice = .ok ∧ s.globalLogger.isSome = true))

end Logging
