import DedupServer.Foundations.Files
import DedupServer.Foundations.Slots
import DedupServer.Threads.BlockQueue
import Mathlib.Data.Prod.Lex
import Mathlib.Order.WithBot

/-! # `Logger`, writing asynchronously

`write_log` of `n` threads, `async_write_log` and `~Logger`, one access to what they share at a time. A call
reads the clock with `time` and writes the date to the object that `localtime` shares between all calls
(`tm`); it counts its record under `m_mutex` and may go over to a new file. It reads the date in `tm` up to six
times for that, while another call, which is not held up by `m_mutex` there, can overwrite it: when it asks
whether a new file is needed, when it asks whether that is for a new day, for the year, the month and the day
of the name, and for `m_today`. Then it waits until the queue looks empty, closes the file and opens the new
one, which truncates that; it releases `m_mutex` and pushes the record. The writer pops a record and writes it
to the file that is open; what is written while none is open is lost. A `split_lines` of zero ends the process
where it is divided by (`faulted`).

A record is a string that has been formatted. Four fields are history: the path that was opened last
(`opened`), the records passed to `write_log` (`passed`), those written while the file was closed (`lost`),
and those in files that were truncated (`cut`). -/

namespace DedupServer

open Foundations

/-- A day, as `tm` has it. -/
structure Day where
  year : ℕ
  month : ℕ
  mday : ℕ
  deriving DecidableEq

/-- Days in their order. -/
def Day.key (day : Day) : ℕ ×ₗ ℕ ×ₗ ℕ := toLex (day.year, toLex (day.month, day.mday))

theorem Day.key_injective : Function.Injective Day.key := by
  rintro ⟨y, m, d⟩ ⟨y', m', d'⟩ h
  simpa [key] using h

instance : LinearOrder Day := LinearOrder.lift' Day.key Day.key_injective

/-- **The path of a log file**: `<dir><day>_<name>`, or `<dir><day>_<name>.<part>`. -/
structure LogPath where
  day : Day
  part : Option ℕ
  deriving DecidableEq

/-- Paths in the order in which a day's files are opened. -/
def LogPath.key (path : LogPath) : Day ×ₗ WithBot ℕ := toLex (path.day, path.part)

theorem LogPath.key_injective : Function.Injective LogPath.key := by
  rintro ⟨day, part⟩ ⟨day', part'⟩ h
  have hpair : ((day, part) : Day × Option ℕ) = (day', part') := toLex.injective h
  obtain ⟨rfl, rfl⟩ := Prod.mk.inj hpair
  rfl

instance : LinearOrder LogPath := LinearOrder.lift' LogPath.key LogPath.key_injective

/-- Paths are ordered by their days first. -/
theorem path_lt_of_day_lt {p q : LogPath} (h : p.day < q.day) : p < q :=
  Prod.Lex.toLex_lt_toLex.mpr (.inl h)

/-- The parts of a day come one after another, behind the file without a number. -/
theorem path_lt_of_part {p : LogPath} {day : Day} {part : ℕ} (hday : p.day = day)
    (hlt : ∀ k, p.part = some k → k < part) : p < ⟨day, some part⟩ := by
  apply Prod.Lex.toLex_lt_toLex.mpr
  refine .inr ⟨hday, ?_⟩
  obtain ⟨_, last⟩ := p
  cases last with
  | none => exact WithBot.bot_lt_coe part
  | some k => exact WithBot.coe_lt_coe.mpr (hlt k rfl)

/-- Where a thread is in `write_log`: outside, after `time`, before `m_mutex.lock`, before the second look at
the day, before `sprintf` has the year, the month and the day, before `m_today` is set, waiting for the queue
to look empty, before `close`, before `open`, before `m_mutex.unlock`, or before `push`. -/
inductive LogCaller
  | outside
  | converting (currentTime : ℕ) (record : Bytes)
  | locking (record : Bytes)
  | testing (record : Bytes)
  | readingYear (newDay : Bool) (record : Bytes)
  | readingMonth (newDay : Bool) (year : ℕ) (record : Bytes)
  | readingDay (newDay : Bool) (year month : ℕ) (record : Bytes)
  | dating (newLogPath : LogPath) (record : Bytes)
  | draining (newLogPath : LogPath) (record : Bytes)
  | closing (newLogPath : LogPath) (record : Bytes)
  | opening (newLogPath : LogPath) (record : Bytes)
  | unlocking (record : Bytes)
  | pushing (record : Bytes)
  deriving DecidableEq

/-- Where `async_write_log` is. -/
inductive LogWriter
  | popping
  | writing (oneLog : Bytes)
  | returned
  deriving DecidableEq

/-- Where `~Logger` is: not called, in `join`, or after it. -/
inductive LogDestructor
  | none
  | joining
  | joined
  deriving DecidableEq

/-- **`Logger`** with `n` threads that use it. -/
structure Logger (n : ℕ) where
  now : ℕ
  tm : Day
  callers : Fin n → LogCaller
  mutex : Option (Fin n)
  count : ℕ
  splitLines : ℕ
  today : ℕ
  stream : Option LogPath
  files : AList fun _ : LogPath => List Bytes
  queue : BlockQueueState Bytes
  writer : LogWriter
  destructor : LogDestructor
  faulted : Bool
  opened : LogPath
  passed : List Bytes
  lost : List Bytes
  cut : List Bytes

/-- What happens next: time passes, a thread calls `write_log`, it goes on, the writer goes on, `~Logger` is
called, or its join returns. -/
inductive LoggerAct (n : ℕ)
  | tick (now : ℕ)
  | call (i : Fin n) (record : Bytes)
  | caller (i : Fin n)
  | write
  | destroy
  | join
  deriving DecidableEq

namespace Logger

variable {n : ℕ}

/-- `init`, on the first day. -/
def init (n : ℕ) (localtime : ℕ → Day) (now splitLines queueSize : ℕ) : Logger n where
  now := now
  tm := localtime now
  callers := fun _ => .outside
  mutex := none
  count := 0
  splitLines := splitLines
  today := (localtime now).mday
  stream := some ⟨localtime now, none⟩
  files := AList.singleton ⟨localtime now, none⟩ []
  queue := .new queueSize
  writer := .popping
  destructor := .none
  faulted := false
  opened := ⟨localtime now, none⟩
  passed := []
  lost := []
  cut := []

/-- Thread `i` goes on to `pc`. -/
def goto (σ : Logger n) (i : Fin n) (pc : LogCaller) : Logger n :=
  { σ with callers := Function.update σ.callers i pc }

/-- The lock is taken and the record is counted: a new day or a full file needs a new file. -/
def enter (σ : Logger n) (i : Fin n) (record : Bytes) : Logger n :=
  if σ.tm.mday ≠ σ.today then
    { σ with mutex := some i, count := σ.count + 1 }.goto i (.testing record)
  else if σ.splitLines = 0 then { σ with faulted := true }
  else if (σ.count + 1) % σ.splitLines = 0 then
    { σ with mutex := some i, count := σ.count + 1 }.goto i (.testing record)
  else { σ with mutex := some i, count := σ.count + 1 }.goto i (.unlocking record)

/-- `sprintf` reads the day, which is the last that it needs. -/
def readDay (σ : Logger n) (i : Fin n) (newDay : Bool) (year month : ℕ) (record : Bytes) : Logger n :=
  if newDay then σ.goto i (.dating ⟨⟨year, month, σ.tm.mday⟩, none⟩ record)
  else if σ.splitLines = 0 then { σ with faulted := true }
  else σ.goto i (.draining ⟨⟨year, month, σ.tm.mday⟩, some (σ.count / σ.splitLines)⟩ record)

/-- `m_log_filestream.open`, which truncates the file. -/
def openFile (σ : Logger n) (newLogPath : LogPath) : Logger n :=
  { σ with
    stream := some newLogPath
    files := σ.files.insert newLogPath []
    opened := newLogPath
    cut := σ.cut ++ (σ.files.lookup newLogPath).getD [] }

/-- One step of `write_log`. -/
def callerStep (localtime : ℕ → Day) (σ : Logger n) (i : Fin n) : Option (Logger n) :=
  match σ.callers i with
  | .outside => none
  | .converting currentTime record => some ({ σ with tm := localtime currentTime }.goto i (.locking record))
  | .locking record =>
    match σ.mutex with
    | none => some (σ.enter i record)
    | some _ => none
  | .testing record => some (σ.goto i (.readingYear (decide (σ.tm.mday ≠ σ.today)) record))
  | .readingYear newDay record => some (σ.goto i (.readingMonth newDay σ.tm.year record))
  | .readingMonth newDay year record => some (σ.goto i (.readingDay newDay year σ.tm.month record))
  | .readingDay newDay year month record => some (σ.readDay i newDay year month record)
  | .dating newLogPath record =>
    some ({ σ with count := 0, today := σ.tm.mday }.goto i (.draining newLogPath record))
  | .draining newLogPath record =>
    if σ.queue.empty then some (σ.goto i (.closing newLogPath record)) else none
  | .closing newLogPath record =>
    some ({ σ with stream := none }.goto i (.opening newLogPath record))
  | .opening newLogPath record => some ((σ.openFile newLogPath).goto i (.unlocking record))
  | .unlocking record => some ({ σ with mutex := none }.goto i (.pushing record))
  | .pushing record => (σ.queue.push record).map fun q => { σ with queue := q }.goto i .outside

/-- `m_log_filestream.write`. -/
def writeRecord (σ : Logger n) (oneLog : Bytes) : Logger n :=
  match σ.stream with
  | some path => { σ with
      files := σ.files.insert path ((σ.files.lookup path).getD [] ++ [oneLog]), writer := .popping }
  | none => { σ with lost := σ.lost ++ [oneLog], writer := .popping }

/-- One step of `async_write_log`. -/
def writerStep (σ : Logger n) : Option (Logger n) :=
  match σ.writer with
  | .popping =>
    match σ.queue.pop with
    | .wait => none
    | .finished => some { σ with writer := .returned }
    | .got oneLog q => some { σ with queue := q, writer := .writing oneLog }
  | .writing oneLog => some (σ.writeRecord oneLog)
  | .returned => none

/-- One access of a process that is alive. The clock never goes backwards; `~Logger` is called when no call is
in progress, and no call is made any more then. -/
def access (localtime : ℕ → Day) (σ : Logger n) : LoggerAct n → Option (Logger n)
  | .tick now => if σ.now ≤ now then some { σ with now := now } else none
  | .call i record =>
    if σ.destructor = .none ∧ σ.callers i = .outside then
      some ({ σ with passed := σ.passed ++ [record] }.goto i (.converting σ.now record))
    else none
  | .caller i => σ.callerStep localtime i
  | .write => σ.writerStep
  | .destroy =>
    if σ.destructor = .none ∧ ∀ i, σ.callers i = .outside then
      some { σ with queue := σ.queue.setDone, destructor := .joining }
    else none
  | .join =>
    if σ.destructor = .joining ∧ σ.writer = .returned then
      some { σ with stream := none, destructor := .joined }
    else none

/-- **One step.** -/
def step (localtime : ℕ → Day) (σ : Logger n) (a : LoggerAct n) : Option (Logger n) :=
  if σ.faulted then none else σ.access localtime a

end Logger

/-- **A logger that writes asynchronously.** -/
def loggerMachine (n : ℕ) (localtime : ℕ → Day) : Machine (Logger n) (LoggerAct n) where
  step := Logger.step localtime

end DedupServer
