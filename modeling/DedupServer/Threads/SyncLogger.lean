import DedupServer.Foundations.SqlText
import DedupServer.Model.Util
import DedupServer.Threads.Logger

/-! # `Logger`, writing synchronously

`init` and `write_log` of a logger without a queue, used by one thread: a call counts its record, goes over
to a new file on another day or when the file is full, and writes the record to the file that is open. Paths
are texts (`LogPath.text`), and different paths have different texts (`LogPath.text_injective`). Opening and
writing a file succeed, and a record fits into `one_log`. A `split_lines` of zero ends the process where
it is divided by (`faulted`).

Two fields are history: the paths that have been opened (`opened`), and each call with the file that its
record has been written to (`written`). -/

namespace DedupServer

open Foundations

/-! ## Records -/

/-- `Logger::Level`. -/
inductive Level
  | DEBUG
  | INFO
  | WARN
  | ERROR
  deriving DecidableEq

/-- What `localtime` makes of the clock, with the year and the month as they are printed. -/
structure Tm where
  day : Day
  hour : ℕ
  min : ℕ
  sec : ℕ
  deriving DecidableEq

/-- A call of `write_log`: the level, the time at which it reads the clock, and what `vsprintf` makes of its
other arguments. -/
structure LogCall where
  level : Level
  curTime : Tm
  message : Bytes
  deriving DecidableEq

/-- `%02d`. -/
def twoDigits (n : ℕ) : Bytes := if n < 10 then 48 :: decimalDigits n else decimalDigits n

/-- The text for the level. -/
def Level.text : Level → Bytes
  | DEBUG => "[debug]:".toUTF8.toList
  | INFO => "[info]:".toUTF8.toList
  | WARN => "[warn]:".toUTF8.toList
  | ERROR => "[error]:".toUTF8.toList

/-- `one_log`: `%d-%02d-%02d %02d-%02d-%02d %s`, the message, and a line feed. -/
def LogCall.oneLog (c : LogCall) : Bytes :=
  decimalDigits c.curTime.day.year ++ 45 :: (twoDigits c.curTime.day.month ++
    45 :: (twoDigits c.curTime.day.mday ++ 32 :: (twoDigits c.curTime.hour ++
      45 :: (twoDigits c.curTime.min ++ 45 :: (twoDigits c.curTime.sec ++
        32 :: (c.level.text ++ c.message ++ [10]))))))

/-- **The record** `str_log`, which ends before the first zero byte of `one_log`. -/
def LogCall.strLog (c : LogCall) : Bytes := c.oneLog.takeWhile (· ≠ 0)

/-! ## Paths -/

/-- **The text of a path**: `%s%d_%02d_%02d_%s`, with `.%lld` behind it for a part of a day. -/
def LogPath.text (dirName logName : Bytes) (path : LogPath) : Bytes :=
  dirName ++ (decimalDigits path.day.year ++ 95 :: (twoDigits path.day.month ++
    95 :: (twoDigits path.day.mday ++ 95 :: (logName ++
      match path.part with
      | none => []
      | some part => 46 :: decimalDigits part))))

/-- A leading zero does not matter. -/
theorem readNat_zero_cons {text rest : Bytes} {n : ℕ} (h : readNat text = some (n, rest)) :
    readNat (48 :: text) = some (n, rest) := by
  have hdigit : isDigitByte 48 = true := by decide
  unfold readNat at h ⊢
  rw [List.takeWhile_cons_of_pos hdigit, List.dropWhile_cons_of_pos hdigit]
  split at h
  · cases h
  · simp only [Option.some.injEq, Prod.mk.injEq] at h ⊢
    exact ⟨h.1, h.2⟩

/-- **Two digits read back**, when no digit follows them. -/
theorem readNat_twoDigits (n : ℕ) {rest : Bytes}
    (hrest : ∀ c, rest.head? = some c → isDigitByte c = false) :
    readNat (twoDigits n ++ rest) = some (n, rest) := by
  unfold twoDigits
  split
  · exact readNat_zero_cons (readNat_append n hrest)
  · exact readNat_append n hrest

/-- The separator is no digit. -/
theorem isDigitByte_underscore {rest : Bytes} (c : UInt8) (h : (95 :: rest).head? = some c) :
    isDigitByte c = false := by
  obtain rfl := Option.some.inj h
  decide

/-- **Different paths have different texts.** -/
theorem LogPath.text_injective (dirName logName : Bytes) :
    Function.Injective (LogPath.text dirName logName) := by
  rintro ⟨⟨year, month, mday⟩, part⟩ ⟨⟨year', month', mday'⟩, part'⟩ h
  -- the name is read back from the left, a number and a separator at a time
  have h₁ := congrArg readNat (List.append_cancel_left h)
  rw [readNat_append _ isDigitByte_underscore, readNat_append _ isDigitByte_underscore] at h₁
  obtain ⟨rfl, h₁⟩ := Prod.mk.inj (Option.some.inj h₁)
  have h₂ := congrArg readNat (List.cons.inj h₁).2
  rw [readNat_twoDigits _ isDigitByte_underscore, readNat_twoDigits _ isDigitByte_underscore] at h₂
  obtain ⟨rfl, h₂⟩ := Prod.mk.inj (Option.some.inj h₂)
  have h₃ := congrArg readNat (List.cons.inj h₂).2
  rw [readNat_twoDigits _ isDigitByte_underscore, readNat_twoDigits _ isDigitByte_underscore] at h₃
  obtain ⟨rfl, h₃⟩ := Prod.mk.inj (Option.some.inj h₃)
  have h₄ := List.append_cancel_left (List.cons.inj h₃).2
  -- a name with a part is longer than one without
  cases part with
  | none =>
    cases part' with
    | none => rfl
    | some part' => cases h₄
  | some part =>
    cases part' with
    | none => cases h₄
    | some part' =>
      have hdigits := congrArg digitsValue (List.cons.inj h₄).2
      rw [digitsValue_decimalDigits, digitsValue_decimalDigits] at hdigits
      rw [hdigits]

/-! ## The logger -/

/-- **`Logger`** in synchronous mode. -/
structure SyncLogger where
  dirName : Bytes
  logName : Bytes
  count : ℕ
  splitLines : ℕ
  today : ℕ
  closeLog : Bool
  stream : LogPath
  files : AList fun _ : LogPath => List Bytes
  faulted : Bool
  opened : List LogPath
  written : List (LogCall × LogPath)

namespace SyncLogger

/-- `m_log_filestream.open`, which truncates the file. -/
def openFile (σ : SyncLogger) (path : LogPath) : SyncLogger :=
  { σ with
    stream := path
    files := σ.files.insert path []
    opened := σ.opened ++ [path] }

/-- `init`, in a directory that contains `old`. -/
def init (filePath : Bytes) (closeLog : Bool) (splitLines : ℕ)
    (old : AList fun _ : LogPath => List Bytes) (curTime : Tm) : SyncLogger :=
  let logName := getFileName filePath
  openFile
    { dirName := filePath.take (filePath.length - logName.length)
      logName := logName
      count := 0
      splitLines := splitLines
      today := curTime.day.mday
      closeLog := closeLog
      stream := ⟨curTime.day, none⟩
      files := old
      faulted := false
      opened := []
      written := [] } ⟨curTime.day, none⟩

/-- What the file at `path` contains. -/
def records (σ : SyncLogger) (path : LogPath) : List Bytes := (σ.files.lookup path).getD []

/-- The record is counted, and a new day or a full file needs a new file. -/
def rotate (σ : SyncLogger) (day : Day) : SyncLogger :=
  if day.mday ≠ σ.today then { σ with count := 0, today := day.mday }.openFile ⟨day, none⟩
  else if σ.splitLines = 0 then { σ with faulted := true }
  else if (σ.count + 1) % σ.splitLines = 0 then
    { σ with count := σ.count + 1 }.openFile ⟨day, some ((σ.count + 1) / σ.splitLines)⟩
  else { σ with count := σ.count + 1 }

/-- `m_log_filestream.write`. -/
def write (σ : SyncLogger) (c : LogCall) : SyncLogger :=
  { σ with
    files := σ.files.insert σ.stream (σ.records σ.stream ++ [c.strLog])
    written := σ.written ++ [(c, σ.stream)] }

/-- **`write_log`**, which does nothing once the process has ended. -/
def writeLog (σ : SyncLogger) (c : LogCall) : SyncLogger :=
  if σ.closeLog || σ.faulted then σ
  else if (σ.rotate c.curTime.day).faulted then σ.rotate c.curTime.day
  else (σ.rotate c.curTime.day).write c

/-- The calls of one thread. -/
def writeLogs (σ : SyncLogger) (calls : List LogCall) : SyncLogger := calls.foldl writeLog σ

end SyncLogger

end DedupServer
