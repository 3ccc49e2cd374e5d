import DedupServer.Threads.Rotation

/-! # Asynchronous logging

While every rotation is careful, nothing that is passed to `write_log` is lost (`log_loses_nothing`). What the
writer holds while the file is closed can be lost by its next step (`held_at_close_lost`,
`popped_while_closed_lost`), and a file of an earlier day can be truncated, when a call comes late or finds
the date of another call in `tm` (`log_loses`). -/

namespace DedupServer

open Foundations Machine

namespace Logger

variable {n : ℕ} {localtime : ℕ → Day} {now splitLines queueSize : ℕ} {σ : Logger n} {i : Fin n}
  {path : LogPath} {record oneLog : Bytes} {q : BlockQueueState Bytes}

/-- **Nothing is lost**: no record is written while the file is closed, no file that holds records is
truncated, and when `~Logger` has joined the writer the files together contain every record that was passed
to `write_log`, each as often as it was passed. -/
structure LosesNothing (σ : Logger n) : Prop where
  lost : σ.lost = []
  cut : σ.cut = []
  joined : σ.destructor = .joined → contents σ.files = (σ.passed : Multiset Bytes)

/-- **Asynchronous logging loses nothing**, in every state that any interleaving of any number of calls with
the writer reaches, as long as the rotations are careful. -/
theorem log_loses_nothing
    (h : (loggerMachine n localtime).Run (careful localtime) (init n localtime now splitLines queueSize) σ) :
    σ.LosesNothing := by
  have hkept : σ.Kept :=
    h.invariant (fun _ _ _ hs hstep hok => hs.step hstep hok)
      (kept_init n localtime now splitLines queueSize)
  exact ⟨hkept.streaming.lost, hkept.streaming.cut, hkept.contents_eq⟩

namespace Sample

/-- A second of the clock is a day. -/
def daily (now : ℕ) : Day := ⟨2024, 1, now⟩

/-- Thread `i` takes `k` steps. -/
def steps (i : Fin 2) (k : ℕ) : List (LoggerAct 2) := List.replicate k (.caller i)

/-- Thread `i` calls `write_log` and takes `k` steps. -/
def calls (i : Fin 2) (record : Bytes) (k : ℕ) : List (LoggerAct 2) := .call i record :: steps i k

/-- The writer takes `k` steps. -/
def writes (k : ℕ) : List (LoggerAct 2) := List.replicate k .write

/-- The destructor. -/
def destructs : List (LoggerAct 2) := [.destroy, .write, .join]

/-- The writer writes each record before the next call: the second one goes over to a new part, the third one
to a new day. -/
def inTurn : List (LoggerAct 2) :=
  calls 0 [1] 4 ++ writes 2 ++ calls 1 [2] 11 ++ writes 2 ++ .tick 2 :: calls 0 [3] 12 ++ writes 2 ++ destructs

/-- The second call closes the file when the writer has popped the first record but not written it. -/
def popped : List (LoggerAct 2) :=
  calls 0 [1] 4 ++ writes 1 ++ calls 1 [2] 8 ++ writes 1 ++ steps 1 3 ++ writes 2 ++ destructs

/-- The first call has read the clock on the first day and goes back to that day's file after the second one
has gone over to the next day; the third one opens the file of the second day again. -/
def outOfOrder : List (LoggerAct 2) :=
  calls 0 [1] 0 ++ .tick 2 :: calls 1 [2] 12 ++ writes 2 ++ steps 0 12 ++ writes 2 ++ calls 1 [3] 12 ++
    writes 2 ++ destructs

/-- The third call goes over to the second day. Before it reads the date for the name of the file, the second
call, which has read the clock on the first day, writes that day to `tm`: the third one opens the file of the
first day again. -/
def overwritten : List (LoggerAct 2) :=
  calls 0 [1] 4 ++ writes 2 ++ calls 1 [2] 0 ++ .tick 2 :: calls 0 [3] 3 ++ steps 1 1 ++ steps 0 9 ++
    writes 2 ++ steps 1 3 ++ writes 2 ++ destructs

end Sample

/-- Three records, two rotations. -/
theorem log_loses_nothing_sample : ∃ σ : Logger 2,
    (loggerMachine 2 Sample.daily).Run (careful Sample.daily) (init 2 Sample.daily 1 2 1) σ ∧
      σ.destructor = .joined ∧ σ.opened = ⟨Sample.daily 2, none⟩ ∧
        contents σ.files = ([[1], [2], [3]] : List Bytes) := by
  have hrun : ((loggerMachine 2 Sample.daily).exec (init 2 Sample.daily 1 2 1)
      Sample.inTurn).any (fun σ => decide (σ.destructor = .joined ∧
        σ.opened = ⟨Sample.daily 2, none⟩ ∧ σ.passed = [[1], [2], [3]])) = true := by
    decide +kernel
  obtain ⟨σ, hσ, hrun⟩ := (Option.any_eq_true _ _).mp hrun
  obtain ⟨hjoined, hopened, hpassed⟩ := of_decide_eq_true hrun
  have hcareful : (loggerMachine 2 Sample.daily).StepsMeet (careful Sample.daily)
      (init 2 Sample.daily 1 2 1) Sample.inTurn := by
    decide +kernel
  have hreach := hcareful.run hσ
  have hall := (log_loses_nothing hreach).joined hjoined
  exact ⟨σ, hreach, hjoined, hopened, hpassed ▸ hall⟩

/-- A record that is written while the file is closed is lost. -/
theorem step_write_closed (halive : σ.faulted = false) (hstream : σ.stream = none)
    (hw : σ.writer = .writing oneLog) : (loggerMachine n localtime).step σ .write =
      some { σ with lost := σ.lost ++ [oneLog], writer := .popping } := by
  simp only [loggerMachine, step, halive, access, writerStep, writeRecord, hw, hstream, Bool.false_eq_true,
    if_false]

/-- **What the writer holds when the file is closed** is lost if the writer goes on next. -/
theorem held_at_close_lost (halive : σ.faulted = false) (hi : σ.callers i = .closing path record)
    (hw : σ.writer = .writing oneLog) : ∃ τ,
      (loggerMachine n localtime).exec σ [.caller i, .write] = some τ ∧ τ.lost = σ.lost ++ [oneLog] := by
  have hclose : (loggerMachine n localtime).step σ (.caller i) =
      some ({ σ with stream := none }.goto i (.opening path record)) := by
    simp only [loggerMachine, step, halive, access, callerStep, hi, Bool.false_eq_true, if_false]
  exact ⟨_, exec_pair hclose (step_write_closed halive rfl hw), rfl⟩

/-- **What the writer pops while the file is closed** is lost if the writer goes on next. -/
theorem popped_while_closed_lost (halive : σ.faulted = false) (hstream : σ.stream = none)
    (hw : σ.writer = .popping) (hpop : σ.queue.pop = .got oneLog q) :
    ∃ τ, (loggerMachine n localtime).exec σ [.write, .write] = some τ ∧
      τ.lost = σ.lost ++ [oneLog] := by
  have hfetch : (loggerMachine n localtime).step σ .write =
      some { σ with queue := q, writer := .writing oneLog } := by
    simp only [loggerMachine, step, halive, access, writerStep, hw, hpop, Bool.false_eq_true, if_false]
  exact ⟨_, exec_pair hfetch (step_write_closed halive hstream rfl), rfl⟩

/-- **Records are lost.** A record that the writer had popped is written while the file is closed, and a file
that holds a record is opened again, by a call that comes late and by one that finds another date in `tm` for
the name than for its tests: the records are in no file when the join has returned. -/
theorem log_loses :
    (∃ σ : Logger 2, (loggerMachine 2 Sample.daily).Run anyAction (init 2 Sample.daily 1 2 1) σ ∧
      σ.destructor = .joined ∧ σ.passed = [[1], [2]] ∧ σ.lost = [[1]] ∧ [1] ∉ contents σ.files) ∧
    (∃ σ : Logger 2, (loggerMachine 2 Sample.daily).Run anyAction (init 2 Sample.daily 1 10 1) σ ∧
      σ.destructor = .joined ∧ σ.passed = [[1], [2], [3]] ∧ σ.cut = [[2]] ∧
        [2] ∉ contents σ.files) ∧
    (∃ σ : Logger 2, (loggerMachine 2 Sample.daily).Run anyAction (init 2 Sample.daily 1 10 1) σ ∧
      σ.destructor = .joined ∧ σ.passed = [[1], [2], [3]] ∧ σ.cut = [[1]] ∧
        [1] ∉ contents σ.files) := by
  have hpopped : ((loggerMachine 2 Sample.daily).exec (init 2 Sample.daily 1 2 1)
      Sample.popped).any (fun σ => decide (σ.destructor = .joined ∧ σ.passed = [[1], [2]] ∧
        σ.lost = [[1]] ∧ [1] ∉ contents σ.files)) = true := by
    decide +kernel
  have houtOfOrder : ((loggerMachine 2 Sample.daily).exec (init 2 Sample.daily 1 10 1)
      Sample.outOfOrder).any (fun σ => decide (σ.destructor = .joined ∧
        σ.passed = [[1], [2], [3]] ∧ σ.cut = [[2]] ∧ [2] ∉ contents σ.files)) = true := by
    decide +kernel
  have hoverwritten : ((loggerMachine 2 Sample.daily).exec (init 2 Sample.daily 1 10 1)
      Sample.overwritten).any (fun σ => decide (σ.destructor = .joined ∧
        σ.passed = [[1], [2], [3]] ∧ σ.cut = [[1]] ∧ [1] ∉ contents σ.files)) = true := by
    decide +kernel
  obtain ⟨σ, hσ, hlost⟩ := (Option.any_eq_true _ _).mp hpopped
  obtain ⟨τ, hτ, hcut⟩ := (Option.any_eq_true _ _).mp houtOfOrder
  obtain ⟨υ, hυ, hcut'⟩ := (Option.any_eq_true _ _).mp hoverwritten
  exact ⟨⟨σ, run_of_exec (fun _ _ _ _ => trivial) hσ, of_decide_eq_true hlost⟩,
    ⟨τ, run_of_exec (fun _ _ _ _ => trivial) hτ, of_decide_eq_true hcut⟩,
    ⟨υ, run_of_exec (fun _ _ _ _ => trivial) hυ, of_decide_eq_true hcut'⟩⟩

end Logger

end DedupServer
