import DedupServer.Threads.Logger
import Mathlib.Algebra.BigOperators.Fin
import Mathlib.Tactic.Abel

/-! # Going over to a new log file

Rotations are careful when they find one date in `tm`, not an earlier one, and the writer holds no record while
they have closed the file (`Logger.careful`). Then no file is opened twice
(`Logger.Rolling`), nothing is written while no file is open (`Logger.Streaming`), and every record passed to
`write_log` is in a file or on its way (`Logger.Counted`). -/

namespace DedupServer

open Foundations

/-! ## What is on its way -/

namespace LogCaller

/-- The record of the call. -/
def held : LogCaller → Multiset Bytes
  | .outside => 0
  | .converting _ record | .locking record | .testing record | .readingYear _ record
  | .readingMonth _ _ record | .readingDay _ _ _ record | .dating _ record | .draining _ record
  | .closing _ record | .opening _ record | .unlocking record | .pushing record => {record}

/-- The path of the file that the call is going over to. -/
def target : LogCaller → Option LogPath
  | .draining path _ | .closing path _ | .opening path _ => some path
  | _ => none

/-- The call needs a new file, and has not done with `tm`. -/
def reads : LogCaller → Bool
  | .testing _ | .readingYear _ _ | .readingMonth _ _ _ | .readingDay _ _ _ _ | .dating _ _ => true
  | _ => false

/-- The call holds `m_mutex`. -/
def Critical : LogCaller → Prop
  | .testing _ | .readingYear _ _ | .readingMonth _ _ _ | .readingDay _ _ _ _ | .dating _ _
  | .draining _ _ | .closing _ _ | .opening _ _ | .unlocking _ => True
  | _ => False

/-- A call that goes over to a file holds `m_mutex`. -/
theorem critical_of_target {pc : LogCaller} {path : LogPath} (h : pc.target = some path) :
    pc.Critical := by
  cases pc with
  | draining | closing | opening => trivial
  | outside | converting | locking | testing | readingYear | readingMonth | readingDay | dating
  | unlocking | pushing => cases h

/-- So does one that reads the date for it. -/
theorem critical_of_reads {pc : LogCaller} (h : pc.reads = true) : pc.Critical := by
  cases pc with
  | testing | readingYear | readingMonth | readingDay | dating => trivial
  | outside | converting | locking | draining | closing | opening | unlocking | pushing => cases h

end LogCaller

/-- The record that the writer has popped and not written yet. -/
def LogWriter.held : LogWriter → Multiset Bytes
  | .writing oneLog => {oneLog}
  | _ => 0

namespace Logger

variable {n : ℕ} {localtime : ℕ → Day} {σ σ' : Logger n} {a : LoggerAct n} {i j : Fin n}
  {pc old : LogCaller} {record : Bytes} {path : LogPath}

@[simp] theorem goto_callers_self (σ : Logger n) (i : Fin n) (pc : LogCaller) :
    (σ.goto i pc).callers i = pc := Function.update_self ..

/-- The other threads stay where they are. -/
theorem goto_callers_of_ne (σ : Logger n) (pc : LogCaller) (hne : j ≠ i) :
    (σ.goto i pc).callers j = σ.callers j := Function.update_of_ne hne ..

/-- The writer holds no record that it has popped. -/
def Idle (σ : Logger n) : Prop := ∀ oneLog, σ.writer ≠ .writing oneLog

/-- No call is between `close` and `open`. -/
def Steady (σ : Logger n) : Prop := ∀ i path record, σ.callers i ≠ .opening path record

/-- The next call that has the lock goes over to a new file. -/
def Rotates (σ : Logger n) : Prop := σ.tm.mday ≠ σ.today ∨ (σ.count + 1) % σ.splitLines = 0

/-- No call that needs a new file is about to read `tm`. -/
def Unread (σ : Logger n) : Prop := ∀ i, (σ.callers i).reads = false

/-- What a call that is at `pc` takes care of. -/
def CarefulAt (localtime : ℕ → Day) (σ : Logger n) : LogCaller → Prop
  | .converting currentTime _ => σ.Unread ∨ localtime currentTime = σ.tm
  | .locking _ => σ.Rotates → σ.opened.day ≤ σ.tm
  | .closing _ _ => σ.Idle
  | _ => True

/-- **Rotations are careful**: a call that needs a new file finds no earlier day in `tm` than that of the file
opened last, no other call changes the date while it reads it, and the writer holds no record from when the
file is closed until the new one is open. -/
def careful (localtime : ℕ → Day) : Machine.Condition (Logger n) (LoggerAct n) := fun σ a _ =>
  match a with
  | .caller i => σ.CarefulAt localtime (σ.callers i)
  | .write => σ.writer = .popping → σ.Steady
  | _ => True

section Decidable

instance (σ : Logger n) : Decidable σ.Idle :=
  match hw : σ.writer with
  | .writing oneLog => .isFalse fun h => h oneLog hw
  | .popping | .returned => .isTrue fun _ => hw ▸ nofun

instance (pc : LogCaller) : Decidable (∀ path record, pc ≠ .opening path record) :=
  match pc with
  | .opening path record => .isFalse fun h => h path record rfl
  | .outside | .converting _ _ | .locking _ | .testing _ | .readingYear _ _ | .readingMonth _ _ _
  | .readingDay _ _ _ _ | .dating _ _ | .draining _ _ | .closing _ _ | .unlocking _ | .pushing _ =>
    .isTrue fun _ _ => by simp

instance (σ : Logger n) : Decidable σ.Steady :=
  inferInstanceAs (Decidable (∀ i, ∀ path record, σ.callers i ≠ .opening path record))

instance (σ : Logger n) : Decidable σ.Rotates := inferInstanceAs (Decidable (_ ∨ _))

instance (σ : Logger n) : Decidable σ.Unread := inferInstanceAs (Decidable (∀ _, _))

instance (localtime : ℕ → Day) (σ : Logger n) (pc : LogCaller) : Decidable (σ.CarefulAt localtime pc) :=
  match pc with
  | .converting currentTime _ => inferInstanceAs (Decidable (σ.Unread ∨ localtime currentTime = σ.tm))
  | .locking _ => inferInstanceAs (Decidable (σ.Rotates → σ.opened.day ≤ σ.tm))
  | .closing _ _ => inferInstanceAs (Decidable σ.Idle)
  | .outside | .testing _ | .readingYear _ _ | .readingMonth _ _ _ | .readingDay _ _ _ _ | .dating _ _
  | .draining _ _ | .opening _ _ | .unlocking _ | .pushing _ => .isTrue trivial

instance (localtime : ℕ → Day) (σ : Logger n) (a : LoggerAct n) (σ' : Logger n) :
    Decidable (careful localtime σ a σ') :=
  match a with
  | .caller i => inferInstanceAs (Decidable (σ.CarefulAt localtime (σ.callers i)))
  | .write => inferInstanceAs (Decidable (σ.writer = .popping → σ.Steady))
  | .tick _ | .call _ _ | .destroy | .join => .isTrue trivial

end Decidable

/-! ## Steps -/

/-- **What a careful step can do.** -/
inductive Moves (σ : Logger n) : Logger n → Prop
  | tick (now : ℕ) : Moves σ { σ with now := now }
  | call {i : Fin n} (record : Bytes) (currentTime : ℕ) (hi : σ.callers i = .outside)
      (hnone : σ.destructor = .none) :
      Moves σ ({ σ with passed := σ.passed ++ [record] }.goto i (.converting currentTime record))
  | convert {i : Fin n} {currentTime : ℕ} {record : Bytes} (tm : Day)
      (hi : σ.callers i = .converting currentTime record) (hquiet : σ.Unread ∨ tm = σ.tm) :
      Moves σ ({ σ with tm := tm }.goto i (.locking record))
  | enter {i : Fin n} {record : Bytes} (hi : σ.callers i = .locking record) (hfree : σ.mutex = none) :
      Moves σ ({ σ with mutex := some i, count := σ.count + 1 }.goto i (.unlocking record))
  | due {i : Fin n} {record : Bytes} (hi : σ.callers i = .locking record) (hfree : σ.mutex = none)
      (hrotates : σ.Rotates) (hlater : σ.opened.day ≤ σ.tm) :
      Moves σ ({ σ with mutex := some i, count := σ.count + 1 }.goto i (.testing record))
  | test {i : Fin n} {record : Bytes} (hi : σ.callers i = .testing record) :
      Moves σ (σ.goto i (.readingYear (decide (σ.tm.mday ≠ σ.today)) record))
  | readYear {i : Fin n} {newDay : Bool} {record : Bytes} (hi : σ.callers i = .readingYear newDay record) :
      Moves σ (σ.goto i (.readingMonth newDay σ.tm.year record))
  | readMonth {i : Fin n} {newDay : Bool} {year : ℕ} {record : Bytes}
      (hi : σ.callers i = .readingMonth newDay year record) :
      Moves σ (σ.goto i (.readingDay newDay year σ.tm.month record))
  | newDay {i : Fin n} {year month : ℕ} {record : Bytes}
      (hi : σ.callers i = .readingDay true year month record) :
      Moves σ (σ.goto i (.dating ⟨⟨year, month, σ.tm.mday⟩, none⟩ record))
  | newPart {i : Fin n} {year month : ℕ} {record : Bytes}
      (hi : σ.callers i = .readingDay false year month record) :
      Moves σ (σ.goto i (.draining ⟨⟨year, month, σ.tm.mday⟩, some (σ.count / σ.splitLines)⟩ record))
  | date {i : Fin n} {path : LogPath} {record : Bytes} (hi : σ.callers i = .dating path record) :
      Moves σ ({ σ with count := 0, today := σ.tm.mday }.goto i (.draining path record))
  | drained {i : Fin n} {path : LogPath} {record : Bytes} (hi : σ.callers i = .draining path record) :
      Moves σ (σ.goto i (.closing path record))
  | close {i : Fin n} {path : LogPath} {record : Bytes} (hi : σ.callers i = .closing path record)
      (hidle : σ.Idle) :
      Moves σ ({ σ with stream := none }.goto i (.opening path record))
  | openNew {i : Fin n} {path : LogPath} {record : Bytes} (hi : σ.callers i = .opening path record) :
      Moves σ ((σ.openFile path).goto i (.unlocking record))
  | unlock {i : Fin n} {record : Bytes} (hi : σ.callers i = .unlocking record) :
      Moves σ ({ σ with mutex := none }.goto i (.pushing record))
  | push {i : Fin n} {record : Bytes} {q : BlockQueueState Bytes} (hi : σ.callers i = .pushing record)
      (hpush : σ.queue.push record = some q) :
      Moves σ ({ σ with queue := q }.goto i .outside)
  | fetch {oneLog : Bytes} {q : BlockQueueState Bytes} (hw : σ.writer = .popping)
      (hpop : σ.queue.pop = .got oneLog q) (hsteady : σ.Steady) :
      Moves σ { σ with queue := q, writer := .writing oneLog }
  | leave (hw : σ.writer = .popping) (hpop : σ.queue.pop = .finished) :
      Moves σ { σ with writer := .returned }
  | write {oneLog : Bytes} {path : LogPath} (hw : σ.writer = .writing oneLog)
      (hstream : σ.stream = some path) :
      Moves σ { σ with
        files := σ.files.insert path ((σ.files.lookup path).getD [] ++ [oneLog])
        writer := .popping }
  | lose {oneLog : Bytes} (hw : σ.writer = .writing oneLog) (hstream : σ.stream = none) :
      Moves σ { σ with lost := σ.lost ++ [oneLog], writer := .popping }
  | destroy (hnone : σ.destructor = .none) (hall : ∀ i, σ.callers i = .outside) :
      Moves σ { σ with queue := σ.queue.setDone, destructor := .joining }
  | join (hjoining : σ.destructor = .joining) (hw : σ.writer = .returned) :
      Moves σ { σ with stream := none, destructor := .joined }
  | fault : Moves σ { σ with faulted := true }

/-- The lock is taken. -/
theorem moves_enter (hi : σ.callers i = .locking record) (hfree : σ.mutex = none)
    (hok : σ.Rotates → σ.opened.day ≤ σ.tm) : Moves σ (σ.enter i record) := by
  unfold enter
  split
  · rename_i hday
    exact .due hi hfree (.inl hday) (hok (.inl hday))
  · split
    · exact .fault
    · split
      · rename_i hfull
        exact .due hi hfree (.inr hfull) (hok (.inr hfull))
      · exact .enter hi hfree

/-- The name of the file is complete. -/
theorem moves_readDay {newDay : Bool} {year month : ℕ}
    (hi : σ.callers i = .readingDay newDay year month record) :
    Moves σ (σ.readDay i newDay year month record) := by
  unfold readDay
  cases newDay with
  | true => exact .newDay hi
  | false =>
    rw [if_neg Bool.false_ne_true]
    split
    · exact .fault
    · exact .newPart hi

/-- **One step of `write_log`.** -/
theorem moves_callerStep (hok : careful localtime σ (.caller i) σ')
    (hstep : σ.callerStep localtime i = some σ') : Moves σ σ' := by
  unfold callerStep at hstep
  change σ.CarefulAt localtime (σ.callers i) at hok
  split at hstep
  · cases hstep
  · rename_i hi
    rw [hi] at hok
    obtain rfl := Option.some.inj hstep
    exact .convert _ hi hok
  -- entering the logger is the one place where the day or the part can change
  · rename_i hi
    rw [hi] at hok
    split at hstep
    · rename_i hfree
      obtain rfl := Option.some.inj hstep
      exact moves_enter hi hfree hok
    · cases hstep
  · rename_i hi
    obtain rfl := Option.some.inj hstep
    exact .test hi
  · rename_i hi
    obtain rfl := Option.some.inj hstep
    exact .readYear hi
  · rename_i hi
    obtain rfl := Option.some.inj hstep
    exact .readMonth hi
  · rename_i hi
    obtain rfl := Option.some.inj hstep
    exact moves_readDay hi
  · rename_i hi
    obtain rfl := Option.some.inj hstep
    exact .date hi
  · rename_i hi
    split at hstep
    · obtain rfl := Option.some.inj hstep
      exact .drained hi
    · cases hstep
  -- a stream is only closed by a caller that is about to open the next one
  · rename_i hi
    rw [hi] at hok
    obtain rfl := Option.some.inj hstep
    exact .close hi hok
  · rename_i hi
    obtain rfl := Option.some.inj hstep
    exact .openNew hi
  · rename_i hi
    obtain rfl := Option.some.inj hstep
    exact .unlock hi
  · rename_i hi
    obtain ⟨q, hpush, rfl⟩ := Option.map_eq_some_iff.mp hstep
    exact .push hi hpush

/-- **One step of `async_write_log`.** -/
theorem moves_writerStep (hok : careful localtime σ .write σ') (hstep : σ.writerStep = some σ') :
    Moves σ σ' := by
  unfold writerStep at hstep
  split at hstep
  · rename_i hw
    split at hstep
    · cases hstep
    · rename_i hpop
      obtain rfl := Option.some.inj hstep
      exact .leave hw hpop
    · rename_i hpop
      obtain rfl := Option.some.inj hstep
      exact .fetch hw hpop (hok hw)
  · rename_i hw
    obtain rfl := Option.some.inj hstep
    unfold writeRecord
    split
    · rename_i hstream
      exact .write hw hstream
    · rename_i hstream
      exact .lose hw hstream
  · cases hstep

/-- **Every careful step** is one of these. -/
theorem moves_of_step (hstep : σ.step localtime a = some σ') (hok : careful localtime σ a σ') : Moves σ σ' := by
  unfold step at hstep
  split at hstep
  · cases hstep
  cases a with
  | tick now =>
    simp only [access] at hstep
    split at hstep
    · obtain rfl := Option.some.inj hstep
      exact .tick now
    · cases hstep
  | call i record =>
    simp only [access] at hstep
    split at hstep
    · rename_i hcall
      obtain rfl := Option.some.inj hstep
      exact .call record σ.now hcall.2 hcall.1
    · cases hstep
  | caller i => exact moves_callerStep hok hstep
  | write => exact moves_writerStep hok hstep
  | destroy =>
    simp only [access] at hstep
    split at hstep
    · rename_i hdestroy
      obtain rfl := Option.some.inj hstep
      exact .destroy hdestroy.1 hdestroy.2
    · cases hstep
  | join =>
    simp only [access] at hstep
    split at hstep
    · rename_i hjoin
      obtain rfl := Option.some.inj hstep
      exact .join hjoin.1 hjoin.2
    · cases hstep

/-! ## The lock -/

/-- **Whoever is in the critical section has the lock.** -/
def Locked (σ : Logger n) : Prop := ∀ i, (σ.callers i).Critical → σ.mutex = some i

/-- Nobody is in the critical section when the lock is free. -/
theorem Locked.not_critical (h : σ.Locked) (hfree : σ.mutex = none) (i : Fin n) :
    ¬ (σ.callers i).Critical := by
  intro hi
  have hmutex := h i hi
  rw [hfree] at hmutex
  cases hmutex

/-- **At most one thread** is in the critical section. -/
theorem Locked.unique (h : σ.Locked) (hi : (σ.callers i).Critical) (hj : (σ.callers j).Critical) :
    i = j :=
  Option.some.inj ((h i hi).symm.trans (h j hj))

/-- Nobody else is going over to a file. -/
theorem Locked.target_eq_none (h : σ.Locked) (hi : (σ.callers i).Critical) (hne : j ≠ i) :
    (σ.callers j).target = none := by
  by_contra hsome
  obtain ⟨path, hpath⟩ := Option.ne_none_iff_exists'.mp hsome
  exact hne (h.unique (LogCaller.critical_of_target hpath) hi)

/-- One thread goes on. -/
theorem Locked.goto (hother : ∀ j, j ≠ i → (σ.callers j).Critical → σ.mutex = some j)
    (hself : pc.Critical → σ.mutex = some i) : (σ.goto i pc).Locked := by
  intro j hj
  by_cases heq : j = i
  · subst heq
    rw [goto_callers_self] at hj
    exact hself hj
  · rw [goto_callers_of_ne _ _ heq] at hj
    exact hother j heq hj

/-- **Every move** keeps the lock right. -/
theorem Locked.moves (h : σ.Locked) (hm : Moves σ σ') : σ'.Locked := by
  cases hm with
  | call | convert | push => exact Locked.goto (fun j _ => h j) fun hpc => hpc.elim
  | enter hi hfree | due hi hfree =>
    exact Locked.goto (fun j _ hj => absurd hj (h.not_critical hfree j)) fun _ => rfl
  | test hi | readYear hi | readMonth hi | newDay hi | newPart hi | date hi | drained hi | close hi
  | openNew hi =>
    refine Locked.goto (fun j _ => h j) fun _ => h _ ?_
    rw [hi]
    trivial
  | @unlock i record hi =>
    have hcritical : (σ.callers i).Critical := by
      rw [hi]
      trivial
    exact Locked.goto (fun j hne hj => absurd (h.unique hj hcritical) hne) fun hpc => hpc.elim
  | _ => exact h

/-! ## Files are opened in order -/

/-- The parts of a day up to `path` have been counted. -/
def Counts (σ : Logger n) (path : LogPath) : Prop :=
  ∀ part, path.part = some part → part ≤ σ.count / σ.splitLines

/-- A call that looks at the day now needs a new file: there is a new day, or the next part of the day. -/
def Due (σ : Logger n) : Prop :=
  σ.tm.mday ≠ σ.today ∨ ∀ part, σ.opened.part = some part → part < σ.count / σ.splitLines

/-- What the call has read of `tm` is what is there. -/
def HasRead (σ : Logger n) : LogCaller → Prop
  | .readingYear newDay _ => newDay = decide (σ.tm.mday ≠ σ.today)
  | .readingMonth newDay year _ => newDay = decide (σ.tm.mday ≠ σ.today) ∧ year = σ.tm.year
  | .readingDay newDay year month _ =>
    newDay = decide (σ.tm.mday ≠ σ.today) ∧ year = σ.tm.year ∧ month = σ.tm.month
  | .dating path _ => path = ⟨σ.tm, none⟩ ∧ σ.tm.mday ≠ σ.today
  | _ => True

/-- The call finds a day in `tm` that is not earlier than that of the file opened last. -/
structure Reading (σ : Logger n) (pc : LogCaller) : Prop where
  later : σ.opened.day ≤ σ.tm
  due : σ.Due
  hasRead : σ.HasRead pc

/-- Steps that touch neither `tm` nor what `m_today` and `m_count` say. -/
theorem Reading.of_eq (h : σ.Reading pc) (htm : σ'.tm = σ.tm) (htoday : σ'.today = σ.today)
    (hcount : σ'.count = σ.count) (hsplit : σ'.splitLines = σ.splitLines) (hopened : σ'.opened = σ.opened) :
    σ'.Reading pc := by
  refine ⟨?_, ?_, ?_⟩
  · rw [hopened, htm]
    exact h.later
  · rw [Due, htm, htoday, hopened, hcount, hsplit]
    exact h.due
  · have hread := h.hasRead
    unfold HasRead at hread ⊢
    rw [htm, htoday]
    exact hread

/-- **Every file is opened once**: those there are come before the one that was opened last, and this before
the one that a call is going over to; `m_today` and `m_count` go with the last of them. -/
structure Rolling (σ : Logger n) : Prop where
  below : Below σ.files σ.opened
  reading : ∀ i, (σ.callers i).reads = true → σ.Reading (σ.callers i)
  target : ∀ i path, (σ.callers i).target = some path →
    σ.opened < path ∧ σ.today = path.day.mday ∧ σ.Counts path
  settled : (∀ i, (σ.callers i).target = none) → σ.today = σ.opened.day.mday ∧ σ.Counts σ.opened

/-- One thread goes on without going over to another file, or giving it up. -/
theorem Rolling.goto (h : σ.Rolling) (htarget : pc.target = (σ.callers i).target)
    (hpc : pc.reads = true → σ.Reading pc) : (σ.goto i pc).Rolling := by
  have hsame : ∀ j, ((σ.goto i pc).callers j).target = (σ.callers j).target := by
    intro j
    by_cases heq : j = i
    · subst heq
      rw [goto_callers_self, htarget]
    · rw [goto_callers_of_ne _ _ heq]
  refine ⟨h.below, fun j hj => ?_, fun j path hj => ?_, fun hall => ?_⟩
  · by_cases heq : j = i
    · subst heq
      rw [goto_callers_self] at hj ⊢
      exact (hpc hj).of_eq rfl rfl rfl rfl rfl
    · rw [goto_callers_of_ne _ _ heq] at hj ⊢
      exact (h.reading j hj).of_eq rfl rfl rfl rfl rfl
  · rw [hsame] at hj
    exact h.target j path hj
  · apply h.settled
    intro j
    rw [← hsame]
    exact hall j

/-- **A call goes over to a later file**, when nobody else is under the lock. -/
theorem Rolling.rotate (hbelow : Below σ.files σ.opened) (hother : ∀ j ≠ i, ¬ (σ.callers j).Critical)
    (hpc : pc.target = some path) (hpath : σ.opened < path ∧ σ.today = path.day.mday ∧ σ.Counts path) :
    (σ.goto i pc).Rolling := by
  refine ⟨hbelow, fun j hj => ?_, fun j path' hj => ?_, fun hall => ?_⟩
  · by_cases heq : j = i
    · subst heq
      rw [goto_callers_self] at hj
      cases pc with
      | draining | closing | opening => cases hj
      | outside | converting | locking | testing | readingYear | readingMonth | readingDay | dating
      | unlocking | pushing => cases hpc
    · rw [goto_callers_of_ne _ _ heq] at hj
      exact absurd (LogCaller.critical_of_reads hj) (hother j heq)
  · by_cases heq : j = i
    · subst heq
      rw [goto_callers_self, hpc] at hj
      obtain rfl := Option.some.inj hj
      exact hpath
    · rw [goto_callers_of_ne _ _ heq] at hj
      exact absurd (LogCaller.critical_of_target hj) (hother j heq)
  · have hi := hall i
    rw [goto_callers_self, hpc] at hi
    cases hi

/-- The lock is taken and the record is counted. -/
theorem Rolling.count (h : σ.Rolling) (hlock : σ.Locked) (hfree : σ.mutex = none) (i : Fin n) :
    { σ with mutex := some i, count := σ.count + 1 }.Rolling := by
  have hcritical := hlock.not_critical hfree
  refine ⟨h.below, fun j hj => ?_, fun j path hj => ?_, fun hall => ?_⟩
  · exact absurd (LogCaller.critical_of_reads hj) (hcritical j)
  · exact absurd (LogCaller.critical_of_target hj) (hcritical j)
  · obtain ⟨htoday, hcounts⟩ := h.settled hall
    exact ⟨htoday, fun part hpart => (hcounts part hpart).trans (Nat.div_le_div_right (Nat.le_succ _))⟩

/-- A new day, or a record that fills the file, makes a new file due. -/
theorem Rolling.due (h : σ.Rolling) (hnone : ∀ j, (σ.callers j).target = none) (i : Fin n)
    (hrotates : σ.tm.mday ≠ σ.today ∨ (σ.count + 1) % σ.splitLines = 0) :
    { σ with mutex := some i, count := σ.count + 1 }.Due := by
  refine hrotates.imp_right fun hfull part hpart => ?_
  -- the next part of the day has not been counted before
  apply ((h.settled hnone).2 part hpart).trans_lt
  show σ.count / σ.splitLines < (σ.count + 1) / σ.splitLines
  rw [Nat.succ_div_of_dvd (Nat.dvd_of_mod_eq_zero hfull)]
  exact Nat.lt_succ_self _

/-- The file that the call goes over to is open. -/
theorem Rolling.openNew (h : σ.Rolling) (hother : ∀ j ≠ i, ¬ (σ.callers j).Critical)
    (htarget : (σ.callers i).target = some path) (record : Bytes) :
    ((σ.openFile path).goto i (.unlocking record)).Rolling := by
  obtain ⟨hlt, htoday, hcounts⟩ := h.target i path htarget
  refine ⟨h.below.insert hlt.le le_rfl [], fun j hj => ?_, fun j path' hj => ?_,
    fun _ => ⟨htoday, hcounts⟩⟩
  · by_cases heq : j = i
    · subst heq
      rw [goto_callers_self] at hj
      cases hj
    · rw [goto_callers_of_ne _ _ heq] at hj
      exact absurd (LogCaller.critical_of_reads hj) (hother j heq)
  · by_cases heq : j = i
    · subst heq
      rw [goto_callers_self] at hj
      cases hj
    · rw [goto_callers_of_ne _ _ heq] at hj
      exact absurd (LogCaller.critical_of_target hj) (hother j heq)

/-- **Every move** keeps the files in order. -/
theorem Rolling.moves (h : σ.Rolling) (hlock : σ.Locked) (hstream : ∀ path, σ.stream = some path →
    path = σ.opened) (hm : Moves σ σ') : σ'.Rolling := by
  -- whoever is under the lock is there alone
  have halone : ∀ {i}, (σ.callers i).Critical → ∀ j ≠ i, ¬ (σ.callers j).Critical :=
    fun hi j hne hj => hne (hlock.unique hj hi)
  cases hm with
  | call record currentTime hi =>
    have hσ : { σ with passed := σ.passed ++ [record] }.Rolling :=
      ⟨h.below, fun j hj => (h.reading j hj).of_eq rfl rfl rfl rfl rfl, h.target, h.settled⟩
    exact hσ.goto (by rw [hi]; rfl) nofun
  | convert tm hi hquiet =>
    have hσ : { σ with tm := tm }.Rolling := by
      rcases hquiet with hunread | rfl
      · refine ⟨h.below, fun j hj => ?_, h.target, h.settled⟩
        rw [hunread j] at hj
        cases hj
      · exact h
    exact hσ.goto (by rw [hi]; rfl) nofun
  | @enter i record hi hfree => exact (h.count hlock hfree i).goto (by rw [hi]; rfl) nofun
  | @due i record hi hfree hrotates hlater =>
    have hnone : ∀ j, (σ.callers j).target = none := by
      intro j
      by_contra hsome
      obtain ⟨path, hpath⟩ := Option.ne_none_iff_exists'.mp hsome
      exact hlock.not_critical hfree j (LogCaller.critical_of_target hpath)
    exact (h.count hlock hfree i).goto (by rw [hi]; rfl) fun _ => ⟨hlater, h.due hnone i hrotates, trivial⟩
  | @test i record hi =>
    obtain ⟨hlater, hdue, -⟩ := h.reading i (by rw [hi]; rfl)
    exact h.goto (by rw [hi]; rfl) fun _ => ⟨hlater, hdue, rfl⟩
  | @readYear i newDay record hi =>
    obtain ⟨hlater, hdue, hread⟩ := h.reading i (by rw [hi]; rfl)
    rw [hi] at hread
    exact h.goto (by rw [hi]; rfl) fun _ => ⟨hlater, hdue, hread, rfl⟩
  | @readMonth i newDay year record hi =>
    obtain ⟨hlater, hdue, hread⟩ := h.reading i (by rw [hi]; rfl)
    rw [hi] at hread
    exact h.goto (by rw [hi]; rfl) fun _ => ⟨hlater, hdue, hread.1, hread.2, rfl⟩
  | @newDay i year month record hi =>
    obtain ⟨hlater, hdue, hread⟩ := h.reading i (by rw [hi]; rfl)
    rw [hi] at hread
    obtain ⟨hday, rfl, rfl⟩ := hread
    exact h.goto (by rw [hi]; rfl) fun _ => ⟨hlater, hdue, rfl, of_decide_eq_true hday.symm⟩
  | @newPart i year month record hi =>
    obtain ⟨hlater, hdue, hread⟩ := h.reading i (by rw [hi]; rfl)
    rw [hi] at hread
    obtain ⟨hday, rfl, rfl⟩ := hread
    have hsame : σ.tm.mday = σ.today := not_not.mp (of_decide_eq_false hday.symm)
    refine Rolling.rotate h.below (halone (by rw [hi]; trivial)) rfl ⟨?_, hsame.symm, fun part hpart => ?_⟩
    · rcases hlater.lt_or_eq with hlt | heq
      · exact path_lt_of_day_lt hlt
      · -- a later part of the same day
        exact path_lt_of_part heq (hdue.resolve_left (not_not.mpr hsame))
    · obtain rfl := Option.some.inj hpart
      exact le_rfl
  | @date i path record hi =>
    obtain ⟨hlater, -, hread⟩ := h.reading i (by rw [hi]; rfl)
    rw [hi] at hread
    obtain ⟨rfl, hday⟩ := hread
    have hcritical : (σ.callers i).Critical := by
      rw [hi]
      trivial
    obtain ⟨htoday, -⟩ := h.settled fun j => by
      by_cases heq : j = i
      · subst heq
        rw [hi]
        rfl
      · exact hlock.target_eq_none hcritical heq
    refine Rolling.rotate h.below (halone hcritical) rfl ⟨?_, rfl, fun part hpart => (by cases hpart)⟩
    -- the day is another one, and not an earlier one
    apply path_lt_of_day_lt
    apply lt_of_le_of_ne hlater
    intro heq
    rw [htoday, heq] at hday
    exact hday rfl
  | drained hi => exact h.goto (by rw [hi]; rfl) nofun
  | close hi =>
    have hσ : { σ with stream := none }.Rolling :=
      ⟨h.below, fun j hj => (h.reading j hj).of_eq rfl rfl rfl rfl rfl, h.target, h.settled⟩
    exact hσ.goto (by rw [hi]; rfl) nofun
  | @openNew i path record hi =>
    exact h.openNew (halone (by rw [hi]; trivial)) (by rw [hi]; rfl) record
  | unlock hi =>
    have hσ : { σ with mutex := none }.Rolling :=
      ⟨h.below, fun j hj => (h.reading j hj).of_eq rfl rfl rfl rfl rfl, h.target, h.settled⟩
    exact hσ.goto (by rw [hi]; rfl) nofun
  | @push i record q hi =>
    have hσ : { σ with queue := q }.Rolling :=
      ⟨h.below, fun j hj => (h.reading j hj).of_eq rfl rfl rfl rfl rfl, h.target, h.settled⟩
    exact hσ.goto (by rw [hi]; rfl) nofun
  | write hw hopen =>
    exact ⟨h.below.insert le_rfl (hstream _ hopen).le _,
      fun j hj => (h.reading j hj).of_eq rfl rfl rfl rfl rfl, h.target, h.settled⟩
  | _ => exact ⟨h.below, fun j hj => (h.reading j hj).of_eq rfl rfl rfl rfl rfl, h.target, h.settled⟩

/-! ## The destructor -/

/-- **How the logger ends**: `~Logger` runs when no call is in progress, the writer returns when the queue is
empty and done, and the join returns when the writer has. -/
structure Ending (σ : Logger n) : Prop where
  outside : σ.destructor ≠ .none → ∀ i, σ.callers i = .outside
  returned : σ.writer = .returned → σ.queue.queue = [] ∧ σ.destructor ≠ .none
  done : σ.queue.done = true → σ.destructor ≠ .none
  joined : σ.destructor = .joined → σ.writer = .returned

/-- Before the destructor. -/
theorem Ending.of_none (hnone : σ.destructor = .none) (hw : σ.writer ≠ .returned)
    (hdone : σ.queue.done = false) : σ.Ending where
  outside := fun h => absurd hnone h
  returned := fun h => absurd h hw
  done := fun h => by
    rw [hdone] at h
    cases h
  joined := fun h => by
    rw [hnone] at h
    cases h

/-- The destructor has not been called: the writer has not returned, and the queue is not done. -/
theorem Ending.before (h : σ.Ending) (hnone : σ.destructor = .none) :
    σ.writer ≠ .returned ∧ σ.queue.done = false := by
  constructor
  · intro hw
    exact (h.returned hw).2 hnone
  · by_contra hdone
    exact h.done (Bool.not_eq_false _ ▸ hdone) hnone

/-- Nor has it as long as a call is in progress. -/
theorem Ending.none_of_caller (h : σ.Ending) (hi : σ.callers i = pc) (hpc : pc ≠ .outside) :
    σ.destructor = .none := by
  by_contra hne
  exact hpc (hi.symm.trans (h.outside hne i))

/-- **Every move** keeps to this. -/
theorem Ending.moves (h : σ.Ending) (hm : Moves σ σ') : σ'.Ending := by
  cases hm with
  | call _ _ _ hnone =>
    obtain ⟨hw, hdone⟩ := h.before hnone
    exact .of_none hnone hw hdone
  -- a caller inside keeps the destructor from running
  | convert _ hi | enter hi | due hi | test hi | readYear hi | readMonth hi | newDay hi | newPart hi
  | date hi | drained hi | close hi | openNew hi | unlock hi =>
    have hnone := h.none_of_caller hi nofun
    obtain ⟨hw, hdone⟩ := h.before hnone
    exact .of_none hnone hw hdone
  | push hi hpush =>
    have hnone := h.none_of_caller hi nofun
    obtain ⟨hw, hdone⟩ := h.before hnone
    obtain ⟨-, -, hdone', -⟩ := BlockQueueState.push_eq_some hpush
    exact .of_none hnone hw (hdone'.trans hdone)
  | fetch hw hpop =>
    -- a writer that goes on has not returned, so nothing has been joined
    obtain ⟨-, -, hdone, -⟩ := BlockQueueState.pop_eq_got hpop
    refine ⟨h.outside, fun hr => (by cases hr), fun hd => h.done (hdone ▸ hd), fun hj => ?_⟩
    have hret := h.joined hj
    rw [hw] at hret
    cases hret
  | leave hw hpop =>
    obtain ⟨hqueue, hdone⟩ := BlockQueueState.pop_eq_finished hpop
    exact ⟨h.outside, fun _ => ⟨hqueue, h.done hdone⟩, h.done, fun _ => rfl⟩
  | write hw | lose hw =>
    refine ⟨h.outside, fun hr => (by cases hr), h.done, fun hj => ?_⟩
    have hret := h.joined hj
    rw [hw] at hret
    cases hret
  -- the destructor runs when every caller is outside
  | destroy hnone hall =>
    obtain ⟨hw, -⟩ := h.before hnone
    exact ⟨fun _ => hall, fun hr => absurd hr hw, fun _ => nofun,
      fun hj => (by cases hj)⟩
  | join hjoining hw =>
    have hne : σ.destructor ≠ .none := by
      rw [hjoining]
      exact nofun
    exact ⟨fun _ => h.outside hne, fun hr => ⟨(h.returned hr).1, nofun⟩,
      fun _ => nofun, fun _ => hw⟩
  | _ => exact ⟨h.outside, h.returned, h.done, h.joined⟩

/-! ## Nothing is written while no file is open -/

/-- **The file that was opened last is open**, except between `close` and `open`, when the writer holds no
record. -/
structure Streaming (σ : Logger n) : Prop where
  current : ∀ path, σ.stream = some path → path = σ.opened
  closed : σ.stream = none → (∃ i path record, σ.callers i = .opening path record) ∨
    σ.destructor = .joined
  idle : ∀ i path record, σ.callers i = .opening path record → σ.Idle
  lost : σ.lost = []
  cut : σ.cut = []

/-- One thread goes on that has nothing to do with the file, and what concerns the file stays. -/
theorem Streaming.goto (h : σ.Streaming) (hcallers : σ'.callers = Function.update σ.callers i pc)
    (hstream : σ'.stream = σ.stream) (hopened : σ'.opened = σ.opened) (hwriter : σ'.writer = σ.writer)
    (hdestructor : σ'.destructor = σ.destructor) (hlost : σ'.lost = σ.lost) (hcut : σ'.cut = σ.cut)
    (hi : ∀ path record, σ.callers i ≠ .opening path record)
    (hpc : ∀ path record, pc ≠ .opening path record) : σ'.Streaming := by
  have hself : σ'.callers i = pc := by
    rw [hcallers, Function.update_self]
  have hother : ∀ j, j ≠ i → σ'.callers j = σ.callers j := by
    intro j hne
    rw [hcallers, Function.update_of_ne hne]
  refine ⟨?_, ?_, fun j path record hj => ?_, hlost.trans h.lost, hcut.trans h.cut⟩
  · rw [hstream, hopened]
    exact h.current
  · rw [hstream, hdestructor]
    intro hnone
    -- the caller that will open the stream is not the one that moves
    apply (h.closed hnone).imp_left
    rintro ⟨j, path, record, hj⟩
    refine ⟨j, path, record, ?_⟩
    rw [hother j fun heq => hi path record (heq ▸ hj)]
    exact hj
  · have hne : j ≠ i := by
      rintro rfl
      exact hpc path record (hself.symm.trans hj)
    have hidle := h.idle j path record (hother j hne ▸ hj)
    rw [Idle, hwriter]
    exact hidle

/-- The others are not between `close` and `open` when one has the lock. -/
theorem Locked.not_opening (h : σ.Locked) (hi : (σ.callers i).Critical) (hne : j ≠ i) (path : LogPath)
    (record : Bytes) : σ.callers j ≠ .opening path record := by
  intro hj
  have htarget := h.target_eq_none hi hne
  rw [hj] at htarget
  cases htarget

/-- **Every move** loses nothing. -/
theorem Streaming.moves (h : σ.Streaming) (hlock : σ.Locked) (hrolling : σ.Rolling) (hending : σ.Ending)
    (hm : Moves σ σ') : σ'.Streaming := by
  cases hm with
  | call _ _ hi | convert _ hi | enter hi | due hi | test hi | readYear hi | readMonth hi | newDay hi
  | newPart hi | date hi | drained hi | unlock hi | push hi =>
    exact h.goto rfl rfl rfl rfl rfl rfl rfl (fun _ _ => hi ▸ nofun) nofun
  | @close i path record hi hidle =>
    exact ⟨nofun, fun _ => .inl ⟨i, path, record, goto_callers_self _ i _⟩, fun _ _ _ _ => hidle, h.lost,
      h.cut⟩
  | @openNew i path record hi =>
    have hcritical : (σ.callers i).Critical := by
      rw [hi]
      trivial
    refine ⟨fun _ hstream => (Option.some.inj hstream).symm, nofun, fun j path' record' hj => ?_, h.lost,
      ?_⟩
    · by_cases heq : j = i
      · subst heq
        rw [goto_callers_self] at hj
        cases hj
      · rw [goto_callers_of_ne _ _ heq] at hj
        exact absurd hj (hlock.not_opening hcritical heq path' record')
    · -- the file is a new one
      obtain ⟨hlater, -⟩ := hrolling.target i path (by rw [hi]; rfl)
      show σ.cut ++ (σ.files.lookup path).getD [] = []
      rw [h.cut, hrolling.below.lookup_eq_none hlater]
      rfl
  | fetch hw hpop hsteady =>
    exact ⟨h.current, h.closed, fun i path record hi => absurd hi (hsteady i path record), h.lost, h.cut⟩
  | leave | write => exact ⟨h.current, h.closed, fun _ _ _ _ => nofun, h.lost, h.cut⟩
  | @lose oneLog hw hstream =>
    -- the file is closed when the writer holds nothing, or by the destructor
    exfalso
    rcases h.closed hstream with ⟨i, path, record, hi⟩ | hjoined
    · exact h.idle i path record hi oneLog hw
    · have hreturned := hending.joined hjoined
      rw [hw] at hreturned
      cases hreturned
  | destroy hnone =>
    have hclosed : σ.stream = none → ∃ i path record, σ.callers i = .opening path record :=
      fun hstream => (h.closed hstream).resolve_right (hnone ▸ nofun)
    exact ⟨h.current, fun hstream => .inl (hclosed hstream), h.idle, h.lost, h.cut⟩
  | join => exact ⟨nofun, fun _ => .inr rfl, h.idle, h.lost, h.cut⟩
  | tick | fault => exact ⟨h.current, h.closed, h.idle, h.lost, h.cut⟩

/-! ## Every record is somewhere -/

/-- The records of the calls in progress. -/
def calling (σ : Logger n) : Multiset Bytes := ∑ i, (σ.callers i).held

/-- **Every record that was passed** to `write_log` is in a file, lost, cut off, in the queue, with the
writer, or with its call. -/
def Counted (σ : Logger n) : Prop :=
  (σ.passed : Multiset Bytes) =
    contents σ.files + σ.lost + σ.cut + σ.queue.queue + σ.writer.held + σ.calling

/-- One thread goes on: the others keep their records. -/
theorem calling_goto (σ : Logger n) (i : Fin n) (pc : LogCaller) :
    (σ.goto i pc).calling + (σ.callers i).held = σ.calling + pc.held :=
  sum_update_add LogCaller.held σ.callers i pc

/-- A thread goes on with its record, and what concerns the others stays. -/
theorem Counted.goto (h : σ.Counted) (hcallers : σ'.callers = Function.update σ.callers i pc)
    (hheld : pc.held = (σ.callers i).held) (hpassed : σ'.passed = σ.passed) (hfiles : σ'.files = σ.files)
    (hlost : σ'.lost = σ.lost) (hcut : σ'.cut = σ.cut) (hqueue : σ'.queue = σ.queue)
    (hwriter : σ'.writer = σ.writer) : σ'.Counted := by
  have hcalling : σ'.calling + (σ.callers i).held = σ.calling + pc.held := by
    rw [calling, hcallers]
    exact calling_goto σ i pc
  rw [hheld] at hcalling
  rw [Counted, hpassed, hfiles, hlost, hcut, hqueue, hwriter, add_right_cancel hcalling]
  exact h

/-- A list with one more item at its end. -/
theorem coe_concat (records : List Bytes) (record : Bytes) :
    ((records ++ [record] : List Bytes) : Multiset Bytes) = records + {record} :=
  (Multiset.coe_add _ _).symm

/-- **Every move** keeps count of the records. -/
theorem Counted.moves (h : σ.Counted) (hm : Moves σ σ') : σ'.Counted := by
  cases hm with
  | convert _ hi | enter hi | due hi | test hi | readYear hi | readMonth hi | newDay hi | newPart hi
  | date hi | drained hi | close hi | unlock hi =>
    exact h.goto rfl (by rw [hi]; rfl) rfl rfl rfl rfl rfl rfl
  | @call i record currentTime hi =>
    have hcalling := calling_goto σ i (.converting currentTime record)
    rw [hi] at hcalling
    show ((σ.passed ++ [record] : List Bytes) : Multiset Bytes) = contents σ.files + σ.lost + σ.cut +
      σ.queue.queue + σ.writer.held + (σ.goto i (.converting currentTime record)).calling
    rw [coe_concat, h, (add_zero _).symm.trans hcalling]
    exact add_assoc _ _ _
  | @openNew i path record hi =>
    have hcalling := calling_goto σ i (.unlocking record)
    rw [hi] at hcalling
    -- what is cut off is what was in the file
    have hfiles := contents_insert σ.files path []
    rw [Multiset.coe_nil, add_zero] at hfiles
    show (σ.passed : Multiset Bytes) = contents (σ.files.insert path []) + σ.lost +
      ((σ.cut ++ (σ.files.lookup path).getD [] : List Bytes) : Multiset Bytes) + σ.queue.queue +
        σ.writer.held + (σ.goto i (.unlocking record)).calling
    rw [add_right_cancel hcalling, h, ← hfiles, ← Multiset.coe_add]
    abel
  | @push i record q hi hpush =>
    obtain ⟨hqueue, -⟩ := BlockQueueState.push_eq_some hpush
    have hcalling := calling_goto σ i .outside
    rw [hi] at hcalling
    rw [Counted] at h
    show (σ.passed : Multiset Bytes) = contents σ.files + σ.lost + σ.cut + q.queue + σ.writer.held +
      (σ.goto i .outside).calling
    rw [h, ← hcalling.trans (add_zero _), hqueue, coe_concat]
    show _ + (_ + {record}) = _
    abel
  | @fetch oneLog q hw hpop =>
    obtain ⟨hqueue, -⟩ := BlockQueueState.pop_eq_got hpop
    rw [Counted, hw, hqueue] at h
    show (σ.passed : Multiset Bytes) = contents σ.files + σ.lost + σ.cut + q.queue + {oneLog} + σ.calling
    rw [h, ← Multiset.cons_coe, ← Multiset.singleton_add]
    show _ + _ + _ + _ + 0 + _ = _
    abel
  | @write oneLog path hw hstream =>
    have hfiles := contents_insert σ.files path ((σ.files.lookup path).getD [] ++ [oneLog])
    rw [coe_concat, add_comm ((σ.files.lookup path).getD [] : Multiset Bytes), ← add_assoc] at hfiles
    rw [Counted, hw] at h
    show (σ.passed : Multiset Bytes) = contents (σ.files.insert path _) + σ.lost + σ.cut +
      σ.queue.queue + 0 + σ.calling
    rw [h, add_right_cancel hfiles]
    show _ + _ + _ + _ + {oneLog} + _ = _
    abel
  | @lose oneLog hw hstream =>
    rw [Counted, hw] at h
    show (σ.passed : Multiset Bytes) = contents σ.files +
      ((σ.lost ++ [oneLog] : List Bytes) : Multiset Bytes) + σ.cut + σ.queue.queue + 0 + σ.calling
    rw [h, coe_concat]
    show _ + _ + _ + _ + {oneLog} + _ = _
    abel
  | leave hw hpop =>
    rw [Counted, hw] at h
    exact h
  | _ => exact h

/-! ## Runs -/

/-- **What holds in every state** of a careful logger. -/
structure Kept (σ : Logger n) : Prop where
  locked : σ.Locked
  rolling : σ.Rolling
  ending : σ.Ending
  streaming : σ.Streaming
  counted : σ.Counted

/-- It holds after `init`. -/
theorem kept_init (n : ℕ) (localtime : ℕ → Day) (now splitLines queueSize : ℕ) :
    (init n localtime now splitLines queueSize).Kept := by
  refine ⟨fun i hi => hi.elim, ⟨below_singleton _ _, nofun, fun i path hi => (by cases hi),
    fun _ => ⟨rfl, fun part hpart => (by cases hpart)⟩⟩, .of_none rfl nofun rfl, ?_, ?_⟩
  · exact ⟨fun path hpath => (Option.some.inj hpath).symm, nofun, fun i path record hi => (by cases hi),
      rfl, rfl⟩
  · have hcalling : (init n localtime now splitLines queueSize).calling = 0 :=
      Finset.sum_eq_zero fun i _ => rfl
    rw [Counted, hcalling]
    rfl

/-- **Every careful step keeps it.** -/
theorem Kept.step (h : σ.Kept) (hstep : (loggerMachine n localtime).step σ a = some σ')
    (hok : careful localtime σ a σ') : σ'.Kept := by
  have hm := moves_of_step hstep hok
  exact ⟨h.locked.moves hm, h.rolling.moves h.locked h.streaming.current hm, h.ending.moves hm,
    h.streaming.moves h.locked h.rolling h.ending hm, h.counted.moves hm⟩

/-- **When the join has returned**, every record is in a file. -/
theorem Kept.contents_eq (h : σ.Kept) (hjoined : σ.destructor = .joined) :
    contents σ.files = (σ.passed : Multiset Bytes) := by
  have hw := h.ending.joined hjoined
  have hqueue := (h.ending.returned hw).1
  have hcalling : σ.calling = 0 := by
    apply Finset.sum_eq_zero
    intro i _
    rw [h.ending.outside (hjoined ▸ nofun) i]
    rfl
  have hcounted := h.counted
  rw [Counted, h.streaming.lost, h.streaming.cut, hqueue, hw, hcalling] at hcounted
  rw [hcounted]
  simp [LogWriter.held]

end Logger

end DedupServer
