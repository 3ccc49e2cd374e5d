import DedupServer.Threads.SyncLogger

/-! # The files of a synchronous logger

While dates do not decrease, every file that is opened comes behind the files opened before it (`Rolled`),
so that none is truncated that holds records of the run: the files in their order hold the records in the
order of the calls, and a rotation comes before a file holds more than `split_lines` of them (`Filed`). With
any dates, the open file has the date of the last record exactly as long as a change to the same day of
another month finds the file full (`dated_iff`). -/

namespace DedupServer

open Foundations

namespace SyncLogger

variable {σ : SyncLogger} {last day : Day} {path p : LogPath} {c : LogCall}

/-! ## Opening and writing -/

@[simp] theorem records_openFile_self (σ : SyncLogger) (path : LogPath) :
    (σ.openFile path).records path = [] := by
  simp [records, openFile]

theorem records_openFile_of_ne (σ : SyncLogger) (hne : p ≠ path) :
    (σ.openFile path).records p = σ.records p := by
  simp [records, openFile, AList.lookup_insert_ne hne]

@[simp] theorem records_write_self (σ : SyncLogger) (c : LogCall) :
    (σ.write c).records σ.stream = σ.records σ.stream ++ [c.strLog] := by
  simp [records, write]

theorem records_write_of_ne (σ : SyncLogger) (c : LogCall) (hne : p ≠ σ.stream) :
    (σ.write c).records p = σ.records p := by
  simp [records, write, AList.lookup_insert_ne hne]

/-- **The three ways on**: a new day, a new part, or the same file. -/
theorem rotate_cases (hsplit : 1 ≤ σ.splitLines) (day : Day) :
    (day.mday ≠ σ.today ∧
      σ.rotate day = { σ with count := 0, today := day.mday }.openFile ⟨day, none⟩) ∨
    (day.mday = σ.today ∧ (σ.count + 1) % σ.splitLines = 0 ∧ σ.rotate day =
      { σ with count := σ.count + 1 }.openFile ⟨day, some ((σ.count + 1) / σ.splitLines)⟩) ∨
    (day.mday = σ.today ∧ (σ.count + 1) % σ.splitLines ≠ 0 ∧
      σ.rotate day = { σ with count := σ.count + 1 }) := by
  unfold rotate
  rw [if_neg (Nat.ne_of_gt hsplit)]
  split
  next hday => exact .inl ⟨hday, rfl⟩
  next hday =>
    rw [not_not] at hday
    split
    next hfull => exact .inr (.inl ⟨hday, hfull, rfl⟩)
    next hfull => exact .inr (.inr ⟨hday, hfull, rfl⟩)

/-- `init` sets `split_lines` for good. -/
theorem splitLines_rotate (hsplit : 1 ≤ σ.splitLines) (day : Day) :
    (σ.rotate day).splitLines = σ.splitLines := by
  obtain ⟨-, h⟩ | ⟨-, -, h⟩ | ⟨-, -, h⟩ := rotate_cases hsplit day <;> rw [h] <;> rfl

theorem closeLog_rotate (hsplit : 1 ≤ σ.splitLines) (day : Day) : (σ.rotate day).closeLog = σ.closeLog := by
  obtain ⟨-, h⟩ | ⟨-, -, h⟩ | ⟨-, -, h⟩ := rotate_cases hsplit day <;> rw [h] <;> rfl

/-- Nothing is divided by zero. -/
theorem faulted_rotate (hsplit : 1 ≤ σ.splitLines) (day : Day) : (σ.rotate day).faulted = σ.faulted := by
  obtain ⟨-, h⟩ | ⟨-, -, h⟩ | ⟨-, -, h⟩ := rotate_cases hsplit day <;> rw [h] <;> rfl

/-- **A logger that is open**, in a process that goes on. -/
structure Works (σ : SyncLogger) : Prop where
  split : 1 ≤ σ.splitLines
  enabled : σ.closeLog = false
  sound : σ.faulted = false

/-- A call writes its record. -/
theorem Works.writeLog_eq (h : σ.Works) (c : LogCall) :
    σ.writeLog c = (σ.rotate c.curTime.day).write c := by
  rw [writeLog, h.enabled, h.sound, faulted_rotate h.split, h.sound]
  rfl

/-- The logger stays open. -/
theorem Works.writeLog (h : σ.Works) (c : LogCall) :
    (σ.writeLog c).Works ∧ (σ.writeLog c).splitLines = σ.splitLines := by
  rw [h.writeLog_eq]
  have hlines : ((σ.rotate c.curTime.day).write c).splitLines = σ.splitLines :=
    splitLines_rotate h.split _
  exact ⟨⟨hlines.symm ▸ h.split, (closeLog_rotate h.split _).trans h.enabled,
    (faulted_rotate h.split _).trans h.sound⟩, hlines⟩

/-! ## Files are opened in order -/

/-- **The open file goes with the last date**, and every file opened before it comes before it. -/
structure Rolled (σ : SyncLogger) (last : Day) : Prop where
  today : σ.today = last.mday
  day : σ.stream.day ≤ last
  counts : ∀ part, σ.stream.part = some part → part ≤ σ.count / σ.splitLines
  newest : ∃ earlier, σ.opened = earlier ++ [σ.stream]
  sorted : σ.opened.Pairwise (· < ·)

/-- The files opened before the one that is open. -/
theorem Rolled.lt_stream (h : σ.Rolled last) {earlier : List LogPath} (heq : σ.opened = earlier ++ [σ.stream])
    (hp : p ∈ earlier) : p < σ.stream := by
  have hsorted := h.sorted
  rw [heq, List.pairwise_append] at hsorted
  exact hsorted.2.2 p hp _ (List.mem_singleton_self _)

/-- No file comes behind the one that is open. -/
theorem Rolled.le_stream (h : σ.Rolled last) (hp : p ∈ σ.opened) : p ≤ σ.stream := by
  obtain ⟨earlier, heq⟩ := h.newest
  rw [heq, List.mem_append, List.mem_singleton] at hp
  rcases hp with hp | rfl
  · exact (h.lt_stream heq hp).le
  · exact le_rfl

/-- A later file is opened. -/
theorem Rolled.pairwise_openFile (h : σ.Rolled last) (hlt : σ.stream < path) :
    (σ.opened ++ [path]).Pairwise (· < ·) := by
  rw [List.pairwise_append]
  refine ⟨h.sorted, List.pairwise_singleton _ _, fun p hp q hq => ?_⟩
  rw [List.mem_singleton.mp hq]
  exact (h.le_stream hp).trans_lt hlt

/-- **A file that a rotation opens comes behind the open one.** -/
theorem Rolled.lt_opened (h : σ.Rolled last) (hday : last ≤ day)
    (hpath : (day.mday ≠ σ.today ∧ path = ⟨day, none⟩) ∨ ((σ.count + 1) % σ.splitLines = 0 ∧
      path = ⟨day, some ((σ.count + 1) / σ.splitLines)⟩)) : σ.stream < path := by
  obtain ⟨hother, rfl⟩ | ⟨hfull, rfl⟩ := hpath
  · -- another day of the month is a later day
    apply path_lt_of_day_lt
    apply h.day.trans_lt
    apply lt_of_le_of_ne hday
    rintro rfl
    exact hother h.today.symm
  · rcases (h.day.trans hday).lt_or_eq with hlt | heq
    · exact path_lt_of_day_lt hlt
    · -- a later part of the same day
      apply path_lt_of_part heq
      intro part hpart
      apply (h.counts part hpart).trans_lt
      rw [Nat.succ_div_of_dvd (Nat.dvd_of_mod_eq_zero hfull)]
      exact Nat.lt_succ_self _

/-- **Every rotation** keeps the files in order. -/
theorem Rolled.rotate (h : σ.Rolled last) (hsplit : 1 ≤ σ.splitLines) (hday : last ≤ day) :
    (σ.rotate day).Rolled day := by
  obtain ⟨hother, heq⟩ | ⟨hsame, hfull, heq⟩ | ⟨hsame, hfull, heq⟩ := rotate_cases hsplit day <;> rw [heq]
  · exact {
      today := rfl
      day := le_rfl
      counts := fun part hpart => by cases hpart
      newest := ⟨σ.opened, rfl⟩
      sorted := h.pairwise_openFile (h.lt_opened hday (.inl ⟨hother, rfl⟩)) }
  · exact {
      today := hsame.symm
      day := le_rfl
      counts := fun part hpart => (Option.some.inj hpart).ge
      newest := ⟨σ.opened, rfl⟩
      sorted := h.pairwise_openFile (h.lt_opened hday (.inr ⟨hfull, rfl⟩)) }
  · exact {
      today := hsame.symm
      day := h.day.trans hday
      counts := fun part hpart => (h.counts part hpart).trans (Nat.div_le_div_right (Nat.le_succ _))
      newest := h.newest
      sorted := h.sorted }

/-- Writing opens nothing. -/
theorem Rolled.write (h : σ.Rolled last) (c : LogCall) : (σ.write c).Rolled last :=
  ⟨h.today, h.day, h.counts, h.newest, h.sorted⟩

/-! ## What the files hold -/

/-- **The files hold `all` in the order in which they were opened**, none more than `split_lines`; the open
one holds at most one more than have been counted since it was opened, and `slack` of it. -/
structure Filed (σ : SyncLogger) (slack : ℕ) (all : List Bytes) : Prop where
  all : σ.opened.flatMap σ.records = all
  full : ∀ p ∈ σ.opened, (σ.records p).length ≤ σ.splitLines
  room : (σ.records σ.stream).length ≤ σ.count % σ.splitLines + slack

/-- A file that has not been opened before loses nothing. -/
theorem Filed.openFile {slack : ℕ} {all : List Bytes} (h : σ.Filed slack all) (hnew : path ∉ σ.opened)
    (count today : ℕ) : ({ σ with count := count, today := today }.openFile path).Filed 0 all := by
  have hother : ∀ p ∈ σ.opened,
      ({ σ with count := count, today := today }.openFile path).records p = σ.records p := by
    intro p hp
    apply records_openFile_of_ne
    rintro rfl
    exact hnew hp
  refine ⟨?_, fun p hp => ?_, ?_⟩
  · show (σ.opened ++ [path]).flatMap _ = all
    rw [List.flatMap_append, List.flatMap_singleton, records_openFile_self, List.append_nil, ← h.all]
    exact List.flatMap_congr hother
  · rcases List.mem_append.mp hp with hp | hp
    · rw [hother p hp]
      exact h.full p hp
    · rw [List.mem_singleton.mp hp, records_openFile_self]
      exact Nat.zero_le _
  · show (({ σ with count := count, today := today }.openFile path).records path).length ≤ _
    rw [records_openFile_self]
    exact Nat.zero_le _

/-- **Every rotation leaves room** for one record in the open file. -/
theorem Filed.rotate {all : List Bytes} (h : σ.Filed 1 all) (hrolled : σ.Rolled last)
    (hsplit : 1 ≤ σ.splitLines) (hday : last ≤ day) : (σ.rotate day).Filed 0 all := by
  have hnew : ∀ {path}, σ.stream < path → path ∉ σ.opened := fun hlt hp =>
    absurd (hrolled.le_stream hp) (not_le_of_gt hlt)
  obtain ⟨hother, heq⟩ | ⟨-, hfull, heq⟩ | ⟨-, hfull, heq⟩ := rotate_cases hsplit day <;> rw [heq]
  · exact h.openFile (hnew (hrolled.lt_opened hday (.inl ⟨hother, rfl⟩))) 0 day.mday
  · exact h.openFile (hnew (hrolled.lt_opened hday (.inr ⟨hfull, rfl⟩))) (σ.count + 1) σ.today
  · refine ⟨h.all, h.full, ?_⟩
    -- the count has not come to a multiple of `split_lines`
    show (σ.records σ.stream).length ≤ (σ.count + 1) % σ.splitLines
    have hquot : (σ.count + 1) / σ.splitLines = σ.count / σ.splitLines :=
      Nat.succ_div_of_not_dvd fun hdvd => hfull (Nat.mod_eq_zero_of_dvd hdvd)
    have hcount := Nat.div_add_mod σ.count σ.splitLines
    have hnext := Nat.div_add_mod (σ.count + 1) σ.splitLines
    rw [hquot] at hnext
    have hroom := h.room
    omega

/-- **The record goes behind all the others**, into a file that has room for it. -/
theorem Filed.write {all : List Bytes} (h : σ.Filed 0 all) (hrolled : σ.Rolled last)
    (hsplit : 1 ≤ σ.splitLines) (c : LogCall) : (σ.write c).Filed 1 (all ++ [c.strLog]) := by
  obtain ⟨earlier, heq⟩ := hrolled.newest
  have hother : ∀ p ∈ earlier, (σ.write c).records p = σ.records p := fun p hp =>
    records_write_of_ne σ c (hrolled.lt_stream heq hp).ne
  have hlast : ((σ.write c).records σ.stream).length ≤ σ.count % σ.splitLines + 1 := by
    rw [records_write_self, List.length_append]
    exact Nat.add_le_add_right h.room 1
  refine ⟨?_, fun p hp => ?_, hlast⟩
  · show σ.opened.flatMap _ = _
    rw [← h.all, heq, List.flatMap_append, List.flatMap_append, List.flatMap_singleton, List.flatMap_singleton,
      records_write_self, List.append_assoc, List.flatMap_congr hother]
  · by_cases hp' : p = σ.stream
    · rw [hp']
      exact hlast.trans (Nat.mod_lt _ hsplit)
    · rw [records_write_of_ne σ c hp']
      exact h.full p hp

/-! ## Runs -/

/-- A closed logger does nothing. -/
theorem writeLogs_closed (hclosed : σ.closeLog = true) (calls : List LogCall) : σ.writeLogs calls = σ := by
  induction calls with
  | nil => rfl
  | cons c calls ih =>
    show (σ.writeLog c).writeLogs calls = σ
    rw [writeLog, hclosed]
    exact ih

/-- **A whole run** of a logger that is not closed. -/
theorem kept_writeLogs {all : List Bytes} (hrolled : σ.Rolled last) (hfiled : σ.Filed 1 all)
    (hworks : σ.Works) (calls : List LogCall)
    (hdates : (last :: calls.map (·.curTime.day)).Pairwise (· ≤ ·)) :
    ∃ last', (σ.writeLogs calls).Rolled last' ∧
      (σ.writeLogs calls).Filed 1 (all ++ calls.map LogCall.strLog) := by
  induction calls generalizing σ last all with
  | nil => exact ⟨last, hrolled, by rwa [List.map_nil, List.append_nil]⟩
  | cons c calls ih =>
    rw [List.map_cons, List.pairwise_cons] at hdates
    have hday : last ≤ c.curTime.day := hdates.1 _ (List.mem_cons_self ..)
    have hrolled' := hrolled.rotate hworks.split hday
    have hfiled' := (hfiled.rotate hrolled hworks.split hday).write hrolled'
      ((splitLines_rotate hworks.split c.curTime.day).symm ▸ hworks.split) c
    show ∃ last', ((σ.writeLog c).writeLogs calls).Rolled last' ∧ ((σ.writeLog c).writeLogs calls).Filed 1 _
    obtain ⟨hworks', -⟩ := hworks.writeLog c
    rw [hworks.writeLog_eq] at hworks' ⊢
    rw [List.map_cons, List.append_cons]
    exact ih (hrolled'.write c) hfiled' hworks' hdates.2

/-- **Right after `init`** one empty file is open. -/
theorem kept_init (filePath : Bytes) (closeLog : Bool) (splitLines : ℕ)
    (old : AList fun _ : LogPath => List Bytes) (curTime : Tm) :
    (init filePath closeLog splitLines old curTime).Rolled curTime.day ∧
      (init filePath closeLog splitLines old curTime).Filed 1 [] := by
  have hempty : (init filePath closeLog splitLines old curTime).records ⟨curTime.day, none⟩ = [] :=
    records_openFile_self _ _
  refine ⟨⟨rfl, le_rfl, fun part hpart => (by cases hpart), ⟨[], rfl⟩, List.pairwise_singleton _ _⟩, ?_⟩
  refine ⟨?_, fun p hp => ?_, ?_⟩
  · show [(⟨curTime.day, none⟩ : LogPath)].flatMap _ = []
    rw [List.flatMap_singleton, hempty]
  · rw [List.mem_singleton.mp hp, hempty]
    exact Nat.zero_le _
  · show ((init filePath closeLog splitLines old curTime).records ⟨curTime.day, none⟩).length ≤ _
    rw [hempty]
    exact Nat.zero_le _

/-- Different paths are different texts. -/
theorem Rolled.nodup_text (h : σ.Rolled last) (dirName logName : Bytes) :
    (σ.opened.map (LogPath.text dirName logName)).Nodup :=
  List.Nodup.map (LogPath.text_injective dirName logName) (h.sorted.imp fun hlt => hlt.ne)

/-! ## Dates and files -/

/-- How many of the last `days` have the day of the month `mday`, one right behind the other. -/
def sameDay (days : List Day) (mday : ℕ) : ℕ := (days.reverse.takeWhile (·.mday = mday)).length

theorem sameDay_concat_self (days : List Day) (day : Day) :
    sameDay (days ++ [day]) day.mday = sameDay days day.mday + 1 := by
  simp [sameDay]

theorem sameDay_concat_of_ne (days : List Day) {mday : ℕ} (hne : day.mday ≠ mday) :
    sameDay (days ++ [day]) mday = 0 := by
  simp [sameDay, hne]

/-- **A change to the same day of another month finds the file full**: the dates with that day of the month
are a multiple of `split_lines`. -/
def FullAtChange (splitLines : ℕ) (days : List Day) : Prop :=
  ∀ before d d' after, days = before ++ d :: d' :: after → d ≠ d' → d.mday = d'.mday →
    splitLines ∣ sameDay (before ++ [d]) d'.mday

/-- A single date. -/
theorem fullAtChange_singleton (splitLines : ℕ) (day : Day) : FullAtChange splitLines [day] := by
  intro before d d' after heq
  have hlen := congrArg List.length heq
  simp only [List.length_append, List.length_cons, List.length_nil] at hlen
  omega

/-- **One more date.** -/
theorem fullAtChange_concat (splitLines : ℕ) (earlier : List Day) (last day : Day) :
    FullAtChange splitLines (earlier ++ [last] ++ [day]) ↔ FullAtChange splitLines (earlier ++ [last]) ∧
      (last ≠ day → last.mday = day.mday → splitLines ∣ sameDay (earlier ++ [last]) day.mday) := by
  constructor
  · intro h
    refine ⟨fun before d d' after heq => ?_, ?_⟩
    · exact h before d d' (after ++ [day]) (by rw [heq, List.append_assoc]; rfl)
    · exact h earlier last day [] (by rw [List.append_assoc]; rfl)
  · rintro ⟨h, hlast⟩ before d d' after heq
    rcases List.eq_nil_or_concat' after with rfl | ⟨after, e, rfl⟩
    · -- the change is the last one
      have hsplit : earlier ++ [last] ++ [day] = before ++ [d] ++ [d'] := by
        rw [heq, List.append_assoc]
        rfl
      obtain ⟨hinit, hd'⟩ := List.append_inj' hsplit rfl
      obtain ⟨rfl, hd⟩ := List.append_inj' hinit rfl
      obtain rfl := List.singleton_inj.mp hd
      obtain rfl := List.singleton_inj.mp hd'
      exact hlast
    · have hsplit : earlier ++ [last] ++ [day] = before ++ d :: d' :: after ++ [e] := by
        rw [heq, List.append_assoc]
        rfl
      exact h before d d' after (List.append_inj' hsplit rfl).1

/-- **Each record is in a file of its own date.** -/
def Dated (σ : SyncLogger) : Prop := ∀ c path, (c, path) ∈ σ.written → path.day = c.curTime.day

/-- One more record. -/
theorem dated_write (σ : SyncLogger) (c : LogCall) :
    (σ.write c).Dated ↔ σ.Dated ∧ σ.stream.day = c.curTime.day := by
  constructor
  · intro h
    exact ⟨fun c' path hmem => h c' path (List.mem_append_left _ hmem),
      h c σ.stream (List.mem_append_right _ (List.mem_singleton_self _))⟩
  · rintro ⟨h, hlast⟩ c' path hmem
    rcases List.mem_append.mp hmem with hmem | hmem
    · exact h c' path hmem
    · obtain ⟨rfl, rfl⟩ := Prod.mk.inj (List.mem_singleton.mp hmem)
      exact hlast

/-- Rotation writes nothing. -/
theorem dated_rotate (hsplit : 1 ≤ σ.splitLines) (day : Day) : (σ.rotate day).Dated ↔ σ.Dated := by
  obtain ⟨-, h⟩ | ⟨-, -, h⟩ | ⟨-, -, h⟩ := rotate_cases hsplit day <;> rw [h] <;> rfl

/-- **After records of the dates `earlier` and `last`**: `m_count` and `m_today` go with the dates, and
while every record is in a file of its own date, the open file has the last one. -/
structure Follows (σ : SyncLogger) (earlier : List Day) (last : Day) : Prop where
  today : σ.today = last.mday
  count : σ.count + 1 = sameDay (earlier ++ [last]) last.mday
  dated : σ.Dated ↔ FullAtChange σ.splitLines (earlier ++ [last])
  stream : σ.Dated → σ.stream.day = last

/-- **The open file gets the new date** if it has the last one, and the dates are the same, or their days of
the month differ, or the file is full. -/
theorem Follows.stream_rotate {earlier : List Day} (h : σ.Follows earlier last) (hsplit : 1 ≤ σ.splitLines)
    (hstream : σ.stream.day = last) : (σ.rotate day).stream.day = day ↔
      (last ≠ day → last.mday = day.mday → σ.splitLines ∣ sameDay (earlier ++ [last]) day.mday) := by
  obtain ⟨hother, heq⟩ | ⟨hsame, hfull, heq⟩ | ⟨hsame, hfull, heq⟩ := rotate_cases hsplit day <;> rw [heq]
  · rw [h.today] at hother
    exact iff_of_true rfl fun _ hmday => absurd hmday.symm hother
  · refine iff_of_true rfl fun _ hmday => ?_
    rw [← hmday, ← h.count]
    exact Nat.dvd_of_mod_eq_zero hfull
  · -- the file goes on
    rw [h.today] at hsame
    show σ.stream.day = day ↔ _
    rw [hstream]
    constructor
    · exact fun heq hne => absurd heq hne
    · intro hdvd
      by_contra hne
      have hmultiple := hdvd hne hsame.symm
      rw [hsame, ← h.count] at hmultiple
      exact hfull (Nat.mod_eq_zero_of_dvd hmultiple)

/-- The count goes on with the day of the month. -/
theorem Follows.count_rotate {earlier : List Day} (h : σ.Follows earlier last) (hsplit : 1 ≤ σ.splitLines)
    (day : Day) :
    (σ.rotate day).count + 1 = sameDay (earlier ++ [last] ++ [day]) day.mday := by
  rw [sameDay_concat_self]
  obtain ⟨hother, heq⟩ | ⟨hsame, -, heq⟩ | ⟨hsame, -, heq⟩ := rotate_cases hsplit day <;> rw [heq]
  · rw [h.today] at hother
    rw [sameDay_concat_of_ne earlier hother.symm]
    rfl
  · rw [hsame, h.today, ← h.count]
    rfl
  · rw [hsame, h.today, ← h.count]

/-- After a rotation, `m_today` is the day of the month. -/
theorem today_rotate (hsplit : 1 ≤ σ.splitLines) (day : Day) : (σ.rotate day).today = day.mday := by
  obtain ⟨-, h⟩ | ⟨hsame, -, h⟩ | ⟨hsame, -, h⟩ := rotate_cases hsplit day <;> rw [h]
  · rfl
  · exact hsame.symm
  · exact hsame.symm

/-- **One call.** -/
theorem Follows.writeLog {earlier : List Day} (h : σ.Follows earlier last) (hworks : σ.Works) (c : LogCall) :
    (σ.writeLog c).Follows (earlier ++ [last]) c.curTime.day := by
  have hsplit := hworks.split
  rw [hworks.writeLog_eq]
  exact {
    today := today_rotate hsplit _
    count := h.count_rotate hsplit _
    dated := by
      show _ ↔ FullAtChange (σ.rotate c.curTime.day).splitLines _
      rw [dated_write, dated_rotate hsplit, splitLines_rotate hsplit, fullAtChange_concat, ← h.dated]
      exact and_congr_right fun hdated => h.stream_rotate hsplit (h.stream hdated)
    stream := fun hdated => ((dated_write _ c).mp hdated).2 }

/-- **A whole run.** -/
theorem Follows.writeLogs {earlier : List Day} (h : σ.Follows earlier last) (hworks : σ.Works)
    (calls : List LogCall) : (σ.writeLogs calls).Dated ↔
      FullAtChange σ.splitLines (earlier ++ last :: calls.map (·.curTime.day)) := by
  induction calls generalizing σ earlier last with
  | nil => exact h.dated
  | cons c calls ih =>
    show ((σ.writeLog c).writeLogs calls).Dated ↔ _
    obtain ⟨hworks', hlines⟩ := hworks.writeLog c
    rw [ih (h.writeLog hworks c) hworks', hlines, List.append_assoc]
    rfl

/-- Right after `init`. -/
theorem follows_init (filePath : Bytes) (closeLog : Bool) (splitLines : ℕ)
    (old : AList fun _ : LogPath => List Bytes) (curTime : Tm) :
    (init filePath closeLog splitLines old curTime).Follows [] curTime.day where
  today := rfl
  count := (sameDay_concat_self [] curTime.day).symm
  dated := iff_of_true (fun _ _ hmem => by cases hmem) (fullAtChange_singleton _ _)
  stream := fun _ => rfl

/-- **When every record is in a file of its own date.** -/
theorem dated_iff (filePath : Bytes) (closeLog : Bool) (splitLines : ℕ)
    (old : AList fun _ : LogPath => List Bytes) (curTime : Tm) (hsplit : 1 ≤ splitLines)
    (calls : List LogCall) : ((init filePath closeLog splitLines old curTime).writeLogs calls).Dated ↔
      closeLog = true ∨ FullAtChange splitLines (curTime.day :: calls.map (·.curTime.day)) := by
  cases closeLog with
  | true =>
    rw [writeLogs_closed rfl]
    exact iff_of_true (fun _ _ hmem => by cases hmem) (.inl rfl)
  | false =>
    rw [(follows_init filePath false splitLines old curTime).writeLogs ⟨hsplit, rfl, rfl⟩ calls]
    exact (or_iff_right Bool.false_ne_true).symm

end SyncLogger

end DedupServer
