import DedupServer.Threads.LogFiles

/-! # Synchronous logging

While dates do not decrease, rotation loses nothing (`rotation_lossless`). A record is in the file of its
own date as long as a change to the same day of another month finds the file full (`record_dated_iff`):
otherwise the file of the earlier month goes on (`record_under_another_month`). -/

namespace DedupServer

namespace SyncLogger

variable (filePath : Bytes) (closeLog : Bool) (splitLines : ℕ) (old : AList fun _ : LogPath => List Bytes)
  (curTime : Tm) (calls : List LogCall)

/-- **Nothing is lost**: no path is opened twice, the files in the order in which they were opened hold the
records in the order of the calls, and no file holds more than `splitLines` of them. -/
structure Lossless (σ : SyncLogger) (records : List Bytes) : Prop where
  once : (σ.opened.map (LogPath.text σ.dirName σ.logName)).Nodup
  contents : σ.opened.flatMap σ.records = records
  bounded : ∀ path ∈ σ.opened, (σ.records path).length ≤ σ.splitLines

/-- **Sequential rotation is lossless and bounded**, for any dates that do not decrease. A closed logger has
no records. -/
theorem rotation_lossless (hsplit : 1 ≤ splitLines)
    (hdates : (curTime.day :: calls.map (·.curTime.day)).Pairwise (· ≤ ·)) :
    ((init filePath closeLog splitLines old curTime).writeLogs calls).Lossless
      (if closeLog then [] else calls.map LogCall.strLog) := by
  obtain ⟨hrolled, hfiled⟩ := kept_init filePath closeLog splitLines old curTime
  cases closeLog with
  | true =>
    rw [writeLogs_closed rfl]
    exact ⟨hrolled.nodup_text _ _, hfiled.all, hfiled.full⟩
  | false =>
    obtain ⟨last, hrolled', hfiled'⟩ := kept_writeLogs hrolled hfiled ⟨hsplit, rfl, rfl⟩ calls hdates
    exact ⟨hrolled'.nodup_text _ _, hfiled'.all, hfiled'.full⟩

namespace Sample

/-- Noon. -/
def noon (day : Day) : Tm := ⟨day, 12, 0, 0⟩

/-- A message on `day`. -/
def call (day : Day) : LogCall := ⟨.INFO, noon day, [97]⟩

/-- A new part, a new day, and a new month with the same day. -/
def days : List Day := [⟨2024, 1, 5⟩, ⟨2024, 1, 5⟩, ⟨2024, 1, 6⟩, ⟨2024, 2, 6⟩, ⟨2025, 2, 6⟩]

end Sample

/-- Five records in four files. -/
theorem rotation_lossless_sample :
    ((init [108] false 2 ∅ (Sample.noon ⟨2024, 1, 5⟩)).writeLogs (Sample.days.map Sample.call)).opened =
        [⟨⟨2024, 1, 5⟩, none⟩, ⟨⟨2024, 1, 5⟩, some 1⟩, ⟨⟨2024, 1, 6⟩, none⟩, ⟨⟨2025, 2, 6⟩, some 1⟩] ∧
      ((init [108] false 2 ∅ (Sample.noon ⟨2024, 1, 5⟩)).writeLogs (Sample.days.map Sample.call)).Lossless
        (Sample.days.map fun day => (Sample.call day).strLog) :=
  ⟨by decide, rotation_lossless [108] false 2 ∅ (Sample.noon ⟨2024, 1, 5⟩) (Sample.days.map Sample.call)
    (by decide) (by decide)⟩

/-- **Each record is in the file of its own date** exactly if the logger is closed or a change to the same
day of another month or year always finds the file full. -/
theorem record_dated_iff (hsplit : 1 ≤ splitLines) :
    (∀ c path, (c, path) ∈ ((init filePath closeLog splitLines old curTime).writeLogs calls).written →
        path.day = c.curTime.day) ↔
      closeLog = true ∨ FullAtChange splitLines (curTime.day :: calls.map (·.curTime.day)) :=
  dated_iff filePath closeLog splitLines old curTime hsplit calls

/-- A record of February 5 that finds the file of January 5 full opens one of its own; a record of March 5
behind it is in the file of February. -/
theorem record_dated_iff_sample :
    (∀ c path, (c, path) ∈ ((init [108] false 2 ∅ (Sample.noon ⟨2024, 1, 5⟩)).writeLogs
        ([⟨2024, 1, 5⟩, ⟨2024, 2, 5⟩].map Sample.call)).written → path.day = c.curTime.day) ∧
      ¬ ∀ c path, (c, path) ∈ ((init [108] false 2 ∅ (Sample.noon ⟨2024, 1, 5⟩)).writeLogs
        ([⟨2024, 1, 5⟩, ⟨2024, 2, 5⟩, ⟨2024, 3, 5⟩].map Sample.call)).written → path.day = c.curTime.day := by
  have hiff := record_dated_iff [108] false 2 ∅ (Sample.noon ⟨2024, 1, 5⟩)
  have hsame : FullAtChange 2 [⟨2024, 1, 5⟩, ⟨2024, 1, 5⟩] :=
    (fullAtChange_concat 2 [] _ _).mpr ⟨fullAtChange_singleton 2 _, fun hne => absurd rfl hne⟩
  have hfull : FullAtChange 2 [⟨2024, 1, 5⟩, ⟨2024, 1, 5⟩, ⟨2024, 2, 5⟩] :=
    (fullAtChange_concat 2 [⟨2024, 1, 5⟩] _ _).mpr ⟨hsame, fun _ _ => by decide⟩
  refine ⟨(hiff _ (by decide)).mpr (.inr hfull), fun hdated => ?_⟩
  rcases (hiff _ (by decide)).mp hdated with hclosed | hfull
  · exact Bool.false_ne_true hclosed
  · -- the file of February holds one record
    have hthree := hfull [⟨2024, 1, 5⟩, ⟨2024, 1, 5⟩] ⟨2024, 2, 5⟩ ⟨2024, 3, 5⟩ [] rfl (by decide) rfl
    exact absurd hthree (by decide)

/-- **A record of February in a file of January**: the day of the month is the same, and the file is not
full. -/
theorem record_under_another_month :
    ((init [108] false 10000 ∅ (Sample.noon ⟨2024, 1, 5⟩)).writeLogs [Sample.call ⟨2024, 2, 5⟩]).written =
        [(Sample.call ⟨2024, 2, 5⟩, ⟨⟨2024, 1, 5⟩, none⟩)] ∧
      ¬ ∀ c path, (c, path) ∈ ((init [108] false 10000 ∅ (Sample.noon ⟨2024, 1, 5⟩)).writeLogs
        [Sample.call ⟨2024, 2, 5⟩]).written → path.day = c.curTime.day := by
  have hwritten : ((init [108] false 10000 ∅ (Sample.noon ⟨2024, 1, 5⟩)).writeLogs
      [Sample.call ⟨2024, 2, 5⟩]).written = [(Sample.call ⟨2024, 2, 5⟩, ⟨⟨2024, 1, 5⟩, none⟩)] := by
    decide
  refine ⟨hwritten, fun h => ?_⟩
  have hday := h (Sample.call ⟨2024, 2, 5⟩) ⟨⟨2024, 1, 5⟩, none⟩
    (hwritten ▸ List.mem_singleton_self _)
  exact absurd hday (by decide)

end SyncLogger

end DedupServer
