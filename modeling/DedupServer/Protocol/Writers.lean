import DedupServer.Upload.ReceiveBody
import DedupServer.Model.System

/-! # The writer threads beside the serving thread

An upload hands its containers and recipe entries to two threads through queues. This module
says where they can be (`Conn.live`, `Conn.entries`), what the state of the threads is before an
upload (`Conn.Dormant`), during it (`Conn.Writing`) and after it (`Conn.Joined`), and what one
step of a writer does (`Conn.dataWriterStep_cases`, `Conn.recipeWriterStep_cases`): nothing the
serving thread could notice (`Conn.Alike`). -/

namespace DedupServer

open Foundations

/-- The container the writer has taken from its queue and not saved yet. -/
def DataWriter.held : DataWriter → List Container
  | .saving tmpContainer => [tmpContainer]
  | _ => []

/-- The entries the writer has taken from its queue and not written yet. -/
def RecipeWriter.held : RecipeWriter → List ChunkAddr
  | .writing _ _ tmpRecipeEntryContainer => tmpRecipeEntryContainer.data
  | _ => []

namespace Conn

/-- **The recipe entries of the upload, wherever they are**: in the file, with the writer, in the
queue, or in the buffer. `FILEEND` hands over the buffer. -/
def entries (c : Conn) : List ChunkAddr :=
  c.written ++ c.recipeWriter.held ++ c.upload.recipeQueue.queue.flatMap (·.data) ++
    if c.pc = .join then [] else c.upload.recipeBuffer.data

/-- **The containers in memory**: with the writer, in the queue, and the one being filled. `FILEEND`
hands over the last one. -/
def live (c : Conn) : List Container :=
  c.dataWriter.held ++ c.upload.containerQueue.queue ++
    if c.pc = .join then [] else [c.upload.containerBuffer]

/-- **No upload has begun.** -/
structure Dormant (c : Conn) : Prop where
  dataWriter : c.dataWriter = .idle
  recipeWriter : c.recipeWriter = .idle
  containerQueue : c.upload.containerQueue = .empty
  recipeQueue : c.upload.recipeQueue = .empty
  recipeBuffer : c.upload.recipeBuffer = ⟨[]⟩
  blank : c.upload.containerBuffer.occupied = 0
  written : c.written = []
  answered : c.answered = []
  hashList : c.hashList = []
  dups : c.upload.duplicatedChunkAddr = []

/-- **An upload is on**; `fileEnd` tells whether its `FILEEND` has been seen. A writer finishes
only after that, and only with an empty queue. -/
structure Writing (c : Conn) (fileEnd : Bool) : Prop where
  containerDone : c.upload.containerQueue.done = fileEnd
  recipeDone : c.upload.recipeQueue.done = fileEnd
  data : match c.dataWriter with
    | .waiting | .saving _ => True
    | .finished => fileEnd = true ∧ c.upload.containerQueue.queue = []
    | .idle | .joined => False
  recipe : match c.recipeWriter with
    | .opening => c.written = []
    | .waiting pos totalChunkNum | .writing pos totalChunkNum _ =>
      pos = 4 + sizeofChunkAddr * c.written.length ∧ totalChunkNum = u32 c.written.length
    | .finished => fileEnd = true ∧ c.upload.recipeQueue.queue = []
    | .idle | .joined => False

/-- **The upload is over**: both writers are joined and everything is reset. -/
structure Joined (c : Conn) : Prop where
  dataWriter : c.dataWriter = .joined
  recipeWriter : c.recipeWriter = .joined
  containerQueue : c.upload.containerQueue = .empty
  recipeQueue : c.upload.recipeQueue = .empty
  recipeBuffer : c.upload.recipeBuffer = ⟨[]⟩
  blank : c.upload.containerBuffer.occupied = 0

/-- **The serving thread sees no difference** between the two: they differ only in how far the
writers have got. -/
structure Alike (c c' : Conn) : Prop where
  pc : c'.pc = c.pc
  client_id : c'.client_id = c.client_id
  outHeader : c'.outHeader = c.outHeader
  outData : c'.outData = c.outData
  hashList : c'.hashList = c.hashList
  recipeNameHash : c'.recipeNameHash = c.recipeNameHash
  uploadRep : c'.uploadRep = c.uploadRep
  answered : c'.answered = c.answered
  entries : c'.entries = c.entries
  dups : c'.upload.duplicatedChunkAddr = c.upload.duplicatedChunkAddr
  containerBuffer : c'.upload.containerBuffer = c.upload.containerBuffer
  writing : ∀ fileEnd, c.Writing fileEnd → c'.Writing fileEnd

variable {c c' : Conn} {sv sv' : Server} {ended : Bool}

/-- What the serving thread reads and the writers do not touch. -/
structure SameAsked (c c' : Conn) : Prop where
  pc : c'.pc = c.pc
  hashList : c'.hashList = c.hashList
  outData : c'.outData = c.outData
  dups : c'.upload.duplicatedChunkAddr = c.upload.duplicatedChunkAddr

theorem SameAsked.queries (h : c.SameAsked c') : c'.queries = c.queries := by
  rw [Conn.queries, Conn.queries, h.outData, h.hashList]

theorem SameAsked.remembers {left : ℕ} (h : c.SameAsked c') (ha : c.Remembers left) :
    c'.Remembers left where
  num_le := h.hashList ▸ ha.num_le
  room := h.outData ▸ ha.room
  hash_length := h.hashList ▸ ha.hash_length
  answer := h.queries ▸ ha.answer
  dups := by rw [h.dups, h.queries, ha.dups]

theorem SameAsked.asked (h : c.SameAsked c') (ha : c.Asked) : c'.Asked :=
  remembers_zero_iff.mp (h.remembers (remembers_zero_iff.mpr ha))

theorem Alike.sameAsked (h : c.Alike c') : c.SameAsked c' := ⟨h.pc, h.hashList, h.outData, h.dups⟩

/-- Alike connections have the same queries. -/
theorem Alike.queries (h : c.Alike c') : c'.queries = c.queries := h.sameAsked.queries

theorem Alike.asked (h : c.Alike c') (ha : c.Asked) : c'.Asked := h.sameAsked.asked ha

/-- A message fits by the queries alone. -/
theorem Fits.congr {msg : DataMsg} {uniq next : List Bytes} (h : c'.queries = c.queries)
    (hf : c.Fits msg uniq next) : c'.Fits msg uniq next :=
  { hf with count := by rw [h, hf.count] }

/-- Before an upload nothing has been asked. -/
theorem Dormant.queries (h : c.Dormant) : c.queries = [] := by
  simp [Conn.queries, h.hashList]

theorem Dormant.asked (h : c.Dormant) (hroom : c.outData.length = CHUNKSIZE * BATCHSIZE) :
    c.Asked where
  num_le := by simp [h.hashList]
  room := hroom
  hash_length := by simp [h.hashList]
  answer := by simp [h.queries]
  dups := by simp [h.dups, h.queries]

/-! ## `write_container` -/

/-- **What one step of the container writer does.** -/
theorem dataWriterStep_cases (h : c.dataWriterStep sv = some (sv', c')) :
    (∃ tmpContainer rest, c.dataWriter = .waiting ∧
      c.upload.containerQueue.queue = tmpContainer :: rest ∧ sv' = sv ∧
      c' = { c with
        upload := { c.upload with
          containerQueue := { c.upload.containerQueue with queue := rest } }
        dataWriter := .saving tmpContainer }) ∨
    (c.dataWriter = .waiting ∧ c.upload.containerQueue.queue = [] ∧
      c.upload.containerQueue.done = true ∧ sv' = sv ∧ c' = { c with dataWriter := .finished }) ∨
    (∃ tmpContainer, c.dataWriter = .saving tmpContainer ∧
      sv' = saveContainer sv tmpContainer ∧ c' = { c with dataWriter := .waiting }) := by
  simp only [dataWriterStep] at h
  split at h
  · rename_i hw
    split at h
    · rename_i tmpContainer rest hq
      obtain ⟨rfl, rfl⟩ := Prod.mk.inj (Option.some.inj h)
      exact .inl ⟨tmpContainer, rest, hw, hq, rfl, rfl⟩
    · rename_i hq
      split at h
      · rename_i hdone
        obtain ⟨rfl, rfl⟩ := Prod.mk.inj (Option.some.inj h)
        exact .inr (.inl ⟨hw, hq, hdone, rfl, rfl⟩)
      · cases h
  · rename_i tmpContainer hw
    obtain ⟨rfl, rfl⟩ := Prod.mk.inj (Option.some.inj h)
    exact .inr (.inr ⟨tmpContainer, hw, rfl, rfl⟩)
  · cases h

/-- The serving thread does not notice the container writer. -/
theorem alike_dataWriterStep (h : c.dataWriterStep sv = some (sv', c')) : c.Alike c' := by
  obtain ⟨C, rest, hw, hq, -, rfl⟩ | ⟨hw, hq, hdone, -, rfl⟩ | ⟨C, hw, -, rfl⟩ :=
    dataWriterStep_cases h
  · exact ⟨rfl, rfl, rfl, rfl, rfl, rfl, rfl, rfl, rfl, rfl, rfl,
      fun _ hwr => ⟨hwr.containerDone, hwr.recipeDone, trivial, hwr.recipe⟩⟩
  · exact ⟨rfl, rfl, rfl, rfl, rfl, rfl, rfl, rfl, rfl, rfl, rfl,
      fun _ hwr => ⟨hwr.containerDone, hwr.recipeDone, ⟨hwr.containerDone ▸ hdone, hq⟩,
        hwr.recipe⟩⟩
  · exact ⟨rfl, rfl, rfl, rfl, rfl, rfl, rfl, rfl, rfl, rfl, rfl,
      fun _ hwr => ⟨hwr.containerDone, hwr.recipeDone, trivial, hwr.recipe⟩⟩

/-! ## `write_recipe` -/

/-- **What one step of the recipe writer does.** -/
theorem recipeWriterStep_cases (h : c.recipeWriterStep sv = some (sv', c')) :
    (c.recipeWriter = .opening ∧
      sv' = saveRecipe sv c.recipeNameHash (encodeTotalChunkNum 0) ∧
      c' = { c with recipeWriter := .waiting 4 0, written := [] }) ∨
    (∃ pos totalChunkNum r rest, c.recipeWriter = .waiting pos totalChunkNum ∧
      c.upload.recipeQueue.queue = r :: rest ∧ sv' = sv ∧
      c' = { c with
        upload := { c.upload with recipeQueue := { c.upload.recipeQueue with queue := rest } }
        recipeWriter := .writing pos totalChunkNum r }) ∨
    (∃ pos totalChunkNum, c.recipeWriter = .waiting pos totalChunkNum ∧
      c.upload.recipeQueue.queue = [] ∧ c.upload.recipeQueue.done = true ∧
      sv' = saveRecipe sv c.recipeNameHash (writeAt ((sv.recipes.lookup c.recipeNameHash).getD [])
        0 (encodeTotalChunkNum totalChunkNum)) ∧
      c' = { c with recipeWriter := .finished }) ∨
    (∃ pos totalChunkNum r, c.recipeWriter = .writing pos totalChunkNum r ∧
      sv' = saveRecipe sv c.recipeNameHash (writeAt ((sv.recipes.lookup c.recipeNameHash).getD [])
        pos (encodeEntries r.data)) ∧
      c' = { c with
        recipeWriter := .waiting (pos + (encodeEntries r.data).length)
          (u32 (totalChunkNum + r.num))
        written := c.written ++ r.data }) := by
  simp only [recipeWriterStep] at h
  split at h
  · rename_i hw
    obtain ⟨rfl, rfl⟩ := Prod.mk.inj (Option.some.inj h)
    exact .inl ⟨hw, rfl, rfl⟩
  · rename_i pos total hw
    split at h
    · rename_i r rest hq
      obtain ⟨rfl, rfl⟩ := Prod.mk.inj (Option.some.inj h)
      exact .inr (.inl ⟨pos, total, r, rest, hw, hq, rfl, rfl⟩)
    · rename_i hq
      split at h
      · rename_i hdone
        obtain ⟨rfl, rfl⟩ := Prod.mk.inj (Option.some.inj h)
        exact .inr (.inr (.inl ⟨pos, total, hw, hq, hdone, rfl, rfl⟩))
      · cases h
  · rename_i pos total r hw
    obtain ⟨rfl, rfl⟩ := Prod.mk.inj (Option.some.inj h)
    exact .inr (.inr (.inr ⟨pos, total, r, hw, rfl, rfl⟩))
  · cases h

/-- The serving thread does not notice the recipe writer. -/
theorem alike_recipeWriterStep {fileEnd : Bool} (hwr : c.Writing fileEnd)
    (h : c.recipeWriterStep sv = some (sv', c')) : c.Alike c' := by
  obtain ⟨hw, -, rfl⟩ | ⟨pos, total, r, rest, hw, hq, -, rfl⟩ |
    ⟨pos, total, hw, hq, hdone, -, rfl⟩ | ⟨pos, total, r, hw, -, rfl⟩ := recipeWriterStep_cases h
  all_goals have hrec := hwr.recipe; rw [hw] at hrec
  · -- the file is opened: nothing has been written before
    exact ⟨rfl, rfl, rfl, rfl, rfl, rfl, rfl, rfl, by simp [entries, hw, RecipeWriter.held, hrec],
      rfl, rfl, fun _ hwr => ⟨hwr.containerDone, hwr.recipeDone, hwr.data, by simp [u32]⟩⟩
  · exact ⟨rfl, rfl, rfl, rfl, rfl, rfl, rfl, rfl, by simp [entries, hw, hq, RecipeWriter.held],
      rfl, rfl, fun _ hwr => ⟨hwr.containerDone, hwr.recipeDone, hwr.data, hrec⟩⟩
  · exact ⟨rfl, rfl, rfl, rfl, rfl, rfl, rfl, rfl, by simp [entries, hw, RecipeWriter.held],
      rfl, rfl, fun _ hwr => ⟨hwr.containerDone, hwr.recipeDone, hwr.data,
        ⟨hwr.recipeDone ▸ hdone, hq⟩⟩⟩
  · refine ⟨rfl, rfl, rfl, rfl, rfl, rfl, rfl, rfl, by simp [entries, hw, RecipeWriter.held],
      rfl, rfl, fun _ hwr => ⟨hwr.containerDone, hwr.recipeDone, hwr.data, ?_⟩⟩
    obtain ⟨rfl, rfl⟩ := hrec
    dsimp only
    rw [length_encodeEntries, List.length_append, RecipeEntryContainer.num]
    refine ⟨by ring, ?_⟩
    simp only [u32]
    omega

/-- Before an upload and after it there are no writers. -/
theorem dataWriterStep_eq_none (h : c.dataWriter = .idle ∨ c.dataWriter = .joined) :
    c.dataWriterStep sv = none := by
  rcases h with h | h <;> simp [dataWriterStep, h]

theorem recipeWriterStep_eq_none (h : c.recipeWriter = .idle ∨ c.recipeWriter = .joined) :
    c.recipeWriterStep sv = none := by
  rcases h with h | h <;> simp [recipeWriterStep, h]

/-! ## The writers at work -/

/-- **The writers are at work**: one that has finished has found its queue empty and done. -/
structure Busy (c : Conn) (ended : Bool) : Prop where
  containerDone : c.upload.containerQueue.done = ended
  recipeDone : c.upload.recipeQueue.done = ended
  dataOn : c.dataWriter ≠ .idle ∧ c.dataWriter ≠ .joined
  recipeOn : c.recipeWriter ≠ .idle ∧ c.recipeWriter ≠ .joined
  data : c.dataWriter = .finished → ended = true ∧ c.upload.containerQueue.queue = []
  recipe : c.recipeWriter = .finished → ended = true ∧ c.upload.recipeQueue.queue = []

/-- A step of the container writer. -/
theorem Busy.dataWriter (h : c.Busy ended) (hstep : c.dataWriterStep sv = some (sv', c')) :
    c'.Busy ended ∧ c.SameAsked c' := by
  obtain ⟨C, rest, hw, hq, -, rfl⟩ | ⟨hw, hq, hdone, -, rfl⟩ | ⟨C, hw, -, rfl⟩ :=
    dataWriterStep_cases hstep
  · exact ⟨⟨h.containerDone, h.recipeDone, by simp, h.recipeOn, by simp, h.recipe⟩, rfl, rfl, rfl, rfl⟩
  · exact ⟨⟨h.containerDone, h.recipeDone, by simp, h.recipeOn,
      fun _ => ⟨h.containerDone ▸ hdone, hq⟩, h.recipe⟩, rfl, rfl, rfl, rfl⟩
  · exact ⟨⟨h.containerDone, h.recipeDone, by simp, h.recipeOn, by simp, h.recipe⟩, rfl, rfl, rfl, rfl⟩

/-- A step of the recipe writer. -/
theorem Busy.recipeWriter (h : c.Busy ended)
    (hstep : c.recipeWriterStep sv = some (sv', c')) : c'.Busy ended ∧ c.SameAsked c' := by
  obtain ⟨hw, -, rfl⟩ | ⟨pos, total, r, rest, hw, hq, -, rfl⟩ |
    ⟨pos, total, hw, hq, hdone, -, rfl⟩ | ⟨pos, total, r, hw, -, rfl⟩ :=
    recipeWriterStep_cases hstep
  · exact ⟨⟨h.containerDone, h.recipeDone, h.dataOn, by simp, h.data, by simp⟩, rfl, rfl, rfl, rfl⟩
  · exact ⟨⟨h.containerDone, h.recipeDone, h.dataOn, by simp, h.data, by simp⟩, rfl, rfl, rfl, rfl⟩
  · exact ⟨⟨h.containerDone, h.recipeDone, h.dataOn, by simp, h.data,
      fun _ => ⟨h.recipeDone ▸ hdone, hq⟩⟩, rfl, rfl, rfl, rfl⟩
  · exact ⟨⟨h.containerDone, h.recipeDone, h.dataOn, by simp, h.data, by simp⟩, rfl, rfl, rfl, rfl⟩

/-- An upload that is on has its writers at work. -/
theorem Writing.busy (h : c.Writing ended) : c.Busy ended where
  containerDone := h.containerDone
  recipeDone := h.recipeDone
  dataOn := by
    have hdata := h.data
    cases hw : c.dataWriter <;> simp [hw] at hdata ⊢
  recipeOn := by
    have hrecipe := h.recipe
    cases hw : c.recipeWriter <;> simp [hw] at hrecipe ⊢
  data := by
    intro hw
    have hdata := h.data
    rwa [hw] at hdata
  recipe := by
    intro hw
    have hrecipe := h.recipe
    rwa [hw] at hrecipe

end Conn

end DedupServer
