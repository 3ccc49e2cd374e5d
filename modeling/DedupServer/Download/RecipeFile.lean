import DedupServer.Download.SendFile
import DedupServer.Upload.StoreLoop
import Mathlib.Data.List.Induction

/-! # A recipe file as bytes

The way of a recipe through memory and the disk: `receive_file` copies each `ChunkAddr_t` to
`m_recipeBuffer` and hands the buffer over when it is full (`RecipeBuffers.append`), `write_recipe` writes
the buffers one after another and then patches the count (`writeRecipe`), and `send_file` reads the file
back in blocks (`SendRun`). A `ChunkAddr_t` is taken with the characters behind the NUL of its container id,
which are whatever was there before (`ChunkAddrObject`).

`UploadState` has the same buffers with their entries instead of bytes (`recipeBuffers_refines`). -/

namespace DedupServer

open Foundations

/-! ## `ChunkAddr_t` in memory -/

/-- **A `ChunkAddr_t` object**: 40 characters with a NUL among them, and anything behind it. -/
structure ChunkAddrObject where
  containerID : Bytes
  length_containerID : containerID.length = 40
  terminated : 0 ∈ containerID
  offset : UInt64
  size : UInt64

namespace ChunkAddrObject

/-- The bytes of the object. -/
def bytes (o : ChunkAddrObject) : Bytes :=
  o.containerID ++ (leBytes 8 o.offset.toNat ++ leBytes 8 o.size.toNat)

/-- The characters before the NUL. -/
def chars (o : ChunkAddrObject) : Bytes := o.containerID.takeWhile (· ≠ 0)

/-- The characters, the NUL, and the rest. -/
theorem exists_containerID_eq (o : ChunkAddrObject) : ∃ rest, o.containerID = o.chars ++ 0 :: rest := by
  have hdrop : o.containerID.dropWhile (· ≠ 0) ≠ [] := by
    intro hnil
    rw [List.dropWhile_eq_nil_iff] at hnil
    simpa using hnil 0 o.terminated
  obtain ⟨b, rest, hrest⟩ := List.exists_cons_of_ne_nil hdrop
  have hb : b = 0 := by
    have hhead := List.head_dropWhile_not (· ≠ (0 : UInt8)) hdrop
    simp only [hrest, List.head_cons] at hhead
    simpa using hhead
  subst hb
  refine ⟨rest, ?_⟩
  conv_lhs => rw [← List.takeWhile_append_dropWhile (p := (· ≠ 0)) (l := o.containerID), hrest]
  rfl

/-- **What the object says**: its container id as a string, the offset and the size. -/
def value (o : ChunkAddrObject) : ChunkAddr where
  containerID :=
    { chars := o.chars
      noNul := fun h => by simpa using List.mem_takeWhile_imp h
      fits := by
        obtain ⟨rest, hrest⟩ := o.exists_containerID_eq
        have hlen := congrArg List.length hrest
        rw [o.length_containerID, List.length_append, List.length_cons] at hlen
        omega }
  offset := o.offset
  size := o.size

@[simp] theorem length_bytes (o : ChunkAddrObject) : o.bytes.length = sizeofChunkAddr := by
  rw [bytes, List.length_append, List.length_append, o.length_containerID, length_leBytes,
    length_leBytes]
  rfl

/-- **The bytes of an object read back**, whatever stands behind the NUL. -/
theorem decodeChunkAddr_bytes (o : ChunkAddrObject) : decodeChunkAddr o.bytes = o.value := by
  obtain ⟨rest, hrest⟩ := o.exists_containerID_eq
  have hid : decodeContainerID o.bytes = o.value.containerID := by
    rw [bytes, hrest, List.append_assoc, List.cons_append]
    exact decodeContainerID_chars o.value.containerID _
  have hoff : (o.bytes.drop 40).take 8 = leBytes 8 o.offset.toNat := by
    rw [bytes, List.drop_left' o.length_containerID, List.take_left' (length_leBytes _ _)]
  have hsize : (o.bytes.drop 48).take 8 = leBytes 8 o.size.toNat := by
    rw [bytes, show 48 = 40 + 8 from rfl, ← List.drop_drop, List.drop_left' o.length_containerID,
      List.drop_left' (length_leBytes _ _), List.take_of_length_le (by rw [length_leBytes])]
  rw [decodeChunkAddr, hid, hoff, hsize, ofLeBytes_leBytes, ofLeBytes_leBytes,
    Nat.mod_eq_of_lt (show o.offset.toNat < 256 ^ 8 from o.offset.toNat_lt),
    Nat.mod_eq_of_lt (show o.size.toNat < 256 ^ 8 from o.size.toNat_lt),
    UInt64.ofNat_toNat, UInt64.ofNat_toNat]
  rfl

/-- The object of an address, with zeros behind the NUL. -/
def ofAddr (a : ChunkAddr) : ChunkAddrObject where
  containerID := a.containerID.chars ++ List.replicate (40 - a.containerID.chars.length) 0
  length_containerID := by
    have := a.containerID.fits
    rw [List.length_append, List.length_replicate]
    omega
  terminated := by
    have := a.containerID.fits
    rw [List.mem_append, List.mem_replicate]
    exact .inr ⟨by omega, rfl⟩
  offset := a.offset
  size := a.size

/-- Its bytes are those that the rest of the development writes. -/
theorem bytes_ofAddr (a : ChunkAddr) : (ofAddr a).bytes = encodeChunkAddr a := rfl

end ChunkAddrObject

/-! ## Writing -/

/-- `RecipeEntryContainer_t` with the bytes that have been written to its block. -/
structure RecipeBytes where
  num : ℕ
  data : Bytes
  deriving DecidableEq

/-- `m_recipeBuffer`, and the buffers that have been pushed to `m_recipeQueue`. -/
structure RecipeBuffers where
  pushed : List RecipeBytes
  buffer : RecipeBytes
  deriving DecidableEq

namespace RecipeBuffers

/-- After `new_recipe`. -/
def start : RecipeBuffers := ⟨[], ⟨0, []⟩⟩

/-- **The end of the loop of `receive_file`**: a full buffer is handed over and replaced, and the entry is
copied behind those that are in the buffer. -/
def append (bs : RecipeBuffers) (o : ChunkAddrObject) : RecipeBuffers :=
  let bs := if BATCHSIZE ≤ bs.buffer.num then ⟨bs.pushed ++ [bs.buffer], ⟨0, []⟩⟩ else bs
  { bs with buffer :=
      ⟨bs.buffer.num + 1, overwrite bs.buffer.data (bs.buffer.num * sizeofChunkAddr) o.bytes⟩ }

/-- Everything that is pushed when these entries are appended and the file then ends. -/
def handedOver (os : List ChunkAddrObject) : List RecipeBytes :=
  (os.foldl append start).pushed ++ [(os.foldl append start).buffer]

end RecipeBuffers

/-- The open recipe file, the position of its stream, and `totalChunkNum`. -/
structure RecipeStream where
  file : Bytes
  pos : ℕ
  totalChunkNum : ℕ

/-- A buffer is written. -/
def RecipeStream.write (st : RecipeStream) (tmpRecipeEntryContainer : RecipeBytes) : RecipeStream :=
  let bytes := tmpRecipeEntryContainer.data.take (tmpRecipeEntryContainer.num * sizeofChunkAddr)
  ⟨writeAt st.file st.pos bytes, st.pos + bytes.length,
    u32 (st.totalChunkNum + tmpRecipeEntryContainer.num)⟩

/-- **`write_recipe`**: the content of the file after the buffers that it pops. -/
def writeRecipe (popped : List RecipeBytes) : Bytes :=
  let opened : RecipeStream := ⟨leBytes 4 0, 4, 0⟩
  let st := popped.foldl RecipeStream.write opened
  writeAt st.file 0 (leBytes 4 st.totalChunkNum)

/-- **The recipe file** of some entries. -/
def recipeFileOf (os : List ChunkAddrObject) : Bytes := writeRecipe (RecipeBuffers.handedOver os)

/-! ## Reading -/

/-- **The loop of `send_file`, to its end**: the entries of each block that it reads, and the message that it
sends for them. -/
inductive SendRun (sv : Server) (name : Bytes) :
    Bytes → DataMsgHeader → Option ℕ → List (List ChunkAddr × DataMsg) → Prop
  | finished {outData : Bytes} {outHeader : DataMsgHeader} {recipe : Option ℕ}
      (h : Conn.sendBlock sv name outData outHeader recipe = none) :
      SendRun sv name outData outHeader recipe []
  | block {outData outData' : Bytes} {outHeader outHeader' : DataMsgHeader}
      {recipe next : Option ℕ} {msg : DataMsg} {rest : List (List ChunkAddr × DataMsg)}
      (h : Conn.sendBlock sv name outData outHeader recipe =
        some (outData', outHeader', next, msg))
      (hrest : SendRun sv name outData' outHeader' next rest) :
      SendRun sv name outData outHeader recipe
        ((Conn.blockEntries (Conn.readRecipe sv name recipe), msg) :: rest)

/-! ## What is written -/

variable {bs : RecipeBuffers} {os : List ChunkAddrObject}

/-- **The buffers hold the entries**: whole entries, no more than fit, and full buffers before the last. -/
structure RecipeBuffers.Hold (bs : RecipeBuffers) (os : List ChunkAddrObject) : Prop where
  bytes : bs.pushed.flatMap (·.data) ++ bs.buffer.data = os.flatMap (·.bytes)
  count : (bs.pushed.map (·.num)).sum + bs.buffer.num = os.length
  full : ∀ b ∈ bs.pushed, b.num = BATCHSIZE ∧ b.data.length = b.num * sizeofChunkAddr
  room : bs.buffer.num ≤ BATCHSIZE ∧ bs.buffer.data.length = bs.buffer.num * sizeofChunkAddr

/-- An entry for which there is room. -/
theorem RecipeBuffers.append_of_lt (h : bs.buffer.num < BATCHSIZE) (o : ChunkAddrObject) :
    bs.append o = ⟨bs.pushed, ⟨bs.buffer.num + 1,
      overwrite bs.buffer.data (bs.buffer.num * sizeofChunkAddr) o.bytes⟩⟩ := by
  rw [append, if_neg (by omega)]

/-- An entry for which a new buffer is needed. -/
theorem RecipeBuffers.append_of_le (h : BATCHSIZE ≤ bs.buffer.num) (o : ChunkAddrObject) :
    bs.append o = ⟨bs.pushed ++ [bs.buffer], ⟨1, o.bytes⟩⟩ := by
  rw [append, if_pos h, overwrite]
  simp

/-- An entry is appended. -/
theorem RecipeBuffers.Hold.append (h : bs.Hold os) (o : ChunkAddrObject) :
    (bs.append o).Hold (os ++ [o]) := by
  have hbytes := h.bytes
  have hcount := h.count
  obtain ⟨hroom, hlen⟩ := h.room
  rcases Nat.lt_or_ge bs.buffer.num BATCHSIZE with hlt | hge
  · rw [append_of_lt hlt, ← hlen, overwrite_length]
    refine ⟨?_, ?_, h.full, hlt, ?_⟩
    · rw [List.flatMap_append, List.flatMap_singleton, ← hbytes, List.append_assoc]
    · rw [List.length_append, List.length_singleton, ← hcount, Nat.add_assoc]
    · rw [List.length_append, hlen, o.length_bytes, Nat.succ_mul]
  · -- the buffer is handed over
    rw [append_of_le hge]
    refine ⟨?_, ?_, ?_, show 1 ≤ BATCHSIZE by decide, ?_⟩
    · rw [List.flatMap_append, List.flatMap_singleton, List.flatMap_append, List.flatMap_singleton,
        hbytes]
    · rw [List.map_append, List.sum_append, List.map_singleton, List.sum_singleton,
        List.length_append, List.length_singleton, hcount]
    · intro b hb
      rcases List.mem_append.mp hb with hb | hb
      · exact h.full b hb
      · obtain rfl := List.mem_singleton.mp hb
        exact ⟨le_antisymm hroom hge, hlen⟩
    · rw [o.length_bytes, Nat.one_mul]

/-- Any number of entries. -/
theorem RecipeBuffers.hold_foldl (os : List ChunkAddrObject) :
    (os.foldl RecipeBuffers.append RecipeBuffers.start).Hold os := by
  induction os using List.reverseRecOn with
  | nil => exact ⟨rfl, rfl, by simp [RecipeBuffers.start], by decide, rfl⟩
  | append_singleton os o ih =>
    rw [List.foldl_append, List.foldl_cons, List.foldl_nil]
    exact ih.append o

/-- The count is that of all buffers, modulo `2 ^ 32`, and the bytes follow one another. -/
theorem foldl_write (bufs : List RecipeBytes) (st : RecipeStream)
    (hpos : st.pos = st.file.length) (hcount : st.totalChunkNum < 2 ^ 32)
    (hdata : ∀ b ∈ bufs, b.data.length = b.num * sizeofChunkAddr) :
    (bufs.foldl RecipeStream.write st).file = st.file ++ bufs.flatMap (·.data) ∧
      (bufs.foldl RecipeStream.write st).totalChunkNum
        = u32 (st.totalChunkNum + (bufs.map (·.num)).sum) := by
  -- every buffer is written at the end of the file, which is where the stream is
  induction bufs generalizing st with
  | nil => exact ⟨by simp, by simp [u32_of_lt hcount]⟩
  | cons b bufs ih =>
    have htake : b.data.take (b.num * sizeofChunkAddr) = b.data :=
      List.take_of_length_le (hdata b List.mem_cons_self).le
    have hwrite : st.write b = ⟨st.file ++ b.data, st.pos + b.data.length,
        u32 (st.totalChunkNum + b.num)⟩ := by
      rw [RecipeStream.write]
      simp only [htake]
      rw [hpos, writeAt_length]
    have hlen : (st.write b).pos = (st.write b).file.length := by
      rw [hwrite, List.length_append, hpos]
    have hlt : (st.write b).totalChunkNum < 2 ^ 32 := by
      rw [hwrite]
      exact Nat.mod_lt _ (by decide)
    -- the rest goes on from the file with this buffer appended
    obtain ⟨hfile, htotal⟩ := ih (st.write b) hlen hlt fun c hc => hdata c (List.mem_cons_of_mem b hc)
    rw [List.foldl_cons, hfile, htotal, hwrite]
    refine ⟨?_, ?_⟩
    · rw [List.flatMap_cons, List.append_assoc]
    · rw [List.map_cons, List.sum_cons, u32, u32, u32, Nat.mod_add_mod, Nat.add_assoc]

/-- **The recipe file**: the number of entries modulo `2 ^ 32`, then the entries. -/
theorem recipeFileOf_eq (os : List ChunkAddrObject) :
    recipeFileOf os = leBytes 4 (os.length % 2 ^ 32) ++ os.flatMap (·.bytes) := by
  have hhold := RecipeBuffers.hold_foldl os
  have hdata : ∀ b ∈ RecipeBuffers.handedOver os, b.data.length = b.num * sizeofChunkAddr := by
    intro b hb
    rcases List.mem_append.mp hb with hb | hb
    · exact (hhold.full b hb).2
    · obtain rfl := List.mem_singleton.mp hb
      exact hhold.room.2
  have hbytes : (RecipeBuffers.handedOver os).flatMap (·.data) = os.flatMap (·.bytes) := by
    rw [RecipeBuffers.handedOver, List.flatMap_append, List.flatMap_singleton]
    exact hhold.bytes
  have hnum : ((RecipeBuffers.handedOver os).map (·.num)).sum = os.length := by
    rw [RecipeBuffers.handedOver, List.map_append, List.sum_append, List.map_singleton,
      List.sum_singleton]
    exact hhold.count
  obtain ⟨hfile, htotal⟩ := foldl_write (RecipeBuffers.handedOver os) ⟨leBytes 4 0, 4, 0⟩
    (length_leBytes 4 0).symm (by decide) hdata
  rw [recipeFileOf, writeRecipe, hfile, htotal, hbytes, hnum, Nat.zero_add, writeAt_zero]
  · rfl
  · rw [length_leBytes, length_leBytes]

/-! ## The buffers of `UploadState` -/

/-- The bytes of a recipe buffer, with zeros behind the NULs. -/
def RecipeEntryContainer.bytes (r : RecipeEntryContainer) : RecipeBytes :=
  ⟨r.num, encodeEntries r.data⟩

/-- The recipe buffers of an upload as bytes. -/
def UploadState.recipeBuffers (up : UploadState) : RecipeBuffers :=
  ⟨up.recipeQueue.queue.map (·.bytes), up.recipeBuffer.bytes⟩

/-- **`writeRecipeEntry` appends the bytes of its entry.** -/
theorem recipeBuffers_refines (up : UploadState) (a : ChunkAddr) :
    (up.writeRecipeEntry a).recipeBuffers = up.recipeBuffers.append (.ofAddr a) := by
  have hone : (ChunkAddrObject.ofAddr a).bytes = encodeEntries [a] := by
    rw [ChunkAddrObject.bytes_ofAddr, encodeEntries, List.flatMap_singleton]
  have hlen : up.recipeBuffer.num * sizeofChunkAddr = (encodeEntries up.recipeBuffer.data).length := by
    rw [length_encodeEntries, Nat.mul_comm]
    rfl
  rcases Nat.lt_or_ge up.recipeBuffer.num BATCHSIZE with hlt | hge
  · have hroom : up.recipeBuffers.buffer.num < BATCHSIZE := hlt
    rw [RecipeBuffers.append_of_lt hroom, UploadState.writeRecipeEntry, if_neg (by omega)]
    simp only [UploadState.recipeBuffers, RecipeEntryContainer.bytes]
    rw [hlen, overwrite_length, hone, encodeEntries_append]
    simp [RecipeEntryContainer.num]
  · have hfull : BATCHSIZE ≤ up.recipeBuffers.buffer.num := hge
    rw [RecipeBuffers.append_of_le hfull, UploadState.writeRecipeEntry, if_pos hge, hone]
    simp [UploadState.recipeBuffers, RecipeEntryContainer.bytes, RecipeEntryContainer.num,
      UploadState.insertRecipeQueue, UploadState.newRecipe, BlockQueue.push]

end DedupServer
