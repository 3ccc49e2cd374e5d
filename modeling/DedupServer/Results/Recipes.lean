import DedupServer.Download.RecipeFile
import DedupServer.Store.Extents

/-! # Recipe files round-trip

Whatever entries `receive_file` appends, `write_recipe` writes their number and then the entries, and the
loop of `send_file` reads back exactly these entries, block by block, and ends
(`recipes_round_trip`). -/

namespace DedupServer

open Foundations

variable {sv : Server} {name outData : Bytes} {outHeader : DataMsgHeader} {file : Bytes} {pos : ℕ}
  {rs : List Bytes}

namespace Conn

/-- The next block of a recipe is made of its next records. -/
theorem readRecipe_of_records (hfile : sv.recipes.lookup name = some file)
    (hpos : file.drop pos = rs.flatten) (hlen : ∀ r ∈ rs, r.length = sizeofChunkAddr) :
    readRecipe sv name (some pos) = (rs.take BATCHSIZE).flatten := by
  rw [readRecipe, hfile, Option.getD_some, hpos, recipeBlockSize, take_flatten_of_length_eq hlen]

/-- **A pass that reads records** sends a message for them, and goes on behind them if the block was full. -/
theorem sendBlock_of_records (hfile : sv.recipes.lookup name = some file)
    (hpos : file.drop pos = rs.flatten) (hlen : ∀ r ∈ rs, r.length = sizeofChunkAddr)
    (hne : rs ≠ []) (outData : Bytes) (outHeader : DataMsgHeader) :
    ∃ header, sendBlock sv name outData outHeader (some pos) =
        some ((((rs.take BATCHSIZE).map decodeChunkAddr).foldl (readExtent sv) (outData, 0)).1, header,
          if BATCHSIZE ≤ rs.length then some (pos + recipeBlockSize) else none,
          ⟨header, (((rs.take BATCHSIZE).map decodeChunkAddr).foldl (readExtent sv) (outData, 0)).1.take
            (((rs.take BATCHSIZE).map decodeChunkAddr).foldl (readExtent sv) (outData, 0)).2⟩) ∧
      header.size = sizeofDataMsg +
        (((rs.take BATCHSIZE).map decodeChunkAddr).foldl (readExtent sv) (outData, 0)).2 ∧
      header.chunkNum = (rs.take BATCHSIZE).length := by
  have hlen' : ∀ r ∈ rs.take BATCHSIZE, r.length = sizeofChunkAddr :=
    fun r hr => hlen r (List.mem_of_mem_take hr)
  have hblock := readRecipe_of_records hfile hpos hlen
  have hsize := length_flatten_of_length_eq hlen'
  have hpos' := List.length_pos_iff.mpr hne
  rw [List.length_take] at hsize
  have hread : (rs.take BATCHSIZE).flatten ≠ [] := by
    rw [← List.length_pos_iff, hsize]
    simp only [BATCHSIZE, sizeofChunkAddr]
    omega
  -- a block is full exactly if a whole batch of records is still to be read
  have hfull : (rs.take BATCHSIZE).flatten.length = recipeBlockSize ↔ BATCHSIZE ≤ rs.length := by
    rw [hsize, recipeBlockSize]
    simp only [BATCHSIZE, sizeofChunkAddr]
    omega
  have hentries := blockEntries_flatten hlen'
  simp only [sendBlock, hblock, hentries, if_neg hread, hfull, Option.map_some]
  exact ⟨_, rfl, rfl, by simp⟩

/-- After the last record there is nothing to send. -/
theorem sendBlock_of_empty (hfile : sv.recipes.lookup name = some file) (hpos : file.drop pos = []) :
    sendBlock sv name outData outHeader (some pos) = none := by
  simp [sendBlock, readRecipe, hfile, hpos]

/-- A stream that has reached its end yields nothing. -/
theorem sendBlock_at_end : sendBlock sv name outData outHeader none = none := by
  simp [sendBlock, readRecipe]

end Conn

/-- A message within the reply buffer: what its header says is what it carries, and no more than there is
room for. -/
def DataMsg.FitsReply (msg : DataMsg) : Prop :=
  msg.header.size = sizeofDataMsg + msg.data.length ∧ msg.data.length ≤ CHUNKSIZE * BATCHSIZE

/-- The part of the reply buffer that has been filled, under a header that says how much it is. -/
theorem DataMsg.fitsReply_of_filled {filled : Bytes × ℕ} {header : DataMsgHeader}
    (hlength : filled.1.length = CHUNKSIZE * BATCHSIZE) (hoffset : filled.2 ≤ CHUNKSIZE * BATCHSIZE)
    (hsize : header.size = sizeofDataMsg + filled.2) :
    (⟨header, filled.1.take filled.2⟩ : DataMsg).FitsReply := by
  have htake : (filled.1.take filled.2).length = filled.2 := by
    rw [List.length_take, hlength, min_eq_left hoffset]
  constructor
  · rw [hsize, htake]
  · rw [htake]
    exact hoffset

/-- The payload is what the reads of the extents, one after another, have put into the reply buffer. -/
def DataMsg.ReadsOut (sv : Server) (entries : List ChunkAddr) (msg : DataMsg) : Prop :=
  ∃ outData, msg.data = (entries.foldl (Conn.readExtent sv) (outData, 0)).1.take
    (entries.foldl (Conn.readExtent sv) (outData, 0)).2

/-- **A block of the loop over a recipe of records**: its entries are the next records, and what is sent for
them is what their extents are; when no extent is larger than a chunk, it fits the reply buffer. -/
theorem exists_sendBlock (hfile : sv.recipes.lookup name = some file) (hpos : file.drop pos = rs.flatten)
    (hlen : ∀ r ∈ rs, r.length = sizeofChunkAddr) (hne : rs ≠ []) (outData : Bytes)
    (outHeader : DataMsgHeader) :
    ∃ outData' header msg, Conn.sendBlock sv name outData outHeader (some pos) =
        some (outData', header,
          if BATCHSIZE ≤ rs.length then some (pos + Conn.recipeBlockSize) else none, msg) ∧
      (rs.take BATCHSIZE).map decodeChunkAddr = Conn.blockEntries (Conn.readRecipe sv name (some pos)) ∧
      (Conn.blockEntries (Conn.readRecipe sv name (some pos)) ≠ [] ∧
        (Conn.blockEntries (Conn.readRecipe sv name (some pos))).length ≤ BATCHSIZE ∧
        msg.header.chunkNum = (Conn.blockEntries (Conn.readRecipe sv name (some pos))).length ∧
        msg.ReadsOut sv (Conn.blockEntries (Conn.readRecipe sv name (some pos)))) ∧
      (outData.length = CHUNKSIZE * BATCHSIZE → (∀ r ∈ rs, (decodeChunkAddr r).Bounded) →
        outData'.length = CHUNKSIZE * BATCHSIZE ∧ msg.FitsReply) := by
  have hread : Conn.blockEntries (Conn.readRecipe sv name (some pos))
      = (rs.take BATCHSIZE).map decodeChunkAddr := by
    rw [Conn.readRecipe_of_records hfile hpos hlen,
      Conn.blockEntries_flatten fun r hr => hlen r (List.mem_of_mem_take hr)]
  obtain ⟨header, hsend, hsize, hnum⟩ := Conn.sendBlock_of_records hfile hpos hlen hne outData outHeader
  rw [← hread] at hsend hsize
  have hcount : (Conn.blockEntries (Conn.readRecipe sv name (some pos))).length
      = min BATCHSIZE rs.length := by
    rw [hread, List.length_map, List.length_take]
  have hle : (Conn.blockEntries (Conn.readRecipe sv name (some pos))).length ≤ BATCHSIZE :=
    hcount.trans_le (min_le_left _ _)
  refine ⟨_, _, _, hsend, hread.symm, ⟨?_, hle, ?_, outData, rfl⟩, fun hroom hbounded => ?_⟩
  · rw [← List.length_pos_iff, hcount]
    exact lt_min (by decide) (List.length_pos_iff.mpr hne)
  · rw [hcount, hnum, List.length_take]
  · have hentries : ∀ a ∈ Conn.blockEntries (Conn.readRecipe sv name (some pos)), a.Bounded := by
      intro a ha
      rw [hread] at ha
      obtain ⟨r, hr, rfl⟩ := List.mem_map.mp ha
      exact hbounded r (List.mem_of_mem_take hr)
    obtain ⟨hlength, hoffset⟩ := Conn.foldl_readExtent_fits sv hentries hle hroom
    exact ⟨hlength, DataMsg.fitsReply_of_filled hlength hoffset hsize⟩

/-- **The loop over a recipe of records** ends. It yields the records in order, at most `BATCHSIZE` at a time,
and sends for each block what their extents are; when no extent is larger than a chunk, its messages fit the
reply buffer. -/
theorem exists_sendRun (hfile : sv.recipes.lookup name = some file) (rs : List Bytes) (pos : ℕ)
    (hpos : file.drop pos = rs.flatten) (hlen : ∀ r ∈ rs, r.length = sizeofChunkAddr)
    (outData : Bytes) (outHeader : DataMsgHeader) :
    ∃ l, SendRun sv name outData outHeader (some pos) l ∧
      l.flatMap (·.1) = rs.map decodeChunkAddr ∧
      (∀ b ∈ l, b.1 ≠ [] ∧ b.1.length ≤ BATCHSIZE ∧ b.2.header.chunkNum = b.1.length ∧
        b.2.ReadsOut sv b.1) ∧
      (outData.length = CHUNKSIZE * BATCHSIZE → (∀ r ∈ rs, (decodeChunkAddr r).Bounded) →
        ∀ b ∈ l, b.2.FitsReply) := by
  induction hn : rs.length using Nat.strong_induction_on generalizing rs pos outData outHeader with
  | _ n ih =>
    by_cases hne : rs = []
    · subst hne
      exact ⟨[], .finished (Conn.sendBlock_of_empty hfile hpos), rfl, by simp, by simp⟩
    · obtain ⟨outData', header, msg, hsend, hread, hblock, hfits⟩ :=
        exists_sendBlock hfile hpos hlen hne outData outHeader
      have hsplit : rs.map decodeChunkAddr = (rs.take BATCHSIZE).map decodeChunkAddr
          ++ (rs.drop BATCHSIZE).map decodeChunkAddr := by
        rw [← List.map_append, List.take_append_drop]
      by_cases hmore : BATCHSIZE ≤ rs.length
      · -- the block was full: the loop goes on behind it
        rw [if_pos hmore] at hsend
        have hpos' : file.drop (pos + Conn.recipeBlockSize) = (rs.drop BATCHSIZE).flatten := by
          rw [← List.drop_drop, hpos, Conn.recipeBlockSize, drop_flatten_of_length_eq hlen]
        have hless : (rs.drop BATCHSIZE).length < n := by
          rw [List.length_drop, ← hn]
          have : 0 < BATCHSIZE := by decide
          omega
        obtain ⟨l, hrun, hentries, hblocks, hmsgs⟩ := ih _ hless (rs.drop BATCHSIZE) _ hpos'
          (fun r hr => hlen r (List.mem_of_mem_drop hr)) outData' header rfl
        refine ⟨_, .block hsend hrun, ?_, ?_, ?_⟩
        · rw [List.flatMap_cons, hentries, ← hread, hsplit]
        · rintro b (_ | ⟨_, hb⟩)
          · exact hblock
          · exact hblocks b hb
        · rintro hroom hbounded b (_ | ⟨_, hb⟩)
          · exact (hfits hroom hbounded).2
          · exact hmsgs (hfits hroom hbounded).1
              (fun r hr => hbounded r (List.mem_of_mem_drop hr)) b hb
      · -- the block was the last one
        rw [if_neg hmore] at hsend
        have hdrop : rs.drop BATCHSIZE = [] := List.drop_eq_nil_of_le (by omega)
        refine ⟨_, .block hsend (.finished Conn.sendBlock_at_end), ?_, ?_, ?_⟩
        · rw [List.flatMap_cons, ← hread, hsplit, hdrop]
          rfl
        · rintro b (_ | ⟨_, hb⟩)
          · exact hblock
          · cases hb
        · rintro hroom hbounded b (_ | ⟨_, hb⟩)
          · exact (hfits hroom hbounded).2
          · cases hb

/-- **Recipe files round-trip.** For every list of chunk addresses, appended one by one: the first four
bytes of the file that `write_recipe` writes are their number modulo `2 ^ 32`, and on a server that has this
file the loop of `send_file` ends after yielding exactly these addresses, in order, at most `BATCHSIZE` a
block, and builds for each block the message with what is read at exactly these addresses. When no extent is
larger than a chunk, every message fits the reply buffer. -/
theorem recipes_round_trip (os : List ChunkAddrObject) :
    ofLeBytes ((recipeFileOf os).take 4) = os.length % 2 ^ 32 ∧
      ∀ (sv : Server) (name outData : Bytes) (outHeader : DataMsgHeader),
        sv.recipes.lookup name = some (recipeFileOf os) →
          ∃ l, SendRun sv name outData outHeader (Conn.openRecipe sv name) l ∧
            l.flatMap (·.1) = os.map (·.value) ∧
            (∀ b ∈ l, b.1 ≠ [] ∧ b.1.length ≤ BATCHSIZE ∧ b.2.header.chunkNum = b.1.length ∧
              b.2.ReadsOut sv b.1) ∧
            (outData.length = CHUNKSIZE * BATCHSIZE → (∀ o ∈ os, o.size.toNat ≤ CHUNKSIZE) →
              ∀ b ∈ l, b.2.FitsReply) := by
  have hcount : (leBytes 4 (os.length % 2 ^ 32)).length = 4 := length_leBytes _ _
  rw [recipeFileOf_eq]
  constructor
  · rw [List.take_left' hcount, ofLeBytes_leBytes]
    exact Nat.mod_mod _ _
  · intro sv name outData outHeader hfile
    have hopen : Conn.openRecipe sv name = some 4 := by
      rw [Conn.openRecipe, hfile]
      simp
    have hlen : ∀ r ∈ os.map (·.bytes), r.length = sizeofChunkAddr := by
      intro r hr
      obtain ⟨o, -, rfl⟩ := List.mem_map.mp hr
      exact o.length_bytes
    -- what follows the count is the records one after the other
    have hdrop : (leBytes 4 (os.length % 2 ^ 32) ++ os.flatMap (·.bytes)).drop 4
        = (os.map (·.bytes)).flatten := by
      rw [List.drop_left' hcount, List.flatMap_def]
    obtain ⟨l, hrun, hentries, hblocks, hmsgs⟩ :=
      exists_sendRun hfile (os.map (·.bytes)) 4 hdrop hlen outData outHeader
    rw [hopen]
    refine ⟨l, hrun, ?_, hblocks, fun hroom hsizes => hmsgs hroom ?_⟩
    · rw [hentries, List.map_map]
      exact List.map_congr_left fun o _ => o.decodeChunkAddr_bytes
    · intro r hr
      obtain ⟨o, ho, rfl⟩ := List.mem_map.mp hr
      rw [o.decodeChunkAddr_bytes]
      exact hsizes o ho

namespace Sample

/-- An extent of one byte of the container `A`, with something behind the NUL. -/
def extent (offset : UInt64) : ChunkAddrObject where
  containerID := 65 :: 0 :: List.replicate 38 7
  length_containerID := rfl
  terminated := by decide
  offset := offset
  size := 1

/-- Three extents, the first of which is there twice. -/
def extents : List ChunkAddrObject := [extent 0, extent 1, extent 0]

/-- A server with a recipe of them. -/
def serving : Server :=
  { Server.init with recipes := (∅ : Directory Bytes).insert [66] (recipeFileOf extents) }

end Sample

/-- A recipe of three entries. -/
theorem recipes_round_trip_sample :
    ofLeBytes ((recipeFileOf Sample.extents).take 4) = 3 ∧
      ∃ l, SendRun Sample.serving [66] (List.replicate (CHUNKSIZE * BATCHSIZE) 0)
          ⟨.DOWNLOADBODY, 0, 0, 0, 0⟩ (Conn.openRecipe Sample.serving [66]) l ∧
        l.flatMap (·.1) = [⟨⟨[65], by decide, by decide⟩, 0, 1⟩, ⟨⟨[65], by decide, by decide⟩, 1, 1⟩,
          ⟨⟨[65], by decide, by decide⟩, 0, 1⟩] ∧
        ∀ b ∈ l, b.2.ReadsOut Sample.serving b.1 ∧ b.2.FitsReply := by
  obtain ⟨hcount, hreads⟩ := recipes_round_trip Sample.extents
  obtain ⟨l, hrun, hentries, hblocks, hfits⟩ := hreads Sample.serving [66]
    (List.replicate (CHUNKSIZE * BATCHSIZE) 0) ⟨.DOWNLOADBODY, 0, 0, 0, 0⟩ (AList.lookup_insert _)
  have hsizes : ∀ o ∈ Sample.extents, o.size.toNat ≤ CHUNKSIZE := by decide
  exact ⟨hcount, l, hrun, hentries, fun b hb => ⟨(hblocks b hb).2.2.2, hfits List.length_replicate hsizes b hb⟩⟩

end DedupServer
