import DedupServer.Model.Client

/-! # How a file is cut into chunks

`read_data` reads the file in batches and cuts each batch in a loop with 32-bit offsets. Neither
the batches nor the width of the offsets can be seen in the result: the chunks are the pieces of
the file (`fileChunks_eq_pieces`), and what a client selects from a batch by the server's reply is
a selection from that list (`packChunks_eq_picks`). -/

namespace DedupServer

open Foundations

/-- A read buffer as `read_data` fills it: some chunks, at most `BATCHSIZE`, only the last one
short, and their hashes. -/
structure ReadBuffer.WF (env : Env) (b : ReadBuffer) : Prop where
  pos : 0 < b.chunkNum
  le : b.chunkNum ≤ BATCHSIZE
  ragged : Ragged CHUNKSIZE b.chunks
  hashes : b.hashBuffer = (b.chunks.map env.generateHash).flatten

@[simp] theorem ReadBuffer.length_chunks (b : ReadBuffer) : b.chunks.length = b.chunkNum := by
  simp [chunks]

/-- **The chunks of a batch are its pieces**: no offset of a batch reaches `2 ^ 32`. -/
theorem chunks_fillReadBuffer (env : Env) {data : Bytes}
    (h : data.length ≤ CHUNKSIZE * BATCHSIZE) :
    (fillReadBuffer env data).chunks = pieces CHUNKSIZE data := by
  simp only [ReadBuffer.chunks, pieces, fillReadBuffer]
  apply List.map_congr_left
  intro i hi
  have hi' : i * CHUNKSIZE < data.length := by
    have := List.mem_range.mp hi
    simp only [pieceCount, CHUNKSIZE] at this ⊢
    omega
  have hbound : CHUNKSIZE * BATCHSIZE < 2 ^ 32 := by decide
  have hstart : u32 (i * CHUNKSIZE) = i * CHUNKSIZE := u32_of_lt (by omega)
  have hstop : u32 (min ((i + 1) * CHUNKSIZE) data.length)
      = min ((i + 1) * CHUNKSIZE) data.length := u32_of_lt (by omega)
  have hmul : (i + 1) * CHUNKSIZE = i * CHUNKSIZE + CHUNKSIZE := by ring
  rw [ReadBuffer.chunk, piece, hstart, hstop, sub32_of_le (by omega) (by omega),
    List.take_eq_take_iff]
  dsimp only
  rw [List.length_drop]
  omega

/-- A read buffer filled from some bytes is well formed. -/
theorem wf_fillReadBuffer (env : Env) {data : Bytes} (hne : data ≠ [])
    (h : data.length ≤ CHUNKSIZE * BATCHSIZE) : (fillReadBuffer env data).WF env where
  pos := by
    have := List.length_pos_iff.mpr hne
    simp only [fillReadBuffer, pieceCount, CHUNKSIZE]
    omega
  le := by
    simp only [fillReadBuffer, pieceCount, CHUNKSIZE, BATCHSIZE] at h ⊢
    omega
  ragged := by
    rw [chunks_fillReadBuffer env h]
    exact ragged_pieces (by decide) data
  hashes := by
    rw [← List.flatMap_def]
    rfl

/-- Every buffer `read_data` pushes is well formed. -/
theorem wf_of_mem_readData (env : Env) (file : Bytes) : ∀ b ∈ readData env file, b.WF env := by
  by_cases h : file = []
  · simp [h]
  · have hpos := List.length_pos_iff.mpr h
    rw [readData_of_ne_nil env h]
    intro b hb
    rcases List.mem_cons.mp hb with rfl | hb
    · apply wf_fillReadBuffer
      · rw [Ne, List.take_eq_nil_iff]
        simp [h, CHUNKSIZE, BATCHSIZE]
      · rw [List.length_take]
        omega
    · exact wf_of_mem_readData env (file.drop (CHUNKSIZE * BATCHSIZE)) b hb
termination_by file.length
decreasing_by
  simp only [List.length_drop, CHUNKSIZE, BATCHSIZE]
  omega

/-- **The chunks of a file are its pieces**, whatever the batches. -/
theorem fileChunks_eq_pieces (env : Env) (file : Bytes) :
    fileChunks env file = pieces CHUNKSIZE file := by
  by_cases h : file = []
  · simp [h, fileChunks, CHUNKSIZE]
  · have hpos := List.length_pos_iff.mpr h
    have hrest := fileChunks_eq_pieces env (file.drop (CHUNKSIZE * BATCHSIZE))
    rw [fileChunks] at hrest
    rw [fileChunks, readData_of_ne_nil env h, List.flatMap_cons, hrest,
      chunks_fillReadBuffer env (by rw [List.length_take]; omega),
      pieces_take_append_pieces_drop (by decide)]
termination_by file.length
decreasing_by
  simp only [List.length_drop, CHUNKSIZE, BATCHSIZE]
  omega

/-- **The chunks of a file, put together, are the file.** -/
theorem flatten_fileChunks (env : Env) (file : Bytes) : (fileChunks env file).flatten = file := by
  rw [fileChunks_eq_pieces, flatten_pieces (by decide)]

/-- Only the last chunk of a file can be short, and none is empty. -/
theorem ragged_fileChunks (env : Env) (file : Bytes) :
    Ragged CHUNKSIZE (fileChunks env file) := by
  rw [fileChunks_eq_pieces]
  exact ragged_pieces (by decide) file

/-- **The chunks of a file, batch by batch.** -/
def fileBatches (env : Env) (file : Bytes) : List (List Bytes) :=
  (readData env file).map (·.chunks)

theorem flatten_fileBatches (env : Env) (file : Bytes) :
    (fileBatches env file).flatten = fileChunks env file := by
  rw [fileBatches, ← List.flatMap_def]
  rfl

/-- A whole chunk at the front of a file. -/
theorem fileChunks_append (env : Env) {x : Bytes} (hx : x.length = CHUNKSIZE) (file : Bytes) :
    fileChunks env (x ++ file) = x :: fileChunks env file := by
  have hne : x ++ file ≠ [] := by
    apply List.append_ne_nil_of_left_ne_nil
    rw [← List.length_pos_iff, hx]
    decide
  rw [fileChunks_eq_pieces, fileChunks_eq_pieces, pieces_of_ne_nil (by decide) hne, List.take_left' hx,
    List.drop_left' hx]

/-- No batch is empty. -/
theorem ne_nil_of_mem_fileBatches {env : Env} {file : Bytes} {b : List Bytes}
    (hb : b ∈ fileBatches env file) : b ≠ [] := by
  obtain ⟨buffer, hbuffer, rfl⟩ := List.mem_map.mp hb
  have hpos := (wf_of_mem_readData env file buffer hbuffer).pos
  rw [← List.length_pos_iff, ReadBuffer.length_chunks]
  exact hpos

/-- **What the client packs** is what the reply selects from the chunks of the batch. -/
theorem packChunks_eq_picks (b : ReadBuffer) {reply : Bytes} (h : reply.length = b.chunkNum) :
    Client.packChunks b reply = picks 1 (reply.zip b.chunks) := by
  have hzip : reply.zip b.chunks
      = (List.range b.chunkNum).map fun i => (reply.getD i 0, b.chunk i) := by
    apply List.ext_getElem
    · simp [h]
    · intro i h1 h2
      have hi : i < reply.length := by simp at h1; omega
      simp [ReadBuffer.chunks, List.getD_eq_getElem?_getD, hi]
  rw [hzip, picks, Client.packChunks, List.filter_map, List.map_map]
  rfl

end DedupServer
