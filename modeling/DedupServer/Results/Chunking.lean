import DedupServer.Upload.Chunks

/-! # Chunking is lossless

`read_data` cuts a file into read buffers and each buffer into chunks. Nothing of the two loops can be
seen in the result (`chunking_lossless`): the buffers together are the file, their chunks are the
pieces of the file, and each hash is that of its chunk. -/

namespace DedupServer

open Foundations

variable {env : Env} {b : ReadBuffer}

/-- Hash `i` of a well-formed read buffer is the hash of chunk `i`. -/
theorem ReadBuffer.WF.piece_hashBuffer (h : b.WF env) {i : ℕ} (hi : i < b.chunkNum) :
    piece HASHSIZE b.hashBuffer i = env.generateHash (b.chunk i) := by
  have hsize : ∀ hash ∈ b.chunks.map env.generateHash, hash.length = HASHSIZE := by
    intro hash hhash
    obtain ⟨c, -, rfl⟩ := List.mem_map.mp hhash
    exact env.length_generateHash c
  have hlen : i < (b.chunks.map env.generateHash).length := by
    rw [List.length_map, ReadBuffer.length_chunks]
    exact hi
  rw [h.hashes, (ragged_of_length_eq (by decide) hsize).piece_flatten hlen, List.getElem_map]
  simp [ReadBuffer.chunks]

/-- **The read buffers, put together, are the file.** -/
theorem flatten_readData (env : Env) (file : Bytes) :
    ((readData env file).map fun b => b.dataBuffer.take b.dataSize).flatten = file := by
  by_cases h : file = []
  · simp [h]
  · have hpos := List.length_pos_iff.mpr h
    have hrest := flatten_readData env (file.drop (CHUNKSIZE * BATCHSIZE))
    have hfull : (fillReadBuffer env (file.take (CHUNKSIZE * BATCHSIZE))).dataBuffer.take
        (fillReadBuffer env (file.take (CHUNKSIZE * BATCHSIZE))).dataSize
          = file.take (CHUNKSIZE * BATCHSIZE) := List.take_length
    rw [readData_of_ne_nil env h, List.map_cons, List.flatten_cons, hrest, hfull,
      List.take_append_drop]
termination_by file.length
decreasing_by
  simp only [List.length_drop, CHUNKSIZE, BATCHSIZE]
  omega

/-- **A buffer that another follows is full.** -/
theorem chunkNum_of_mem_dropLast (env : Env) (file : Bytes) :
    ∀ b ∈ (readData env file).dropLast, b.chunkNum = BATCHSIZE := by
  by_cases h : file = []
  · simp [h]
  · have hpos := List.length_pos_iff.mpr h
    have hrest := chunkNum_of_mem_dropLast env (file.drop (CHUNKSIZE * BATCHSIZE))
    rw [readData_of_ne_nil env h]
    by_cases hmore : file.drop (CHUNKSIZE * BATCHSIZE) = []
    · simp [hmore]
    · -- there is more to read, so the first buffer has been filled
      have hnext := readData_of_ne_nil env hmore
      have hlong := List.length_pos_iff.mpr hmore
      rw [List.length_drop] at hlong
      intro b hb
      rw [hnext, List.dropLast_cons_cons, ← hnext, List.mem_cons] at hb
      rcases hb with rfl | hb
      · simp only [fillReadBuffer, pieceCount, List.length_take, CHUNKSIZE, BATCHSIZE] at hlong ⊢
        omega
      · exact hrest b hb
termination_by file.length
decreasing_by
  simp only [List.length_drop, CHUNKSIZE, BATCHSIZE]
  omega

/-- **Chunking is lossless and independent of batching.** For every file: the first `dataSize` bytes of
the buffers make up the file; every buffer but the last has `BATCHSIZE` chunks; the chunks of all
buffers are the pieces of `CHUNKSIZE` bytes of the file, the last one possibly shorter and none
empty; hash `i` of a buffer is the hash of its chunk `i`; and an empty file gives no buffer. -/
theorem chunking_lossless (env : Env) (file : Bytes) :
    ((readData env file).map fun b => b.dataBuffer.take b.dataSize).flatten = file ∧
      (∀ b ∈ (readData env file).dropLast, b.chunkNum = BATCHSIZE) ∧
      (readData env file).flatMap (·.chunks) = pieces CHUNKSIZE file ∧
      Ragged CHUNKSIZE (pieces CHUNKSIZE file) ∧
      (∀ b ∈ readData env file, ∀ i < b.chunkNum,
        piece HASHSIZE b.hashBuffer i = env.generateHash (b.chunk i)) ∧
      readData env [] = [] := by
  refine ⟨flatten_readData env file, chunkNum_of_mem_dropLast env file,
    fileChunks_eq_pieces env file, ragged_pieces (by decide) file, ?_, readData_nil env⟩
  intro b hb i hi
  exact (wf_of_mem_readData env file b hb).piece_hashBuffer hi

end DedupServer
