import DedupServer.Model.Script
import DedupServer.Upload.Batches

/-! # The server's slicing inverts the client's packing

The client copies the chunks that the reply marks with `1` one after another and appends the hashes of
the next batch. The server recomputes every offset as a multiple of `CHUNKSIZE`, clipped at
`header.start`. A short chunk is the last of its batch, so it is the last of any selection, and the
offsets agree for every reply (`slicing_inverts_packing`). -/

namespace DedupServer

open Foundations

variable {env : Env}

namespace Client

/-- The chunks of the last batch that the reply marks with `1`. -/
def marked (c : Client) (reply : Bytes) : List Bytes := picks 1 (reply.zip c.readBuffer.chunks)

/-- The hashes of the next batch, if there is one. -/
def nextHashes (env : Env) (c : Client) : List Bytes :=
  match c.readBufferQueue with
  | readBuffer :: _ => readBuffer.chunks.map env.generateHash
  | [] => []

/-- **The message that is sent first** carries the selected chunks and the hashes of the next batch, and
its size is that of header and data. -/
theorem sendBatch_head (c : Client) (hwf : ∀ b ∈ c.readBufferQueue, b.WF env)
    (uniq : List Bytes) : ∃ msg rest, (c.sendBatch uniq.flatten).2 = .data msg :: rest ∧
      msg.Carries uniq (c.nextHashes env) ∧
      msg.header.size = sizeofDataMsg + msg.data.length := by
  -- what `sendBody` puts first, whatever hashes follow the chunks
  have hbody : ∀ (c' : Client) (next : List Bytes), (∀ h ∈ next, h.length = HASHSIZE) →
      ∃ msg rest, (c'.sendBody uniq.flatten next.flatten next.length).2 = .data msg :: rest ∧
        msg.Carries uniq next ∧ msg.header.size = sizeofDataMsg + msg.data.length := by
    intro c' next hlength
    have hdata : (uniq.flatten ++ next.flatten).length
        = uniq.flatten.length + next.length * HASHSIZE := by
      rw [List.length_append, length_flatten_of_length_eq hlength]
    rw [sendBody]
    split
    · exact ⟨_, _, rfl, ⟨rfl, rfl, rfl, rfl⟩, by rw [hdata, ← Nat.add_assoc]⟩
    · exact ⟨_, _, rfl, ⟨rfl, rfl, rfl, rfl⟩, by rw [hdata, ← Nat.add_assoc]⟩
  -- the last batch has no hashes to follow
  cases hq : c.readBufferQueue with
  | nil =>
    rw [sendBatch, nextHashes, hq]
    exact hbody _ [] (by simp)
  | cons b rest =>
    have hb : b.WF env := hwf b (by simp [hq])
    have hnext := hbody { c with readBufferQueue := rest, readBuffer := b }
      (b.chunks.map env.generateHash) (by
        intro h hh
        obtain ⟨chunk, -, rfl⟩ := List.mem_map.mp hh
        exact env.length_generateHash chunk)
    rw [List.length_map, ReadBuffer.length_chunks] at hnext
    rw [sendBatch, nextHashes, hq]
    dsimp only
    rw [take_hashBuffer hb]
    exact hnext

end Client

/-- **The server takes a message apart as the client has put it together**, for the reply to the last
batch. -/
structure SlicesBack (env : Env) (c : Client) (reply : Bytes) (msg : DataMsg) : Prop where
  /-- `header.start` is `chunksOccupied`. -/
  start : msg.header.start = (c.marked reply).flatten.length
  /-- The loop over the same answers cuts out exactly the marked chunks: it appends them to the containers,
  one behind the other, and writes an entry for each hash, which for a marked chunk is where its bytes are. -/
  copied : ∀ (st : StoreLoop) (hashes : List Bytes), st.currentUniqueNum = 0 →
    st.up.containerBuffer.Counted → hashes.length = reply.length →
      reply.count 0 ≤ st.up.duplicatedChunkAddr.length →
        ∃ st' new, st.run env msg (reply.zip hashes) = some st' ∧ st.Cuts st' reply (c.marked reply) new
  /-- Every slice has the size of its chunk, the difference of its ends does not wrap, and it ends before
  the hashes. -/
  slices : ∀ u chunk, (c.marked reply)[u]? = some chunk →
    chunkSlotSize msg u = chunk.length ∧
      u32 (u * CHUNKSIZE) ≤ u32 (min ((u + 1) * CHUNKSIZE) msg.header.start) ∧
      u32 (u * CHUNKSIZE) + chunkSlotSize msg u ≤ msg.header.start
  /-- The hashes that are read are those of the next batch. -/
  hashes : Conn.queriedHashes msg = c.nextHashes env
  /-- The message fits both buffers. -/
  room : msg.header.size = sizeofDataMsg + msg.data.length ∧
    msg.data.length ≤ (CHUNKSIZE + HASHSIZE) * BATCHSIZE

/-- **Slicing inverts packing.** For every batch that `read_data` has produced, every reply of zeros and
ones, and whatever batch is next: the message that `upload_file` sends is taken apart into exactly the
chunks marked `1` and the hashes of the next batch. -/
theorem slicing_inverts_packing (env : Env) (file : Bytes) (c : Client) (rep : DataMsg)
    (hb : c.readBuffer ∈ readData env file) (hqueue : ∀ b ∈ c.readBufferQueue, b ∈ readData env file)
    (hlen : rep.data.length = c.readBuffer.chunkNum) (hans : ∀ a ∈ rep.data, a = 0 ∨ a = 1) :
    ∃ msg rest, (c.continueUpload rep).2 = .data msg :: rest ∧ SlicesBack env c rep.data msg := by
  have hbuffer := wf_of_mem_readData env file c.readBuffer hb
  have hwf : ∀ b ∈ c.readBufferQueue, b.WF env :=
    fun b hmem => wf_of_mem_readData env file b (hqueue b hmem)
  have hpacked : Client.packChunks c.readBuffer rep.data = c.marked rep.data :=
    packChunks_eq_picks c.readBuffer hlen
  -- the marked chunks are a selection from those of the batch
  have hsub : (c.marked rep.data).Sublist c.readBuffer.chunks := picks_zip_sublist 1 _ _
  have hragged : Ragged CHUNKSIZE (c.marked rep.data) := hbuffer.ragged.sublist hsub
  have hle : (c.marked rep.data).length ≤ BATCHSIZE := by
    have hchunks := hsub.length_le
    rw [ReadBuffer.length_chunks] at hchunks
    exact hchunks.trans hbuffer.le
  have hhash : ∀ hash ∈ c.nextHashes env, hash.length = HASHSIZE := by
    intro hash hmem
    rw [Client.nextHashes] at hmem
    split at hmem
    · obtain ⟨chunk, -, rfl⟩ := List.mem_map.mp hmem
      exact env.length_generateHash chunk
    · cases hmem
  have hnum : (c.nextHashes env).length ≤ BATCHSIZE := by
    rw [Client.nextHashes]
    split
    · rename_i b _ heq
      rw [List.length_map, ReadBuffer.length_chunks]
      exact (hwf b (by rw [heq]; exact List.mem_cons_self)).le
    · exact Nat.zero_le _
  obtain ⟨msg, rest, hsend, hcarries, hsize⟩ : ∃ msg rest,
      (c.continueUpload rep).2 = .data msg :: rest ∧
        msg.Carries (c.marked rep.data) (c.nextHashes env) ∧
        msg.header.size = sizeofDataMsg + msg.data.length := by
    rw [Client.continueUpload, hpacked]
    exact Client.sendBatch_head
      { c with outHeader := { c.outHeader with chunkNum := (c.marked rep.data).length } } hwf _
  refine ⟨msg, rest, hsend, hcarries.start, ?_, ?_, hcarries.queriedHashes hhash, hsize, ?_⟩
  · intro st hashes hzero hcounted hlength hdup
    have hlength' : rep.data.length = hashes.length := hlength.symm
    have hanswers : ∀ q ∈ rep.data.zip hashes, q.1 = 0 ∨ q.1 = 1 :=
      fun q hq => hans q.1 (List.of_mem_zip hq).1
    obtain ⟨left, hleft⟩ := Nat.exists_eq_add_of_le hdup
    rw [Nat.add_comm, ← length_picks_zip 0 hlength'] at hleft
    obtain ⟨st', -, hrun, -⟩ := StoreLoop.exists_run_left env msg _ hanswers left st hleft
    have hcount : (c.marked rep.data).length = (picks 1 (rep.data.zip hashes)).length := by
      rw [length_picks_zip 1 hlength', Client.marked, length_picks_zip 1]
      rw [ReadBuffer.length_chunks, hlen]
    -- slot `u` is the `u`-th marked chunk
    obtain ⟨new, hcuts⟩ := StoreLoop.run_cuts env msg _ hanswers hcounted hcount (fun u hu => by
      rw [hzero, Nat.zero_add]
      exact ⟨(hragged.2 _ (List.getElem_mem hu)).2, hcarries.chunkSlot hragged hle hu⟩) hrun
    rw [List.map_fst_zip hlength'.le] at hcuts
    exact ⟨st', new, hrun, hcuts⟩
  · intro u chunk hu
    obtain ⟨hlt, rfl⟩ := List.getElem?_eq_some_iff.mp hu
    obtain ⟨hstart, hslot, hend, hbound⟩ := hcarries.slot hragged hle hlt
    rw [hstart, ← hend]
    exact ⟨hslot, Nat.le_add_right _ _, hbound⟩
  · have hchunks := hragged.length_flatten_le
    rw [hcarries.data, List.length_append, length_flatten_of_length_eq hhash]
    simp only [CHUNKSIZE, HASHSIZE, BATCHSIZE] at *
    omega

namespace Sample

/-- A client that has asked about the three chunks of its file. -/
def uploader : Client :=
  { (Client.start 1 117 [65] ragged false).1 with readBuffer := fillReadBuffer Sample.env ragged }

/-- The reply that asks for the first chunk and the last one. -/
def wanted : DataMsg := ⟨⟨.UPLOADBODYREP, 0, 3, 0, sizeofDataMsg + 3⟩, [1, 0, 1]⟩

end Sample

/-- A file of three chunks, the last of them short, of which the first one and the last one are asked for. -/
theorem slicing_inverts_packing_sample : ∃ msg rest,
    (Sample.uploader.continueUpload Sample.wanted).2 = .data msg :: rest ∧
      SlicesBack Sample.env Sample.uploader [1, 0, 1] msg := by
  have hlength : Sample.ragged.length = CHUNKSIZE + CHUNKSIZE + 1 := by
    simp [Sample.ragged, Sample.block, add_assoc]
  apply slicing_inverts_packing Sample.env Sample.ragged Sample.uploader Sample.wanted
  · have hne : Sample.ragged ≠ [] := by
      rw [Ne, ← List.length_eq_zero_iff, hlength]
      decide
    have hwhole : Sample.ragged.take (CHUNKSIZE * BATCHSIZE) = Sample.ragged := by
      apply List.take_of_length_le
      rw [hlength]
      decide
    rw [readData_of_ne_nil Sample.env hne, hwhole]
    exact List.mem_cons_self
  · intro b hb
    cases hb
  · show 3 = pieceCount CHUNKSIZE Sample.ragged.length
    rw [hlength]
    decide
  · simp [Sample.wanted]

end DedupServer
