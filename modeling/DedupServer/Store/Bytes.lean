import DedupServer.Protocol.Refs
import DedupServer.Store.Pool

/-! # How many bytes there are

The bytes in the container files (`Server.containerBytes`) and in the containers a session has in
memory (`Conn.liveBytes`). Handing a container over and saving it moves bytes but adds none; a
message adds the bytes of the chunks it carries (`StoreLoop.bytes_run`). -/

namespace DedupServer

open Foundations

/-- **The bytes in all container files.** -/
def Server.containerBytes (sv : Server) : ℕ :=
  (sv.containers.entries.map fun e => e.2.length).sum

/-- **The bytes in the containers in memory.** -/
def Conn.liveBytes (c : Conn) : ℕ := (c.live.map (·.occupied)).sum

/-- The bytes in the containers that the container writer has not taken yet. -/
def UploadState.bytes (up : UploadState) : ℕ := (up.containers.map (·.occupied)).sum

variable {env : Env} {msg : DataMsg} {sv sv' : Server} {up : UploadState} {st st' : StoreLoop} {c c' : Conn}

/-- **Saving a container** that is not on disk adds its bytes. -/
theorem Conn.containerBytes_saveContainer {C : Container}
    (hnew : sv.containers.lookup C.containerID = none) (hdata : C.data.length = C.occupied) :
    (Conn.saveContainer sv C).containerBytes = sv.containerBytes + C.occupied := by
  have hmem : C.containerID ∉ sv.containers := by
    rw [← AList.lookup_eq_none]
    exact hnew
  simp only [Server.containerBytes, Conn.saveContainer, AList.entries_insert_of_notMem hmem,
    List.map_cons, List.sum_cons, List.length_take, hdata, min_self]
  rw [Nat.add_comm]

/-- While the buffer is being filled, the bytes in memory are those of the upload and of the writer. -/
theorem Conn.liveBytes_of_ne_join (hpc : c.pc ≠ .join) :
    c.liveBytes = (c.dataWriter.held.map (·.occupied)).sum + c.upload.bytes := by
  simp [Conn.liveBytes, Conn.live, hpc, UploadState.bytes, UploadState.containers]

/-- Before an upload the only container in memory is empty. -/
theorem Conn.Dormant.liveBytes (h : c.Dormant) : c.liveBytes = 0 := by
  rw [Conn.liveBytes, Conn.live, h.dataWriter, h.containerQueue]
  split <;> simp [DataWriter.held, BlockQueue.empty, h.blank]

/-- So it is after it. -/
theorem Conn.Joined.liveBytes (h : c.Joined) : c.liveBytes = 0 := by
  rw [Conn.liveBytes, Conn.live, h.dataWriter, h.containerQueue]
  split <;> simp [DataWriter.held, BlockQueue.empty, h.blank]

/-- When the container writer has finished after `FILEEND`, no container is left in memory. -/
theorem Conn.Writing.liveBytes (h : c.Writing true) (hpc : c.pc = .join)
    (hdata : c.dataWriter = .finished) : c.liveBytes = 0 := by
  have hqueue := h.data
  rw [hdata] at hqueue
  simp [Conn.liveBytes, Conn.live, hdata, DataWriter.held, hqueue.2, hpc]

/-- `FILEEND` hands the buffer over, unless it is empty. -/
theorem Conn.liveBytes_receiveFileEnd (hpc : c.pc = .body) :
    c.receiveFileEnd.liveBytes = c.liveBytes := by
  rw [@Conn.liveBytes_of_ne_join c (by simp [hpc]), Conn.liveBytes, Conn.live]
  simp only [Conn.receiveFileEnd, UploadState.bytes, UploadState.containers]
  split
  · simp [UploadState.insertContainerQueue, UploadState.insertRecipeQueue, BlockQueue.push,
      BlockQueue.setDone]
  · rename_i hempty
    simp [UploadState.insertRecipeQueue, BlockQueue.setDone, not_not.mp hempty]

/-- **The container writer moves bytes** from memory to the disk and adds none. -/
theorem Conn.containerBytes_dataWriterStep {i : ℕ} {P : Pool}
    (hstep : c.dataWriterStep sv = some (sv', c')) (howns : Pool.Owns i P sv.containers c.live) :
    sv.containerBytes ≤ sv'.containerBytes ∧
      sv'.containerBytes + c'.liveBytes = sv.containerBytes + c.liveBytes := by
  obtain ⟨C, rest, hw, hq, rfl, rfl⟩ | ⟨hw, hq, hdone, rfl, rfl⟩ | ⟨C, hw, rfl, rfl⟩ :=
    Conn.dataWriterStep_cases hstep
  · exact ⟨le_rfl, by simp [Conn.liveBytes, Conn.live, hw, hq, DataWriter.held]⟩
  · exact ⟨le_rfl, by simp [Conn.liveBytes, Conn.live, hw, DataWriter.held]⟩
  · -- the container goes to disk
    have hmem : C ∈ c.live := by
      simp [Conn.live, hw, DataWriter.held]
    have hbytes : c.liveBytes
        = C.occupied + ({ c with dataWriter := .waiting } : Conn).liveBytes := by
      simp [Conn.liveBytes, Conn.live, hw, DataWriter.held]
    have hsaved := Conn.containerBytes_saveContainer (howns.offDisk C hmem)
      (howns.backs C hmem).occupied.symm
    omega

/-! ## The store loop -/

namespace StoreLoop

/-- The counters of the buffer agree with its size. -/
def Room (st : StoreLoop) : Prop :=
  st.up.containerBuffer.occupied + st.up.containerBuffer.capacity = CONTAINERSIZE

/-- A duplicate leaves the container as it is. -/
theorem Room.useDuplicate (h : st.Room) (a : ChunkAddr) (rest : List ChunkAddr) :
    (st.useDuplicate a rest).Room := by
  simpa only [Room, StoreLoop.useDuplicate, UploadState.writeRecipeEntry_containerBuffer] using h

/-- Replacing a full container adds no bytes. -/
theorem bytes_rollOver (env : Env) (sv : Server) {size : ℕ} (hsize : size ≤ CHUNKSIZE)
    (hroom : up.containerBuffer.occupied + up.containerBuffer.capacity = CONTAINERSIZE) :
    let r := up.rollOver env size sv
    r.2.bytes = up.bytes ∧
      r.2.containerBuffer.occupied + r.2.containerBuffer.capacity = CONTAINERSIZE ∧
      size ≤ r.2.containerBuffer.capacity := by
  unfold UploadState.rollOver
  split
  · refine ⟨?_, ?_, hsize.trans ?_⟩
    · simp [UploadState.bytes, UploadState.containers, UploadState.newContainer,
        UploadState.insertContainerQueue, BlockQueue.push]
    · simp [UploadState.newContainer]
    · show CHUNKSIZE ≤ CONTAINERSIZE
      decide
  · rename_i hfits
    exact ⟨rfl, hroom, not_lt.mp hfits⟩

/-- **Storing a chunk adds its bytes.** -/
theorem bytes_storeUnique (env : Env) (hash : Bytes)
    (hsize : chunkSlotSize msg st.currentUniqueNum ≤ CHUNKSIZE)
    (hroom : st.Room) :
    (st.storeUnique env msg hash).up.bytes
      = st.up.bytes + chunkSlotSize msg st.currentUniqueNum ∧
    (st.storeUnique env msg hash).Room := by
  obtain ⟨hbytes, hroom', hfits⟩ := bytes_rollOver env st.server hsize hroom
  generalize hr : st.up.rollOver env (chunkSlotSize msg st.currentUniqueNum) st.server = r at *
  generalize hz : chunkSlotSize msg st.currentUniqueNum = z at *
  have hocc : u32 (r.2.containerBuffer.occupied + z) = r.2.containerBuffer.occupied + z := by
    apply u32_of_lt
    simp only [CONTAINERSIZE] at hroom'
    omega
  have hcap : sub32 r.2.containerBuffer.capacity z = r.2.containerBuffer.capacity - z := by
    apply sub32_of_le hfits
    simp only [CONTAINERSIZE] at hroom'
    omega
  constructor
  · rw [← hbytes]
    simp [storeUnique, UploadState.bytes, hz, hr, UploadState.containers, Container.append, hocc,
      Nat.add_assoc]
  · simp only [Room, storeUnique, hz, hr, UploadState.writeRecipeEntry_containerBuffer,
      Container.append, hocc, hcap]
    omega

/-- **A message adds the bytes of the chunks it carries.** -/
theorem bytes_run (qs : List (UInt8 × Bytes)) (hans : ∀ q ∈ qs, q.1 = 0 ∨ q.1 = 1)
    {uniq : List Bytes} (hcount : uniq.length = (picks 1 qs).length)
    (hslot : ∀ (u : ℕ) (hu : u < uniq.length),
      chunkSlotSize msg (st.currentUniqueNum + u) = uniq[u].length)
    (hle : ∀ x ∈ uniq, x.length ≤ CHUNKSIZE) (hroom : st.Room)
    (hrun : st.run env msg qs = some st') :
    st'.up.bytes = st.up.bytes + (uniq.map List.length).sum := by
  induction qs generalizing st uniq with
  | nil =>
    obtain rfl := Option.some.inj hrun
    obtain rfl : uniq = [] := List.length_eq_zero_iff.mp hcount
    simp
  | cons q qs ih =>
    obtain ⟨answer, hash⟩ := q
    have hans' : ∀ q ∈ qs, q.1 = 0 ∨ q.1 = 1 := fun q hq => hans q (List.mem_cons_of_mem _ hq)
    rw [run_cons] at hrun
    rcases hans (answer, hash) List.mem_cons_self with rfl | rfl
    · -- a duplicate: only the recipe grows
      rw [picks_cons_of_ne (by decide)] at hcount
      cases hdup : st.up.duplicatedChunkAddr with
      | nil => simp [step, hdup] at hrun
      | cons a rest =>
        rw [step_zero env msg hdup, Option.bind_some] at hrun
        have hbytes : (st.useDuplicate a rest).up.bytes = st.up.bytes := by
          rw [useDuplicate, UploadState.bytes, UploadState.containers_writeRecipeEntry]
          rfl
        have hslot' : ∀ (u : ℕ) (hu : u < uniq.length),
            chunkSlotSize msg ((st.useDuplicate a rest).currentUniqueNum + u) = uniq[u].length :=
          hslot
        rw [ih hans' hcount hslot' hle (hroom.useDuplicate a rest) hrun, hbytes]
    · -- a chunk of the message
      rw [picks_cons_self, List.length_cons] at hcount
      obtain ⟨x, uniq, rfl⟩ := List.exists_cons_of_length_eq_add_one hcount
      rw [step_one, Option.bind_some] at hrun
      have hsize : chunkSlotSize msg st.currentUniqueNum = x.length := by
        have h0 := hslot 0 (by simp)
        rwa [Nat.add_zero, List.getElem_cons_zero] at h0
      have hx := hle x List.mem_cons_self
      obtain ⟨hbytes, hroom'⟩ := bytes_storeUnique env hash (by rw [hsize]; exact hx) hroom
      have hslot' : ∀ (u : ℕ) (hu : u < uniq.length),
          chunkSlotSize msg ((st.storeUnique env msg hash).currentUniqueNum + u)
            = uniq[u].length := by
        intro u hu
        have := hslot (u + 1) (by simpa using hu)
        rwa [List.getElem_cons_succ, ← Nat.add_assoc, Nat.add_right_comm] at this
      rw [ih hans' (by simpa using hcount) hslot' (fun y hy => hle y (List.mem_cons_of_mem _ hy))
        hroom' hrun, hbytes, hsize, List.map_cons, List.sum_cons, Nat.add_assoc]

/-- **A message adds the hashes to the index whose chunks it carries.** -/
theorem isSome_run (qs : List (UInt8 × Bytes)) (hans : ∀ q ∈ qs, q.1 = 0 ∨ q.1 = 1)
    (hrun : st.run env msg qs = some st') (k : Bytes) :
    (st'.server.isChunkStored k).isSome ↔ (st.server.isChunkStored k).isSome ∨
      ∃ h ∈ picks 1 qs, convertArrayHashToString h = k := by
  induction qs generalizing st with
  | nil =>
    obtain rfl := Option.some.inj hrun
    simp
  | cons q qs ih =>
    obtain ⟨answer, hash⟩ := q
    have hans' : ∀ q ∈ qs, q.1 = 0 ∨ q.1 = 1 := fun q hq => hans q (List.mem_cons_of_mem _ hq)
    rw [run_cons] at hrun
    -- a known chunk leaves the index as it was
    rcases hans (answer, hash) List.mem_cons_self with rfl | rfl
    · rw [picks_cons_of_ne (by decide)]
      cases hdup : st.up.duplicatedChunkAddr with
      | nil => simp [step, hdup] at hrun
      | cons a rest =>
        rw [step_zero env msg hdup, Option.bind_some] at hrun
        have htail := ih hans' hrun
        exact htail
    -- a new chunk adds its own key and no other
    · rw [step_one, Option.bind_some] at hrun
      obtain ⟨-, -, -, -, -, -, hindex, -⟩ :=
        st.up.rollOver_frame env (chunkSlotSize msg st.currentUniqueNum) st.server
      have hstored : ((st.storeUnique env msg hash).server.isChunkStored k).isSome ↔
          (st.server.isChunkStored k).isSome ∨ convertArrayHashToString hash = k := by
        simp only [storeUnique, Server.isChunkStored, Server.addChunk_allChunks, hindex,
          Option.isSome_or, Bool.or_eq_true]
        by_cases hk : k = convertArrayHashToString hash
        · simp [hk]
        · simp [hk, Ne.symm hk]
      rw [ih hans' hrun, hstored, picks_cons_self]
      simp [or_assoc]

end StoreLoop

/-- **The bytes in memory after a message**: those of its chunks have come in. -/
theorem Conn.liveBytes_answerQuery {i : ℕ} {P : Pool} (hpc : c.pc = .body) (hasked : c.Asked)
    (hbuffer : P.Backs i c.upload.containerBuffer) {uniq next : List Bytes}
    (hfits : c.Fits msg uniq next)
    (hrun : StoreLoop.run env msg ⟨sv, c.upload, none, 0⟩ c.queries = some st) :
    (c.answerQuery msg st).liveBytes = c.liveBytes + (uniq.map List.length).sum := by
  have hroom : StoreLoop.Room ⟨sv, c.upload, none, 0⟩ := hbuffer.capacity
  have hbytes : st.up.bytes = c.upload.bytes + (uniq.map List.length).sum :=
    StoreLoop.bytes_run c.queries hasked.answer hfits.count
      (fun u hu => by simpa using (hfits.chunkSlot hasked hu).1)
      (fun x hx => (hfits.ragged.2 x hx).2) hroom hrun
  have hjoin : c.pc ≠ .join := by simp [hpc]
  have hjoin' : (c.answerQuery msg st).pc ≠ .join := hjoin
  have hup : (c.answerQuery msg st).upload.bytes = st.up.bytes := rfl
  have hheld : (c.answerQuery msg st).dataWriter = c.dataWriter := rfl
  rw [Conn.liveBytes_of_ne_join hjoin, Conn.liveBytes_of_ne_join hjoin', hup, hheld, hbytes]
  omega

end DedupServer
