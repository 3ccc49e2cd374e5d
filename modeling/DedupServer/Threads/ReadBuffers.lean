import DedupServer.Threads.ReadAhead

/-! # Who owns a read buffer

The two blocks of a read buffer are with `read_data` until it has pushed the buffer, in the queue, or with
`upload_file` until it has freed them (`ReadAhead.blocks`), and nothing else has been allocated. A buffer that
has been pushed contains a batch of the file with its hashes (`ReadStruct.Hashed`), and those that are in the
queue or are still to come are the rest of the file (`ReadAhead.ahead`).

`ReadAhead.Sound` is what every step keeps, as long as the replies fit into `m_inMsgBuffer`
(`ReadAheadAct.Fits`). -/

namespace DedupServer

open Foundations

/-! ## What a buffer contains -/

/-- The blocks of a read buffer. -/
def ReadStruct.blocks (b : ReadStruct) : List (ℕ × ℕ) := [(b.dataBuffer, dataLen), (b.hashBuffer, hashLen)]

/-- What a read buffer contains. -/
def ReadStruct.value (heap : Heap) (b : ReadStruct) : ReadBuffer :=
  ⟨heap.read b.dataBuffer b.dataSize, heap.read b.hashBuffer (b.chunkNum * HASHSIZE), b.chunkNum, b.dataSize⟩

/-- What it contains once all its chunks have been hashed. -/
def ReadStruct.batch (env : Env) (heap : Heap) (b : ReadStruct) : ReadBuffer :=
  fillReadBuffer env (heap.read b.dataBuffer b.dataSize)

variable {env : Env} {heap heap' : Heap} {b : ReadStruct} {i : ℕ}

/-- What a buffer contains depends on its blocks alone. -/
theorem ReadStruct.value_congr (h : ∀ c ∈ b.blocks, heap' c.1 = heap c.1) : b.value heap' = b.value heap := by
  have hdata : heap' b.dataBuffer = heap b.dataBuffer := h (b.dataBuffer, dataLen) List.mem_cons_self
  have hhash : heap' b.hashBuffer = heap b.hashBuffer :=
    h (b.hashBuffer, hashLen) (List.mem_cons_of_mem _ List.mem_cons_self)
  simp only [value, Heap.read_congr hdata, Heap.read_congr hhash]

/-- The batch depends on the data alone. -/
theorem ReadStruct.batch_congr (h : heap' b.dataBuffer = heap b.dataBuffer) :
    b.batch env heap' = b.batch env heap := by
  rw [batch, batch, Heap.read_congr h]

/-- **A read buffer of which the first `i` chunks have been hashed.** -/
structure ReadStruct.Hashed (env : Env) (heap : Heap) (b : ReadStruct) (i : ℕ) : Prop where
  pos : 0 < b.dataSize
  le : b.dataSize ≤ dataLen
  chunkNum : b.chunkNum = pieceCount CHUNKSIZE b.dataSize
  length : (heap.read b.dataBuffer b.dataSize).length = b.dataSize
  hashes : heap.read b.hashBuffer (i * HASHSIZE)
    = ((List.range i).map (b.batch env heap).chunk).flatMap env.generateHash

namespace ReadStruct.Hashed

/-- There are chunks, and no more than fit. -/
theorem chunkNum_le (h : b.Hashed env heap i) : 0 < b.chunkNum ∧ b.chunkNum ≤ BATCHSIZE := by
  have hpos := h.pos
  have hle := h.le
  rw [h.chunkNum]
  simp only [pieceCount, dataLen, CHUNKSIZE, BATCHSIZE] at hle ⊢
  omega

/-- The buffer stays as it is while its blocks do. -/
theorem congr (h : b.Hashed env heap i) (hsame : ∀ c ∈ b.blocks, heap' c.1 = heap c.1) :
    b.Hashed env heap' i := by
  have hdata : heap' b.dataBuffer = heap b.dataBuffer := hsame (b.dataBuffer, dataLen) List.mem_cons_self
  have hhash : heap' b.hashBuffer = heap b.hashBuffer :=
    hsame (b.hashBuffer, hashLen) (List.mem_cons_of_mem _ List.mem_cons_self)
  refine ⟨h.pos, h.le, h.chunkNum, ?_, ?_⟩
  · rw [Heap.read_congr hdata]
    exact h.length
  · rw [Heap.read_congr hhash, ReadStruct.batch_congr hdata]
    exact h.hashes

/-- **When all chunks have been hashed** the buffer contains a batch of the file. -/
theorem value (h : b.Hashed env heap b.chunkNum) : b.value heap = b.batch env heap := by
  rw [ReadStruct.value, h.hashes, ReadStruct.batch, fillReadBuffer, ReadBuffer.chunks]
  simp only [h.length, ← h.chunkNum]
  rfl

/-- The offsets of a chunk are within the data. -/
theorem offsets (h : b.Hashed env heap i) {k : ℕ} (hk : k < b.chunkNum) :
    u32 (k * CHUNKSIZE) = k * CHUNKSIZE ∧
      u32 (min ((k + 1) * CHUNKSIZE) b.dataSize) = min ((k + 1) * CHUNKSIZE) b.dataSize ∧
      k * CHUNKSIZE < b.dataSize := by
  have hpos := h.pos
  have hle := h.le
  rw [h.chunkNum] at hk
  simp only [pieceCount, dataLen, CHUNKSIZE, BATCHSIZE] at hk hle ⊢
  refine ⟨u32_of_lt (by omega), u32_of_lt (by omega), by omega⟩

/-- The chunks of the batch. -/
theorem chunk_eq (h : b.Hashed env heap i) {k : ℕ} (hk : k < b.chunkNum) :
    (b.batch env heap).chunk k = ((heap.read b.dataBuffer b.dataSize).drop (k * CHUNKSIZE)).take
      (min ((k + 1) * CHUNKSIZE) b.dataSize - k * CHUNKSIZE) := by
  obtain ⟨hstart, hstop, hlt⟩ := h.offsets hk
  have hle := h.le
  have hmul : (k + 1) * CHUNKSIZE = k * CHUNKSIZE + CHUNKSIZE := by ring
  simp only [dataLen, CHUNKSIZE, BATCHSIZE] at hle hmul hlt
  rw [ReadBuffer.chunk, ReadStruct.batch, fillReadBuffer]
  dsimp only
  rw [h.length, hstart, hstop, sub32_of_le (by simp only [CHUNKSIZE]; omega)
    (by simp only [CHUNKSIZE]; omega)]

/-- A chunk is no longer than `CHUNKSIZE`. -/
theorem length_chunk (h : b.Hashed env heap i) {k : ℕ} (hk : k < b.chunkNum) :
    ((b.batch env heap).chunk k).length ≤ CHUNKSIZE := by
  rw [h.chunk_eq hk, List.length_take]
  have hmul : (k + 1) * CHUNKSIZE = k * CHUNKSIZE + CHUNKSIZE := by ring
  omega

/-- **A chunk can be loaded**, and it is the one of the batch. -/
theorem loadChunk (h : b.Hashed env heap i) {blocks : List (ℕ × ℕ)} (ho : heap.Owned blocks)
    (hb : (b.dataBuffer, dataLen) ∈ blocks) {k : ℕ} (hk : k < b.chunkNum) :
    ReadAhead.loadChunk heap b k = some ((b.batch env heap).chunk k) := by
  obtain ⟨hstart, hstop, hlt⟩ := h.offsets hk
  have hle := h.le
  have hmul : (k + 1) * CHUNKSIZE = k * CHUNKSIZE + CHUNKSIZE := by ring
  have hsub : sub32 (min ((k + 1) * CHUNKSIZE) b.dataSize) (k * CHUNKSIZE)
      = min ((k + 1) * CHUNKSIZE) b.dataSize - k * CHUNKSIZE := by
    simp only [dataLen, CHUNKSIZE, BATCHSIZE] at hle hmul hlt ⊢
    exact sub32_of_le (by omega) (by omega)
  rw [ReadAhead.loadChunk, hstart, hstop, ho.load hb (by omega), Option.map_some, h.chunk_eq hk, hsub]
  -- a load of a part and the same part of a larger load
  rw [Heap.read, Heap.read, Option.some.injEq, List.drop_take, List.drop_take, List.take_take,
    List.take_take]
  congr 1
  omega

end ReadStruct.Hashed

/-! ## Who has the blocks -/

/-- The blocks that `read_data` has. -/
def ReaderThread.blocks : ReaderThread → List (ℕ × ℕ)
  | allocating => []
  | allocatingHash p => [(p, dataLen)]
  | reading p q | ending p q | finished p q => [(p, dataLen), (q, hashLen)]
  | hashing b _ | pushing b => b.blocks

/-- The read buffer that `upload_file` has, with both its blocks. -/
def UploadThread.held (b : ReadStruct) : UploadThread → List ReadStruct
  | receiving | packing _ _ _ | freeing _ => [b]
  | filling _ | sending _ => if b.chunkNum = 0 then [] else [b]
  | _ => []

/-- The blocks that `upload_file` has. -/
def UploadThread.blocks (b : ReadStruct) : UploadThread → List (ℕ × ℕ)
  | freeingHash _ => [(b.hashBuffer, hashLen)]
  | uploader => (uploader.held b).flatMap ReadStruct.blocks

/-- A buffer that `upload_file` has is there with its blocks. -/
theorem UploadThread.mem_blocks {uploader : UploadThread} {c : ReadStruct} {d : ℕ × ℕ}
    (h : b ∈ uploader.held c) (hd : d ∈ b.blocks) : d ∈ uploader.blocks c := by
  cases uploader with
  | freeingHash => cases h
  | _ => exact List.mem_flatMap.mpr ⟨b, h, hd⟩

/-- How much has been packed, and how much can be. -/
def UploadThread.Fits (b : ReadStruct) : UploadThread → Prop
  | packing i _ occupied => i ≤ b.chunkNum ∧ occupied ≤ i * CHUNKSIZE
  | freeing occupied | freeingHash occupied | popping occupied | filling occupied | sending occupied =>
    occupied ≤ dataLen
  | _ => True

namespace ReadAhead

variable {σ τ : ReadAhead} {h₀ : Heap}

/-- The blocks of the buffers that `read_data` has handed over. -/
def handedOver (σ : ReadAhead) : List (ℕ × ℕ) :=
  σ.readBufferQueue.queue.flatMap ReadStruct.blocks ++ σ.uploader.blocks σ.readBuffer

/-- **All blocks** that have been allocated and not freed. -/
def blocks (σ : ReadAhead) : List (ℕ × ℕ) := σ.reader.blocks ++ σ.handedOver

/-- The batches that `read_data` has still to push. -/
def coming (env : Env) (σ : ReadAhead) : List ReadBuffer :=
  match σ.reader with
  | .hashing b _ | .pushing b => b.batch env σ.heap :: readData env σ.fileStream
  | _ => readData env σ.fileStream

/-- **The batches that `upload_file` has still to pop.** -/
def ahead (env : Env) (σ : ReadAhead) : List ReadBuffer :=
  σ.readBufferQueue.queue.map (·.value σ.heap) ++ σ.coming env

/-- What `read_data` has done. -/
def ReaderSound (env : Env) (σ : ReadAhead) : Prop :=
  match σ.reader with
  | .hashing b i => b.Hashed env σ.heap i ∧ i ≤ b.chunkNum
  | .pushing b => b.Hashed env σ.heap b.chunkNum
  | .ending _ _ | .finished _ _ => σ.fileStream = []
  | _ => True

/-- **What every step keeps.** -/
structure Sound (env : Env) (h₀ : Heap) (σ : ReadAhead) : Prop where
  sound : σ.faulted = false
  allocated : Heap.Allocated h₀ σ.heap σ.blocks
  reader : σ.ReaderSound env
  queue : ∀ b ∈ σ.readBufferQueue.queue, b.Hashed env σ.heap b.chunkNum
  held : ∀ b ∈ σ.uploader.held σ.readBuffer, b.Hashed env σ.heap b.chunkNum
  done : σ.readBufferQueue.done = true ↔ ∃ p q, σ.reader = .finished p q
  fits : σ.uploader.Fits σ.readBuffer
  outData : σ.outData.length = outLen
  inData : σ.inData.length = inLen

theorem sound_init (env : Env) (h₀ : Heap) (file : Bytes) (queueSize : ℕ) (readBuffer : ReadStruct)
    (outHeader : DataMsgHeader) {outData inData : Bytes} (hout : outData.length = outLen)
    (hin : inData.length = inLen) :
    Sound env h₀ (init h₀ file queueSize readBuffer outHeader outData inData) where
  sound := rfl
  allocated := Heap.allocated_nil h₀
  reader := trivial
  queue b hb := by cases hb
  held b hb := by cases hb
  done := by simp [init, BlockQueueState.new]
  fits := Nat.zero_le _
  outData := hout
  inData := hin

/-- **A buffer that has been handed over** is as it was while its blocks are. -/
theorem Sound.handedOver_congr (h : σ.Sound env h₀) {heap : Heap}
    (hsame : ∀ c ∈ σ.handedOver, heap c.1 = σ.heap c.1) :
    (∀ b ∈ σ.readBufferQueue.queue, b.Hashed env heap b.chunkNum) ∧
      (∀ b ∈ σ.uploader.held σ.readBuffer, b.Hashed env heap b.chunkNum) ∧
      σ.readBufferQueue.queue.map (·.value heap) = σ.readBufferQueue.queue.map (·.value σ.heap) := by
  have hqueue : ∀ b ∈ σ.readBufferQueue.queue, ∀ c ∈ b.blocks, heap c.1 = σ.heap c.1 :=
    fun b hb c hc => hsame c (List.mem_append_left _ (List.mem_flatMap.mpr ⟨b, hb, hc⟩))
  refine ⟨fun b hb => (h.queue b hb).congr (hqueue b hb), fun b hb => (h.held b hb).congr fun c hc => ?_,
    List.map_congr_left fun b hb => ReadStruct.value_congr (hqueue b hb)⟩
  exact hsame c (List.mem_append_right _ (UploadThread.mem_blocks hb hc))

/-! ## What `read_data` does -/

/-- **What a step of `read_data` leaves alone.** -/
structure Background (env : Env) (σ τ : ReadAhead) : Prop where
  ahead : τ.ahead env = σ.ahead env
  handedOver : ∀ c ∈ σ.handedOver, τ.heap c.1 = σ.heap c.1
  uploader : τ.uploader = σ.uploader
  readBuffer : τ.readBuffer = σ.readBuffer
  outHeader : τ.outHeader = σ.outHeader
  outData : τ.outData = σ.outData
  inData : τ.inData = σ.inData
  received : τ.received = σ.received
  sent : τ.sent = σ.sent

/-- A step of `read_data` that hands over nothing: with the new blocks of `read_data`, and a heap in which
those that have been handed over are as they were. -/
theorem Sound.reads (h : σ.Sound env h₀) (heap : Heap) (fileStream : Bytes) {reader : ReaderThread}
    (hopen : ∀ p q, σ.reader ≠ .finished p q) (hopen' : ∀ p q, reader ≠ .finished p q)
    (halloc : Heap.Allocated h₀ heap (reader.blocks ++ σ.handedOver))
    (hsame : ∀ c ∈ σ.handedOver, heap c.1 = σ.heap c.1)
    (hreader : ReaderSound env { σ with heap := heap, fileStream := fileStream, reader := reader })
    (hcoming : coming env { σ with heap := heap, fileStream := fileStream, reader := reader }
      = σ.coming env) :
    Sound env h₀ { σ with heap := heap, fileStream := fileStream, reader := reader } ∧
      Background env σ { σ with heap := heap, fileStream := fileStream, reader := reader } := by
  obtain ⟨hqueue, hheld, hvalues⟩ := h.handedOver_congr hsame
  refine ⟨⟨h.sound, halloc, hreader, hqueue, hheld, ?_, h.fits, h.outData, h.inData⟩, ?_, hsame, rfl, rfl, rfl,
    rfl, rfl, rfl, rfl⟩
  · rw [h.done]
    refine iff_of_false ?_ ?_
    · rintro ⟨p, q, hfin⟩
      exact hopen p q hfin
    · rintro ⟨p, q, hfin⟩
      exact hopen' p q hfin
  · rw [ReadAhead.ahead, ReadAhead.ahead, hcoming]
    dsimp only
    rw [hvalues]

/-- **The read of a batch.** -/
theorem Sound.readBatch (h : σ.Sound env h₀) {p q : ℕ} (hpc : σ.reader = .reading p q) :
    (σ.readBatch p q).Sound env h₀ ∧ Background env σ (σ.readBatch p q) := by
  have halloc := h.allocated
  rw [blocks, hpc] at halloc
  have hopen : ∀ p' q', σ.reader ≠ .finished p' q' := by simp [hpc]
  have hcoming : σ.coming env = readData env σ.fileStream := by rw [coming, hpc]
  unfold ReadAhead.readBatch
  dsimp only
  split
  · rename_i hlen
    have hnil : σ.fileStream = [] := by
      rw [← List.length_eq_zero_iff]
      simp only [dataLen, CHUNKSIZE, BATCHSIZE] at hlen
      omega
    exact h.reads σ.heap σ.fileStream hopen (by simp) halloc
      (fun c _ => rfl) hnil hcoming.symm
  · rename_i hlen
    have hne : σ.fileStream ≠ [] := by
      intro hnil
      simp [hnil] at hlen
    have hlength : (σ.fileStream.take dataLen).length = min σ.fileStream.length dataLen := by
      rw [List.length_take, min_comm]
    have hroom : 0 + (σ.fileStream.take dataLen).length ≤ dataLen := by
      rw [hlength]
      omega
    obtain ⟨heap, hstore⟩ := halloc.owned.exists_store hroom
    obtain ⟨-, hread, hother⟩ := halloc.owned.store hstore
    rw [hstore]
    -- what has been read is what the buffer contains
    have hdata : heap.read p (min σ.fileStream.length dataLen) = σ.fileStream.take dataLen := by
      rw [Nat.zero_add, hlength] at hread
      rw [hread]
      simp [Heap.read]
    refine h.reads _ _ hopen (by simp) (halloc.store hstore) (fun c hc => hother _ ?_) ⟨?_, Nat.zero_le _⟩ ?_
    · exact halloc.owned.ne (List.mem_cons_of_mem _ hc)
    · refine ⟨Nat.pos_of_ne_zero hlen, min_le_right _ _, rfl, ?_, ?_⟩
      · rw [hdata, hlength]
      · simp [Heap.read]
    · rw [hcoming, readData_of_ne_nil env hne]
      simp only [coming, ReadStruct.batch, hdata]
      rfl

/-- **A chunk is hashed**, or all of them have been. -/
theorem Sound.hashChunk (h : σ.Sound env h₀) {b : ReadStruct} {i : ℕ} (hpc : σ.reader = .hashing b i) :
    (σ.hashChunk env b i).Sound env h₀ ∧ Background env σ (σ.hashChunk env b i) := by
  have halloc := h.allocated
  rw [blocks, hpc] at halloc
  have hopen : ∀ p' q', σ.reader ≠ .finished p' q' := by simp [hpc]
  have hcoming : σ.coming env = b.batch env σ.heap :: readData env σ.fileStream := by rw [coming, hpc]
  obtain ⟨hhashed, hle⟩ : b.Hashed env σ.heap i ∧ i ≤ b.chunkNum := by
    have hreader := h.reader
    rwa [ReaderSound, hpc] at hreader
  unfold ReadAhead.hashChunk
  split
  · rename_i hi
    have hload := hhashed.loadChunk halloc.owned List.mem_cons_self hi
    -- the hash goes to the second block
    have hperm : (b.blocks ++ σ.handedOver).Perm
        ((b.hashBuffer, hashLen) :: (b.dataBuffer, dataLen) :: σ.handedOver) := List.Perm.swap _ _ _
    have halloc' := halloc.perm hperm
    have hroom : i * HASHSIZE + (env.generateHash ((b.batch env σ.heap).chunk i)).length ≤ hashLen := by
      have := hhashed.chunkNum_le.2
      rw [env.length_generateHash]
      simp only [hashLen, HASHSIZE, BATCHSIZE] at this ⊢
      omega
    obtain ⟨heap, hstore⟩ := halloc'.owned.exists_store hroom
    obtain ⟨-, hread, hother⟩ := halloc'.owned.store hstore
    have hdata : heap b.dataBuffer = σ.heap b.dataBuffer :=
      hother _ (halloc'.owned.ne (List.mem_cons_self : (b.dataBuffer, dataLen) ∈ _ :: _))
    rw [env.length_generateHash, ← Nat.succ_mul] at hread
    rw [hload, Option.bind_some, hstore]
    refine h.reads _ σ.fileStream hopen (by simp) ((halloc'.store hstore).perm hperm.symm)
      (fun c hc => hother _ (halloc'.owned.ne (List.mem_cons_of_mem _ hc))) ⟨⟨hhashed.pos, hhashed.le,
        hhashed.chunkNum, ?_, ?_⟩, hi⟩ ?_
    · rw [Heap.read_congr hdata]
      exact hhashed.length
    · rw [ReadStruct.batch_congr hdata, List.range_succ, List.map_append, List.flatMap_append,
        ← hhashed.hashes]
      exact hread.trans (by simp)
    · simp only [coming, hpc, ReadStruct.batch_congr hdata]
  · rename_i hi
    obtain rfl : i = b.chunkNum := by omega
    exact h.reads σ.heap σ.fileStream hopen (by simp) halloc (fun c _ => rfl)
      hhashed hcoming.symm

/-- **A buffer is pushed**: its blocks and its batch are in the queue from then on. -/
theorem Sound.pushBuffer (h : σ.Sound env h₀) {b : ReadStruct} {q : BlockQueueState ReadStruct}
    (hpc : σ.reader = .pushing b) (hpush : σ.readBufferQueue.push b = some q) :
    Sound env h₀ { σ with readBufferQueue := q, reader := .allocating } ∧
      Background env σ { σ with readBufferQueue := q, reader := .allocating } := by
  obtain ⟨hqueue, -, hdone, -⟩ := BlockQueueState.push_eq_some hpush
  have halloc := h.allocated
  rw [blocks, hpc] at halloc
  have hhashed : b.Hashed env σ.heap b.chunkNum := by
    have hreader := h.reader
    rwa [ReaderSound, hpc] at hreader
  refine ⟨⟨h.sound, ?_, trivial, ?_, h.held, ?_, h.fits, h.outData, h.inData⟩,
    ⟨?_, fun c _ => rfl, rfl, rfl, rfl, rfl, rfl, rfl, rfl⟩⟩
  · refine halloc.perm ?_
    simp only [blocks, handedOver, ReaderThread.blocks, hqueue, List.flatMap_append, List.flatMap_cons,
      List.flatMap_nil, List.append_nil, List.nil_append]
    rw [← List.append_assoc]
    exact List.perm_append_comm.append_right _
  · intro c hc
    dsimp only at hc
    rw [hqueue] at hc
    rcases List.mem_append.mp hc with hc | hc
    · exact h.queue c hc
    · obtain rfl := List.mem_singleton.mp hc
      exact hhashed
  · rw [hdone, h.done]
    simp [hpc]
  · simp only [ahead, coming, hqueue, hpc, List.map_append, List.map_cons, List.map_nil,
      List.append_assoc, List.singleton_append, hhashed.value]

/-- **`set_done`.** -/
theorem Sound.setDone (h : σ.Sound env h₀) {p q : ℕ} (hpc : σ.reader = .ending p q) :
    Sound env h₀ { σ with readBufferQueue := σ.readBufferQueue.setDone, reader := .finished p q } ∧
      Background env σ { σ with
        readBufferQueue := σ.readBufferQueue.setDone, reader := .finished p q } := by
  have halloc := h.allocated
  rw [blocks, hpc] at halloc
  have hnil : σ.fileStream = [] := by
    have hreader := h.reader
    rwa [ReaderSound, hpc] at hreader
  refine ⟨⟨h.sound, halloc, hnil, h.queue, h.held, ?_, h.fits, h.outData, h.inData⟩,
    ⟨?_, fun c _ => rfl, rfl, rfl, rfl, rfl, rfl, rfl, rfl⟩⟩
  · simp [BlockQueueState.setDone]
  · simp only [ahead, coming, hpc, BlockQueueState.setDone]

/-- **`malloc`** gives `read_data` a block of its own. -/
theorem Sound.mallocStep (h : σ.Sound env h₀) {p : ℕ} {block : Block}
    (hstep : σ.mallocStep p block = some τ) : τ.Sound env h₀ ∧ Background env σ τ := by
  have hother : ∀ {heap}, σ.heap.malloc p block = some heap →
      ∀ c ∈ σ.handedOver, heap c.1 = σ.heap c.1 := by
    intro heap hnew c hc
    refine (h.allocated.owned.malloc hnew).2 _ ?_
    exact (h.allocated.owned.malloc hnew).1.ne (List.mem_append_right _ hc)
  unfold ReadAhead.mallocStep at hstep
  split at hstep
  on_goal 3 => cases hstep
  all_goals
    rename_i hpc
    split_ifs at hstep with hsize
    obtain ⟨heap, hnew, rfl⟩ := Option.map_eq_some_iff.mp hstep
    have halloc := h.allocated.malloc hnew
    rw [blocks, hpc, hsize] at halloc
  · exact h.reads _ σ.fileStream (by simp [hpc]) (by simp) halloc (hother hnew) trivial
      (by simp only [coming, hpc])
  · exact h.reads _ σ.fileStream (by simp [hpc]) (by simp)
      (halloc.perm (List.Perm.swap _ _ _)) (hother hnew) trivial (by simp only [coming, hpc])

/-- **Every step of `read_data`** is sound, and changes nothing for `upload_file`. -/
theorem Sound.readerStep (h : σ.Sound env h₀) (hstep : σ.readerStep env = some τ) :
    τ.Sound env h₀ ∧ Background env σ τ := by
  unfold ReadAhead.readerStep at hstep
  split at hstep
  · rename_i hpc
    obtain rfl := Option.some.inj hstep
    exact h.readBatch hpc
  · rename_i hpc
    obtain rfl := Option.some.inj hstep
    exact h.hashChunk hpc
  · rename_i hpc
    obtain ⟨q, hpush, rfl⟩ := Option.map_eq_some_iff.mp hstep
    exact h.pushBuffer hpc hpush
  · rename_i hpc
    obtain rfl := Option.some.inj hstep
    exact h.setDone hpc
  · cases hstep

/-! ## What `upload_file` does -/

/-- **What has not been popped** is as it was while the blocks are that `upload_file` does not have. -/
theorem Sound.ahead_congr (h : σ.Sound env h₀) (heap : Heap)
    (hsame : ∀ c ∈ σ.reader.blocks ++ σ.readBufferQueue.queue.flatMap ReadStruct.blocks,
      heap c.1 = σ.heap c.1) :
    ReaderSound env { σ with heap := heap } ∧
      (∀ b ∈ σ.readBufferQueue.queue, b.Hashed env heap b.chunkNum) ∧
      ahead env { σ with heap := heap } = σ.ahead env := by
  have hqueue : ∀ b ∈ σ.readBufferQueue.queue, ∀ c ∈ b.blocks, heap c.1 = σ.heap c.1 :=
    fun b hb c hc => hsame c (List.mem_append_right _ (List.mem_flatMap.mpr ⟨b, hb, hc⟩))
  have hreader : ∀ c ∈ σ.reader.blocks, heap c.1 = σ.heap c.1 :=
    fun c hc => hsame c (List.mem_append_left _ hc)
  have hvalues : σ.readBufferQueue.queue.map (·.value heap) = σ.readBufferQueue.queue.map (·.value σ.heap) :=
    List.map_congr_left fun b hb => ReadStruct.value_congr (hqueue b hb)
  have hsound := h.reader
  refine ⟨?_, fun b hb => (h.queue b hb).congr (hqueue b hb), ?_⟩
  · unfold ReaderSound at hsound ⊢
    cases hpc : σ.reader with
    | hashing b i =>
      simp only [hpc] at hsound hreader ⊢
      exact ⟨hsound.1.congr hreader, hsound.2⟩
    | pushing b =>
      simp only [hpc] at hsound hreader ⊢
      exact hsound.congr hreader
    | ending p q | finished p q =>
      simp only [hpc] at hsound ⊢
      exact hsound
    | allocating | allocatingHash | reading => trivial
  · simp only [ahead, hvalues]
    congr 1
    unfold coming
    cases hpc : σ.reader with
    | hashing b i | pushing b =>
      simp only [hpc] at hreader ⊢
      rw [ReadStruct.batch_congr (hreader (b.dataBuffer, dataLen) List.mem_cons_self)]
    | _ => rfl

/-- `upload_file` frees a block. -/
theorem Sound.frees (h : σ.Sound env h₀) {p n : ℕ} {uploader : UploadThread} {rest : List (ℕ × ℕ)}
    (hblocks : σ.uploader.blocks σ.readBuffer = (p, n) :: rest)
    (hblocks' : uploader.blocks σ.readBuffer = rest) (hheld : uploader.held σ.readBuffer = [])
    (hfits : uploader.Fits σ.readBuffer) :
    ∃ heap, σ.heap.free p = some heap ∧ Sound env h₀ { σ with heap := heap, uploader := uploader } ∧
      ahead env { σ with heap := heap, uploader := uploader } = σ.ahead env := by
  have hperm : σ.blocks.Perm
      ((p, n) :: (σ.reader.blocks ++ (σ.readBufferQueue.queue.flatMap ReadStruct.blocks ++ rest))) := by
    rw [blocks, handedOver, hblocks, ← List.append_assoc, ← List.append_assoc]
    exact List.perm_middle
  have halloc := h.allocated.perm hperm
  obtain ⟨heap, hfree⟩ := halloc.owned.exists_free
  have hother := (halloc.owned.free hfree).2
  obtain ⟨hreader, hqueue, hahead⟩ := h.ahead_congr heap fun c hc =>
    hother _ (halloc.owned.ne (by
      rw [← List.append_assoc]
      exact List.mem_append_left _ hc))
  refine ⟨heap, hfree, ⟨h.sound, ?_, hreader, hqueue, ?_, h.done, hfits, h.outData, h.inData⟩, hahead⟩
  · simp only [blocks, handedOver, hblocks']
    exact halloc.free hfree
  · intro b hb
    dsimp only at hb
    rw [hheld] at hb
    cases hb

end ReadAhead

/-! ## Replies -/

/-- A reply fits into `m_inMsgBuffer`. -/
def ReadAheadAct.Fits : ReadAheadAct → Prop
  | reply msg => msg.data.length ≤ inLen
  | _ => True

/-- **A reply fits and has an answer for each chunk** of the last batch. -/
def ReadAhead.answered : Machine.Condition ReadAhead ReadAheadAct := fun σ a _ =>
  match a with
  | .reply msg => σ.readBuffer.chunkNum ≤ msg.data.length ∧ msg.data.length ≤ inLen
  | _ => True

/-! ## The reactive client -/

namespace Client

/-- **The reactive client** after it has received some messages, and what it has sent. -/
def reacts (env : Env) (c : Client) (ms : List Msg) : Option (Client × List Msg) :=
  ms.foldlM (fun st m => (st.1.react env m).map fun r => (r.1, st.2 ++ r.2)) (c, [])

/-- One message more. -/
theorem reacts_concat (env : Env) (c : Client) (ms : List Msg) (m : Msg) :
    c.reacts env (ms ++ [m]) = (c.reacts env ms).bind fun st =>
      (st.1.react env m).map fun r => (r.1, st.2 ++ r.2) := by
  simp [reacts]

/-- A client stays what it is. -/
theorem rogue_sendBatch (c : Client) (chunkData : Bytes) : (c.sendBatch chunkData).1.rogue = c.rogue := by
  unfold sendBatch sendBody
  split
  · split_ifs <;> rfl
  · rfl

@[simp] theorem rogue_continueUpload (c : Client) (reply : DataMsg) :
    (c.continueUpload reply).1.rogue = c.rogue :=
  rogue_sendBatch _ _

end Client

namespace ReadAhead

variable {σ τ : ReadAhead} {h₀ : Heap}

/-- **What `upload_file` has still to do in one call**: the client after the call, and the messages that have
not been sent, as the reactive client has them. -/
def Owes (env : Env) (σ : ReadAhead) (r : Client × List Msg) : Prop :=
  match σ.uploader with
  | .receiving => r.2 = [] ∧ r.1.readBuffer = σ.readBuffer.value σ.heap ∧
      r.1.readBufferQueue = σ.ahead env ∧ r.1.outHeader = σ.outHeader ∧
      σ.outHeader.dataMsgType = .UPLOADBODY ∧ r.1.pc = .awaitBodyRep
  | .packing i currentUniqueNum occupied => ∃ c : Client, ∃ reply : DataMsg, ∃ packed : List Bytes,
      (∀ k < σ.readBuffer.chunkNum, σ.inData[k]? = some (reply.data.getD k 0)) ∧
      r = c.continueUpload reply ∧ c.readBuffer = σ.readBuffer.value σ.heap ∧
      c.readBufferQueue = σ.ahead env ∧ c.outHeader = σ.outHeader ∧
      σ.outHeader.dataMsgType = .UPLOADBODY ∧
      packed = ((List.range i).filter fun k => reply.data.getD k 0 = 1).map c.readBuffer.chunk ∧
      currentUniqueNum = packed.length ∧ occupied = packed.flatten.length ∧
      σ.outData.take occupied = packed.flatten
  | .freeing occupied | .freeingHash occupied | .popping occupied => ∃ c : Client, ∃ chunkData : Bytes,
      r = c.sendBatch chunkData ∧ c.readBufferQueue = σ.ahead env ∧
      σ.outHeader = { c.outHeader with dataMsgType := .UPLOADBODY } ∧
      occupied = chunkData.length ∧ σ.outData.take occupied = chunkData
  | .filling occupied => ∃ c : Client, ∃ chunkData hashes : Bytes,
      r = c.sendBody chunkData hashes σ.readBuffer.chunkNum ∧ c.readBufferQueue = σ.ahead env ∧
      σ.outHeader = { c.outHeader with dataMsgType := .UPLOADBODY } ∧
      occupied = chunkData.length ∧ σ.outData.take occupied = chunkData ∧
      (σ.readBuffer.chunkNum = 0 → hashes = []) ∧
      (σ.readBuffer.chunkNum ≠ 0 → c.readBuffer = σ.readBuffer.value σ.heap ∧
        hashes = c.readBuffer.hashBuffer.take (c.readBuffer.chunkNum * HASHSIZE))
  | .sending occupied => ∃ c : Client, ∃ chunkData hashes : Bytes,
      r = c.sendBody chunkData hashes σ.readBuffer.chunkNum ∧ c.readBufferQueue = σ.ahead env ∧
      σ.outHeader = { c.outHeader with
        dataMsgType := .UPLOADBODY, queryNum := σ.readBuffer.chunkNum, start := chunkData.length } ∧
      occupied = chunkData.length ∧
      σ.outData.take (occupied + σ.readBuffer.chunkNum * HASHSIZE) = chunkData ++ hashes ∧
      (σ.readBuffer.chunkNum ≠ 0 → c.readBuffer = σ.readBuffer.value σ.heap)
  | .ending => r.2 =
      [.data ⟨{ σ.outHeader with dataMsgType := .FILEEND, size := sizeofDataMsg }, []⟩,
        .control .QUIT [] .NONE] ∧ r.1.pc = .awaitQuitRep
  | .quitting => r.2 = [.control .QUIT [] .NONE] ∧ r.1.pc = .awaitQuitRep
  | .finished => r.2 = [] ∧ r.1.pc = .awaitQuitRep

/-- **The two threads and the reactive client agree** on what has been sent since the message `granted`, the
reply to the request, when the client has received `replies` since. -/
def Agrees (env : Env) (c₀ : Client) (granted : Msg) (replies : List DataMsg) (σ : ReadAhead) : Prop :=
  ∃ c ms, c₀.reacts env (granted :: replies.map .data) = some (c, σ.sent ++ ms) ∧ c.rogue = false ∧
    σ.Owes env (c, ms)

/-- What `read_data` does is nothing to the agreement. -/
theorem Background.owes {r : Client × List Msg} (h : Background env σ τ) (ho : σ.Owes env r) :
    τ.Owes env r := by
  have hvalue : ∀ b ∈ σ.uploader.held σ.readBuffer, b.value τ.heap = b.value σ.heap := fun b hb =>
    ReadStruct.value_congr fun c hc =>
      h.handedOver c (List.mem_append_right _ (UploadThread.mem_blocks hb hc))
  unfold Owes at ho ⊢
  rw [h.uploader, h.readBuffer, h.outHeader, h.outData, h.inData, h.ahead]
  cases hpc : σ.uploader with
  | receiving | packing =>
    simp only [hpc] at ho ⊢
    rwa [hvalue σ.readBuffer (by simp [hpc, UploadThread.held])]
  | filling | sending =>
    simp only [hpc] at ho ⊢
    by_cases hnum : σ.readBuffer.chunkNum = 0
    · simpa [hnum] using ho
    · rwa [hvalue σ.readBuffer (by simp [hpc, UploadThread.held, hnum])]
  | _ =>
    simp only [hpc] at ho ⊢
    exact ho

/-- Bytes that are copied behind what is in the message. -/
theorem take_fill {outData chunkData bs : Bytes} (hout : outData.length = outLen)
    (hroom : chunkData.length + bs.length ≤ outLen) (h : outData.take chunkData.length = chunkData) :
    (overwrite outData chunkData.length bs).length = outLen ∧
      (overwrite outData chunkData.length bs).take (chunkData.length + bs.length) = chunkData ++ bs := by
  refine ⟨(length_overwrite (hout ▸ hroom)).trans hout, ?_⟩
  rw [take_overwrite (by omega), h]

/-- The chunks that are packed up to `i`, and then chunk `i` if it is asked for. -/
theorem packed_succ (answers : Bytes) (chunk : ℕ → Bytes) (i : ℕ) :
    ((List.range (i + 1)).filter fun k => answers.getD k 0 = 1).map chunk =
      ((List.range i).filter fun k => answers.getD k 0 = 1).map chunk ++
        if answers.getD i 0 = 1 then [chunk i] else [] := by
  rw [List.range_succ, List.filter_append, List.map_append, List.filter_singleton]
  by_cases hone : answers.getD i 0 = 1
  · rw [decide_eq_true hone, if_pos hone]
    rfl
  · rw [decide_eq_false hone, if_neg hone]
    rfl

/-- **A chunk is packed**, or all of them have been. -/
theorem Sound.packChunk (h : σ.Sound env h₀) {i num occupied : ℕ}
    (hpc : σ.uploader = .packing i num occupied) {r : Client × List Msg} (ho : σ.Owes env r) :
    (σ.packChunk i num occupied).Sound env h₀ ∧ (σ.packChunk i num occupied).Owes env r := by
  have halloc := h.allocated
  have hhashed : σ.readBuffer.Hashed env σ.heap σ.readBuffer.chunkNum :=
    h.held _ (by simp [hpc, UploadThread.held])
  have hdata : (σ.readBuffer.dataBuffer, dataLen) ∈ σ.blocks := by
    simp [blocks, handedOver, hpc, UploadThread.blocks, UploadThread.held, ReadStruct.blocks]
  have hblocks : ∀ {k m o}, UploadThread.blocks σ.readBuffer (.packing k m o)
      = σ.uploader.blocks σ.readBuffer := by
    intro k m o
    simp only [hpc, UploadThread.blocks, UploadThread.held]
  obtain ⟨hi, hocc⟩ : i ≤ σ.readBuffer.chunkNum ∧ occupied ≤ i * CHUNKSIZE := by
    have hfits := h.fits
    rwa [hpc] at hfits
  have hmax := hhashed.chunkNum_le.2
  obtain ⟨c, reply, packed, hreads, hr, hbuf, hahead, hheader, htype, hpacked, hnum, hoccupied, hout⟩ :
      ∃ c : Client, ∃ reply : DataMsg, ∃ packed : List Bytes,
        (∀ k < σ.readBuffer.chunkNum, σ.inData[k]? = some (reply.data.getD k 0)) ∧
        r = c.continueUpload reply ∧ c.readBuffer = σ.readBuffer.value σ.heap ∧
        c.readBufferQueue = σ.ahead env ∧ c.outHeader = σ.outHeader ∧
        σ.outHeader.dataMsgType = .UPLOADBODY ∧
        packed = ((List.range i).filter fun k => reply.data.getD k 0 = 1).map c.readBuffer.chunk ∧
        num = packed.length ∧ occupied = packed.flatten.length ∧
        σ.outData.take occupied = packed.flatten := by
    simpa only [Owes, hpc] using ho
  have hheld : ∀ b ∈ [σ.readBuffer], b.Hashed env σ.heap b.chunkNum := by
    intro b hb
    obtain rfl := List.mem_singleton.mp hb
    exact hhashed
  unfold ReadAhead.packChunk
  split
  · rename_i hlt
    have hmul : (i + 1) * CHUNKSIZE = i * CHUNKSIZE + CHUNKSIZE := by ring
    rw [hreads i hlt]
    dsimp only
    split
    · rename_i hone
      have hlen := hhashed.length_chunk hlt
      have hchunk : (σ.readBuffer.batch env σ.heap).chunk i = c.readBuffer.chunk i := by
        rw [hbuf, hhashed.value]
      have hroom : occupied + ((σ.readBuffer.batch env σ.heap).chunk i).length ≤ outLen := by
        simp only [outLen, CHUNKSIZE, HASHSIZE, BATCHSIZE] at hocc hmax hlen ⊢
        omega
      rw [hhashed.loadChunk halloc.owned hdata hlt]
      dsimp only
      rw [ReadAhead.fill, if_pos hroom]
      subst hoccupied
      obtain ⟨hlength, htake⟩ := take_fill h.outData hroom hout
      refine ⟨⟨h.sound, ?_, h.reader, h.queue, hheld, h.done, ⟨hlt, by omega⟩, hlength, h.inData⟩, ?_⟩
      · rw [blocks, handedOver, ← hblocks] at halloc
        exact halloc
      · -- one chunk more has been packed
        refine ⟨c, reply, packed ++ [c.readBuffer.chunk i], hreads, hr, hbuf, hahead, hheader, htype,
          ?_, ?_, ?_, ?_⟩
        · rw [packed_succ, hpacked, if_pos hone]
        · rw [hnum, List.length_append, List.length_singleton]
        · simp [hchunk]
        · rw [htake, hchunk]
          simp
    · rename_i hzero
      refine ⟨⟨h.sound, ?_, h.reader, h.queue, hheld, h.done, ⟨hlt, by omega⟩, h.outData, h.inData⟩, ?_⟩
      · rw [blocks, handedOver, ← hblocks] at halloc
        exact halloc
      · refine ⟨c, reply, packed, hreads, hr, hbuf, hahead, hheader, htype, ?_, hnum, hoccupied, hout⟩
        rw [packed_succ, hpacked, if_neg hzero, List.append_nil]
  · rename_i hge
    obtain rfl : i = σ.readBuffer.chunkNum := by omega
    refine ⟨⟨h.sound, ?_, h.reader, h.queue, hheld, h.done, ?_, h.outData, h.inData⟩, ?_⟩
    · have hsame : UploadThread.blocks σ.readBuffer (.freeing occupied)
          = σ.uploader.blocks σ.readBuffer := by
        simp only [hpc, UploadThread.blocks, UploadThread.held]
      rw [blocks, handedOver, ← hsame] at halloc
      exact halloc
    · have hle := Nat.mul_le_mul_right CHUNKSIZE hmax
      rw [Nat.mul_comm BATCHSIZE] at hle
      exact hocc.trans hle
    · have hall : packed = Client.packChunks c.readBuffer reply.data := by
        rw [hpacked, Client.packChunks, hbuf]
        rfl
      refine ⟨{ c with outHeader := { c.outHeader with chunkNum := packed.length } }, packed.flatten, ?_,
        hahead, ?_, hoccupied, hout⟩
      · rw [hr, Client.continueUpload, ← hall]
      · rw [hheader, hnum, ← htype]

/-- **A block is freed.** -/
theorem Sound.freeStep (h : σ.Sound env h₀) {p n occupied : ℕ} (uploader : UploadThread)
    {rest : List (ℕ × ℕ)} (hblocks : σ.uploader.blocks σ.readBuffer = (p, n) :: rest)
    (hblocks' : uploader.blocks σ.readBuffer = rest) (hheld : uploader.held σ.readBuffer = [])
    (hpc : σ.uploader = .freeing occupied ∨ σ.uploader = .freeingHash occupied)
    (hpc' : uploader = .freeingHash occupied ∨ uploader = .popping occupied) {r : Client × List Msg}
    (ho : σ.Owes env r) :
    ∃ heap, σ.heap.free p = some heap ∧ Sound env h₀ { σ with heap := heap, uploader := uploader } ∧
      Owes env { σ with heap := heap, uploader := uploader } r := by
  have hfits := h.fits
  obtain ⟨heap, hfree, hsound, hahead⟩ := h.frees hblocks hblocks' hheld (by
    rcases hpc with hpc | hpc <;> rcases hpc' with rfl | rfl <;> rwa [hpc] at hfits)
  refine ⟨heap, hfree, hsound, ?_⟩
  rcases hpc with hpc | hpc <;> rcases hpc' with rfl | rfl <;> simp only [Owes, hpc] at ho ⊢ <;>
    rwa [hahead]

/-- When `read_data` has finished and the queue is empty, nothing is to come. -/
theorem Sound.ahead_of_finished (h : σ.Sound env h₀) (hpop : σ.readBufferQueue.pop = .finished) :
    σ.ahead env = [] := by
  obtain ⟨hqueue, hdone⟩ := BlockQueueState.pop_eq_finished hpop
  obtain ⟨p, q, hfin⟩ := h.done.mp hdone
  have hnil := h.reader
  simp only [ReaderSound, hfin] at hnil
  simp [ahead, coming, hqueue, hfin, hnil]

/-- **A pop** gives the next batch, or tells that there is none. -/
theorem Sound.popBuffer (h : σ.Sound env h₀) {occupied : ℕ} (hpc : σ.uploader = .popping occupied)
    (hstep : σ.uploaderStep = some τ) {r : Client × List Msg} (ho : σ.Owes env r) :
    τ.Sound env h₀ ∧ τ.Owes env r ∧ τ.received = σ.received ∧ τ.sent = σ.sent := by
  have halloc := h.allocated
  have hfits := h.fits
  simp only [hpc, UploadThread.Fits] at hfits
  obtain ⟨c, chunkData, hr, hahead, hheader, hoccupied, hout⟩ : ∃ c : Client, ∃ chunkData : Bytes,
      r = c.sendBatch chunkData ∧ c.readBufferQueue = σ.ahead env ∧
      σ.outHeader = { c.outHeader with dataMsgType := .UPLOADBODY } ∧
      occupied = chunkData.length ∧ σ.outData.take occupied = chunkData := by
    simpa only [Owes, hpc] using ho
  simp only [uploaderStep, hpc] at hstep
  split at hstep
  · cases hstep
  · rename_i hpop
    obtain rfl := Option.some.inj hstep
    rw [h.ahead_of_finished hpop] at hahead
    refine ⟨⟨h.sound, ?_, h.reader, h.queue, fun b hb => by simp [UploadThread.held] at hb, h.done,
      hfits, h.outData, h.inData⟩, ?_, rfl, rfl⟩
    · simpa [blocks, handedOver, hpc, UploadThread.blocks, UploadThread.held] using halloc
    · refine ⟨{ c with readBuffer := { c.readBuffer with chunkNum := 0, dataSize := 0 } }, chunkData, [], ?_,
        ?_, hheader, hoccupied, hout, fun _ => rfl, fun hne => absurd rfl hne⟩
      · rw [hr, Client.sendBatch, hahead]
      · exact hahead.trans (h.ahead_of_finished hpop).symm
  · rename_i b q hpop
    obtain rfl := Option.some.inj hstep
    obtain ⟨hqueue, -, hdone, -⟩ := BlockQueueState.pop_eq_got hpop
    have hhashed := h.queue b (by rw [hqueue]; exact List.mem_cons_self)
    have hpos := hhashed.chunkNum_le.1
    have hnum : b.chunkNum ≠ 0 := by omega
    have hcons : σ.ahead env = b.value σ.heap :: (q.queue.map (·.value σ.heap) ++ σ.coming env) := by
      rw [ahead, hqueue]
      rfl
    rw [hcons] at hahead
    refine ⟨⟨h.sound, ?_, h.reader, fun c hc => h.queue c ?_, fun c hc => ?_, ?_, hfits, h.outData,
      h.inData⟩, ?_, rfl, rfl⟩
    · -- the blocks of the buffer change hands
      refine halloc.perm ?_
      simp only [blocks, handedOver, hpc, UploadThread.blocks, UploadThread.held, hqueue, hnum, if_false,
        List.flatMap_cons, List.flatMap_nil, List.append_nil]
      exact List.perm_append_comm.append_left _
    · rw [hqueue]
      exact List.mem_cons_of_mem _ hc
    · simp only [UploadThread.held, hnum, if_false, List.mem_singleton] at hc
      subst hc
      exact hhashed
    · rw [hdone]
      exact h.done
    · refine ⟨{ c with
          readBufferQueue := q.queue.map (·.value σ.heap) ++ σ.coming env
          readBuffer := b.value σ.heap }, chunkData, _, ?_, rfl, hheader, hoccupied, hout,
        fun hzero => absurd hzero hnum, fun _ => ⟨rfl, rfl⟩⟩
      rw [hr, Client.sendBatch, hahead]
      rfl

/-- **The hashes are copied** behind the chunks. -/
theorem Sound.fillHashes (h : σ.Sound env h₀) {occupied : ℕ} (hpc : σ.uploader = .filling occupied)
    {r : Client × List Msg} (ho : σ.Owes env r) :
    (σ.fillHashes occupied).Sound env h₀ ∧ (σ.fillHashes occupied).Owes env r ∧
      (σ.fillHashes occupied).received = σ.received ∧ (σ.fillHashes occupied).sent = σ.sent := by
  have halloc := h.allocated
  have hfits := h.fits
  simp only [hpc, UploadThread.Fits] at hfits
  obtain ⟨c, chunkData, hashes, hr, hahead, hheader, hoccupied, hout, hempty, hfull⟩ :
      ∃ c : Client, ∃ chunkData hashes : Bytes,
        r = c.sendBody chunkData hashes σ.readBuffer.chunkNum ∧ c.readBufferQueue = σ.ahead env ∧
        σ.outHeader = { c.outHeader with dataMsgType := .UPLOADBODY } ∧
        occupied = chunkData.length ∧ σ.outData.take occupied = chunkData ∧
        (σ.readBuffer.chunkNum = 0 → hashes = []) ∧
        (σ.readBuffer.chunkNum ≠ 0 → c.readBuffer = σ.readBuffer.value σ.heap ∧
          hashes = c.readBuffer.hashBuffer.take (c.readBuffer.chunkNum * HASHSIZE)) := by
    simpa only [Owes, hpc] using ho
  unfold ReadAhead.fillHashes
  dsimp only
  split
  · rename_i hzero
    refine ⟨⟨h.sound, ?_, h.reader, h.queue, fun b hb => by simp [UploadThread.held, hzero] at hb, h.done,
      hfits, h.outData, h.inData⟩, ?_, rfl, rfl⟩
    · simpa [blocks, handedOver, hpc, UploadThread.blocks, UploadThread.held] using halloc
    · refine ⟨c, chunkData, hashes, hr, hahead, ?_, hoccupied, ?_, fun hne => absurd hzero hne⟩
      · simp only [hheader, hoccupied]
      · simp only [hzero, Nat.zero_mul, Nat.add_zero, hempty hzero, List.append_nil]
        exact hout
  · rename_i hne
    obtain ⟨hbuf, hhashes⟩ := hfull hne
    have hhashed : σ.readBuffer.Hashed env σ.heap σ.readBuffer.chunkNum :=
      h.held _ (by simp [hpc, UploadThread.held, hne])
    have hmax := hhashed.chunkNum_le.2
    have hmem : (σ.readBuffer.hashBuffer, hashLen) ∈ σ.blocks := by
      simp [blocks, handedOver, hpc, UploadThread.blocks, UploadThread.held, ReadStruct.blocks, hne]
    have hbound : σ.readBuffer.chunkNum * HASHSIZE ≤ hashLen := by
      simp only [hashLen, HASHSIZE, BATCHSIZE] at hmax ⊢
      omega
    -- they are as long as they should be
    have hlen : (σ.heap.read σ.readBuffer.hashBuffer (σ.readBuffer.chunkNum * HASHSIZE)).length
        = σ.readBuffer.chunkNum * HASHSIZE := by
      obtain ⟨block, hblock, hsize⟩ := halloc.owned.live _ hmem
      rw [Heap.read, hblock, Option.elim_some, List.length_take, block.length_data, hsize]
      exact min_eq_left hbound
    have hsame : hashes = σ.heap.read σ.readBuffer.hashBuffer (σ.readBuffer.chunkNum * HASHSIZE) := by
      rw [hhashes, hbuf, ReadStruct.value, List.take_of_length_le hlen.le]
    have hroom : occupied + (σ.heap.read σ.readBuffer.hashBuffer
        (σ.readBuffer.chunkNum * HASHSIZE)).length ≤ outLen := by
      rw [hlen]
      simp only [outLen, dataLen, hashLen, CHUNKSIZE, HASHSIZE, BATCHSIZE] at hfits hbound ⊢
      omega
    rw [halloc.owned.load hmem hbound]
    dsimp only
    rw [ReadAhead.fill, if_pos hroom]
    subst hoccupied
    obtain ⟨hlength, htake⟩ := take_fill h.outData hroom hout
    refine ⟨⟨h.sound, ?_, h.reader, h.queue, fun b hb => ?_, h.done, hfits, hlength, h.inData⟩, ?_, rfl, rfl⟩
    · simpa [blocks, handedOver, hpc, UploadThread.blocks, UploadThread.held] using halloc
    · simp only [UploadThread.held, hne, if_false, List.mem_singleton] at hb
      subst hb
      exact hhashed
    · refine ⟨c, chunkData, hashes, hr, hahead, ?_, rfl, ?_, fun _ => hbuf⟩
      · simp only [hheader]
      · rw [hlen] at htake
        dsimp only
        rw [htake, hsame]

/-- **The message is sent**, and it is the one of the reactive client. -/
theorem Sound.sendBody (h : σ.Sound env h₀) {occupied : ℕ} (hpc : σ.uploader = .sending occupied)
    {c' : Client} {ms : List Msg} (ho : σ.Owes env (c', ms)) :
    (σ.sendBody occupied).Sound env h₀ ∧ ∃ m ms', ms = m :: ms' ∧
      (σ.sendBody occupied).sent = σ.sent ++ [m] ∧ (σ.sendBody occupied).Owes env (c', ms') := by
  have halloc := h.allocated
  have hheld := h.held
  obtain ⟨c, chunkData, hashes, hr, hahead, hheader, hoccupied, hout, hbuf⟩ :
      ∃ c : Client, ∃ chunkData hashes : Bytes,
        (c', ms) = c.sendBody chunkData hashes σ.readBuffer.chunkNum ∧ c.readBufferQueue = σ.ahead env ∧
        σ.outHeader = { c.outHeader with
          dataMsgType := .UPLOADBODY, queryNum := σ.readBuffer.chunkNum, start := chunkData.length } ∧
        occupied = chunkData.length ∧
        σ.outData.take (occupied + σ.readBuffer.chunkNum * HASHSIZE) = chunkData ++ hashes ∧
        (σ.readBuffer.chunkNum ≠ 0 → c.readBuffer = σ.readBuffer.value σ.heap) := by
    simpa only [Owes, hpc] using ho
  unfold ReadAhead.sendBody
  by_cases hzero : σ.readBuffer.chunkNum = 0
  · simp only [hzero, if_true]
    refine ⟨⟨h.sound, ?_, h.reader, h.queue, fun b hb => ?_, h.done, trivial, h.outData, h.inData⟩, ?_⟩
    · simpa [blocks, handedOver, hpc, UploadThread.blocks, UploadThread.held, hzero] using halloc
    · cases hb
    · simp only [Client.sendBody, Client.quit, hzero, if_true, Prod.mk.injEq] at hr
      obtain ⟨rfl, rfl⟩ := hr
      refine ⟨_, _, rfl, ?_, ?_⟩
      · rw [← hout, hzero, hheader, hoccupied]
        simp only [hzero]
      · simp only [Owes, hheader, hzero, and_self]
  · simp only [hzero, if_false]
    refine ⟨⟨h.sound, ?_, h.reader, h.queue, fun b hb => ?_, h.done, trivial, h.outData, h.inData⟩, ?_⟩
    · simpa [blocks, handedOver, hpc, UploadThread.blocks, UploadThread.held, hzero] using halloc
    · exact hheld b (by simpa [hpc, UploadThread.held, hzero] using hb)
    · simp only [Client.sendBody, hzero, if_false, Prod.mk.injEq] at hr
      obtain ⟨rfl, rfl⟩ := hr
      refine ⟨_, _, rfl, ?_, rfl, hbuf hzero, hahead, ?_, ?_, rfl⟩
      · rw [← hout, hheader, hoccupied]
      · rw [hheader, hoccupied]
      · rw [hheader]

/-- A step of `upload_file` that does not concern the buffers. -/
theorem Sound.tail (h : σ.Sound env h₀) {uploader : UploadThread} {outHeader : DataMsgHeader} {sent : List Msg}
    (hpc : σ.uploader.blocks σ.readBuffer = []) (hblocks : uploader.blocks σ.readBuffer = [])
    (hheld : uploader.held σ.readBuffer = []) (hfits : uploader.Fits σ.readBuffer) :
    Sound env h₀ { σ with uploader := uploader, outHeader := outHeader, sent := sent } := by
  have halloc := h.allocated
  refine ⟨h.sound, ?_, h.reader, h.queue, fun b hb => ?_, h.done, hfits, h.outData, h.inData⟩
  · rw [blocks, handedOver, hpc] at halloc
    simp only [blocks, handedOver, hblocks]
    exact halloc
  · dsimp only at hb
    rw [hheld] at hb
    cases hb

/-- **Every step of `upload_file`** is sound, and keeps the agreement. -/
theorem Sound.uploaderStep {c₀ : Client} {granted : Msg} {replies : List DataMsg} (h : σ.Sound env h₀)
    (hagrees : σ.Agrees env c₀ granted replies) (hstep : σ.uploaderStep = some τ) :
    τ.Sound env h₀ ∧ τ.Agrees env c₀ granted replies ∧ τ.received = σ.received := by
  obtain ⟨c, ms, hreacts, hrogue, ho⟩ := hagrees
  have hpop : ∀ {occupied}, σ.uploader = .popping occupied →
      τ.Sound env h₀ ∧ τ.Agrees env c₀ granted replies ∧ τ.received = σ.received := by
    intro occupied hpc
    obtain ⟨hsound, howes, hreceived, hsent⟩ := h.popBuffer hpc hstep ho
    exact ⟨hsound, ⟨c, ms, by rw [hsent]; exact hreacts, hrogue, howes⟩, hreceived⟩
  cases hpc : σ.uploader with
  | popping occupied => exact hpop hpc
  | receiving | finished => simp [ReadAhead.uploaderStep, hpc] at hstep
  | packing i num occupied =>
    simp only [ReadAhead.uploaderStep, hpc, Option.some.injEq] at hstep
    subst hstep
    obtain ⟨hsound, howes⟩ := h.packChunk hpc ho
    have hsame : (σ.packChunk i num occupied).received = σ.received ∧
        (σ.packChunk i num occupied).sent = σ.sent := by
      unfold ReadAhead.packChunk ReadAhead.fill
      split_ifs
      · split
        · exact ⟨rfl, rfl⟩
        · split_ifs
          · split
            · exact ⟨rfl, rfl⟩
            · split_ifs <;> exact ⟨rfl, rfl⟩
          · exact ⟨rfl, rfl⟩
      · exact ⟨rfl, rfl⟩
    exact ⟨hsound, ⟨c, ms, by rw [hsame.2]; exact hreacts, hrogue, howes⟩, hsame.1⟩
  | freeing occupied =>
    obtain ⟨heap, hfree, hsound, howes⟩ := h.freeStep (.freeingHash occupied)
      (by simp only [hpc, UploadThread.blocks, UploadThread.held]; rfl) rfl rfl (.inl hpc) (.inl rfl) ho
    simp only [ReadAhead.uploaderStep, hpc, hfree, Option.some.injEq] at hstep
    subst hstep
    exact ⟨hsound, ⟨c, ms, hreacts, hrogue, howes⟩, rfl⟩
  | freeingHash occupied =>
    obtain ⟨heap, hfree, hsound, howes⟩ := h.freeStep (.popping occupied)
      (by simp only [hpc, UploadThread.blocks]; rfl) rfl rfl (.inr hpc) (.inr rfl) ho
    simp only [ReadAhead.uploaderStep, hpc, hfree, Option.some.injEq] at hstep
    subst hstep
    exact ⟨hsound, ⟨c, ms, hreacts, hrogue, howes⟩, rfl⟩
  | filling occupied =>
    simp only [ReadAhead.uploaderStep, hpc, Option.some.injEq] at hstep
    subst hstep
    obtain ⟨hsound, howes, hreceived, hsent⟩ := h.fillHashes hpc ho
    exact ⟨hsound, ⟨c, ms, by rw [hsent]; exact hreacts, hrogue, howes⟩, hreceived⟩
  | sending occupied =>
    simp only [ReadAhead.uploaderStep, hpc, Option.some.injEq] at hstep
    subst hstep
    obtain ⟨hsound, m, ms', rfl, hsent, howes⟩ := h.sendBody hpc ho
    refine ⟨hsound, ⟨c, ms', ?_, hrogue, howes⟩, rfl⟩
    rw [hsent, List.append_assoc]
    exact hreacts
  | ending =>
    simp only [ReadAhead.uploaderStep, hpc, Option.some.injEq] at hstep
    subst hstep
    simp only [Owes, hpc] at ho
    refine ⟨h.tail (by rw [hpc]; rfl) rfl rfl trivial,
      ⟨c, [.control .QUIT [] .NONE], ?_, hrogue, rfl, ho.2⟩, rfl⟩
    rw [hreacts, ho.1]
    simp
  | quitting =>
    simp only [ReadAhead.uploaderStep, hpc, Option.some.injEq] at hstep
    subst hstep
    simp only [Owes, hpc] at ho
    refine ⟨h.tail (by rw [hpc]; rfl) rfl rfl trivial, ⟨c, [], ?_, hrogue, rfl, ho.2⟩, rfl⟩
    rw [hreacts, ho.1]
    simp

/-- **A reply is received**: the call that handles it begins, with a reply that has the answers which are in the
buffer now. -/
theorem Sound.receiveReply {c₀ : Client} {granted : Msg} {replies : List DataMsg} (h : σ.Sound env h₀)
    (hagrees : σ.Agrees env c₀ granted replies) (hpc : σ.uploader = .receiving) (msg reply : DataMsg)
    (hfits : msg.data.length ≤ inLen)
    (hreads : ∀ k < σ.readBuffer.chunkNum,
      (overwrite σ.inData 0 msg.data)[k]? = some (reply.data.getD k 0)) :
    (σ.receiveReply msg).Sound env h₀ ∧ (σ.receiveReply msg).Agrees env c₀ granted (replies ++ [reply]) ∧
      (σ.receiveReply msg).received = σ.received ++ [msg] := by
  obtain ⟨c, ms, hreacts, hrogue, ho⟩ := hagrees
  have halloc := h.allocated
  simp only [Owes, hpc] at ho
  obtain ⟨rfl, hbuf, hahead, hheader, htype, hwaits⟩ := ho
  have hheld := h.held
  rw [hpc] at hheld
  have hin : (overwrite σ.inData 0 msg.data).length = inLen := by
    rw [length_overwrite (by rw [h.inData]; omega), h.inData]
  rw [ReadAhead.receiveReply, if_pos hfits]
  refine ⟨⟨h.sound, ?_, h.reader, h.queue, hheld, h.done, ⟨Nat.zero_le _, Nat.zero_le _⟩, h.outData, hin⟩,
    ⟨(c.continueUpload reply).1, (c.continueUpload reply).2, ?_, ?_, ?_⟩, rfl⟩
  · simpa [blocks, handedOver, hpc, UploadThread.blocks, UploadThread.held] using halloc
  · have hreact : c.react env (.data reply) = some (c.continueUpload reply) := by
      simp [Client.react, hwaits, hrogue]
    rw [List.map_append, ← List.cons_append, List.map_singleton, Client.reacts_concat, hreacts,
      Option.bind_some, hreact, Option.map_some, List.append_nil]
  · rw [Client.rogue_continueUpload, hrogue]
  · exact ⟨c, reply, [], hreads, rfl, hbuf, hahead, hheader, htype, rfl, rfl, rfl, rfl⟩

/-- **Every other step** keeps what both threads have done, and the replies. -/
theorem Sound.step_of_ne_reply {c₀ : Client} {granted : Msg} {replies : List DataMsg} {a : ReadAheadAct}
    (h : σ.Sound env h₀) (hagrees : σ.Agrees env c₀ granted replies) (hnot : ∀ msg, a ≠ .reply msg)
    (hstep : σ.step env a = some τ) :
    τ.Sound env h₀ ∧ τ.Agrees env c₀ granted replies ∧ τ.received = σ.received := by
  have hback : τ.Sound env h₀ ∧ Background env σ τ →
      τ.Sound env h₀ ∧ τ.Agrees env c₀ granted replies ∧ τ.received = σ.received := by
    rintro ⟨hsound, hbackground⟩
    obtain ⟨c, ms, hreacts, hrogue, ho⟩ := hagrees
    refine ⟨hsound, ⟨c, ms, ?_, hrogue, hbackground.owes ho⟩, hbackground.received⟩
    rw [hbackground.sent]
    exact hreacts
  cases a with
  | reader => exact hback (h.readerStep hstep)
  | malloc p block => exact hback (h.mallocStep hstep)
  | uploader => exact h.uploaderStep hagrees hstep
  | reply msg => exact absurd rfl (hnot msg)

/-- A reply is received while `upload_file` waits for one. -/
theorem step_reply {msg : DataMsg} (hstep : σ.step env (.reply msg) = some τ) :
    σ.uploader = .receiving ∧ τ = σ.receiveReply msg := by
  simp only [ReadAhead.step] at hstep
  split at hstep
  · rename_i hpc
    exact ⟨hpc, (Option.some.inj hstep).symm⟩
  · cases hstep

/-- **What every step of the client keeps**, if a reply fits: a reply that leaves answers out is one that has
those which are left in the buffer. -/
theorem Sound.step {c₀ : Client} {granted : Msg} {replies : List DataMsg} {a : ReadAheadAct}
    (h : σ.Sound env h₀) (hagrees : σ.Agrees env c₀ granted replies) (hfits : a.Fits)
    (hstep : σ.step env a = some τ) :
    τ.Sound env h₀ ∧ ∃ replies, τ.Agrees env c₀ granted replies := by
  cases a with
  | reply msg =>
    obtain ⟨hpc, rfl⟩ := step_reply hstep
    have hhashed := h.held σ.readBuffer (by simp [hpc, UploadThread.held])
    have hin : (overwrite σ.inData 0 msg.data).length = inLen := by
      rw [length_overwrite (by rw [h.inData, Nat.zero_add]; exact hfits), h.inData]
    obtain ⟨hsound, hagrees', -⟩ := h.receiveReply hagrees hpc msg
      ⟨msg.header, overwrite σ.inData 0 msg.data⟩ hfits fun k hk => by
        have hlt : k < (overwrite σ.inData 0 msg.data).length := by
          have hle := hhashed.chunkNum_le.2
          rw [hin]
          simp only [inLen, CHUNKSIZE, BATCHSIZE] at hle ⊢
          omega
        rw [List.getD_eq_getElem?_getD, List.getElem?_eq_getElem hlt, Option.getD_some]
    exact ⟨hsound, _, hagrees'⟩
  | _ =>
    obtain ⟨hsound, hagrees', -⟩ := h.step_of_ne_reply hagrees (by simp) hstep
    exact ⟨hsound, _, hagrees'⟩

/-- **Replies that answer the whole batch** are those that the reactive client receives. -/
theorem Sound.step_answered {c₀ : Client} {granted : Msg} {a : ReadAheadAct} (h : σ.Sound env h₀)
    (hagrees : σ.Agrees env c₀ granted σ.received) (hok : answered σ a τ) (hstep : σ.step env a = some τ) :
    τ.Sound env h₀ ∧ τ.Agrees env c₀ granted τ.received := by
  cases a with
  | reply msg =>
    obtain ⟨hpc, rfl⟩ := step_reply hstep
    obtain ⟨hcovers, hfits⟩ := hok
    obtain ⟨hsound, hagrees', hreceived⟩ := h.receiveReply hagrees hpc msg msg hfits fun k hk => by
      have hlt : k < msg.data.length := by omega
      rw [List.getD_eq_getElem?_getD, overwrite, List.take_zero, List.nil_append,
        List.getElem?_append_left hlt, List.getElem?_eq_getElem hlt, Option.getD_some]
    rw [hreceived]
    exact ⟨hsound, hagrees'⟩
  | _ =>
    obtain ⟨hsound, hagrees', hreceived⟩ := h.step_of_ne_reply hagrees (by simp) hstep
    rw [hreceived]
    exact ⟨hsound, hagrees'⟩

/-- At the start `upload_file` owes all that the reactive client sends at first. -/
theorem agrees_init (c₀ : Client) {name : Bytes} {status : RepStatus} (hpc : c₀.pc = .awaitUploadRep)
    (hrogue : c₀.rogue = false) (hstatus : status ≠ .DUPLICATE) (heap : Heap) (queueSize : ℕ)
    (readBuffer : ReadStruct) (outData inData : Bytes) :
    Agrees env c₀ (.control .UPLOADREP name status) []
      (init heap c₀.file queueSize readBuffer c₀.outHeader outData inData) := by
  have hreact : c₀.react env (.control .UPLOADREP name status) = some (c₀.startUpload env) := by
    simp [Client.react, hpc, hrogue, hstatus]
  refine ⟨(c₀.startUpload env).1, (c₀.startUpload env).2, ?_, ?_, ?_⟩
  · simp [Client.reacts, init, hreact]
  · rw [Client.startUpload, Client.rogue_sendBatch]
    exact hrogue
  · exact ⟨{ c₀ with readBufferQueue := readData env c₀.file }, [], rfl, rfl, rfl, rfl, rfl⟩

end ReadAhead

end DedupServer
