import DedupServer.Threads.ReadBuffers

/-! # The end of an upload, seen from the client

Every step of `read_data` and of `upload_file` takes from what the two have still to do
(`ReadAhead.measure`), replies included, since a batch is taken from the queue before a reply is waited for.
Unless `upload_file` waits for a reply or has ended, one of the two can go on (`Sound.progress`).

`ReadAhead.Ordered` is what the queue adds to `ReadAhead.Sound`: it is bounded, and `upload_file` ends after
`read_data`. -/

namespace DedupServer

open Foundations

/-- `upload_file` has been told that there are no more batches. -/
def UploadThread.Ended (b : ReadStruct) : UploadThread → Prop
  | filling _ | sending _ => b.chunkNum = 0
  | ending | quitting | finished => True
  | _ => False

/-- What `upload_file` has still to do with the batch it has, and then without another one. -/
def UploadThread.todo (b : ReadStruct) : UploadThread → ℕ
  | finished => 0
  | quitting => 1
  | ending => 2
  | sending _ => if b.chunkNum = 0 then 3 else b.chunkNum + 10
  | filling _ => if b.chunkNum = 0 then 4 else b.chunkNum + 11
  | popping _ => 5
  | freeingHash _ => 6
  | freeing _ => 7
  | packing i _ _ => 8 + (b.chunkNum - i)
  | receiving => b.chunkNum + 9

/-- What a batch in the queue gives `upload_file` to do. -/
def popWork : ℕ := BATCHSIZE + 7

/-- What a batch of the file gives both to do. -/
def batchWork : ℕ := 2 * BATCHSIZE + 12

/-- What `read_data` has still to do with the batch it has, and in its last pass. -/
def ReaderThread.todo : ReaderThread → ℕ
  | finished _ _ => 0
  | ending _ _ => 1
  | reading _ _ => 2
  | allocatingHash _ => 3
  | allocating => 4
  | pushing _ => popWork + 5
  | hashing b i => popWork + 6 + (b.chunkNum - i)

namespace ReadAhead

variable {env : Env} {σ τ : ReadAhead} {h₀ : Heap} {queueSize : ℕ} {c₀ : Client} {granted : Msg}

/-- **What the two threads have still to do.** -/
def measure (env : Env) (σ : ReadAhead) : ℕ :=
  (readData env σ.fileStream).length * batchWork + σ.reader.todo +
    σ.readBufferQueue.queue.length * popWork + σ.uploader.todo σ.readBuffer

/-- **What every step of `read_data` takes** from the measure. -/
theorem Sound.readerStep_lt (h : σ.Sound env h₀) (hstep : σ.readerStep env = some τ) :
    τ.measure env < σ.measure env := by
  have hsound := (h.readerStep hstep).1.sound
  cases hpc : σ.reader with
  | reading p q =>
    simp only [ReadAhead.readerStep, hpc, Option.some.injEq] at hstep
    subst hstep
    unfold ReadAhead.readBatch at hsound ⊢
    dsimp only at hsound ⊢
    split_ifs at hsound ⊢ with hlen
    · simp only [measure, hpc, ReaderThread.todo]
      omega
    · split at hsound
      · simp [fault] at hsound
      · -- a batch is read
        rename_i heap hstore
        have hne : σ.fileStream ≠ [] := by
          rintro hnil
          simp [hnil] at hlen
        have hnum : pieceCount CHUNKSIZE (min σ.fileStream.length dataLen) ≤ BATCHSIZE := by
          have hmin := min_le_right σ.fileStream.length dataLen
          simp only [pieceCount, dataLen, CHUNKSIZE, BATCHSIZE] at hmin ⊢
          omega
        simp only [measure, hpc, ReaderThread.todo, readData_of_ne_nil env hne, List.length_cons]
        rw [dataLen, Nat.add_mul]
        simp only [dataLen] at hnum
        simp only [batchWork, popWork]
        omega
  | hashing b i =>
    simp only [ReadAhead.readerStep, hpc, Option.some.injEq] at hstep
    subst hstep
    unfold ReadAhead.hashChunk at hsound ⊢
    split_ifs at hsound ⊢ with hlt
    · split at hsound
      · simp [fault] at hsound
      · rename_i heap hstore
        simp only [measure, hpc, ReaderThread.todo]
        omega
    · simp only [measure, hpc, ReaderThread.todo]
      omega
  | pushing b =>
    simp only [ReadAhead.readerStep, hpc, Option.map_eq_some_iff] at hstep
    obtain ⟨q, hpush, rfl⟩ := hstep
    obtain ⟨hqueue, -⟩ := BlockQueueState.push_eq_some hpush
    simp only [measure, hpc, ReaderThread.todo, hqueue, List.length_append, List.length_singleton, Nat.add_mul]
    omega
  | ending p q =>
    simp only [ReadAhead.readerStep, hpc, Option.some.injEq] at hstep
    subst hstep
    simp only [measure, hpc, ReaderThread.todo, BlockQueueState.setDone]
    omega
  | _ => simp [ReadAhead.readerStep, hpc] at hstep

/-- `malloc` takes from it as well. -/
theorem mallocStep_lt {p : ℕ} {block : Block} (hstep : σ.mallocStep p block = some τ) :
    τ.measure env < σ.measure env := by
  unfold ReadAhead.mallocStep at hstep
  split at hstep
  · rename_i hpc
    split_ifs at hstep
    obtain ⟨heap, -, rfl⟩ := Option.map_eq_some_iff.mp hstep
    simp only [measure, hpc, ReaderThread.todo]
    omega
  · rename_i hpc
    split_ifs at hstep
    obtain ⟨heap, -, rfl⟩ := Option.map_eq_some_iff.mp hstep
    simp only [measure, hpc, ReaderThread.todo]
    omega
  · cases hstep

/-- A copy to the message leaves the rest as it is. -/
theorem measure_fill {pos : ℕ} {bs : Bytes} {uploader : UploadThread}
    (hsound : (σ.fill pos bs uploader).faulted = false) :
    (σ.fill pos bs uploader).measure env = { σ with uploader := uploader }.measure env := by
  unfold ReadAhead.fill at hsound ⊢
  split_ifs at hsound ⊢
  · rfl
  · simp [fault] at hsound

/-- **What every step of `upload_file` takes** from the measure. -/
theorem Sound.uploaderStep_lt (h : σ.Sound env h₀) (hsound : τ.faulted = false)
    (hstep : σ.uploaderStep = some τ) : τ.measure env < σ.measure env := by
  cases hpc : σ.uploader with
  | receiving | finished => simp [ReadAhead.uploaderStep, hpc] at hstep
  | packing i num occupied =>
    simp only [ReadAhead.uploaderStep, hpc, Option.some.injEq] at hstep
    subst hstep
    unfold ReadAhead.packChunk at hsound ⊢
    split_ifs at hsound ⊢ with hlt
    · split at hsound
      · simp [fault] at hsound
      · split_ifs at hsound ⊢ with hone
        · split at hsound
          · simp [fault] at hsound
          · rename_i chunk hload
            rw [measure_fill hsound]
            simp only [measure, hpc, UploadThread.todo]
            omega
        · simp only [measure, hpc, UploadThread.todo]
          omega
    · simp only [measure, hpc, UploadThread.todo]
      omega
  | freeing occupied | freeingHash occupied =>
    simp only [ReadAhead.uploaderStep, hpc] at hstep
    split at hstep
    · obtain rfl := Option.some.inj hstep
      simp [fault] at hsound
    · obtain rfl := Option.some.inj hstep
      simp only [measure, hpc, UploadThread.todo]
      omega
  | popping occupied =>
    simp only [ReadAhead.uploaderStep, hpc] at hstep
    split at hstep
    · cases hstep
    · obtain rfl := Option.some.inj hstep
      simp only [measure, hpc, UploadThread.todo, if_true]
      omega
    · -- a batch is popped, which has chunks
      rename_i b q hpop
      obtain rfl := Option.some.inj hstep
      obtain ⟨hqueue, -⟩ := BlockQueueState.pop_eq_got hpop
      obtain ⟨hpos, hle⟩ := (h.queue b (by rw [hqueue]; exact List.mem_cons_self)).chunkNum_le
      have hne : b.chunkNum ≠ 0 := by omega
      simp only [measure, hpc, UploadThread.todo, hqueue, List.length_cons, Nat.add_mul, hne, if_false]
      simp only [popWork]
      omega
  | filling occupied =>
    simp only [ReadAhead.uploaderStep, hpc, Option.some.injEq] at hstep
    subst hstep
    unfold ReadAhead.fillHashes at hsound ⊢
    dsimp only at hsound ⊢
    split_ifs at hsound ⊢ with hzero
    · simp only [measure, hpc, UploadThread.todo, hzero, if_true]
      omega
    · split at hsound
      · simp [fault] at hsound
      · rename_i hashes hload
        rw [measure_fill hsound]
        simp only [measure, hpc, UploadThread.todo, hzero, if_false]
        omega
  | sending occupied =>
    simp only [ReadAhead.uploaderStep, hpc, Option.some.injEq] at hstep
    subst hstep
    unfold ReadAhead.sendBody
    by_cases hzero : σ.readBuffer.chunkNum = 0
    · simp only [measure, hpc, UploadThread.todo, hzero, if_true]
      omega
    · simp only [measure, hpc, UploadThread.todo, hzero, if_false]
      omega
  | ending | quitting =>
    simp only [ReadAhead.uploaderStep, hpc, Option.some.injEq] at hstep
    subst hstep
    simp only [measure, hpc, UploadThread.todo]
    omega

/-- **Every step of the client** takes from what it has still to do. -/
theorem Sound.measure_lt {replies : List DataMsg} {a : ReadAheadAct} (h : σ.Sound env h₀)
    (hagrees : σ.Agrees env c₀ granted replies) (hfits : a.Fits) (hstep : σ.step env a = some τ) :
    τ.measure env < σ.measure env := by
  have hsound := (h.step hagrees hfits hstep).1.sound
  cases a with
  | reader => exact h.readerStep_lt hstep
  | malloc p block => exact mallocStep_lt hstep
  | uploader => exact h.uploaderStep_lt hsound hstep
  | reply msg =>
    obtain ⟨hpc, rfl⟩ := step_reply hstep
    have hroom : msg.data.length ≤ inLen := hfits
    rw [ReadAhead.receiveReply, if_pos hroom]
    simp only [measure, hpc, UploadThread.todo]
    omega

/-! ## The queue between them -/

/-- **What the queue adds**: it has its size, which bounds it, and `upload_file` is told that there are no
more batches once it is empty and done. -/
structure Ordered (queueSize : ℕ) (σ : ReadAhead) : Prop where
  size : σ.readBufferQueue.size = queueSize
  bounded : σ.readBufferQueue.queue.length ≤ queueSize
  ended : σ.uploader.Ended σ.readBuffer → σ.readBufferQueue.queue = [] ∧ σ.readBufferQueue.done = true

theorem ordered_init (heap : Heap) (file : Bytes) (queueSize : ℕ) (readBuffer : ReadStruct)
    (outHeader : DataMsgHeader) (outData inData : Bytes) :
    Ordered queueSize (init heap file queueSize readBuffer outHeader outData inData) :=
  ⟨rfl, Nat.zero_le _, fun h => h.elim⟩

/-- What `read_data` does to the queue: it pushes while it is not done, and is done at last. -/
theorem Sound.reads_queue (h : σ.Sound env h₀) (hstep : σ.readerStep env = some τ) :
    τ.uploader = σ.uploader ∧ τ.readBuffer = σ.readBuffer ∧
      (τ.readBufferQueue = σ.readBufferQueue ∨ τ.readBufferQueue = σ.readBufferQueue.setDone ∨
        σ.readBufferQueue.done = false ∧ ∃ b, σ.readBufferQueue.push b = some τ.readBufferQueue) := by
  cases hpc : σ.reader with
  | reading p q =>
    simp only [ReadAhead.readerStep, hpc, Option.some.injEq] at hstep
    subst hstep
    unfold ReadAhead.readBatch
    dsimp only
    split_ifs
    · exact ⟨rfl, rfl, .inl rfl⟩
    · split <;> exact ⟨rfl, rfl, .inl rfl⟩
  | hashing b i =>
    simp only [ReadAhead.readerStep, hpc, Option.some.injEq] at hstep
    subst hstep
    unfold ReadAhead.hashChunk
    split_ifs
    · split <;> exact ⟨rfl, rfl, .inl rfl⟩
    · exact ⟨rfl, rfl, .inl rfl⟩
  | pushing b =>
    simp only [ReadAhead.readerStep, hpc, Option.map_eq_some_iff] at hstep
    obtain ⟨q, hpush, rfl⟩ := hstep
    have hopen : σ.readBufferQueue.done = false := by
      rw [← Bool.not_eq_true, h.done]
      rintro ⟨p, q, hfin⟩
      rw [hpc] at hfin
      cases hfin
    exact ⟨rfl, rfl, .inr (.inr ⟨hopen, b, hpush⟩)⟩
  | ending p q =>
    simp only [ReadAhead.readerStep, hpc, Option.some.injEq] at hstep
    subst hstep
    exact ⟨rfl, rfl, .inr (.inl rfl)⟩
  | _ => simp [ReadAhead.readerStep, hpc] at hstep

/-- **What `upload_file` does to the queue**: it leaves it alone, or it pops. -/
theorem Sound.uploads_queue (h : σ.Sound env h₀) (hstep : σ.uploaderStep = some τ) :
    (τ.uploader.Ended τ.readBuffer → σ.uploader.Ended σ.readBuffer ∨
      σ.readBufferQueue.queue = [] ∧ σ.readBufferQueue.done = true) ∧
      (τ.readBufferQueue = σ.readBufferQueue ∨ ¬ τ.uploader.Ended τ.readBuffer ∧
        ∃ b, σ.readBufferQueue.pop = .got b τ.readBufferQueue) := by
  cases hpc : σ.uploader with
  | receiving | finished => simp [ReadAhead.uploaderStep, hpc] at hstep
  | packing i num occupied =>
    simp only [ReadAhead.uploaderStep, hpc, Option.some.injEq] at hstep
    subst hstep
    unfold ReadAhead.packChunk ReadAhead.fill
    split_ifs
    · split
      · exact ⟨fun hended => .inl (hpc ▸ hended), .inl rfl⟩
      · split_ifs
        · split
          · exact ⟨fun hended => .inl (hpc ▸ hended), .inl rfl⟩
          · split_ifs
            · exact ⟨fun hended => hended.elim, .inl rfl⟩
            · exact ⟨fun hended => .inl (hpc ▸ hended), .inl rfl⟩
        · exact ⟨fun hended => hended.elim, .inl rfl⟩
    · exact ⟨fun hended => hended.elim, .inl rfl⟩
  | freeing occupied | freeingHash occupied =>
    simp only [ReadAhead.uploaderStep, hpc] at hstep
    split at hstep
    · obtain rfl := Option.some.inj hstep
      exact ⟨fun hended => .inl (hpc ▸ hended), .inl rfl⟩
    · obtain rfl := Option.some.inj hstep
      exact ⟨fun hended => hended.elim, .inl rfl⟩
  | popping occupied =>
    simp only [ReadAhead.uploaderStep, hpc] at hstep
    split at hstep
    · cases hstep
    · rename_i hpop
      obtain rfl := Option.some.inj hstep
      exact ⟨fun _ => .inr (BlockQueueState.pop_eq_finished hpop), .inl rfl⟩
    · rename_i b q hpop
      obtain rfl := Option.some.inj hstep
      obtain ⟨hqueue, -⟩ := BlockQueueState.pop_eq_got hpop
      have hpos := (h.queue b (by rw [hqueue]; exact List.mem_cons_self)).chunkNum_le.1
      have hne : ¬ UploadThread.Ended b (.filling occupied) := Nat.ne_of_gt hpos
      exact ⟨fun hended => absurd hended hne, .inr ⟨hne, b, hpop⟩⟩
  | filling occupied =>
    simp only [ReadAhead.uploaderStep, hpc, Option.some.injEq] at hstep
    subst hstep
    unfold ReadAhead.fillHashes ReadAhead.fill
    dsimp only
    split_ifs with hzero
    · exact ⟨fun _ => .inl hzero, .inl rfl⟩
    · split
      · exact ⟨fun hended => .inl (by simpa [fault, hpc] using hended), .inl rfl⟩
      · split_ifs
        · exact ⟨fun hended => .inl hended, .inl rfl⟩
        · exact ⟨fun hended => .inl (by simpa [fault, hpc] using hended), .inl rfl⟩
  | sending occupied =>
    simp only [ReadAhead.uploaderStep, hpc, Option.some.injEq] at hstep
    subst hstep
    unfold ReadAhead.sendBody
    refine ⟨fun hended => .inl ?_, .inl rfl⟩
    by_contra hzero
    have hne : σ.readBuffer.chunkNum ≠ 0 := hzero
    simp [hne, UploadThread.Ended] at hended
  | ending | quitting =>
    simp only [ReadAhead.uploaderStep, hpc, Option.some.injEq] at hstep
    subst hstep
    exact ⟨fun _ => .inl trivial, .inl rfl⟩

/-- **The queue keeps its order.** -/
theorem Ordered.step {a : ReadAheadAct} (ho : σ.Ordered queueSize) (h : σ.Sound env h₀)
    (hstep : σ.step env a = some τ) : τ.Ordered queueSize := by
  cases a with
  | reader =>
    obtain ⟨hupload, hbuf, hqueue⟩ := h.reads_queue hstep
    rcases hqueue with heq | heq | ⟨hopen, b, hpush⟩
    · exact ⟨heq ▸ ho.size, heq ▸ ho.bounded, by rw [heq, hupload, hbuf]; exact ho.ended⟩
    · refine ⟨heq ▸ ho.size, heq ▸ ho.bounded, fun hended => ?_⟩
      rw [hupload, hbuf] at hended
      rw [heq]
      exact ⟨(ho.ended hended).1, rfl⟩
    · obtain ⟨hqueue, hsize, -, -, hroom⟩ := BlockQueueState.push_eq_some hpush
      have hbounded := ho.bounded
      rw [ho.size] at hroom
      refine ⟨hsize.trans ho.size, ?_, fun hended => ?_⟩
      · rw [hqueue, List.length_append, List.length_singleton]
        omega
      · rw [hupload, hbuf] at hended
        rw [(ho.ended hended).2] at hopen
        cases hopen
  | malloc p block =>
    simp only [ReadAhead.step, ReadAhead.mallocStep] at hstep
    split at hstep
    · split_ifs at hstep
      obtain ⟨heap, -, rfl⟩ := Option.map_eq_some_iff.mp hstep
      exact ⟨ho.size, ho.bounded, ho.ended⟩
    · split_ifs at hstep
      obtain ⟨heap, -, rfl⟩ := Option.map_eq_some_iff.mp hstep
      exact ⟨ho.size, ho.bounded, ho.ended⟩
    · cases hstep
  | uploader =>
    obtain ⟨hended, hqueue⟩ := h.uploads_queue hstep
    rcases hqueue with heq | ⟨hnot, b, hpop⟩
    · refine ⟨heq ▸ ho.size, heq ▸ ho.bounded, fun hend => ?_⟩
      rw [heq]
      exact (hended hend).elim ho.ended id
    · obtain ⟨hqueue, hsize, -, -⟩ := BlockQueueState.pop_eq_got hpop
      have hbounded := ho.bounded
      rw [hqueue, List.length_cons] at hbounded
      exact ⟨hsize.trans ho.size, by omega, fun hend => absurd hend hnot⟩
  | reply msg =>
    obtain ⟨hpc, rfl⟩ := step_reply hstep
    unfold ReadAhead.receiveReply
    split_ifs
    · exact ⟨ho.size, ho.bounded, fun hended => hended.elim⟩
    · exact ⟨ho.size, ho.bounded, ho.ended⟩

/-- **`upload_file` ends after `read_data`**: what is allocated then are the blocks of the pass that has found
nothing. -/
theorem Ordered.blocks_of_finished (ho : σ.Ordered queueSize) (h : σ.Sound env h₀)
    (hfin : σ.uploader = .finished) :
    ∃ p q, σ.reader = .finished p q ∧ σ.blocks = [(p, dataLen), (q, hashLen)] := by
  obtain ⟨hqueue, hdone⟩ := ho.ended (by rw [hfin]; trivial)
  obtain ⟨p, q, hreader⟩ := h.done.mp hdone
  refine ⟨p, q, hreader, ?_⟩
  simp [blocks, handedOver, hreader, hqueue, hfin, ReaderThread.blocks, UploadThread.blocks, UploadThread.held]

/-- **How much is allocated**: two blocks for each buffer in the queue, and for each of the threads. -/
theorem Ordered.length_blocks (ho : σ.Ordered queueSize) : σ.blocks.length ≤ 2 * (queueSize + 2) := by
  have hreader : σ.reader.blocks.length ≤ 2 := by
    cases σ.reader <;> simp [ReaderThread.blocks, ReadStruct.blocks]
  have hupload : (σ.uploader.blocks σ.readBuffer).length ≤ 2 := by
    cases σ.uploader <;> simp only [UploadThread.blocks, UploadThread.held] <;> try split_ifs
    all_goals simp [ReadStruct.blocks]
  have hqueue : (σ.readBufferQueue.queue.flatMap ReadStruct.blocks).length
      = σ.readBufferQueue.queue.length * 2 := by
    simp [List.length_flatMap, ReadStruct.blocks]
  have hbounded := ho.bounded
  simp only [blocks, handedOver, List.length_append, hqueue]
  omega

/-- **Nobody waits for ever**: unless `upload_file` waits for a reply or has ended, one of the two can go on,
as long as `malloc` finds room. -/
theorem Ordered.progress (ho : σ.Ordered queueSize) (h : σ.Sound env h₀) (hsize : 0 < queueSize)
    (hroom : ∃ p, σ.heap p = none) (hreceiving : σ.uploader ≠ .receiving) (hfin : σ.uploader ≠ .finished) :
    ∃ a τ, (∀ msg, a ≠ .reply msg) ∧ σ.step env a = some τ := by
  -- the last step of `upload_file` that can have to wait is a pop
  by_cases hupload : ∃ τ, σ.uploaderStep = some τ
  · obtain ⟨τ, hτ⟩ := hupload
    exact ⟨.uploader, τ, fun msg h => (by cases h), hτ⟩
  have hwait : σ.readBufferQueue.pop = .wait := by
    cases hpc : σ.uploader with
    | receiving => exact absurd hpc hreceiving
    | finished => exact absurd hpc hfin
    | popping occupied =>
      by_contra hpop
      refine hupload ?_
      simp only [ReadAhead.uploaderStep, hpc]
      cases hres : σ.readBufferQueue.pop with
      | wait => exact absurd hres hpop
      | finished => exact ⟨_, rfl⟩
      | got b q => exact ⟨_, rfl⟩
    | freeing occupied | freeingHash occupied =>
      refine absurd ?_ hupload
      simp only [ReadAhead.uploaderStep, hpc]
      split <;> exact ⟨_, rfl⟩
    | _ => exact absurd ⟨_, by simp only [ReadAhead.uploaderStep, hpc]; rfl⟩ hupload
  obtain ⟨hempty, hopen⟩ := BlockQueueState.pop_eq_wait hwait
  obtain ⟨p, hfree⟩ := hroom
  have hmalloc : ∀ block, σ.heap.malloc p block = some (Function.update σ.heap p (some block)) := by
    intro block
    rw [Heap.malloc, hfree]
  -- so that `read_data` has not ended, and finds room in the queue
  cases hpc : σ.reader with
  | allocating =>
    refine ⟨.malloc p ⟨dataLen, List.replicate dataLen 0, List.length_replicate⟩, ?_⟩
    simp only [ReadAhead.step, ReadAhead.mallocStep, hpc, if_true, hmalloc, Option.map_some]
    exact ⟨_, fun msg h => (by cases h), rfl⟩
  | allocatingHash q =>
    refine ⟨.malloc p ⟨hashLen, List.replicate hashLen 0, List.length_replicate⟩, ?_⟩
    simp only [ReadAhead.step, ReadAhead.mallocStep, hpc, if_true, hmalloc, Option.map_some]
    exact ⟨_, fun msg h => (by cases h), rfl⟩
  | pushing b =>
    refine ⟨.reader, ?_⟩
    have hfull : σ.readBufferQueue.queue.length ≠ σ.readBufferQueue.size := by
      rw [hempty, ho.size]
      exact hsize.ne
    simp only [ReadAhead.step, ReadAhead.readerStep, hpc, BlockQueueState.push, hfull, if_false,
      Option.map_some]
    exact ⟨_, fun msg h => (by cases h), rfl⟩
  | finished p q =>
    have hdone := h.done.mpr ⟨p, q, hpc⟩
    rw [hopen] at hdone
    cases hdone
  | _ =>
    refine ⟨.reader, ?_⟩
    simp only [ReadAhead.step, ReadAhead.readerStep, hpc]
    exact ⟨_, fun msg h => (by cases h), rfl⟩

end ReadAhead

end DedupServer
