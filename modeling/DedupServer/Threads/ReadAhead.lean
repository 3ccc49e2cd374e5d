import DedupServer.Foundations.Heap
import DedupServer.Threads.BlockQueue
import DedupServer.Upload.Chunks

/-! # The two threads of a client that uploads

`upload_file` and `read_data`, from the start of the thread that reads the file, one access to the heap, the
queue or the socket at a time. `ReadBuffer_t` is the struct of the source: a push copies the struct and
shares its two blocks, which `read_data` has allocated and `upload_file` frees when the reply to the batch
has been handled. A reply is received into `m_inMsgBuffer`, where the answers of earlier replies are left behind
a shorter one; nothing but the size of the block bounds it. `push` waits while the queue is full, `pop` while it
is empty and not done.

What has gone wrong in memory is remembered (`faulted`). Two fields are history: the replies received and
the messages sent. -/

namespace DedupServer

open Foundations

/-- `ReadBuffer_t`, with its pointers. -/
structure ReadStruct where
  dataBuffer : ℕ
  hashBuffer : ℕ
  chunkNum : ℕ
  dataSize : ℕ
  deriving DecidableEq

/-- `data_len` of `read_data`. -/
def dataLen : ℕ := CHUNKSIZE * BATCHSIZE

/-- `hash_len` of `read_data`. -/
def hashLen : ℕ := HASHSIZE * BATCHSIZE

/-- The room behind the header in `m_outMsgBuffer` of a client. -/
def outLen : ℕ := (CHUNKSIZE + HASHSIZE) * BATCHSIZE

/-- The room behind the header in `m_inMsgBuffer` of a client. -/
def inLen : ℕ := CHUNKSIZE * BATCHSIZE

/-- Where `read_data` is: before the first and the second `malloc`, before a read, in the loop over the
chunks, before a push, before `set_done`, or at its end. -/
inductive ReaderThread
  | allocating
  | allocatingHash (dataBuffer : ℕ)
  | reading (dataBuffer hashBuffer : ℕ)
  | hashing (readBuffer : ReadStruct) (i : ℕ)
  | pushing (readBuffer : ReadStruct)
  | ending (dataBuffer hashBuffer : ℕ)
  | finished (dataBuffer hashBuffer : ℕ)
  deriving DecidableEq

/-- Where `upload_file` is: waiting for a reply, in the loop that packs chunks, before the first and the
second `free`, before a pop, before the hashes are copied, before the message, `FILEEND` and the quit
message are sent, or past them. -/
inductive UploadThread
  | receiving
  | packing (i currentUniqueNum chunksOccupied : ℕ)
  | freeing (chunksOccupied : ℕ)
  | freeingHash (chunksOccupied : ℕ)
  | popping (chunksOccupied : ℕ)
  | filling (chunksOccupied : ℕ)
  | sending (chunksOccupied : ℕ)
  | ending
  | quitting
  | finished

/-- **A client that uploads**: the heap, the file that is read, the members of `DedupClient`, and its two
threads. -/
structure ReadAhead where
  heap : Heap
  faulted : Bool
  fileStream : Bytes
  reader : ReaderThread
  readBufferQueue : BlockQueueState ReadStruct
  uploader : UploadThread
  readBuffer : ReadStruct
  /-- `m_outMsgBuffer->header`. -/
  outHeader : DataMsgHeader
  /-- `m_outMsgBuffer->data`. -/
  outData : Bytes
  /-- `m_inMsgBuffer->data`. -/
  inData : Bytes
  received : List DataMsg
  sent : List Msg

/-- What happens next: `read_data` or `upload_file` goes on, `malloc` returns a block to `read_data`, or a
reply arrives. -/
inductive ReadAheadAct
  | reader
  | malloc (p : ℕ) (block : Block)
  | uploader
  | reply (msg : DataMsg)

namespace ReadAhead

/-- Undefined behaviour. -/
def fault (σ : ReadAhead) : ReadAhead := { σ with faulted := true }

/-- The client when `upload_file` has started the thread. The members it has not written yet are as they
happen to be. -/
def init (heap : Heap) (file : Bytes) (queueSize : ℕ) (readBuffer : ReadStruct)
    (outHeader : DataMsgHeader) (outData inData : Bytes) : ReadAhead where
  heap := heap
  faulted := false
  fileStream := file
  reader := .allocating
  readBufferQueue := .new queueSize
  uploader := .popping 0
  readBuffer := readBuffer
  outHeader := { outHeader with dataMsgType := .UPLOADBODY }
  outData := outData
  inData := inData
  received := []
  sent := []

/-- The bytes of chunk `i` of a read buffer: those between the two offsets that both loops compute. -/
def loadChunk (heap : Heap) (b : ReadStruct) (i : ℕ) : Option Bytes :=
  let start := u32 (i * CHUNKSIZE)
  let stop := u32 (min ((i + 1) * CHUNKSIZE) b.dataSize)
  (heap.load b.dataBuffer stop).map fun bs => (bs.drop start).take (sub32 stop start)

/-- The read of a batch: what is left of the file, as far as it fits. -/
def readBatch (σ : ReadAhead) (dataBuffer hashBuffer : ℕ) : ReadAhead :=
  let len := min σ.fileStream.length dataLen
  if len = 0 then { σ with reader := .ending dataBuffer hashBuffer }
  else
    match σ.heap.store dataBuffer 0 (σ.fileStream.take dataLen) with
    | none => σ.fault
    | some heap => { σ with
        heap := heap
        fileStream := σ.fileStream.drop dataLen
        reader := .hashing ⟨dataBuffer, hashBuffer, pieceCount CHUNKSIZE len, len⟩ 0 }

/-- One pass of the loop of `read_data` over the chunks. -/
def hashChunk (env : Env) (σ : ReadAhead) (b : ReadStruct) (i : ℕ) : ReadAhead :=
  if i < b.chunkNum then
    match (loadChunk σ.heap b i).bind fun chunk =>
        σ.heap.store b.hashBuffer (i * HASHSIZE) (env.generateHash chunk) with
    | none => σ.fault
    | some heap => { σ with heap := heap, reader := .hashing b (i + 1) }
  else { σ with reader := .pushing b }

/-- One step of `read_data`, apart from `malloc`. -/
def readerStep (env : Env) (σ : ReadAhead) : Option ReadAhead :=
  match σ.reader with
  | .reading dataBuffer hashBuffer => some (σ.readBatch dataBuffer hashBuffer)
  | .hashing b i => some (σ.hashChunk env b i)
  | .pushing b =>
    (σ.readBufferQueue.push b).map fun q => { σ with readBufferQueue := q, reader := .allocating }
  | .ending dataBuffer hashBuffer => some { σ with
      readBufferQueue := σ.readBufferQueue.setDone
      reader := .finished dataBuffer hashBuffer }
  | _ => none

/-- `malloc` has returned. -/
def mallocStep (σ : ReadAhead) (p : ℕ) (block : Block) : Option ReadAhead :=
  match σ.reader with
  | .allocating =>
    if block.size = dataLen then
      (σ.heap.malloc p block).map fun heap => { σ with heap := heap, reader := .allocatingHash p }
    else none
  | .allocatingHash dataBuffer =>
    if block.size = hashLen then
      (σ.heap.malloc p block).map fun heap => { σ with
        heap := heap
        reader := .reading dataBuffer p }
    else none
  | _ => none

/-- Bytes are copied to `m_outMsgBuffer->data`. -/
def fill (σ : ReadAhead) (pos : ℕ) (bs : Bytes) (uploader : UploadThread) : ReadAhead :=
  if pos + bs.length ≤ outLen then
    { σ with outData := overwrite σ.outData pos bs, uploader := uploader }
  else σ.fault

/-- A reply is received. -/
def receiveReply (σ : ReadAhead) (msg : DataMsg) : ReadAhead :=
  if msg.data.length ≤ inLen then
    { σ with
      inData := overwrite σ.inData 0 msg.data
      received := σ.received ++ [msg]
      uploader := .packing 0 0 0 }
  else σ.fault

/-- One pass of the loop of `upload_file` over the answers. -/
def packChunk (σ : ReadAhead) (i currentUniqueNum chunksOccupied : ℕ) : ReadAhead :=
  if i < σ.readBuffer.chunkNum then
    match σ.inData[i]? with
    | none => σ.fault
    | some answer =>
      if answer = 1 then
        match loadChunk σ.heap σ.readBuffer i with
        | none => σ.fault
        | some chunk =>
          σ.fill chunksOccupied chunk
            (.packing (i + 1) (currentUniqueNum + 1) (chunksOccupied + chunk.length))
      else { σ with uploader := .packing (i + 1) currentUniqueNum chunksOccupied }
  else { σ with
    outHeader := { σ.outHeader with chunkNum := currentUniqueNum }
    uploader := .freeing chunksOccupied }

/-- The hashes of the batch are copied behind the chunks, and the header is filled in. -/
def fillHashes (σ : ReadAhead) (chunksOccupied : ℕ) : ReadAhead :=
  let queryNum := σ.readBuffer.chunkNum
  let σ := { σ with outHeader := { σ.outHeader with queryNum := queryNum, start := chunksOccupied } }
  if queryNum = 0 then { σ with uploader := .sending chunksOccupied }
  else
    match σ.heap.load σ.readBuffer.hashBuffer (queryNum * HASHSIZE) with
    | none => σ.fault
    | some hashes => σ.fill chunksOccupied hashes (.sending chunksOccupied)

/-- The message is sent. -/
def sendBody (σ : ReadAhead) (chunksOccupied : ℕ) : ReadAhead :=
  let queryNum := σ.readBuffer.chunkNum
  let header := { σ.outHeader with size := sizeofDataMsg + chunksOccupied + queryNum * HASHSIZE }
  { σ with
    outHeader := header
    sent := σ.sent ++ [.data ⟨header, σ.outData.take (chunksOccupied + queryNum * HASHSIZE)⟩]
    uploader := if queryNum = 0 then .ending else .receiving }

/-- One step of `upload_file`, and of `run` behind it. -/
def uploaderStep (σ : ReadAhead) : Option ReadAhead :=
  match σ.uploader with
  | .packing i currentUniqueNum chunksOccupied =>
    some (σ.packChunk i currentUniqueNum chunksOccupied)
  | .freeing chunksOccupied =>
    match σ.heap.free σ.readBuffer.dataBuffer with
    | none => some σ.fault
    | some heap => some { σ with heap := heap, uploader := .freeingHash chunksOccupied }
  | .freeingHash chunksOccupied =>
    match σ.heap.free σ.readBuffer.hashBuffer with
    | none => some σ.fault
    | some heap => some { σ with heap := heap, uploader := .popping chunksOccupied }
  | .popping chunksOccupied =>
    match σ.readBufferQueue.pop with
    | .wait => none
    | .finished => some { σ with
        readBuffer := { σ.readBuffer with chunkNum := 0, dataSize := 0 }
        uploader := .filling chunksOccupied }
    | .got b q => some { σ with
        readBufferQueue := q
        readBuffer := b
        uploader := .filling chunksOccupied }
  | .filling chunksOccupied => some (σ.fillHashes chunksOccupied)
  | .sending chunksOccupied => some (σ.sendBody chunksOccupied)
  | .ending =>
    let header := { σ.outHeader with dataMsgType := .FILEEND, size := sizeofDataMsg }
    some { σ with
      outHeader := header
      sent := σ.sent ++ [.data ⟨header, []⟩]
      uploader := .quitting }
  | .quitting => some { σ with
      sent := σ.sent ++ [.control .QUIT [] .NONE]
      uploader := .finished }
  | _ => none

/-- **One step** of the client. -/
def step (env : Env) (σ : ReadAhead) : ReadAheadAct → Option ReadAhead
  | .reader => σ.readerStep env
  | .malloc p block => σ.mallocStep p block
  | .uploader => σ.uploaderStep
  | .reply msg =>
    match σ.uploader with
    | .receiving => some (σ.receiveReply msg)
    | _ => none

end ReadAhead

/-- **The threads of a client that uploads.** -/
def readAheadMachine (env : Env) : Machine ReadAhead ReadAheadAct where
  step := ReadAhead.step env

end DedupServer
