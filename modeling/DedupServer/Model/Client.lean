import DedupServer.Model.Util

/-! # The client

`DedupClient`: `run`, `upload_file`, `download_file` and `read_data`. The client is a reactive
program: it sends some messages when it starts and then, for every message it receives, sends
the messages that follow up to the next point where it waits. `react` is that reaction, branch by
branch the body of the functions it comes from.

`read_data` runs in a thread of its own and hands its buffers over through a queue that loses and
reorders nothing, so `upload_file` sees exactly the list `readData`.

A **rogue** client keeps to the message order and the header fields of `DedupClient`, but is free
in the hashes it asks about and in the chunk bytes it sends later (`rogueReact`). -/

namespace DedupServer

open Foundations

/-! ## `read_data` -/

namespace ReadBuffer

/-- Chunk `i` of a read buffer, as the loops of `read_data` and `upload_file` cut it out. -/
def chunk (b : ReadBuffer) (i : Nat) : Bytes :=
  let start := u32 (i * CHUNKSIZE)
  let stop := u32 (min ((i + 1) * CHUNKSIZE) b.dataSize)
  (b.dataBuffer.drop start).take (sub32 stop start)

/-- All chunks of a read buffer. -/
def chunks (b : ReadBuffer) : List Bytes := (List.range b.chunkNum).map b.chunk

end ReadBuffer

/-- The read buffer filled from `len` bytes of the file: `⌈len / CHUNKSIZE⌉` chunks and their
hashes. -/
def fillReadBuffer (env : Env) (dataBuffer : Bytes) : ReadBuffer :=
  let len := dataBuffer.length
  let readBuffer : ReadBuffer := ⟨dataBuffer, [], pieceCount CHUNKSIZE len, len⟩
  { readBuffer with hashBuffer := readBuffer.chunks.flatMap env.generateHash }

/-- The loop of `read_data` on what is left of the file, with a bound on the number of passes. -/
def readDataLoop (env : Env) : Nat → Bytes → List ReadBuffer
  | 0, _ => []
  | n + 1, fileStream =>
    if fileStream.length = 0 then []
    else
      fillReadBuffer env (fileStream.take (CHUNKSIZE * BATCHSIZE)) ::
        readDataLoop env n (fileStream.drop (CHUNKSIZE * BATCHSIZE))

/-- **`DedupClient::read_data`**: the read buffers pushed before `set_done`. Every pass reads at
least one byte, so there are at most as many passes as bytes. -/
def readData (env : Env) (file : Bytes) : List ReadBuffer := readDataLoop env file.length file

/-- The bound on the passes does not matter once it is large enough. -/
theorem readDataLoop_eq_readData (env : Env) (n : Nat) (file : Bytes) (h : file.length ≤ n) :
    readDataLoop env n file = readData env file := by
  have hbound : ∀ (m n : Nat) (file : Bytes), file.length ≤ m → file.length ≤ n →
      readDataLoop env m file = readDataLoop env n file := by
    intro m
    induction m with
    | zero =>
      intro n file hm _
      cases n with
      | zero => rfl
      | succ n => rw [readDataLoop, readDataLoop, if_pos (by omega)]
    | succ m ih =>
      intro n file hm hn
      by_cases h0 : file.length = 0
      · cases n with
        | zero => rw [readDataLoop, readDataLoop, if_pos h0]
        | succ n => rw [readDataLoop, readDataLoop, if_pos h0, if_pos h0]
      · obtain ⟨k, rfl⟩ : ∃ k, n = k + 1 := ⟨n - 1, by omega⟩
        have hdrop : (file.drop (CHUNKSIZE * BATCHSIZE)).length < file.length := by
          simp only [List.length_drop, CHUNKSIZE, BATCHSIZE]
          omega
        rw [readDataLoop, readDataLoop, if_neg h0, if_neg h0,
          ih k _ (by omega) (by omega)]
  exact hbound n file.length file h le_rfl

/-- An empty file gives no read buffer. -/
@[simp] theorem readData_nil (env : Env) : readData env [] = [] := rfl

/-- **One pass of `read_data`.** -/
theorem readData_of_ne_nil (env : Env) {file : Bytes} (h : file ≠ []) :
    readData env file = fillReadBuffer env (file.take (CHUNKSIZE * BATCHSIZE)) ::
      readData env (file.drop (CHUNKSIZE * BATCHSIZE)) := by
  have hpos : 0 < file.length := List.length_pos_iff.mpr h
  obtain ⟨n, hn⟩ : ∃ n, file.length = n + 1 := ⟨file.length - 1, by omega⟩
  rw [readData, hn, readDataLoop, if_neg (by omega), readDataLoop_eq_readData]
  simp only [List.length_drop, CHUNKSIZE, BATCHSIZE]
  omega

/-- The chunks of a file, in the order in which their hashes are sent. -/
def fileChunks (env : Env) (file : Bytes) : List Bytes := (readData env file).flatMap (·.chunks)

/-! ## The client's state -/

/-- Where the client waits. -/
inductive ClientPc
  | awaitUploadRep
  | awaitBodyRep
  | awaitDownloadRep
  | awaitBody
  | awaitQuitRep
  | closed
  deriving DecidableEq, Repr

/-- `DedupClient`, with the file at `m_file_path` it uploads from or downloads to. -/
structure Client where
  client_id : Int
  file_path : Bytes
  /-- Content of the local file. -/
  file : Bytes
  rogue : Bool
  pc : ClientPc
  readBufferQueue : List ReadBuffer
  readBuffer : ReadBuffer
  /-- `m_outMsgBuffer->header`. -/
  outHeader : DataMsgHeader
  deriving DecidableEq

namespace Client

/-- The name under which the file is known to the server. -/
def fileName (c : Client) : Bytes := getFileName c.file_path

/-- After the operation: send the quit message and wait for its response. -/
def quit (c : Client) : Client × List Msg :=
  ({ c with pc := .awaitQuitRep }, [.control .QUIT [] .NONE])

/-! ## `upload_file` -/

/-- The chunks of the last batch that the reply marks with `1`, one after another: what
`upload_file` copies to the front of the next message. -/
def packChunks (readBuffer : ReadBuffer) (reply : Bytes) : List Bytes :=
  ((List.range readBuffer.chunkNum).filter fun i => reply.getD i 0 = 1).map readBuffer.chunk

/-- The message with `chunksOccupied` bytes of chunks and the hashes of `queryNum` chunks; after
a message without hashes come `FILEEND` and the quit message. -/
def sendBody (c : Client) (chunkData hashes : Bytes) (queryNum : Nat) : Client × List Msg :=
  let header := { c.outHeader with
    dataMsgType := .UPLOADBODY
    queryNum := queryNum
    start := chunkData.length
    size := sizeofDataMsg + chunkData.length + queryNum * HASHSIZE }
  let body : Msg := .data ⟨header, chunkData ++ hashes⟩
  if queryNum = 0 then
    let header := { header with dataMsgType := .FILEEND, size := sizeofDataMsg }
    let (c, quitMsg) := ({ c with outHeader := header } : Client).quit
    (c, body :: .data ⟨header, []⟩ :: quitMsg)
  else
    ({ c with outHeader := header, pc := .awaitBodyRep }, [body])

/-- One pass of the loop of `upload_file` behind the wait: pop the next read buffer and send the
packed chunks with its hashes. -/
def sendBatch (c : Client) (chunkData : Bytes) : Client × List Msg :=
  match c.readBufferQueue with
  | readBuffer :: rest =>
    ({ c with readBufferQueue := rest, readBuffer := readBuffer } : Client).sendBody chunkData
      (readBuffer.hashBuffer.take (readBuffer.chunkNum * HASHSIZE)) readBuffer.chunkNum
  | [] =>
    let readBuffer := { c.readBuffer with chunkNum := 0, dataSize := 0 }
    ({ c with readBuffer := readBuffer } : Client).sendBody chunkData [] 0

/-- The first pass, which waits for nothing. -/
def startUpload (env : Env) (c : Client) : Client × List Msg :=
  ({ c with readBufferQueue := readData env c.file } : Client).sendBatch []

/-- A pass that has received the reply to the last batch. -/
def continueUpload (c : Client) (reply : DataMsg) : Client × List Msg :=
  let packed := packChunks c.readBuffer reply.data
  ({ c with outHeader := { c.outHeader with chunkNum := packed.length } } : Client).sendBatch
    packed.flatten

/-! ## `run` -/

/-- **What the client does with the next message** it receives, and what it sends then. A message
it does not wait for is an error (`none`). -/
def react (env : Env) (c : Client) : Msg → Option (Client × List Msg)
  | .control order _ status =>
    match c.pc with
    | .awaitUploadRep =>
      if order = .UPLOADREP ∧ status ≠ .DUPLICATE then
        if c.rogue then none else some (c.startUpload env)
      else some c.quit
    | .awaitDownloadRep =>
      if order = .DOWNLOADREP ∧ status ≠ .NOTEXIST then some ({ c with pc := .awaitBody }, [])
      else some c.quit
    | .awaitQuitRep => some ({ c with pc := .closed }, [])
    | _ => none
  | .data msg =>
    match c.pc with
    | .awaitBodyRep => if c.rogue then none else some (c.continueUpload msg)
    | .awaitBody =>
      if msg.header.dataMsgType = .FILEEND then some c.quit
      else
        let dataSize := msg.header.size - sizeofDataMsg
        some ({ c with file := c.file ++ msg.data.take dataSize }, [])
    | _ => none
  | .login _ => none

/-- **What a rogue client may do instead** of `startUpload` and `continueUpload`: send any chunk
bytes of the sizes its peer expects, and any hashes. -/
def rogueReact (c : Client) (chunkData hashes : List Bytes) (m : Msg) :
    Option (Client × List Msg) :=
  if c.rogue = true ∧ Ragged CHUNKSIZE chunkData ∧ hashes.length ≤ BATCHSIZE ∧
      ∀ h ∈ hashes, h.length = HASHSIZE then
    match c.pc, m with
    | .awaitUploadRep, .control .UPLOADREP _ status =>
      if status ≠ .DUPLICATE ∧ chunkData = [] then
        some (c.sendBody [] hashes.flatten hashes.length)
      else none
    | .awaitBodyRep, .data msg =>
      if chunkData.length = msg.data.count 1 then
        some (c.sendBody chunkData.flatten hashes.flatten hashes.length)
      else none
    | _, _ => none
  else none

/-- `DedupClient::run` up to the first wait: the login message, then the request of the
operation (`'u'`, `'d'`, or nothing but the quit message). `download_file` opens the local file
for writing first. -/
def start (client_id : Int) (op : UInt8) (file_path file : Bytes) (rogue : Bool) :
    Client × List Msg :=
  -- `m_outMsgBuffer` is not initialised; its header is written field by field before it is sent.
  let header : DataMsgHeader := ⟨.UPLOADBODY, 0, 0, 0, 0⟩
  let c : Client := ⟨client_id, file_path, file, rogue, .closed, [], ⟨[], [], 0, 0⟩, header⟩
  let login : Msg := .login client_id
  if op = 117 then
    ({ c with pc := .awaitUploadRep }, [login, .control .UPLOAD c.fileName .NONE])
  else if op = 100 then
    ({ c with file := [], pc := .awaitDownloadRep }, [login, .control .DOWNLOAD c.fileName .NONE])
  else
    (c.quit.1, login :: c.quit.2)

end Client

end DedupServer
