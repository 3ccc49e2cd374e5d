import DedupServer.Model.Server

/-! # The server's side of a connection

`ClientConn`: `run`, `receive_file`, `send_file` and the two writer threads. The thread that
serves the client moves from one point where it waits or touches the database to the next
(`receive`, `proceed`); the writer threads take one buffer from their queue or write one buffer
to disk at a time (`dataWriterStep`, `recipeWriterStep`).

An access the source leaves undefined (`front` of an empty queue, an uninitialised address) is
`none`. Three fields are history and are read by no function of the program: the last answer to
an upload request (`uploadRep`), the addresses the chunk index has answered to the upload
(`answered`), and the recipe entries written so far (`written`). -/

namespace DedupServer

open Foundations

/-! ## Upload buffers -/

/-- What `receive_file` accumulates: the addresses of the duplicates of the last query, the
container and the recipe buffer being filled, the two queues to the writer threads, and its
counters. -/
structure UploadState where
  duplicatedChunkAddr : List ChunkAddr
  containerQueue : BlockQueue Container
  containerBuffer : Container
  recipeQueue : BlockQueue RecipeEntryContainer
  recipeBuffer : RecipeEntryContainer
  receivedFileSize : Nat
  uniqueChunkNum : Nat
  duplicatedChunkNum : Nat
  deriving DecidableEq

/-- `memcpy` to the end of a container, with its counters. -/
def Container.append (c : Container) (src : Bytes) (size : Nat) : Container :=
  { c with
    data := overwrite c.data c.occupied src
    occupied := u32 (c.occupied + size)
    capacity := sub32 c.capacity size }

/-- The address of the last `size` bytes of a container. -/
def Container.lastChunk (c : Container) (size : Nat) : ChunkAddr :=
  ⟨c.containerID, UInt64.ofNat (c.occupied - size), UInt64.ofNat size⟩

namespace UploadState

/-- `new_container`: an empty container with the next id. -/
def newContainer (env : Env) (sv : Server) (up : UploadState) : Server × UploadState :=
  ({ sv with drawn := sv.drawn + 1 },
    { up with containerBuffer := ⟨env.uuid sv.drawn, 0, CONTAINERSIZE, []⟩ })

/-- `new_recipe`. -/
def newRecipe (up : UploadState) : UploadState := { up with recipeBuffer := ⟨[]⟩ }

/-- `insert_container_queue`. -/
def insertContainerQueue (up : UploadState) : UploadState :=
  { up with containerQueue := up.containerQueue.push up.containerBuffer }

/-- `insert_recipe_queue`. -/
def insertRecipeQueue (up : UploadState) : UploadState :=
  { up with recipeQueue := up.recipeQueue.push up.recipeBuffer }

/-- Before a chunk is stored: a container without room for it is handed over and replaced. -/
def rollOver (env : Env) (size : Nat) (sv : Server) (up : UploadState) : Server × UploadState :=
  if up.containerBuffer.capacity < size then up.insertContainerQueue.newContainer env sv
  else (sv, up)

/-- Append an entry to the recipe; a full buffer is handed over and replaced. -/
def writeRecipeEntry (chunkAddr : ChunkAddr) (up : UploadState) : UploadState :=
  let up := if BATCHSIZE ≤ up.recipeBuffer.num then up.insertRecipeQueue.newRecipe else up
  { up with recipeBuffer := ⟨up.recipeBuffer.data ++ [chunkAddr]⟩ }

end UploadState

/-- The size of the `u`-th chunk of a message, as `receive_file` computes it. -/
def chunkSlotSize (msg : DataMsg) (u : Nat) : Nat :=
  sub32 (u32 (min ((u + 1) * CHUNKSIZE) msg.header.start)) (u32 (u * CHUNKSIZE))

/-- The bytes `receive_file` copies for the `u`-th chunk of a message. -/
def chunkSlot (msg : DataMsg) (u : Nat) : Bytes :=
  (msg.data.drop (u32 (u * CHUNKSIZE))).take (chunkSlotSize msg u)

/-- The variables of the loop that stores the chunks of a message. -/
structure StoreLoop where
  server : Server
  up : UploadState
  /-- The local `chunkAddr`, uninitialised at first. -/
  chunkAddr : Option ChunkAddr
  currentUniqueNum : Nat

namespace StoreLoop

/-- A chunk of which the reply said `1`: copy it to the container and publish its address. -/
def storeUnique (env : Env) (msg : DataMsg) (hash : Bytes) (st : StoreLoop) : StoreLoop :=
  let size := chunkSlotSize msg st.currentUniqueNum
  let rolled := st.up.rollOver env size st.server
  let up := { rolled.2 with
    receivedFileSize := rolled.2.receivedFileSize + size
    containerBuffer := rolled.2.containerBuffer.append (chunkSlot msg st.currentUniqueNum) size }
  let chunkAddr := up.containerBuffer.lastChunk size
  { server := rolled.1.addChunk (convertArrayHashToString hash) chunkAddr
    up := up.writeRecipeEntry chunkAddr
    chunkAddr := some chunkAddr
    currentUniqueNum := st.currentUniqueNum + 1 }

/-- One pass of the loop: the answer given for a hash, and the hash. -/
def step (env : Env) (msg : DataMsg) (st : StoreLoop) (query : UInt8 × Bytes) :
    Option StoreLoop :=
  if query.1 = 1 then some (st.storeUnique env msg query.2)
  else if query.1 = 0 then
    match st.up.duplicatedChunkAddr with
    | chunkAddr :: rest =>
      some { st with
        up := { st.up with duplicatedChunkAddr := rest }.writeRecipeEntry chunkAddr
        chunkAddr := some chunkAddr }
    | [] => none
  else
    match st.chunkAddr with
    | some chunkAddr => some { st with up := st.up.writeRecipeEntry chunkAddr }
    | none => none

/-- The loop over `m_hashList`. -/
def run (env : Env) (msg : DataMsg) (st : StoreLoop) (queries : List (UInt8 × Bytes)) :
    Option StoreLoop :=
  queries.foldlM (step env msg) st

end StoreLoop

/-! ## The connection -/

/-- Where the thread of `ClientConn::run` is: waiting for the login, an order or an upload
message, before a database access or a reply of `receive_file`, waiting for its writers, before
the database access of `send_file`, in its loop with the recipe stream (a position, or failed),
or finished. -/
inductive ConnPc
  | login
  | order
  | lookup (fileName : Bytes)
  | reply (fileName : Bytes)
  | register (fileName : Bytes)
  | body
  | join
  | exist (fileName : Bytes)
  | sending (recipe : Option Nat)
  | closed
  deriving DecidableEq, Repr

/-- The thread of `write_container`. -/
inductive DataWriter
  | idle
  | waiting
  | saving (tmpContainer : Container)
  | finished
  | joined
  deriving DecidableEq

/-- The thread of `write_recipe`, with the position of its stream and `totalChunkNum`. -/
inductive RecipeWriter
  | idle
  | opening
  | waiting (pos totalChunkNum : Nat)
  | writing (pos totalChunkNum : Nat) (tmpRecipeEntryContainer : RecipeEntryContainer)
  | finished
  | joined
  deriving DecidableEq

/-- `ClientConn`. -/
structure Conn where
  pc : ConnPc
  client_id : Int
  /-- `m_outMsgBuffer->header`. -/
  outHeader : DataMsgHeader
  /-- `m_outMsgBuffer->data`. -/
  outData : Bytes
  hashList : List Bytes
  upload : UploadState
  recipeNameHash : Bytes
  dataWriter : DataWriter
  recipeWriter : RecipeWriter
  uploadRep : Option RepStatus
  answered : List ChunkAddr
  written : List ChunkAddr
  deriving DecidableEq

namespace Conn

/-- The constructor of `ClientConn`; `junk` is what the allocated reply buffer contains. -/
def init (env : Env) (sv : Server) (junk : Bytes) : Server × Conn :=
  let up : UploadState :=
    ⟨[], .empty, ⟨env.uuid sv.drawn, 0, CONTAINERSIZE, []⟩, .empty, ⟨[]⟩, 0, 0, 0⟩
  let created := up.newContainer env sv
  (created.1, ⟨.login, 0, ⟨.UPLOADBODYREP, 0, 0, 0, 0⟩, junk, [], created.2.newRecipe, [],
    .idle, .idle, none, [], []⟩)

/-! ## `receive_file` -/

/-- The queried hashes of a message. -/
def queriedHashes (msg : DataMsg) : List Bytes :=
  (List.range msg.header.queryNum).map fun i =>
    (msg.data.drop (msg.header.start + i * HASHSIZE)).take HASHSIZE

/-- The answer to a query: `0` for a chunk that is stored, `1` for one to be sent. -/
def queryAnswer (sv : Server) (hash : Bytes) : UInt8 :=
  if (sv.isChunkStored (convertArrayHashToString hash)).isSome then 0 else 1

/-- The addresses the index holds for some hashes, one for each that it knows. -/
def storedAddrs (sv : Server) (hashes : List Bytes) : List ChunkAddr :=
  hashes.filterMap fun h => sv.isChunkStored (convertArrayHashToString h)

/-- The connection after the loop `st` that stored the chunks of a message has ended and the new
query of the message is answered. The answers are written over the reply buffer, which also
remembers them for the next message. -/
def answerQuery (c : Conn) (msg : DataMsg) (st : StoreLoop) : Conn :=
  let hashes := queriedHashes msg
  let duplicated := st.up.duplicatedChunkAddr ++ storedAddrs st.server hashes
  { c with
    hashList := hashes
    upload := { st.up with
      uniqueChunkNum := st.up.uniqueChunkNum + st.currentUniqueNum
      duplicatedChunkAddr := duplicated
      duplicatedChunkNum := st.up.duplicatedChunkNum + duplicated.length }
    outData := overwrite c.outData 0 (hashes.map (queryAnswer st.server))
    outHeader := { c.outHeader with
      queryNum := msg.header.queryNum
      size := sizeofDataMsg + msg.header.queryNum }
    answered := c.answered ++ storedAddrs st.server hashes }

/-- The reply to an `UPLOADBODY` message: none when nothing was queried. -/
def bodyReply (c : Conn) : List Msg :=
  if c.outHeader.queryNum = 0 then []
  else [.data ⟨c.outHeader, c.outData.take (c.outHeader.size - sizeofDataMsg)⟩]

/-- The hashes of the last query, each with the answer given. -/
def queries (c : Conn) : List (UInt8 × Bytes) :=
  (c.outData.take c.hashList.length).zip c.hashList

/-- An `UPLOADBODY` message: store the chunks the last reply asked for, then answer the new
query. -/
def receiveBody (env : Env) (sv : Server) (c : Conn) (msg : DataMsg) :
    Option (Server × Conn × List Msg) :=
  (StoreLoop.run env msg ⟨sv, c.upload, none, 0⟩ c.queries).map fun st =>
    (st.server, c.answerQuery msg st, (c.answerQuery msg st).bodyReply)

/-- `FILEEND`: hand over the last container and the last recipe buffer, and tell the writers
that nothing follows. -/
def receiveFileEnd (c : Conn) : Conn :=
  let up := if c.upload.containerBuffer.occupied ≠ 0 then c.upload.insertContainerQueue
    else c.upload
  let up := up.insertRecipeQueue
  { c with
    pc := .join
    outHeader := { c.outHeader with dataMsgType := .FILEEND }
    upload := { up with
      containerQueue := up.containerQueue.setDone
      recipeQueue := up.recipeQueue.setDone } }

/-- `reset_upload`, after both writers have been joined. -/
def resetUpload (env : Env) (sv : Server) (c : Conn) : Server × Conn :=
  let up := { c.upload with
    containerQueue := c.upload.containerQueue.undone
    recipeQueue := c.upload.recipeQueue.undone }
  let created := up.newContainer env sv
  (created.1, { c with
    pc := .order
    hashList := []
    upload := created.2.newRecipe
    recipeNameHash := []
    dataWriter := .joined
    recipeWriter := .joined })

/-! ## `send_file` -/

/-- The bytes an extent really has on disk: none of a missing container, fewer of a short one. -/
def extentOnDisk (sv : Server) (a : ChunkAddr) : Bytes :=
  (((sv.containers.lookup a.containerID).getD []).drop a.offset.toNat).take a.size.toNat

/-- Read an extent into the buffer at `dataOffset`, which moves on by the recorded size. -/
def readExtent (sv : Server) (st : Bytes × Nat) (a : ChunkAddr) : Bytes × Nat :=
  (overwrite st.1 st.2 (extentOnDisk sv a), st.2 + a.size.toNat)

/-- The entries in a block of the recipe. -/
def blockEntries (block : Bytes) : List ChunkAddr :=
  (List.range (block.length / sizeofChunkAddr)).map fun i =>
    decodeChunkAddr (piece sizeofChunkAddr block i)

/-- Size of a block of the recipe that is read at once. -/
def recipeBlockSize : Nat := sizeofChunkAddr * BATCHSIZE

/-- The stream on the recipe file after it was opened and `totalChunkNum` was read: its position,
or nothing when that failed. -/
def openRecipe (sv : Server) (recipeNameHash : Bytes) : Option Nat :=
  match sv.recipes.lookup recipeNameHash with
  | some file => if file.length < 4 then none else some 4
  | none => none

/-- The next block of the recipe. -/
def readRecipe (sv : Server) (recipeNameHash : Bytes) : Option Nat → Bytes
  | some pos => (((sv.recipes.lookup recipeNameHash).getD []).drop pos).take recipeBlockSize
  | none => []

/-- One pass of the loop of `send_file`: the new reply buffer, the rest of the stream and the
message, or nothing at the end of the recipe. -/
def sendBlock (sv : Server) (recipeNameHash outData : Bytes) (outHeader : DataMsgHeader)
    (recipe : Option Nat) : Option (Bytes × DataMsgHeader × Option Nat × DataMsg) :=
  let block := readRecipe sv recipeNameHash recipe
  if block = [] then none
  else
    let entries := blockEntries block
    let filled := entries.foldl (readExtent sv) (outData, 0)
    let header := { outHeader with
      chunkNum := entries.length
      size := sizeofDataMsg + filled.2 }
    let next := if block.length = recipeBlockSize then recipe.map (· + recipeBlockSize) else none
    some (filled.1, header, next, ⟨header, filled.1.take filled.2⟩)

/-! ## `run` -/

/-- The program points at which the thread waits for a message. -/
def receives (c : Conn) : Bool :=
  match c.pc with
  | .login | .order | .body => true
  | _ => false

/-- **What the thread does with the next message.** -/
def receive (env : Env) (sv : Server) (c : Conn) : Msg → Option (Server × Conn × List Msg)
  | .login client_id =>
    match c.pc with
    | .login => some (sv, { c with client_id := client_id, pc := .order }, [])
    | _ => none
  | .control order fileName _ =>
    match c.pc with
    | .order =>
      let recipeNameHash := env.recipeNameHash c.client_id fileName
      match order with
      | .UPLOAD =>
        some (sv, { c with pc := .lookup fileName, recipeNameHash := recipeNameHash }, [])
      | .DOWNLOAD =>
        some (sv, { c with pc := .exist fileName, recipeNameHash := recipeNameHash }, [])
      | .QUIT => some (sv, { c with pc := .closed }, [.control .QUITREP [] .NONE])
      | _ => some (sv, c, [])
    | _ => none
  | .data msg =>
    match c.pc with
    | .body =>
      if msg.header.dataMsgType = .FILEEND then some (sv, c.receiveFileEnd, [])
      else c.receiveBody env sv msg
    | _ => none

/-- **What the thread does at the points where it does not wait for a message.** -/
def proceed (env : Env) (sv : Server) (c : Conn) : Option (Server × Conn × List Msg) :=
  match c.pc with
  | .lookup fileName =>
    if sv.isFileUnique c.client_id fileName then some (sv, { c with pc := .reply fileName }, [])
    else
      some (sv, { c with pc := .order, uploadRep := some .DUPLICATE },
        [.control .UPLOADREP [] .DUPLICATE])
  | .reply fileName =>
    some (sv, { c with pc := .register fileName, uploadRep := some .UNIQUE },
      [.control .UPLOADREP [] .UNIQUE])
  | .register fileName =>
    some (sv.addFile c.client_id fileName, { c with
      pc := .body
      outHeader := { c.outHeader with dataMsgType := .UPLOADBODYREP }
      upload := { c.upload with
        receivedFileSize := 0, uniqueChunkNum := 0, duplicatedChunkNum := 0 }
      answered := []
      dataWriter := .waiting
      recipeWriter := .opening }, [])
  | .join =>
    if c.dataWriter = .finished ∧ c.recipeWriter = .finished then
      some ((c.resetUpload env sv).1, (c.resetUpload env sv).2, [])
    else none
  | .exist fileName =>
    if sv.isFileExist c.client_id fileName then
      some (sv, { c with
        pc := .sending (openRecipe sv c.recipeNameHash)
        outHeader := { c.outHeader with dataMsgType := .DOWNLOADBODY } },
        [.control .DOWNLOADREP [] .EXIST])
    else some (sv, { c with pc := .order }, [.control .DOWNLOADREP [] .NOTEXIST])
  | .sending recipe =>
    match sendBlock sv c.recipeNameHash c.outData c.outHeader recipe with
    | some (outData, outHeader, next, msg) =>
      some (sv, { c with pc := .sending next, outData := outData, outHeader := outHeader },
        [.data msg])
    | none =>
      let outHeader := { c.outHeader with dataMsgType := .FILEEND }
      some (sv, { c with pc := .order, outHeader := outHeader, recipeNameHash := [] },
        [.data ⟨outHeader, []⟩])
  | _ => none

/-! ## The writer threads -/

/-- `save_container`. -/
def saveContainer (sv : Server) (container : Container) : Server :=
  { sv with containers :=
      sv.containers.insert container.containerID (container.data.take container.occupied) }

/-- The recipe file after a write that leaves it with the given content. -/
def saveRecipe (sv : Server) (recipeNameHash content : Bytes) : Server :=
  { sv with recipes := sv.recipes.insert recipeNameHash content }

/-- One step of `write_container`: take a container, save it, or return when the queue is empty
and done. -/
def dataWriterStep (sv : Server) (c : Conn) : Option (Server × Conn) :=
  match c.dataWriter with
  | .waiting =>
    match c.upload.containerQueue.queue with
    | tmpContainer :: rest =>
      some (sv, { c with
        upload := { c.upload with
          containerQueue := { c.upload.containerQueue with queue := rest } }
        dataWriter := .saving tmpContainer })
    | [] =>
      if c.upload.containerQueue.done then some (sv, { c with dataWriter := .finished })
      else none
  | .saving tmpContainer =>
    some (saveContainer sv tmpContainer, { c with dataWriter := .waiting })
  | _ => none

/-- One step of `write_recipe`: open the file and write a zero count, take a buffer, write it, or
patch the count at the start of the file and return. -/
def recipeWriterStep (sv : Server) (c : Conn) : Option (Server × Conn) :=
  let file := (sv.recipes.lookup c.recipeNameHash).getD []
  match c.recipeWriter with
  | .opening =>
    some (saveRecipe sv c.recipeNameHash (encodeTotalChunkNum 0),
      { c with recipeWriter := .waiting 4 0, written := [] })
  | .waiting pos totalChunkNum =>
    match c.upload.recipeQueue.queue with
    | tmpRecipeEntryContainer :: rest =>
      some (sv, { c with
        upload := { c.upload with recipeQueue := { c.upload.recipeQueue with queue := rest } }
        recipeWriter := .writing pos totalChunkNum tmpRecipeEntryContainer })
    | [] =>
      if c.upload.recipeQueue.done then
        some (saveRecipe sv c.recipeNameHash (writeAt file 0 (encodeTotalChunkNum totalChunkNum)),
          { c with recipeWriter := .finished })
      else none
  | .writing pos totalChunkNum tmpRecipeEntryContainer =>
    let entries := encodeEntries tmpRecipeEntryContainer.data
    some (saveRecipe sv c.recipeNameHash (writeAt file pos entries), { c with
      recipeWriter := .waiting (pos + entries.length)
        (u32 (totalChunkNum + tmpRecipeEntryContainer.num))
      written := c.written ++ tmpRecipeEntryContainer.data })
  | _ => none

end Conn

end DedupServer
