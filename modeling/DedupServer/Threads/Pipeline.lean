import DedupServer.Foundations.Heap
import DedupServer.Threads.BlockQueue
import DedupServer.Upload.ReceiveBody

/-! # The threads of an upload, with their pointers

`receive_file`, `write_container` and `write_recipe` between the registration of a file and the two joins,
one access to the heap, a queue or the disk at a time. `Container_t` and `RecipeEntryContainer_t` are the
structs of the source: a push copies the struct and shares its `data` with the serving thread, which goes
on with a new block while a writer saves and frees the old one. `push` waits while the queue is full.

What has gone wrong in memory is remembered (`faulted`). Four fields are history: the containers as they
were pushed (`pushed`) and as they were written (`saved`), the recipe entries in the order they were
produced (`entries`), and the container files as other sessions left them last (`foreign`). -/

namespace DedupServer

open Foundations

/-- `Container_t`, with its pointer. -/
structure ContainerStruct where
  containerID : ContainerID
  occupied : ℕ
  capacity : ℕ
  data : ℕ
  deriving DecidableEq

/-- `RecipeEntryContainer_t`, with its pointer. -/
structure RecipeStruct where
  num : ℕ
  data : ℕ
  deriving DecidableEq

/-- The counters of a container after `size` bytes have been copied to its end. -/
def ContainerStruct.append (c : ContainerStruct) (size : ℕ) : ContainerStruct :=
  { c with occupied := u32 (c.occupied + size), capacity := sub32 c.capacity size }

/-- The address of the last `size` bytes of a container. -/
def ContainerStruct.lastChunk (c : ContainerStruct) (size : ℕ) : ChunkAddr :=
  ⟨c.containerID, UInt64.ofNat (c.occupied - size), UInt64.ofNat size⟩

/-- Size of the block of a recipe buffer. -/
def recipeBufferSize : ℕ := BATCHSIZE * sizeofChunkAddr

/-- The variables of the loop over `m_hashList`: the message, `currentUniqueNum`, `chunkAddr`, which is
uninitialised at first, and the hashes that are left, each with its answer. -/
structure HashLoop where
  msg : DataMsg
  currentUniqueNum : ℕ
  chunkAddr : Option ChunkAddr
  rest : List (UInt8 × Bytes)

/-- Where `receive_file` is: waiting for a message, in the loop (at its head, before `new_container`, before
a chunk is copied, before an entry is written, before `new_recipe`), before the new query of a message, or at
its end. -/
inductive ReceiverPc
  | receiving
  | looping (loop : HashLoop)
  | renewing (loop : HashLoop) (hash : Bytes)
  | copying (loop : HashLoop) (hash : Bytes)
  | entering (loop : HashLoop) (chunkAddr : ChunkAddr)
  | renewingRecipe (loop : HashLoop) (chunkAddr : ChunkAddr)
  | querying (msg : DataMsg)
  | lastContainer
  | lastRecipe
  | containerDone
  | recipeDone
  | joinRecipe
  | joinData
  | joined

/-- Where `write_container` is. -/
inductive ContainerThread
  | popping
  | opening (tmpContainer : ContainerStruct)
  | writing (tmpContainer : ContainerStruct)
  | freeing (tmpContainer : ContainerStruct)
  | finished
  deriving DecidableEq

/-- Where `write_recipe` is, with the position of its stream and `totalChunkNum`. -/
inductive RecipeThread
  | opening
  | popping (pos totalChunkNum : ℕ)
  | writing (pos totalChunkNum : ℕ) (tmpRecipeEntryContainer : RecipeStruct)
  | freeing (pos totalChunkNum : ℕ) (tmpRecipeEntryContainer : RecipeStruct)
  | patching (totalChunkNum : ℕ)
  | finished
  deriving DecidableEq

/-- **An upload of a connection**: what is shared with other sessions, the heap, the members of
`ClientConn`, and its three threads. -/
structure Pipeline where
  server : Server
  heap : Heap
  faulted : Bool
  pc : ReceiverPc
  hashList : List Bytes
  /-- The first bytes of `m_outMsgBuffer->data`: the answers to the hashes. -/
  answers : Bytes
  duplicatedChunkAddr : List ChunkAddr
  containerBuffer : ContainerStruct
  recipeBuffer : RecipeStruct
  containerQueue : BlockQueueState ContainerStruct
  recipeQueue : BlockQueueState RecipeStruct
  recipeNameHash : Bytes
  containerThread : ContainerThread
  recipeThread : RecipeThread
  pushed : List (ContainerID × Bytes)
  saved : List (ContainerID × Bytes)
  entries : List ChunkAddr
  foreign : Directory ContainerID

/-- What happens next: a message arrives, the serving thread goes on, `malloc` returns a block to it, a writer
goes on, or other sessions change what is shared. -/
inductive PipelineAct
  | message (msg : DataMsg)
  | receiver
  | malloc (p : ℕ) (block : Block)
  | containerThread
  | recipeThread
  | others (server : Server)

namespace Pipeline

/-- Undefined behaviour. -/
def fault (σ : Pipeline) : Pipeline := { σ with faulted := true }

/-- The bytes of a container, and its name. -/
def containerValue (heap : Heap) (c : ContainerStruct) : ContainerID × Bytes :=
  (c.containerID, heap.read c.data c.occupied)

/-- The hashes of the last query, each with its answer. -/
def queries (σ : Pipeline) : List (UInt8 × Bytes) := σ.answers.zip σ.hashList

/-- A message has arrived. -/
def message (σ : Pipeline) (msg : DataMsg) : Pipeline :=
  if msg.header.dataMsgType = .FILEEND then { σ with pc := .lastContainer }
  else { σ with pc := .looping ⟨msg, 0, none, σ.queries⟩ }

/-- `insert_container_queue`, unless it has to wait. -/
def insertContainerQueue (σ : Pipeline) (pc : ReceiverPc) : Option Pipeline :=
  (σ.containerQueue.push σ.containerBuffer).map fun q =>
    { σ with
      containerQueue := q
      pushed := σ.pushed ++ [containerValue σ.heap σ.containerBuffer]
      pc := pc }

/-- `insert_recipe_queue`, unless it has to wait. -/
def insertRecipeQueue (σ : Pipeline) (pc : ReceiverPc) : Option Pipeline :=
  (σ.recipeQueue.push σ.recipeBuffer).map fun q => { σ with recipeQueue := q, pc := pc }

/-- The head of the loop: a chunk for which there is room, or not, or an address that is known. -/
def loopHead (σ : Pipeline) (loop : HashLoop) : Option Pipeline :=
  match loop.rest with
  | [] => some { σ with pc := .querying loop.msg }
  | (answer, hash) :: rest =>
    let loop := { loop with rest := rest }
    if answer = 1 then
      if σ.containerBuffer.capacity < chunkSlotSize loop.msg loop.currentUniqueNum then
        σ.insertContainerQueue (.renewing loop hash)
      else some { σ with pc := .copying loop hash }
    else if answer = 0 then
      match σ.duplicatedChunkAddr with
      | chunkAddr :: addrs =>
        some { σ with duplicatedChunkAddr := addrs, pc := .entering loop chunkAddr }
      | [] => some σ.fault
    else
      match loop.chunkAddr with
      | some chunkAddr => some { σ with pc := .entering loop chunkAddr }
      | none => some σ.fault

/-- A chunk is copied to the container, with the counters, and its address is published. -/
def copyChunk (σ : Pipeline) (loop : HashLoop) (hash : Bytes) : Pipeline :=
  let size := chunkSlotSize loop.msg loop.currentUniqueNum
  match σ.heap.store σ.containerBuffer.data σ.containerBuffer.occupied
      (chunkSlot loop.msg loop.currentUniqueNum) with
  | none => σ.fault
  | some heap =>
    let chunkAddr := (σ.containerBuffer.append size).lastChunk size
    { σ with
      heap := heap
      containerBuffer := σ.containerBuffer.append size
      server := σ.server.addChunk (convertArrayHashToString hash) chunkAddr
      pc := .entering { loop with currentUniqueNum := loop.currentUniqueNum + 1 } chunkAddr }

/-- The end of the loop: a full recipe buffer is handed over, or the entry is written. -/
def enterAddr (σ : Pipeline) (loop : HashLoop) (chunkAddr : ChunkAddr) : Option Pipeline :=
  if BATCHSIZE ≤ σ.recipeBuffer.num then σ.insertRecipeQueue (.renewingRecipe loop chunkAddr)
  else
    match σ.heap.store σ.recipeBuffer.data (σ.recipeBuffer.num * sizeofChunkAddr)
        (encodeChunkAddr chunkAddr) with
    | none => some σ.fault
    | some heap => some { σ with
        heap := heap
        recipeBuffer := { σ.recipeBuffer with num := σ.recipeBuffer.num + 1 }
        entries := σ.entries ++ [chunkAddr]
        pc := .looping { loop with chunkAddr := some chunkAddr } }

/-- The new query of a message is answered. -/
def answerQuery (σ : Pipeline) (msg : DataMsg) : Pipeline :=
  let hashes := Conn.queriedHashes msg
  { σ with
    hashList := hashes
    answers := hashes.map (Conn.queryAnswer σ.server)
    duplicatedChunkAddr := σ.duplicatedChunkAddr ++ Conn.storedAddrs σ.server hashes
    pc := .receiving }

/-- One step of `receive_file`. -/
def receiverStep (σ : Pipeline) : Option Pipeline :=
  match σ.pc with
  | .looping loop => σ.loopHead loop
  | .copying loop hash => some (σ.copyChunk loop hash)
  | .entering loop chunkAddr => σ.enterAddr loop chunkAddr
  | .querying msg => some (σ.answerQuery msg)
  | .lastContainer =>
    if σ.containerBuffer.occupied ≠ 0 then σ.insertContainerQueue .lastRecipe
    else some { σ with pc := .lastRecipe }
  | .lastRecipe => σ.insertRecipeQueue .containerDone
  | .containerDone => some { σ with containerQueue := σ.containerQueue.setDone, pc := .recipeDone }
  | .recipeDone => some { σ with recipeQueue := σ.recipeQueue.setDone, pc := .joinRecipe }
  | .joinRecipe =>
    if σ.recipeThread = .finished then some { σ with pc := .joinData } else none
  | .joinData =>
    if σ.containerThread = .finished then some { σ with pc := .joined } else none
  | _ => none

/-- `new_container` and `new_recipe`, once `malloc` has returned. -/
def mallocStep (env : Env) (σ : Pipeline) (p : ℕ) (block : Block) : Option Pipeline :=
  match σ.pc with
  | .renewing loop hash =>
    if block.size = CONTAINERSIZE then
      (σ.heap.malloc p block).map fun heap => { σ with
        heap := heap
        server := { σ.server with drawn := σ.server.drawn + 1 }
        containerBuffer := ⟨env.uuid σ.server.drawn, 0, CONTAINERSIZE, p⟩
        pc := .copying loop hash }
    else none
  | .renewingRecipe loop chunkAddr =>
    if block.size = recipeBufferSize then
      (σ.heap.malloc p block).map fun heap => { σ with
        heap := heap
        recipeBuffer := ⟨0, p⟩
        pc := .entering loop chunkAddr }
    else none
  | _ => none

/-- One step of `write_container`; opening a file truncates it. -/
def containerStep (σ : Pipeline) : Option Pipeline :=
  match σ.containerThread with
  | .popping =>
    match σ.containerQueue.pop with
    | .wait => none
    | .finished => some { σ with containerThread := .finished }
    | .got tmpContainer q =>
      some { σ with containerQueue := q, containerThread := .opening tmpContainer }
  | .opening tmpContainer =>
    some { σ with
      server := { σ.server with
        containers := σ.server.containers.insert tmpContainer.containerID [] }
      containerThread := .writing tmpContainer }
  | .writing tmpContainer =>
    match σ.heap.load tmpContainer.data tmpContainer.occupied with
    | none => some σ.fault
    | some bs => some { σ with
        server := { σ.server with
          containers := σ.server.containers.insert tmpContainer.containerID bs }
        saved := σ.saved ++ [(tmpContainer.containerID, bs)]
        containerThread := .freeing tmpContainer }
  | .freeing tmpContainer =>
    match σ.heap.free tmpContainer.data with
    | none => some σ.fault
    | some heap => some { σ with heap := heap, containerThread := .popping }
  | .finished => none

/-- One step of `write_recipe`. -/
def recipeStep (σ : Pipeline) : Option Pipeline :=
  let file := (σ.server.recipes.lookup σ.recipeNameHash).getD []
  match σ.recipeThread with
  | .opening => some { σ with
      server := Conn.saveRecipe σ.server σ.recipeNameHash (encodeTotalChunkNum 0)
      recipeThread := .popping 4 0 }
  | .popping pos totalChunkNum =>
    match σ.recipeQueue.pop with
    | .wait => none
    | .finished => some { σ with recipeThread := .patching totalChunkNum }
    | .got tmpRecipeEntryContainer q => some { σ with
        recipeQueue := q
        recipeThread := .writing pos totalChunkNum tmpRecipeEntryContainer }
  | .writing pos totalChunkNum tmpRecipeEntryContainer =>
    match σ.heap.load tmpRecipeEntryContainer.data (tmpRecipeEntryContainer.num * sizeofChunkAddr) with
    | none => some σ.fault
    | some bs => some { σ with
        server := Conn.saveRecipe σ.server σ.recipeNameHash (writeAt file pos bs)
        recipeThread := .freeing (pos + bs.length)
          (u32 (totalChunkNum + tmpRecipeEntryContainer.num)) tmpRecipeEntryContainer }
  | .freeing pos totalChunkNum tmpRecipeEntryContainer =>
    match σ.heap.free tmpRecipeEntryContainer.data with
    | none => some σ.fault
    | some heap => some { σ with heap := heap, recipeThread := .popping pos totalChunkNum }
  | .patching totalChunkNum => some { σ with
      server := Conn.saveRecipe σ.server σ.recipeNameHash
        (writeAt file 0 (encodeTotalChunkNum totalChunkNum))
      recipeThread := .finished }
  | .finished => none

/-- One step. -/
def step (env : Env) (σ : Pipeline) : PipelineAct → Option Pipeline
  | .message msg =>
    match σ.pc with
    | .receiving => some (σ.message msg)
    | _ => none
  | .receiver => σ.receiverStep
  | .malloc p block => σ.mallocStep env p block
  | .containerThread => σ.containerStep
  | .recipeThread => σ.recipeStep
  | .others server => some { σ with server := server, foreign := server.containers }

end Pipeline

/-- **The three threads of an upload.** -/
def pipelineMachine (env : Env) : Machine Pipeline PipelineAct where
  step := Pipeline.step env

end DedupServer
