import DedupServer.Foundations.Interleaving
import DedupServer.Protocol.ClientSteps
import DedupServer.Threads.Entries

/-! # Uploads side by side

Any number of uploads over one server, each with its client, its serving thread and its two writers, one
access to a queue, the heap or the disk at a time; the look-ups for one query are one step. An upload joins
when its connection exists and its request has been answered with `UNIQUE`; it has the part of the heap that
it has allocated. The recipe file is its name here, so no two of them write the same one.

`UploadThreads.Stage` tells where the client and the serving thread of an upload can be at the same time, and
which chunks the server has been asked for. -/

namespace DedupServer

open Foundations

/-- What an upload starts from: who uploads which file, and the two buffers that the constructor of the
connection has allocated. -/
structure UploadArg where
  client_id : ℤ
  file_path : Bytes
  file : Bytes
  heap : Heap
  containerData : ℕ
  recipeData : ℕ
  owned : heap.Owned [(containerData, CONTAINERSIZE), (recipeData, recipeBufferSize)]

/-- **An upload**: the client, the messages in flight, whether the file is registered, the header of
`m_outMsgBuffer`, and the threads of the connection. -/
structure UploadThreads where
  client : Client
  up : List Msg
  down : List Msg
  registered : Bool
  outHeader : DataMsgHeader
  pipeline : Pipeline

/-- Who moves in an upload. -/
inductive UploadAct
  | client
  | register
  | message
  | receiver
  | malloc (p : ℕ) (block : Block)
  | containerThread
  | recipeThread

/-- The threads of an upload, with what is shared as it is now. -/
def Pipeline.see (σ : Pipeline) (sv : Server) : Pipeline :=
  { σ with server := sv, foreign := sv.containers }

/-- The message that the serving thread works on. -/
def ReceiverPc.msg : ReceiverPc → Option DataMsg
  | .looping loop | .renewing loop _ | .copying loop _ | .entering loop _ | .renewingRecipe loop _ =>
    some loop.msg
  | .querying msg => some msg
  | _ => none

namespace UploadThreads

/-- An upload joins: its first container has been given an id, and the answer is on its way. -/
def start (env : Env) (sv : Server) (arg : UploadArg) : Server × UploadThreads :=
  let server := { sv with drawn := sv.drawn + 1 }
  let client := (Client.start arg.client_id 117 arg.file_path arg.file false).1
  (server, {
    client := client
    up := []
    down := [.control .UPLOADREP [] .UNIQUE]
    registered := false
    outHeader := ⟨.UPLOADBODYREP, 0, 0, 0, 0⟩
    pipeline := {
      server := server
      heap := arg.heap
      faulted := false
      pc := .receiving
      hashList := []
      answers := []
      duplicatedChunkAddr := []
      containerBuffer := ⟨env.uuid sv.drawn, 0, CONTAINERSIZE, arg.containerData⟩
      recipeBuffer := ⟨0, arg.recipeData⟩
      containerQueue := .new 1000
      recipeQueue := .new 1000
      recipeNameHash := env.recipeNameHash arg.client_id client.fileName
      containerThread := .popping
      recipeThread := .opening
      pushed := []
      saved := []
      entries := []
      foreign := sv.containers } })

/-- A step of one of the threads of the connection, once the file is registered. -/
def runs (env : Env) (sv : Server) (s : UploadThreads) (a : PipelineAct) : Option (Server × UploadThreads) :=
  if s.registered then
    ((pipelineMachine env).step (s.pipeline.see sv) a).map fun σ => (σ.server, { s with pipeline := σ })
  else none

/-- The header of the reply to a message. -/
def replyHeader (s : UploadThreads) (msg : DataMsg) : DataMsgHeader :=
  { s.outHeader with queryNum := msg.header.queryNum, size := sizeofDataMsg + msg.header.queryNum }

/-- A query has been answered: the reply is sent, unless nothing was asked. -/
def replied (s : UploadThreads) (msg : DataMsg) : UploadThreads :=
  { s with
    outHeader := s.replyHeader msg
    down := s.down ++
      if msg.header.queryNum = 0 then [] else [.data ⟨s.replyHeader msg, s.pipeline.answers⟩] }

/-- **One action of an upload.** -/
def act (env : Env) (sv : Server) (s : UploadThreads) : UploadAct → Option (Server × UploadThreads)
  | .client =>
    match s.down with
    | m :: rest => (s.client.react env m).map fun r =>
        (sv, { s with client := r.1, down := rest, up := s.up ++ r.2 })
    | [] => none
  | .register =>
    if s.registered then none
    else some (sv.addFile s.client.client_id s.client.fileName, { s with registered := true })
  | .message =>
    match s.up with
    | .data msg :: rest => (s.runs env sv (.message msg)).map fun r => (r.1, { r.2 with up := rest })
    | _ => none
  | .receiver =>
    match s.pipeline.pc with
    | .querying msg => (s.runs env sv .receiver).map fun r => (r.1, r.2.replied msg)
    | _ => s.runs env sv .receiver
  | .malloc p block => s.runs env sv (.malloc p block)
  | .containerThread => s.runs env sv .containerThread
  | .recipeThread => s.runs env sv .recipeThread

end UploadThreads

/-- **Uploads over one server.** -/
def uploadProcesses (env : Env) : Processes Server UploadThreads UploadAct UploadArg where
  spawn := UploadThreads.start env
  act := UploadThreads.act env

/-- A state of all uploads. -/
abbrev UploadsState := Config Bytes Server UploadThreads

/-! ## Messages -/

/-- **A message fits the last query** of the serving thread: it carries the chunks `uniq` that were answered
with `1`, and asks for the chunks `next`. -/
structure Pipeline.Fits (env : Env) (file : Bytes) (σ : Pipeline) (msg : DataMsg) (uniq next : List Bytes) :
    Prop where
  carries : msg.Carries uniq (next.map env.generateHash)
  asked : picks 1 σ.queries = uniq.map env.generateHash
  sublist : uniq.Sublist (fileChunks env file)
  uniq_le : uniq.length ≤ BATCHSIZE
  next_le : next.length ≤ BATCHSIZE

namespace Pipeline.Fits

variable {env : Env} {file : Bytes} {σ : Pipeline} {msg : DataMsg} {uniq next : List Bytes}

/-- Only the last of the chunks can be short. -/
theorem ragged (h : σ.Fits env file msg uniq next) : Ragged CHUNKSIZE uniq :=
  (ragged_fileChunks env file).sublist h.sublist

/-- The hashes are whole. -/
theorem length_hash (env : Env) (next : List Bytes) :
    ∀ hash ∈ next.map env.generateHash, hash.length = HASHSIZE := by
  intro hash hmem
  obtain ⟨x, -, rfl⟩ := List.mem_map.mp hmem
  exact env.length_generateHash x

/-- The hashes that the message asks for. -/
theorem queriedHashes (h : σ.Fits env file msg uniq next) :
    Conn.queriedHashes msg = next.map env.generateHash :=
  h.carries.queriedHashes (length_hash env next)

/-- **It lies within the buffers.** -/
theorem inBounds (h : σ.Fits env file msg uniq next) : msg.InBounds (picks 1 σ.queries).length := by
  have htotal := h.ragged.length_flatten_le
  have hflatten := length_flatten_of_length_eq (length_hash env next)
  rw [List.length_map] at hflatten
  have huniq := h.uniq_le
  have hnext := h.next_le
  have hdata : msg.data.length = uniq.flatten.length + next.length * HASHSIZE := by
    rw [h.carries.data, List.length_append, hflatten]
  have hstart := h.carries.start
  have hnum : msg.header.queryNum = next.length := h.carries.queryNum.trans (List.length_map _)
  rw [h.asked, List.length_map]
  refine ⟨h.carries.type, ?_, ?_, ?_, ?_⟩
  · simp only [CHUNKSIZE, BATCHSIZE, HASHSIZE] at *
    omega
  · rw [hnum]
    exact hnext
  · rw [hdata, hstart, hnum, Nat.mul_comm]
  · rw [hstart]
    rcases Nat.eq_zero_or_pos uniq.length with hzero | hpos
    · rw [hzero]
      exact Nat.zero_le _
    · -- the last chunk begins where the others end
      obtain ⟨hoff, -⟩ := h.ragged.offsets (Nat.sub_lt hpos Nat.one_pos)
      rw [Nat.mul_comm]
      omega

/-- **It brings the chunks** that were answered with `1`. -/
theorem brings (h : σ.Fits env file msg uniq next) {Good : Bytes → Bytes → Prop}
    (hgood : ∀ x ∈ fileChunks env file, Good (env.generateHash x) x) :
    msg.Brings Good 0 (picks 1 σ.queries) := by
  rw [h.asked, DataMsg.Brings, List.length_map, List.forall₂_iff_get]
  refine ⟨by simp, fun u hu hu' => ?_⟩
  rw [List.length_map] at hu
  obtain ⟨-, hslot⟩ := h.carries.chunkSlot h.ragged h.uniq_le hu
  have hmem : uniq[u] ∈ fileChunks env file := h.sublist.subset (List.getElem_mem hu)
  simp only [List.get_eq_getElem, List.getElem_map, List.getElem_range', Nat.zero_add, Nat.one_mul]
  rw [hslot]
  exact ⟨hgood _ hmem, List.ne_nil_of_length_pos (h.ragged.2 _ (List.getElem_mem hu)).1⟩

/-- **It is welcome.** -/
theorem welcomes (h : σ.Fits env file msg uniq next) {Good : Bytes → Bytes → Prop}
    (hgood : ∀ x ∈ fileChunks env file, Good (env.generateHash x) x) :
    σ.Welcomes Good (.message msg) := by
  refine .inr ⟨h.brings hgood, ?_⟩
  rw [DataMsg.AsksWhole, h.queriedHashes]
  exact length_hash env next

/-- Only the last query matters. -/
theorem of_eq (h : σ.Fits env file msg uniq next) {σ' : Pipeline} (hqueries : σ'.queries = σ.queries) :
    σ'.Fits env file msg uniq next :=
  ⟨h.carries, hqueries ▸ h.asked, h.sublist, h.uniq_le, h.next_le⟩

end Pipeline.Fits

/-! ## The serving thread in its loop -/

namespace Pipeline

variable {env : Env} {σ σ' : Pipeline} {msg : DataMsg}

/-- **The serving thread works on a message** until it answers its query. -/
theorem msg_receiver (hmsg : σ.pc.msg = some msg) (hstep : σ.receiverStep = some σ') :
    σ.pc = .querying msg ∧ σ' = σ.answerQuery msg ∨
      (∀ m, σ.pc ≠ .querying m) ∧ σ'.pc.msg = some msg ∧ σ'.queries = σ.queries := by
  unfold receiverStep at hstep
  split at hstep
  · rename_i loop hpc
    right
    rw [hpc] at hmsg
    refine ⟨fun m heq => (by rw [hpc] at heq; cases heq), ?_⟩
    unfold Pipeline.loopHead at hstep
    split at hstep
    · obtain rfl := Option.some.inj hstep
      exact ⟨hmsg, rfl⟩
    · dsimp only at hstep
      split at hstep
      · split at hstep
        · obtain ⟨q, -, rfl⟩ := Option.map_eq_some_iff.mp hstep
          exact ⟨hmsg, rfl⟩
        · obtain rfl := Option.some.inj hstep
          exact ⟨hmsg, rfl⟩
      · split at hstep
        · split at hstep
          · obtain rfl := Option.some.inj hstep
            exact ⟨hmsg, rfl⟩
          · obtain rfl := Option.some.inj hstep
            exact ⟨(congrArg ReceiverPc.msg hpc).trans hmsg, rfl⟩
        · split at hstep
          · obtain rfl := Option.some.inj hstep
            exact ⟨hmsg, rfl⟩
          · obtain rfl := Option.some.inj hstep
            exact ⟨(congrArg ReceiverPc.msg hpc).trans hmsg, rfl⟩
  · rename_i loop hash hpc
    right
    rw [hpc] at hmsg
    refine ⟨fun m heq => (by rw [hpc] at heq; cases heq), ?_⟩
    obtain rfl := Option.some.inj hstep
    unfold Pipeline.copyChunk
    split
    · exact ⟨(congrArg ReceiverPc.msg hpc).trans hmsg, rfl⟩
    · exact ⟨hmsg, rfl⟩
  · rename_i loop chunkAddr hpc
    right
    rw [hpc] at hmsg
    refine ⟨fun m heq => (by rw [hpc] at heq; cases heq), ?_⟩
    unfold Pipeline.enterAddr at hstep
    split at hstep
    · obtain ⟨q, -, rfl⟩ := Option.map_eq_some_iff.mp hstep
      exact ⟨hmsg, rfl⟩
    · split at hstep
      · obtain rfl := Option.some.inj hstep
        exact ⟨(congrArg ReceiverPc.msg hpc).trans hmsg, rfl⟩
      · obtain rfl := Option.some.inj hstep
        exact ⟨hmsg, rfl⟩
  · rename_i m hpc
    left
    rw [hpc] at hmsg
    obtain rfl := Option.some.inj hmsg
    exact ⟨hpc, (Option.some.inj hstep).symm⟩
  -- at the other points there is no message
  all_goals first
    | (rename_i hpc; rw [hpc] at hmsg; cases hmsg)
    | cases hstep

/-- **After the end of the file** no message is waited for. -/
theorem past_receiver (hmsg : σ.pc.msg = none)
    (hstep : σ.receiverStep = some σ') :
    σ'.pc ≠ .receiving ∧ σ'.pc.msg = none ∧ σ'.queries = σ.queries := by
  unfold receiverStep at hstep
  split at hstep
  all_goals try (rename_i hat; rw [hat] at hmsg; cases hmsg)
  · split at hstep
    · obtain ⟨q, -, rfl⟩ := Option.map_eq_some_iff.mp hstep
      exact ⟨by simp, rfl, rfl⟩
    · obtain rfl := Option.some.inj hstep
      exact ⟨by simp, rfl, rfl⟩
  · obtain ⟨q, -, rfl⟩ := Option.map_eq_some_iff.mp hstep
    exact ⟨by simp, rfl, rfl⟩
  · obtain rfl := Option.some.inj hstep
    exact ⟨by simp, rfl, rfl⟩
  · obtain rfl := Option.some.inj hstep
    exact ⟨by simp, rfl, rfl⟩
  · split at hstep
    · obtain rfl := Option.some.inj hstep
      exact ⟨by simp, rfl, rfl⟩
    · cases hstep
  · split at hstep
    · obtain rfl := Option.some.inj hstep
      exact ⟨by simp, rfl, rfl⟩
    · cases hstep
  · cases hstep

end Pipeline

/-! ## Client and serving thread -/

/-- **The client keeps the batch** that it has asked for; the rest of the file is ahead. -/
structure Client.Keeps (env : Env) (c : Client) (seen batch : List Bytes) : Prop where
  buffer : c.readBuffer.chunks = batch
  le : batch.length ≤ BATCHSIZE
  rest : ∃ rest, c.Ahead env rest ∧ fileChunks env c.file = seen ++ batch ++ rest

namespace UploadThreads

variable {env : Env} {sv : Server} {s : UploadThreads} {σ' : Pipeline} {seen : List Bytes}

/-- **Where client and serving thread are**, when the server has answered for the chunks `seen`. -/
inductive Stage (env : Env) (s : UploadThreads) (seen : List Bytes) : Prop
  | accepted (hcl : s.client.pc = .awaitUploadRep) (hup : s.up = [])
      (hdown : s.down = [.control .UPLOADREP [] .UNIQUE]) (hpc : s.pipeline.pc = .receiving)
      (hqueries : s.pipeline.queries = []) (hseen : seen = [])
  | asking {msg : DataMsg} {uniq batch : List Bytes} (hcl : s.client.pc = .awaitBodyRep)
      (hup : s.up = [.data msg]) (hdown : s.down = []) (hpc : s.pipeline.pc = .receiving)
      (hfits : s.pipeline.Fits env s.client.file msg uniq batch) (hne : batch ≠ [])
      (hkeeps : s.client.Keeps env seen batch)
  | storing {msg : DataMsg} {batch : List Bytes} (hcl : s.client.pc = .awaitBodyRep) (hup : s.up = [])
      (hdown : s.down = []) (hmsg : s.pipeline.pc.msg = some msg)
      (hqueried : Conn.queriedHashes msg = batch.map env.generateHash)
      (hnum : msg.header.queryNum = batch.length) (hne : batch ≠ []) (hkeeps : s.client.Keeps env seen batch)
  | replying {reply : DataMsg} {before batch : List Bytes} (hcl : s.client.pc = .awaitBodyRep)
      (hup : s.up = []) (hdown : s.down = [.data reply]) (hpc : s.pipeline.pc = .receiving)
      (hqueries : s.pipeline.queries = reply.data.zip (batch.map env.generateHash))
      (hlen : reply.data.length = batch.length) (hseen : seen = before ++ batch)
      (hkeeps : s.client.Keeps env before batch)
  | last {msg fileEnd : DataMsg} {uniq : List Bytes}
      (hup : s.up = [.data msg, .data fileEnd, .control .QUIT [] .NONE]) (hdown : s.down = [])
      (hpc : s.pipeline.pc = .receiving) (hfits : s.pipeline.Fits env s.client.file msg uniq [])
      (hend : fileEnd.header.dataMsgType = .FILEEND) (hseen : seen = fileChunks env s.client.file)
  | lastStoring {msg fileEnd : DataMsg} (hup : s.up = [.data fileEnd, .control .QUIT [] .NONE])
      (hdown : s.down = []) (hmsg : s.pipeline.pc.msg = some msg) (hqueried : Conn.queriedHashes msg = [])
      (hnum : msg.header.queryNum = 0) (hend : fileEnd.header.dataMsgType = .FILEEND)
      (hseen : seen = fileChunks env s.client.file)
  | ending {fileEnd : DataMsg} (hup : s.up = [.data fileEnd, .control .QUIT [] .NONE]) (hdown : s.down = [])
      (hpc : s.pipeline.pc = .receiving) (hqueries : s.pipeline.queries = [])
      (hend : fileEnd.header.dataMsgType = .FILEEND) (hseen : seen = fileChunks env s.client.file)
  | ended (hup : s.up = [.control .QUIT [] .NONE]) (hdown : s.down = [])
      (hpc : s.pipeline.pc ≠ .receiving) (hmsg : s.pipeline.pc.msg = none)
      (hqueries : s.pipeline.queries = []) (hseen : seen = fileChunks env s.client.file)

/-- **One pass of `upload_file`** that is up to date with the server. -/
theorem Stage.sendBatch {c : Client} (uniq : List Bytes) {rest : List Bytes} (hpc : s.pipeline.pc = .receiving)
    (hup : s.up = []) (hasked : picks 1 s.pipeline.queries = uniq.map env.generateHash)
    (hsub : uniq.Sublist (fileChunks env c.file)) (hle : uniq.length ≤ BATCHSIZE)
    (hahead : c.Ahead env rest) (hchunks : fileChunks env c.file = seen ++ rest) :
    Stage env { s with
      client := (c.sendBatch uniq.flatten).1
      down := []
      up := s.up ++ (c.sendBatch uniq.flatten).2 } seen := by
  rw [hup, List.nil_append]
  rcases hqueue : c.readBufferQueue with _ | ⟨b, bs⟩
  · -- nothing is left of the file
    obtain ⟨header, fileEnd, hsend, hcarries, hend⟩ := Client.sendBatch_nil hqueue uniq
    have hrest : rest = [] := by simpa [hqueue] using hahead.chunks.symm
    rw [hrest, List.append_nil] at hchunks
    rw [hsend]
    refine .last rfl rfl hpc ⟨hcarries, hasked, hsub, hle, Nat.zero_le _⟩ hend hchunks.symm
  · have hb := hahead.wf b (by simp [hqueue])
    obtain ⟨header, hsend, hcarries⟩ := Client.sendBatch_cons hqueue hb uniq
    have hrest : rest = b.chunks ++ bs.flatMap (·.chunks) := by
      simpa [hqueue] using hahead.chunks.symm
    have hnum : b.chunks.length ≤ BATCHSIZE := by
      rw [ReadBuffer.length_chunks]
      exact hb.le
    rw [hsend]
    refine .asking rfl rfl rfl hpc ⟨hcarries, hasked, hsub, hle, hnum⟩ ?_ ⟨rfl, hnum, ?_⟩
    · rw [Ne, ← List.length_eq_zero_iff, ReadBuffer.length_chunks]
      exact hb.pos.ne'
    · refine ⟨bs.flatMap (·.chunks), ⟨?_, rfl⟩, ?_⟩
      · exact (List.suffix_cons b bs).trans (hqueue ▸ hahead.suffix)
      · rw [List.append_assoc, ← hrest]
        exact hchunks

/-- **The client keeps the stage.** -/
theorem Stage.client (h : Stage env s seen) (hrogue : s.client.rogue = false) {m : Msg} {rest : List Msg}
    (hdown : s.down = m :: rest) {r : Client × List Msg} (hr : s.client.react env m = some r) :
    Stage env { s with client := r.1, down := rest, up := s.up ++ r.2 } seen := by
  cases h with
  | accepted hcl hup hdown' hpc hqueries hseen =>
    obtain ⟨rfl, rfl⟩ := List.cons.inj (hdown.symm.trans hdown')
    obtain rfl : s.client.startUpload env = r := by simpa [Client.react, hcl, hrogue] using hr
    let c : Client := { s.client with readBufferQueue := readData env s.client.file }
    have hahead : c.Ahead env (fileChunks env s.client.file) := ⟨List.suffix_rfl, rfl⟩
    refine Stage.sendBatch (c := c) [] hpc hup ?_ (List.nil_sublist _) (Nat.zero_le _) hahead ?_
    · rw [hqueries]
      rfl
    · rw [hseen]
      rfl
  | replying hcl hup hdown' hpc hqueries hlen hseen hkeeps =>
    rename_i reply before batch
    obtain ⟨rfl, rfl⟩ := List.cons.inj (hdown.symm.trans hdown')
    obtain rfl : s.client.continueUpload reply = r := by simpa [Client.react, hcl, hrogue] using hr
    obtain ⟨hbuffer, hle, rest, hahead, hchunks⟩ := hkeeps
    -- the client packs the chunks of its batch that were answered with `1`
    have hpacked : Client.packChunks s.client.readBuffer reply.data = picks 1 (reply.data.zip batch) := by
      rw [packChunks_eq_picks _ (by rw [hlen, ← hbuffer, ReadBuffer.length_chunks]), hbuffer]
    have hsub : (picks 1 (reply.data.zip batch)).Sublist batch := picks_zip_sublist 1 _ _
    let c : Client := { s.client with
      outHeader := { s.client.outHeader with
        chunkNum := (Client.packChunks s.client.readBuffer reply.data).length } }
    have hsend : s.client.continueUpload reply =
        c.sendBatch (picks 1 (reply.data.zip batch)).flatten := by
      rw [← hpacked]
      rfl
    rw [hsend]
    refine Stage.sendBatch (c := c) _ hpc hup ?_ ?_ (hsub.length_le.trans hle) ⟨hahead.suffix, hahead.chunks⟩ ?_
    · rw [hqueries, picks_zip_map]
    · refine hsub.trans ?_
      show batch.Sublist (fileChunks env s.client.file)
      rw [hchunks, List.append_assoc]
      exact (List.sublist_append_left _ _).trans (List.sublist_append_right _ _)
    · rw [hseen]
      exact hchunks
  | asking hcl hup hdown' | storing hcl hup hdown' | last hup hdown' | lastStoring hup hdown'
  | ending hup hdown' | ended hup hdown' =>
    rw [hdown'] at hdown
    cases hdown

/-- **Steps that the protocol does not notice.** -/
theorem Stage.of_eq {s' : UploadThreads} (h : Stage env s seen) (hclient : s'.client = s.client)
    (hup : s'.up = s.up) (hdown : s'.down = s.down) (hmsg : s'.pipeline.pc.msg = s.pipeline.pc.msg)
    (hpc : s'.pipeline.pc = .receiving ↔ s.pipeline.pc = .receiving)
    (hqueries : s'.pipeline.queries = s.pipeline.queries) : Stage env s' seen := by
  cases h with
  | accepted hcl h₁ h₂ hat hq hseen =>
    rw [← hclient] at hcl
    exact .accepted hcl (hup.trans h₁) (hdown.trans h₂) (hpc.mpr hat) (hqueries.trans hq) hseen
  | asking hcl h₁ h₂ hat hfits hne hkeeps =>
    rw [← hclient] at hcl hfits hkeeps
    exact .asking hcl (hup.trans h₁) (hdown.trans h₂) (hpc.mpr hat) (hfits.of_eq hqueries) hne hkeeps
  | storing hcl h₁ h₂ hat hqueried hnum hne hkeeps =>
    rw [← hclient] at hcl hkeeps
    exact .storing hcl (hup.trans h₁) (hdown.trans h₂) (hmsg.trans hat) hqueried hnum hne hkeeps
  | replying hcl h₁ h₂ hat hq hlen hseen hkeeps =>
    rw [← hclient] at hcl hkeeps
    exact .replying hcl (hup.trans h₁) (hdown.trans h₂) (hpc.mpr hat) (hqueries.trans hq) hlen hseen hkeeps
  | last h₁ h₂ hat hfits hend hseen =>
    rw [← hclient] at hfits hseen
    exact .last (hup.trans h₁) (hdown.trans h₂) (hpc.mpr hat) (hfits.of_eq hqueries) hend hseen
  | lastStoring h₁ h₂ hat hqueried hnum hend hseen =>
    rw [← hclient] at hseen
    exact .lastStoring (hup.trans h₁) (hdown.trans h₂) (hmsg.trans hat) hqueried hnum hend hseen
  | ending h₁ h₂ hat hq hend hseen =>
    rw [← hclient] at hseen
    exact .ending (hup.trans h₁) (hdown.trans h₂) (hpc.mpr hat) (hqueries.trans hq) hend hseen
  | ended h₁ h₂ hat hnone hq hseen =>
    rw [← hclient] at hseen
    exact .ended (hup.trans h₁) (hdown.trans h₂) (mt hpc.mp hat) (hmsg.trans hnone) (hqueries.trans hq) hseen

/-- What the serving thread is told does not depend on what is shared. -/
theorem Stage.see (h : Stage env s seen) (sv : Server) :
    Stage env { s with pipeline := s.pipeline.see sv } seen := h.of_eq rfl rfl rfl rfl .rfl rfl

/-- **A message is taken**: it is one that the serving thread can do something with. -/
theorem Stage.message (h : Stage env s seen) {Good : Bytes → Bytes → Prop}
    (hgood : ∀ x ∈ fileChunks env s.client.file, Good (env.generateHash x) x) {msg : DataMsg}
    {rest : List Msg} (hup : s.up = .data msg :: rest)
    (hstep : (pipelineMachine env).step s.pipeline (.message msg) = some σ') :
    s.pipeline.Welcomes Good (.message msg) ∧ Pipeline.uploads s.pipeline (.message msg) σ' ∧
      Stage env { s with pipeline := σ', up := rest } seen := by
  simp only [pipelineMachine, Pipeline.step] at hstep
  split at hstep
  on_goal 2 => cases hstep
  rename_i hpc
  obtain rfl := Option.some.inj hstep
  have hbody : ∀ {uniq next : List Bytes}, s.pipeline.Fits env s.client.file msg uniq next →
      s.pipeline.message msg = { s.pipeline with pc := .looping ⟨msg, 0, none, s.pipeline.queries⟩ } := by
    intro uniq next hfits
    rw [Pipeline.message, if_neg]
    rw [hfits.carries.type]
    decide
  cases h with
  | asking hcl hup' hdown hat hfits hne hkeeps =>
    obtain ⟨hmsg, rfl⟩ := List.cons.inj (hup.symm.trans hup')
    obtain rfl := Msg.data.inj hmsg
    refine ⟨hfits.welcomes hgood, .inr hfits.inBounds, ?_⟩
    rw [hbody hfits]
    refine .storing hcl rfl hdown rfl hfits.queriedHashes ?_ hne hkeeps
    exact hfits.carries.queryNum.trans (List.length_map _)
  | last hup' hdown hat hfits hend hseen =>
    obtain ⟨hmsg, rfl⟩ := List.cons.inj (hup.symm.trans hup')
    obtain rfl := Msg.data.inj hmsg
    refine ⟨hfits.welcomes hgood, .inr hfits.inBounds, ?_⟩
    rw [hbody hfits]
    exact .lastStoring rfl hdown rfl hfits.queriedHashes hfits.carries.queryNum hend hseen
  | ending hup' hdown hat hq hend hseen =>
    obtain ⟨hmsg, rfl⟩ := List.cons.inj (hup.symm.trans hup')
    obtain rfl := Msg.data.inj hmsg
    refine ⟨.inl hend, .inl hend, ?_⟩
    rw [Pipeline.message, if_pos hend]
    exact .ended rfl hdown (by simp) rfl hq hseen
  | accepted hcl hup' | storing hcl hup' | replying hcl hup' =>
    rw [hup'] at hup
    cases hup
  | lastStoring hup' hdown hmsg =>
    rw [hpc] at hmsg
    cases hmsg
  | ended hup' hdown hat => exact absurd hpc hat

/-- **The serving thread goes on** in its loop, or towards the end of the upload. -/
theorem Stage.receiver (h : Stage env s seen) (hnot : ∀ msg, s.pipeline.pc ≠ .querying msg)
    (hstep : s.pipeline.receiverStep = some σ') : Stage env { s with pipeline := σ' } seen := by
  have hwaits : s.pipeline.pc ≠ .receiving := by
    intro hpc
    simp [Pipeline.receiverStep, hpc] at hstep
  cases hmsg : s.pipeline.pc.msg with
  | none =>
    obtain ⟨hpc', hmsg', hqueries⟩ := Pipeline.past_receiver hmsg hstep
    exact h.of_eq rfl rfl rfl (hmsg'.trans hmsg.symm) (iff_of_false hpc' hwaits) hqueries
  | some msg =>
    rcases Pipeline.msg_receiver hmsg hstep with ⟨hpc, -⟩ | ⟨-, hmsg', hqueries⟩
    · exact absurd hpc (hnot msg)
    · have hpc' : σ'.pc ≠ .receiving := by
        intro hpc
        rw [hpc] at hmsg'
        cases hmsg'
      exact h.of_eq rfl rfl rfl (hmsg'.trans hmsg.symm) (iff_of_false hpc' hwaits) hqueries

/-- **A query is answered**, and the reply is sent unless nothing was asked. -/
theorem Stage.answer (h : Stage env s seen) {msg : DataMsg} (hpc : s.pipeline.pc = .querying msg) :
    ∃ seen', seen'.map env.generateHash = seen.map env.generateHash ++ Conn.queriedHashes msg ∧
      Stage env (replied { s with pipeline := s.pipeline.answerQuery msg } msg) seen' := by
  have hat : s.pipeline.pc.msg = some msg := by
    rw [hpc]
    rfl
  have hwaits : s.pipeline.pc ≠ .receiving := by
    rw [hpc]
    simp
  cases h with
  | accepted hcl hup hdown hpc' | asking hcl hup hdown hpc' | replying hcl hup hdown hpc'
  | last hup hdown hpc' | ending hup hdown hpc' => exact absurd hpc' hwaits
  | storing hcl hup hdown hmsg hqueried hnum hne hkeeps =>
    rename_i m batch
    obtain rfl := Option.some.inj (hat.symm.trans hmsg)
    refine ⟨seen ++ batch, ?_, ?_⟩
    · rw [List.map_append, hqueried]
    · have hsome : msg.header.queryNum ≠ 0 := by
        rw [hnum]
        exact mt List.length_eq_zero_iff.mp hne
      let reply : DataMsg :=
        ⟨s.replyHeader msg, (Conn.queriedHashes msg).map (Conn.queryAnswer s.pipeline.server)⟩
      refine @Stage.replying _ _ _ reply _ _ hcl hup ?_ rfl ?_ ?_ rfl hkeeps
      · rw [replied, hdown, if_neg hsome]
        rfl
      · show List.zip _ (Conn.queriedHashes msg) = _
        rw [hqueried]
        rfl
      · show (List.map _ (Conn.queriedHashes msg)).length = batch.length
        rw [hqueried, List.length_map, List.length_map]
  | lastStoring hup hdown hmsg hqueried hnum hend hseen =>
    obtain rfl := Option.some.inj (hat.symm.trans hmsg)
    refine ⟨seen, by rw [hqueried, List.append_nil], ?_⟩
    refine .ending hup ?_ rfl ?_ hend hseen
    · rw [replied, hdown, if_pos hnum]
      rfl
    · show List.zip _ (Conn.queriedHashes msg) = []
      rw [hqueried, List.zip_nil_right]
  | ended hup hdown hpc' hmsg =>
    rw [hat] at hmsg
    cases hmsg

/-- A new buffer. -/
theorem Stage.malloc (h : Stage env s seen) {p : ℕ} {block : Block}
    (hstep : s.pipeline.mallocStep env p block = some σ') : Stage env { s with pipeline := σ' } seen := by
  unfold Pipeline.mallocStep at hstep
  split at hstep
  · rename_i loop hash hpc
    split at hstep
    · obtain ⟨heap, -, rfl⟩ := Option.map_eq_some_iff.mp hstep
      exact h.of_eq rfl rfl rfl (by rw [hpc]; rfl) (by simp [hpc]) rfl
    · cases hstep
  · rename_i loop chunkAddr hpc
    split at hstep
    · obtain ⟨heap, -, rfl⟩ := Option.map_eq_some_iff.mp hstep
      exact h.of_eq rfl rfl rfl (by rw [hpc]; rfl) (by simp [hpc]) rfl
    · cases hstep
  · cases hstep

/-- A writer. -/
theorem Stage.writer (h : Stage env s seen) (hframe : s.pipeline.WriterFrame σ') :
    Stage env { s with pipeline := σ' } seen :=
  h.of_eq rfl rfl rfl (congrArg _ hframe.pc) (by rw [hframe.pc]) hframe.queries

end UploadThreads

end DedupServer
