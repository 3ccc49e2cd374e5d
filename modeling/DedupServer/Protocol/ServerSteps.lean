import DedupServer.Protocol.ClientSteps

/-! # The serving thread keeps the lockstep

A step of the thread of `ClientConn::run` leads from phase to phase (`Phase.server`), and `Served`
lists what such a step can do. Later modules argue about the constructors of `Served` and never
unfold the step again. -/

namespace DedupServer

open Foundations

variable {env : Env} {s s' : Session} {sv sv' : Server}

/-! ## What a step can do -/

/-- The program points of an upload that has passed the check for uniqueness. -/
def ConnPc.uploading : ConnPc → Bool
  | .reply _ | .register _ | .body | .join => true
  | _ => false

/-- **A step outside of an upload**: it leaves the upload's state alone. -/
structure Conn.Quiet (c c' : Conn) : Prop where
  before : c.pc.uploading = false
  after : c'.pc.uploading = false
  upload : c'.upload = c.upload
  dataWriter : c'.dataWriter = c.dataWriter
  recipeWriter : c'.recipeWriter = c.recipeWriter
  hashList : c'.hashList = c.hashList
  uploadRep : c'.uploadRep = c.uploadRep
  answered : c'.answered = c.answered
  written : c'.written = c.written

/-- Before an upload the program point and the buffers of messages do not matter. -/
theorem Conn.Dormant.of_eq {c c' : Conn} (h : c.Dormant) (hupload : c'.upload = c.upload)
    (hdata : c'.dataWriter = c.dataWriter) (hrecipe : c'.recipeWriter = c.recipeWriter)
    (hwritten : c'.written = c.written) (hanswered : c'.answered = c.answered)
    (hhash : c'.hashList = c.hashList) : c'.Dormant where
  dataWriter := hdata.trans h.dataWriter
  recipeWriter := hrecipe.trans h.recipeWriter
  containerQueue := hupload ▸ h.containerQueue
  recipeQueue := hupload ▸ h.recipeQueue
  recipeBuffer := hupload ▸ h.recipeBuffer
  blank := hupload ▸ h.blank
  written := hwritten.trans h.written
  answered := hanswered.trans h.answered
  hashList := hhash.trans h.hashList
  dups := hupload ▸ h.dups

theorem Conn.Quiet.dormant {c c' : Conn} (h : c.Quiet c') (hd : c.Dormant) : c'.Dormant :=
  hd.of_eq h.upload h.dataWriter h.recipeWriter h.written h.answered h.hashList

/-- Nor do they after it. -/
theorem Conn.Quiet.joined {c c' : Conn} (h : c.Quiet c') (hj : c.Joined) : c'.Joined :=
  ⟨h.dataWriter.trans hj.dataWriter, h.recipeWriter.trans hj.recipeWriter,
    h.upload ▸ hj.containerQueue, h.upload ▸ hj.recipeQueue, h.upload ▸ hj.recipeBuffer,
    h.upload ▸ hj.blank⟩

theorem Conn.Quiet.before_ne {c c' : Conn} (h : c.Quiet c') {pc : ConnPc}
    (hpc : pc.uploading = true) : c.pc ≠ pc := by
  rintro rfl
  simp [h.before] at hpc

theorem Conn.Quiet.after_ne {c c' : Conn} (h : c.Quiet c') {pc : ConnPc}
    (hpc : pc.uploading = true) : c'.pc ≠ pc := by
  rintro rfl
  simp [h.after] at hpc

/-- Outside of an upload the recipe entries stay. -/
theorem Conn.Quiet.entries {c c' : Conn} (h : c.Quiet c') : c'.entries = c.entries := by
  have hbefore : c.pc ≠ .join := h.before_ne rfl
  have hafter : c'.pc ≠ .join := h.after_ne rfl
  simp [Conn.entries, hbefore, hafter, h.written, h.recipeWriter, h.upload]

/-- A session that is over stays so. -/
theorem Session.Over.quiet (h : s.Over env) {c : Conn} {rest reply : List Msg}
    (hq : s.conn.Quiet c) : (s.serverMoved rest c reply).Over env := by
  rcases h with ⟨hdormant, hacc⟩ | ⟨hjoined, hacc, hlisted⟩
  · refine .inl ⟨hq.dormant hdormant, ?_⟩
    rwa [Session.Accepted, Session.serverMoved, hq.uploadRep]
  · refine .inr ⟨hq.joined hjoined, ?_, fun hrogue => ?_⟩
    · rwa [Session.Accepted, Session.serverMoved, hq.uploadRep]
    · rw [Session.Listed, Session.serverMoved, hq.entries]
      exact hlisted hrogue

/-- **What one step of the serving thread does**, given that the session is in a phase. -/
inductive Served (env : Env) (sv : Server) (s : Session) : Server → Session → Prop
  | quiet {c : Conn} {rest reply : List Msg} (hquiet : s.conn.Quiet c) :
      Served env sv s sv (s.serverMoved rest c reply)
  | unique {fileName : Bytes} (hpc : s.conn.pc = .lookup fileName)
      (hid : s.conn.client_id = s.client.client_id) (hname : fileName = s.client.fileName)
      (hunique : sv.isFileUnique s.conn.client_id fileName = true) (hdormant : s.conn.Dormant)
      (hrep : s.conn.uploadRep = none) :
      Served env sv s sv (s.serverMoved s.up { s.conn with pc := .reply fileName } [])
  | refuse {fileName : Bytes} (hpc : s.conn.pc = .lookup fileName)
      (hid : s.conn.client_id = s.client.client_id) (hname : fileName = s.client.fileName)
      (hdup : sv.isFileUnique s.conn.client_id fileName = false) (hdormant : s.conn.Dormant)
      (hrep : s.conn.uploadRep = none) (hcl : s.client.pc = .awaitUploadRep) :
      Served env sv s sv (s.serverMoved s.up
        { s.conn with pc := .order, uploadRep := some .DUPLICATE }
        [.control .UPLOADREP [] .DUPLICATE])
  | accept {fileName : Bytes} (hpc : s.conn.pc = .reply fileName) (hdormant : s.conn.Dormant)
      (hrep : s.conn.uploadRep = none) (hcl : s.client.pc = .awaitUploadRep)
      (hserves : s.Serves env) (hname : fileName = s.client.fileName) :
      Served env sv s sv (s.serverMoved s.up
        { s.conn with pc := .register fileName, uploadRep := some .UNIQUE }
        [.control .UPLOADREP [] .UNIQUE])
  | register {fileName : Bytes} (hpc : s.conn.pc = .register fileName)
      (hdormant : s.conn.Dormant) (hserves : s.Serves env) (hacc : s.Accepted)
      (hname : fileName = s.client.fileName) :
      Served env sv s (sv.addFile s.conn.client_id fileName) (s.serverMoved s.up { s.conn with
        pc := .body
        outHeader := { s.conn.outHeader with dataMsgType := .UPLOADBODYREP }
        upload := { s.conn.upload with
          receivedFileSize := 0, uniqueChunkNum := 0, duplicatedChunkNum := 0 }
        answered := []
        dataWriter := .waiting
        recipeWriter := .opening } [])
  | body {msg : DataMsg} {rest : List Msg} {uniq next : List Bytes} {st : StoreLoop}
      (hpc : s.conn.pc = .body) (hup : s.up = .data msg :: rest) (hupl : s.Uploading env)
      (hfits : s.conn.Fits msg uniq next)
      (honest : s.client.rogue = false →
        ∃ stored pending batch rest, s.Sends env stored pending batch rest uniq next)
      (hrun : StoreLoop.run env msg ⟨sv, s.conn.upload, none, 0⟩ s.conn.queries = some st) :
      Served env sv s st.server (s.serverMoved rest (s.conn.answerQuery msg st)
        (s.conn.answerQuery msg st).bodyReply)
  | fileEnd {rest : List Msg} (hpc : s.conn.pc = .body) (hupl : s.Uploading env) :
      Served env sv s sv (s.serverMoved rest s.conn.receiveFileEnd [])
  | reset (hpc : s.conn.pc = .join) (hacc : s.Accepted) (hwriting : s.conn.Writing true)
      (hserves : s.Serves env) (hdata : s.conn.dataWriter = .finished)
      (hrecipe : s.conn.recipeWriter = .finished) :
      Served env sv s (s.conn.resetUpload env sv).1
        (s.serverMoved s.up (s.conn.resetUpload env sv).2 [])

/-- The thread takes the next message when it waits for one. -/
theorem Session.act_server_of_receives {m : Msg} {rest : List Msg}
    (hrec : s.conn.receives = true) (hup : s.up = m :: rest) :
    Session.act env sv s .server =
      (s.conn.receive env sv m).map fun r => (r.1, s.serverMoved rest r.2.1 r.2.2) := by
  simp [Session.act, hrec, hup]

/-- The thread waits. -/
theorem Session.act_server_of_nil (hrec : s.conn.receives = true) (hup : s.up = []) :
    Session.act env sv s .server = none := by
  simp [Session.act, hrec, hup]

/-- The thread goes on when it waits for no message. -/
theorem Session.act_server_of_not_receives (hrec : s.conn.receives = false) :
    Session.act env sv s .server =
      (s.conn.proceed env sv).map fun r => (r.1, s.serverMoved s.up r.2.1 r.2.2) := by
  simp [Session.act, hrec]

namespace Conn

variable {c : Conn} {msg : DataMsg} {st : StoreLoop} {new : List ChunkAddr}

/-- A message leaves one new recipe entry for each hash of the last query. -/
theorem entries_answerQuery (hpc : c.pc = .body)
    (hext : StoreLoop.Extends ⟨sv, c.upload, none, 0⟩ st new) :
    (c.answerQuery msg st).entries = c.entries ++ new := by
  have h : st.up.recipeQueue.queue.flatMap (·.data) ++ st.up.recipeBuffer.data
      = c.upload.recipeQueue.queue.flatMap (·.data) ++ c.upload.recipeBuffer.data ++ new :=
    hext.entries
  simp only [entries, answerQuery, hpc, reduceCtorEq, if_false, List.append_assoc]
  rw [h, List.append_assoc]

/-- An upload stays an upload while its messages are processed. -/
theorem Writing.answerQuery (h : c.Writing false)
    (hext : StoreLoop.Extends ⟨sv, c.upload, none, 0⟩ st new) :
    (c.answerQuery msg st).Writing false where
  containerDone := hext.containerDone.trans h.containerDone
  recipeDone := hext.recipeDone.trans h.recipeDone
  data := by
    have hdata := h.data
    simp only [Conn.answerQuery]
    cases hw : c.dataWriter <;> simp [hw] at hdata ⊢
  recipe := by
    have hrecipe := h.recipe
    simp only [Conn.answerQuery]
    cases hw : c.recipeWriter <;> simp [hw] at hrecipe ⊢ <;> exact hrecipe

/-- `FILEEND` hands over the recipe buffer, and no entry is lost. -/
theorem entries_receiveFileEnd (hpc : c.pc = .body) :
    c.receiveFileEnd.entries = c.entries := by
  unfold receiveFileEnd
  split <;> simp [entries, hpc, UploadState.insertContainerQueue, UploadState.insertRecipeQueue,
    BlockQueue.push, BlockQueue.setDone]

/-- After `FILEEND` the writers may finish. -/
theorem Writing.receiveFileEnd (h : c.Writing false) : c.receiveFileEnd.Writing true := by
  have hdata := h.data
  have hrecipe := h.recipe
  refine ⟨rfl, rfl, ?_, ?_⟩
  · simp only [Conn.receiveFileEnd]
    cases hw : c.dataWriter <;> simp [hw] at hdata ⊢
  · simp only [Conn.receiveFileEnd]
    cases hw : c.recipeWriter <;> simp [hw] at hrecipe ⊢ <;> exact hrecipe

/-- **When both writers have finished, everything is written.** -/
theorem Writing.entries_eq_written (h : c.Writing true) (hpc : c.pc = .join)
    (hrecipe : c.recipeWriter = .finished) : c.entries = c.written := by
  have hqueue := h.recipe
  rw [hrecipe] at hqueue
  simp [entries, hpc, hrecipe, RecipeWriter.held, hqueue.2]

/-- The writers are joined. -/
theorem Writing.resetUpload (h : c.Writing true) (hdata : c.dataWriter = .finished)
    (hrecipe : c.recipeWriter = .finished) : (c.resetUpload env sv).2.Joined where
  dataWriter := rfl
  recipeWriter := rfl
  containerQueue := by
    have hqueue := h.data
    rw [hdata] at hqueue
    simp [Conn.resetUpload, BlockQueue.undone, UploadState.newContainer, UploadState.newRecipe,
      hqueue.2, BlockQueue.empty]
  recipeQueue := by
    have hqueue := h.recipe
    rw [hrecipe] at hqueue
    simp [Conn.resetUpload, BlockQueue.undone, UploadState.newContainer, UploadState.newRecipe,
      hqueue.2, BlockQueue.empty]
  recipeBuffer := rfl
  blank := rfl

/-- A joined connection has its recipe in the file. -/
theorem Joined.entries (h : c.Joined) (hpc : c.pc ≠ .join) : c.entries = c.written := by
  simp [Conn.entries, hpc, h.recipeWriter, RecipeWriter.held, h.recipeQueue, BlockQueue.empty,
    h.recipeBuffer]

end Conn

/-- **The server registers the file** and starts the writers. What was asked and answered stays. -/
theorem Session.Uploading.register (hupl : s.Uploading env)
    (hpc : s.conn.pc = .register s.client.fileName) (hdormant : s.conn.Dormant)
    (hact : Session.act env sv s .server = some (sv', s')) :
    Served env sv s sv' s' ∧ s'.Uploading env ∧ s'.client = s.client ∧ s'.up = s.up ∧
      s'.down = s.down ∧ s'.conn.outData = s.conn.outData ∧
      s'.conn.hashList = s.conn.hashList ∧ s'.conn.entries = s.conn.entries := by
  rw [Session.act_server_of_not_receives (by simp [Conn.receives, hpc])] at hact
  simp only [Conn.proceed, hpc, Option.map_some, Option.some.injEq, Prod.mk.injEq] at hact
  obtain ⟨rfl, rfl⟩ := hact
  refine ⟨.register hpc hdormant hupl.serves hupl.accepted rfl, ⟨⟨hupl.serves.client_id,
    hupl.serves.path⟩, hupl.accepted, ?_, .inr ⟨rfl, ?_⟩⟩, rfl, rfl,
    by simp [Session.serverMoved], rfl, rfl, ?_⟩
  · exact ⟨hupl.asked.num_le, hupl.asked.room, hupl.asked.hash_length, hupl.asked.answer,
      hupl.asked.dups⟩
  · exact ⟨by simp [Session.serverMoved, hdormant.containerQueue, BlockQueue.empty],
      by simp [Session.serverMoved, hdormant.recipeQueue, BlockQueue.empty], trivial,
      hdormant.written⟩
  · simp [Session.serverMoved, Conn.entries, hpc, hdormant.recipeWriter, RecipeWriter.held]

/-- The division of the file depends on the entries and the hash list only. -/
theorem Conn.Splits.of_eq {c c' : Conn} {file : Bytes} {stored pending rest : List Bytes}
    (h : c.Splits env file stored pending rest) (hentries : c'.entries = c.entries)
    (hhash : c'.hashList = c.hashList) : c'.Splits env file stored pending rest :=
  ⟨h.chunks, hentries ▸ h.entries, hhash ▸ h.hashList⟩

/-- The answers depend on the reply buffer and the hash list only. -/
theorem Conn.answers_of_eq {c c' : Conn} (hout : c'.outData = c.outData)
    (hhash : c'.hashList = c.hashList) : c'.answers = c.answers := by
  rw [Conn.answers, Conn.answers, hout, hhash]

theorem Conn.queries_of_eq {c c' : Conn} (hout : c'.outData = c.outData)
    (hhash : c'.hashList = c.hashList) : c'.queries = c.queries := by
  rw [Conn.queries, Conn.queries, hout, hhash]

theorem Session.Sends.of_eq {stored pending batch rest uniq next : List Bytes}
    (h : s.Sends env stored pending batch rest uniq next) (hclient : s'.client = s.client)
    (hanswers : s'.conn.answers = s.conn.answers) (hhash : s'.conn.hashList = s.conn.hashList)
    (hentries : s'.conn.entries = s.conn.entries) :
    s'.Sends env stored pending batch rest uniq next :=
  ⟨by rw [hclient]; exact h.splits.of_eq hentries hhash, by rw [hanswers, h.uniq], h.next,
    by rw [hclient]; exact h.aligned⟩

theorem Session.Asks.of_eq {uniq next : List Bytes} (h : s.Asks env uniq next)
    (hclient : s'.client = s.client) (hanswers : s'.conn.answers = s.conn.answers)
    (hhash : s'.conn.hashList = s.conn.hashList) (hentries : s'.conn.entries = s.conn.entries) :
    s'.Asks env uniq next := by
  obtain ⟨stored, pending, batch, rest, hsends, hbuffer, hahead⟩ := h
  exact ⟨stored, pending, batch, rest, hsends.of_eq hclient hanswers hhash hentries,
    by rw [hclient, hbuffer], by rw [hclient]; exact hahead⟩

theorem Session.Ends.of_eq {uniq : List Bytes} (h : s.Ends env uniq)
    (hclient : s'.client = s.client) (hanswers : s'.conn.answers = s.conn.answers)
    (hhash : s'.conn.hashList = s.conn.hashList) (hentries : s'.conn.entries = s.conn.entries) :
    s'.Ends env uniq := by
  obtain ⟨stored, pending, hsends⟩ := h
  exact ⟨stored, pending, hsends.of_eq hclient hanswers hhash hentries⟩

/-- **The server takes an `UPLOADBODY` message.** It succeeds, the reply carries the answers to the
new query, and there is a recipe entry for each hash of the last one. -/
theorem Session.Uploading.body (hupl : s.Uploading env) (hpc : s.conn.pc = .body) {msg : DataMsg}
    {rest : List Msg} (hup : s.up = .data msg :: rest) {uniq next : List Bytes}
    (hfits : s.conn.Fits msg uniq next)
    (honest : s.client.rogue = false →
      ∃ stored pending batch rest, s.Sends env stored pending batch rest uniq next)
    (hact : Session.act env sv s .server = some (sv', s')) :
    ∃ st, s' = s.serverMoved rest (s.conn.answerQuery msg st)
        (s.conn.answerQuery msg st).bodyReply ∧
      Served env sv s sv' s' ∧ s'.Uploading env ∧ s'.conn.hashList = next ∧
      s'.conn.entries.length = s.conn.entries.length + s.conn.hashList.length := by
  obtain ⟨st, new, hrun, hext, hnew, hnil, -, hbody⟩ :=
    Conn.exists_receiveBody env sv hupl.asked hfits
  -- the batch was asked for, so the writers already run
  have hwriting : s.conn.Writing false := by
    rcases hupl.stage with ⟨h, -⟩ | ⟨-, h⟩
    · rw [hpc] at h
      cases h
    · exact h
  rw [Session.act_server_of_receives (by simp [Conn.receives, hpc]) hup] at hact
  simp only [Conn.receive, hpc, hfits.type, reduceCtorEq, if_false, hbody, Option.map_some,
    Option.some.injEq, Prod.mk.injEq] at hact
  obtain ⟨rfl, rfl⟩ := hact
  refine ⟨st, rfl, .body hpc hup hupl hfits honest hrun, ?_, hfits.queriedHashes, ?_⟩
  · exact ⟨⟨hupl.serves.client_id, hupl.serves.path⟩, hupl.accepted,
      hupl.asked.answerQuery hfits hnil, .inr ⟨hpc, hwriting.answerQuery hext⟩⟩
  · rw [← hnew, ← List.length_append, ← Conn.entries_answerQuery hpc hext]
    rfl

/-- The server has sent something after the blocks. -/
theorem Session.Receives.sent {tail : List Msg} (h : s.Receives []) (hclient : s'.client = s.client)
    (hdown : s'.down = s.down ++ tail) : s'.Receives tail := by
  obtain ⟨bodies, hbodies, hcase⟩ := h
  refine ⟨bodies, hbodies, ?_⟩
  rcases hcase with ⟨hcl, hd⟩ | ⟨hcl, hd⟩
  · exact .inl ⟨by rw [hclient, hcl], by rw [hdown, hd]; simp⟩
  · exact .inr ⟨by rw [hclient, hcl], by rw [hdown, hd]; simp⟩

/-- Another block is one of the blocks. -/
theorem Session.Receives.block {msg : DataMsg} (h : s.Receives [.data msg])
    (htype : msg.header.dataMsgType = .DOWNLOADBODY)
    (hsize : msg.data.length ≤ msg.header.size - sizeofDataMsg) : s.Receives [] := by
  obtain ⟨bodies, hbodies, hcase⟩ := h
  refine ⟨bodies ++ [msg], ?_, ?_⟩
  · intro b hb
    rcases List.mem_append.mp hb with hb | hb
    · exact hbodies b hb
    · rw [List.mem_singleton.mp hb]
      exact ⟨htype, hsize⟩
  · simpa using hcase

/-- A block is a message of the type the header has, and not longer than it says. -/
theorem Conn.sendBlock_header {name outData outData' : Bytes} {outHeader outHeader' : DataMsgHeader}
    {recipe next : Option Nat} {msg : DataMsg}
    (h : Conn.sendBlock sv name outData outHeader recipe
      = some (outData', outHeader', next, msg)) :
    outHeader'.dataMsgType = outHeader.dataMsgType ∧ msg.header = outHeader' ∧
      msg.data.length ≤ msg.header.size - sizeofDataMsg := by
  simp only [Conn.sendBlock] at h
  split at h
  · cases h
  · simp only [Option.some.injEq, Prod.mk.injEq] at h
    obtain ⟨rfl, rfl, rfl, rfl⟩ := h
    exact ⟨rfl, rfl, by simp⟩

/-! ## From phase to phase -/

/-- **The request arrives.** An upload is looked up, a download too, and `QUIT` is answered. -/
theorem Phase.server_order {m : Msg} (hreq : s.Requests m) (hpc : s.conn.pc = .order) (hup : s.up = [m])
    (hdown : s.down = []) (hdormant : s.conn.Dormant) (hrep : s.conn.uploadRep = none)
    (hroom : s.conn.outData.length = CHUNKSIZE * BATCHSIZE) (hid : s.conn.client_id = s.client.client_id)
    (hact : Session.act env sv s .server = some (sv', s')) : Phase env s' ∧ Served env sv s sv' s' := by
  rw [Session.act_server_of_receives (by simp [Conn.receives, hpc]) hup] at hact
  have hdown' : ∀ c, (s.serverMoved [] c []).down = [] := by simp [Session.serverMoved, hdown]
  -- the order is an upload, a download or the end of the session
  rcases hreq with ⟨hcl, rfl⟩ | ⟨hcl, rfl⟩ | ⟨hcl, rfl⟩ <;>
    simp only [Conn.receive, hpc, Option.map_some, Option.some.injEq, Prod.mk.injEq] at hact <;>
    obtain ⟨rfl, rfl⟩ := hact
  · have hquiet : s.conn.Quiet { s.conn with
        pc := .lookup s.client.fileName
        recipeNameHash := env.recipeNameHash s.conn.client_id s.client.fileName } :=
      ⟨by simp [hpc, ConnPc.uploading], rfl, rfl, rfl, rfl, rfl, rfl, rfl, rfl⟩
    exact ⟨.lookup hcl rfl rfl (hdown' _) (hquiet.dormant hdormant) hrep hroom
      ⟨hid, by simp [Session.serverMoved, Session.recipePath, hid]⟩, .quiet hquiet⟩
  · have hquiet : s.conn.Quiet { s.conn with
        pc := .exist s.client.fileName
        recipeNameHash := env.recipeNameHash s.conn.client_id s.client.fileName } :=
      ⟨by simp [hpc, ConnPc.uploading], rfl, rfl, rfl, rfl, rfl, rfl, rfl, rfl⟩
    exact ⟨.exist hcl rfl rfl (hdown' _) (hquiet.dormant hdormant) hrep
      ⟨hid, by simp [Session.serverMoved, Session.recipePath, hid]⟩, .quiet hquiet⟩
  · have hquiet : s.conn.Quiet { s.conn with pc := .closed } :=
      ⟨by simp [hpc, ConnPc.uploading], rfl, rfl, rfl, rfl, rfl, rfl, rfl, rfl⟩
    exact ⟨.left hcl rfl rfl (by simp [Session.serverMoved, hdown])
      (.inl ⟨hquiet.dormant hdormant, by simp [Session.Accepted, Session.serverMoved, hrep]⟩),
      .quiet hquiet⟩

/-- **The registry is asked.** A name that is there is refused, otherwise the thread goes on. -/
theorem Phase.server_lookup (hcl : s.client.pc = .awaitUploadRep)
    (hpc : s.conn.pc = .lookup s.client.fileName) (hup : s.up = []) (hdown : s.down = [])
    (hdormant : s.conn.Dormant) (hrep : s.conn.uploadRep = none)
    (hroom : s.conn.outData.length = CHUNKSIZE * BATCHSIZE) (hserves : s.Serves env)
    (hact : Session.act env sv s .server = some (sv', s')) : Phase env s' ∧ Served env sv s sv' s' := by
  rw [Session.act_server_of_not_receives (by simp [Conn.receives, hpc])] at hact
  simp only [Conn.proceed, hpc] at hact
  cases hunique : sv.isFileUnique s.conn.client_id s.client.fileName
  · rw [hunique] at hact
    simp only [Bool.false_eq_true, if_false, Option.map_some, Option.some.injEq,
      Prod.mk.injEq] at hact
    obtain ⟨rfl, rfl⟩ := hact
    exact ⟨.refused hcl rfl hup (by simp [Session.serverMoved, hdown])
      (hdormant.of_eq rfl rfl rfl rfl rfl rfl) rfl, .refuse hpc hserves.client_id rfl hunique
        hdormant hrep hcl⟩
  · rw [hunique] at hact
    simp only [if_true, Option.map_some, Option.some.injEq, Prod.mk.injEq] at hact
    obtain ⟨rfl, rfl⟩ := hact
    exact ⟨.reply hcl rfl hup (by simp [Session.serverMoved, hdown])
      (hdormant.of_eq rfl rfl rfl rfl rfl rfl) hrep hroom ⟨hserves.client_id, hserves.path⟩,
      .unique hpc hserves.client_id rfl hunique hdormant hrep⟩

/-- **The upload is accepted.** -/
theorem Phase.server_reply (hcl : s.client.pc = .awaitUploadRep)
    (hpc : s.conn.pc = .reply s.client.fileName) (hup : s.up = []) (hdown : s.down = [])
    (hdormant : s.conn.Dormant) (hrep : s.conn.uploadRep = none)
    (hroom : s.conn.outData.length = CHUNKSIZE * BATCHSIZE) (hserves : s.Serves env)
    (hact : Session.act env sv s .server = some (sv', s')) : Phase env s' ∧ Served env sv s sv' s' := by
  rw [Session.act_server_of_not_receives (by simp [Conn.receives, hpc])] at hact
  simp only [Conn.proceed, hpc, Option.map_some, Option.some.injEq, Prod.mk.injEq] at hact
  obtain ⟨rfl, rfl⟩ := hact
  refine ⟨.accepted hcl ⟨⟨hserves.client_id, hserves.path⟩, rfl, ?_, .inl ⟨rfl, ?_⟩⟩ hup
    (by simp [Session.serverMoved, hdown]) hdormant.hashList ?_,
    .accept hpc hdormant hrep hcl hserves rfl⟩
  · refine Conn.Dormant.asked ?_ hroom
    exact hdormant.of_eq rfl rfl rfl rfl rfl rfl
  · exact hdormant.of_eq rfl rfl rfl rfl rfl rfl
  · simp [Session.serverMoved, Conn.entries, hdormant.written, hdormant.recipeWriter,
      RecipeWriter.held, hdormant.recipeQueue, BlockQueue.empty, hdormant.recipeBuffer]

/-- **A query is answered**, once the file is registered. -/
theorem Phase.server_asking {msg : DataMsg} {uniq next : List Bytes} (hcl : s.client.pc = .awaitBodyRep)
    (hupl : s.Uploading env) (hup : s.up = [.data msg]) (hdown : s.down = [])
    (hfits : s.conn.Fits msg uniq next) (hnext : next ≠ [])
    (honest : s.client.rogue = false → s.Asks env uniq next)
    (hact : Session.act env sv s .server = some (sv', s')) : Phase env s' ∧ Served env sv s sv' s' := by
  rcases hupl.stage with ⟨hpc, hdormant⟩ | ⟨hpc, -⟩
  -- the file is not registered yet, and the message waits meanwhile
  · obtain ⟨hserved, hupl', hclient, hup', hdown', hout, hhash, hentries⟩ :=
      hupl.register hpc hdormant hact
    refine ⟨.asking (hclient ▸ hcl) hupl' (hup'.trans hup) (hdown'.trans hdown)
      (hfits.congr (Conn.queries_of_eq hout hhash)) hnext fun hrogue => ?_, hserved⟩
    exact (honest (hclient ▸ hrogue)).of_eq hclient (Conn.answers_of_eq hout hhash) hhash
      hentries
  -- the message is read now: its chunks are stored and its hashes are answered
  · have hsends : s.client.rogue = false → ∃ stored pending batch rest,
        s.Sends env stored pending batch rest _ _ := fun hrogue =>
      let ⟨stored, pending, batch, rest, hsends, _⟩ := honest hrogue
      ⟨stored, pending, batch, rest, hsends⟩
    obtain ⟨st, rfl, hserved, hupl', hhash, hentries⟩ := hupl.body hpc hup hfits hsends hact
    have hreply : (s.serverMoved [] (s.conn.answerQuery msg st)
        (s.conn.answerQuery msg st).bodyReply).down =
        [.data ⟨(s.conn.answerQuery msg st).outHeader, (s.conn.answerQuery msg st).answers⟩] := by
      simp [Session.serverMoved, hdown, Conn.bodyReply_answerQuery hfits, hnext, Conn.answers]
    refine ⟨.answered hcl hpc hupl' rfl hreply rfl fun hrogue => ?_, hserved⟩
    obtain ⟨stored, pending, batch, rest, ⟨hsplit, -, hbatch⟩, hbuffer, hahead⟩ :=
      honest hrogue
    refine ⟨stored ++ pending, batch, rest, ⟨?_, ?_, hhash.trans hbatch⟩, hbuffer, hahead⟩
    · rw [List.append_assoc]
      exact hsplit.chunks
    · rw [hentries, hsplit.entries, hsplit.hashList, List.length_map, List.length_append]

/-- **The last chunks are stored**, once the file is registered. -/
theorem Phase.server_last {msg fileEnd : DataMsg} {uniq : List Bytes} (hcl : s.client.pc = .awaitQuitRep)
    (hupl : s.Uploading env) (hup : s.up = [.data msg, .data fileEnd, .control .QUIT [] .NONE])
    (hdown : s.down = []) (hfits : s.conn.Fits msg uniq []) (hend : fileEnd.header.dataMsgType = .FILEEND)
    (honest : s.client.rogue = false → s.Ends env uniq)
    (hact : Session.act env sv s .server = some (sv', s')) : Phase env s' ∧ Served env sv s sv' s' := by
  rcases hupl.stage with ⟨hpc, hdormant⟩ | ⟨hpc, -⟩
  -- as for a batch: the registration comes first and the messages wait
  · obtain ⟨hserved, hupl', hclient, hup', hdown', hout, hhash, hentries⟩ :=
      hupl.register hpc hdormant hact
    refine ⟨.last (hclient ▸ hcl) hupl' (hup'.trans hup) (hdown'.trans hdown)
      (hfits.congr (Conn.queries_of_eq hout hhash)) hend fun hrogue => ?_, hserved⟩
    exact (honest (hclient ▸ hrogue)).of_eq hclient (Conn.answers_of_eq hout hhash) hhash
      hentries
  · have hsends : s.client.rogue = false → ∃ stored pending batch rest,
        s.Sends env stored pending batch rest _ _ := fun hrogue =>
      let ⟨stored, pending, hsends⟩ := honest hrogue
      ⟨stored, pending, [], [], hsends⟩
    obtain ⟨st, rfl, hserved, hupl', hhash, hentries⟩ := hupl.body hpc hup hfits hsends hact
    refine ⟨.ending hcl hpc hupl' rfl ?_ hend fun hrogue => ?_, hserved⟩
    · simp [Session.serverMoved, hdown, Conn.bodyReply_answerQuery hfits]
    · obtain ⟨stored, pending, hsplit, -, -⟩ := honest hrogue
      -- nothing follows the last batch, so the entries are all chunks of the file
      have hchunks := hsplit.chunks
      rw [List.append_nil, List.append_nil] at hchunks
      have hlisted := hentries
      rw [hsplit.entries, hsplit.hashList, List.length_map, ← List.length_append,
        ← hchunks] at hlisted
      exact hlisted

/-- **`FILEEND` arrives.** The writers have the rest. -/
theorem Phase.server_ending {fileEnd : DataMsg} (hcl : s.client.pc = .awaitQuitRep)
    (hpc : s.conn.pc = .body) (hupl : s.Uploading env)
    (hup : s.up = [.data fileEnd, .control .QUIT [] .NONE]) (hdown : s.down = [])
    (hend : fileEnd.header.dataMsgType = .FILEEND) (honest : s.client.rogue = false → s.Listed env)
    (hact : Session.act env sv s .server = some (sv', s')) : Phase env s' ∧ Served env sv s sv' s' := by
  have hwriting : s.conn.Writing false := by
    rcases hupl.stage with ⟨h, -⟩ | ⟨-, h⟩
    · rw [hpc] at h
      cases h
    · exact h
  rw [Session.act_server_of_receives (by simp [Conn.receives, hpc]) hup] at hact
  simp only [Conn.receive, hpc, hend, if_true, Option.map_some, Option.some.injEq,
    Prod.mk.injEq] at hact
  obtain ⟨rfl, rfl⟩ := hact
  refine ⟨.joining hcl rfl ⟨hupl.serves.client_id, hupl.serves.path⟩ hupl.accepted
    hwriting.receiveFileEnd rfl (by simp [Session.serverMoved, hdown]) fun hrogue => ?_,
    .fileEnd hpc hupl⟩
  have hlisted := honest hrogue
  rw [Session.Listed, ← Conn.entries_receiveFileEnd hpc] at hlisted
  exact hlisted

/-- **The writers are joined**, when both have finished. -/
theorem Phase.server_joining (hcl : s.client.pc = .awaitQuitRep) (hpc : s.conn.pc = .join)
    (hserves : s.Serves env) (hacc : s.Accepted) (hwriting : s.conn.Writing true)
    (hup : s.up = [.control .QUIT [] .NONE]) (hdown : s.down = [])
    (honest : s.client.rogue = false → s.Listed env)
    (hact : Session.act env sv s .server = some (sv', s')) : Phase env s' ∧ Served env sv s sv' s' := by
  rw [Session.act_server_of_not_receives (by simp [Conn.receives, hpc])] at hact
  simp only [Conn.proceed, hpc] at hact
  split at hact
  on_goal 2 => cases hact
  rename_i hfinished
  obtain ⟨hdata, hrecipe⟩ := hfinished
  simp only [Option.map_some, Option.some.injEq, Prod.mk.injEq] at hact
  obtain ⟨rfl, rfl⟩ := hact
  have hjoined : (s.conn.resetUpload env sv).2.Joined := hwriting.resetUpload hdata hrecipe
  refine ⟨.quitting hcl rfl hup (by simp [Session.serverMoved, hdown])
    (.inr ⟨hjoined, hacc, fun hrogue => ?_⟩), .reset hpc hacc hwriting hserves hdata hrecipe⟩
  have hlisted := honest hrogue
  rw [Session.Listed, hwriting.entries_eq_written hpc hrecipe] at hlisted
  rw [Session.Listed, Session.serverMoved, hjoined.entries (by simp [Conn.resetUpload])]
  exact hlisted

/-- **The file is looked up** for a download. -/
theorem Phase.server_exist (hcl : s.client.pc = .awaitDownloadRep)
    (hpc : s.conn.pc = .exist s.client.fileName) (hup : s.up = []) (hdown : s.down = [])
    (hdormant : s.conn.Dormant) (hrep : s.conn.uploadRep = none) (hserves : s.Serves env)
    (hact : Session.act env sv s .server = some (sv', s')) : Phase env s' ∧ Served env sv s sv' s' := by
  rw [Session.act_server_of_not_receives (by simp [Conn.receives, hpc])] at hact
  simp only [Conn.proceed, hpc] at hact
  split at hact <;>
    simp only [Option.map_some, Option.some.injEq, Prod.mk.injEq] at hact <;>
    obtain ⟨rfl, rfl⟩ := hact
  · have hquiet : s.conn.Quiet { s.conn with
        pc := .sending (Conn.openRecipe sv s.conn.recipeNameHash)
        outHeader := { s.conn.outHeader with dataMsgType := .DOWNLOADBODY } } :=
      ⟨by simp [hpc, ConnPc.uploading], rfl, rfl, rfl, rfl, rfl, rfl, rfl, rfl⟩
    exact ⟨.sending rfl hup ⟨[], by simp, .inl ⟨hcl, by simp [Session.serverMoved, hdown]⟩⟩ rfl
      (hquiet.dormant hdormant) hrep ⟨hserves.client_id, hserves.path⟩, .quiet hquiet⟩
  · have hquiet : s.conn.Quiet { s.conn with pc := .order } :=
      ⟨by simp [hpc, ConnPc.uploading], rfl, rfl, rfl, rfl, rfl, rfl, rfl, rfl⟩
    exact ⟨.notExist hcl rfl hup (by simp [Session.serverMoved, hdown])
      (hquiet.dormant hdormant) hrep, .quiet hquiet⟩

/-- **A block of the file is sent**, or its end. -/
theorem Phase.server_sending {recipe : Option Nat} (hpc : s.conn.pc = .sending recipe) (hup : s.up = [])
    (hdown : s.Receives []) (htype : s.conn.outHeader.dataMsgType = .DOWNLOADBODY)
    (hdormant : s.conn.Dormant) (hrep : s.conn.uploadRep = none) (hserves : s.Serves env)
    (hact : Session.act env sv s .server = some (sv', s')) : Phase env s' ∧ Served env sv s sv' s' := by
  rw [Session.act_server_of_not_receives (by simp [Conn.receives, hpc])] at hact
  simp only [Conn.proceed, hpc] at hact
  split at hact <;>
    simp only [Option.map_some, Option.some.injEq, Prod.mk.injEq] at hact <;>
    obtain ⟨rfl, rfl⟩ := hact
  -- a block was read, or the recipe is at its end
  · rename_i outData outHeader next msg hblock
    obtain ⟨htype', hheader, hsize⟩ := Conn.sendBlock_header hblock
    have hquiet : s.conn.Quiet { s.conn with
        pc := .sending next, outData := outData, outHeader := outHeader } :=
      ⟨by simp [hpc, ConnPc.uploading], rfl, rfl, rfl, rfl, rfl, rfl, rfl, rfl⟩
    have hrec : (s.serverMoved s.up { s.conn with
        pc := .sending next, outData := outData, outHeader := outHeader }
        [.data msg]).Receives [.data msg] := hdown.sent rfl rfl
    exact ⟨.sending rfl hup (hrec.block (by rw [hheader, htype', htype]) hsize)
      (htype'.trans htype) (hquiet.dormant hdormant) hrep
      ⟨hserves.client_id, hserves.path⟩, .quiet hquiet⟩
  · have hquiet : s.conn.Quiet { s.conn with
        pc := .order
        outHeader := { s.conn.outHeader with dataMsgType := .FILEEND }
        recipeNameHash := [] } :=
      ⟨by simp [hpc, ConnPc.uploading], rfl, rfl, rfl, rfl, rfl, rfl, rfl, rfl⟩
    exact ⟨.sent rfl hup (hdown.sent rfl rfl) rfl (hquiet.dormant hdormant) hrep,
      .quiet hquiet⟩

/-- **Every step of the serving thread keeps the lockstep** and is one of `Served`. -/
theorem Phase.server (h : Phase env s) (hact : Session.act env sv s .server = some (sv', s')) :
    Phase env s' ∧ Served env sv s sv' s' := by
  cases h with
  | login hreq hpc hup hdown hdormant hrep hroom =>
    rw [Session.act_server_of_receives (by simp [Conn.receives, hpc]) hup] at hact
    simp only [Conn.receive, hpc, Option.map_some, Option.some.injEq, Prod.mk.injEq] at hact
    obtain ⟨rfl, rfl⟩ := hact
    have hquiet : s.conn.Quiet { s.conn with client_id := s.client.client_id, pc := .order } :=
      ⟨by simp [hpc, ConnPc.uploading], rfl, rfl, rfl, rfl, rfl, rfl, rfl, rfl⟩
    exact ⟨.order hreq rfl rfl (by simp [Session.serverMoved, hdown]) (hquiet.dormant hdormant)
      hrep hroom rfl, .quiet hquiet⟩
  | order hreq hpc hup hdown hdormant hrep hroom hid =>
    exact Phase.server_order hreq hpc hup hdown hdormant hrep hroom hid hact
  | lookup hcl hpc hup hdown hdormant hrep hroom hserves =>
    exact Phase.server_lookup hcl hpc hup hdown hdormant hrep hroom hserves hact
  | reply hcl hpc hup hdown hdormant hrep hroom hserves =>
    exact Phase.server_reply hcl hpc hup hdown hdormant hrep hroom hserves hact
  -- the server waits for the client's next message, and none is on the way
  | refused hcl hpc hup hdown hdormant hrep =>
    rw [Session.act_server_of_nil (by simp [Conn.receives, hpc]) hup] at hact
    cases hact
  | accepted hcl hupl hup hdown hhash hentries =>
    -- the registration may come after the client has been told that the file is new
    rcases hupl.stage with ⟨hpc, hdormant⟩ | ⟨hpc, -⟩
    · obtain ⟨hserved, hupl', hclient, hup', hdown', hout, hhash', hentries'⟩ :=
        hupl.register hpc hdormant hact
      exact ⟨.accepted (hclient ▸ hcl) hupl' (hup'.trans hup) (hdown'.trans hdown)
        (hhash'.trans hhash) (hentries'.trans hentries), hserved⟩
    · rw [Session.act_server_of_nil (by simp [Conn.receives, hpc]) hup] at hact
      cases hact
  | asking hcl hupl hup hdown hfits hnext honest =>
    exact Phase.server_asking hcl hupl hup hdown hfits hnext honest hact
  | answered hcl hpc hupl hup hdown hmsg honest =>
    rw [Session.act_server_of_nil (by simp [Conn.receives, hpc]) hup] at hact
    cases hact
  | last hcl hupl hup hdown hfits hend honest =>
    exact Phase.server_last hcl hupl hup hdown hfits hend honest hact
  | ending hcl hpc hupl hup hdown hend honest =>
    exact Phase.server_ending hcl hpc hupl hup hdown hend honest hact
  | joining hcl hpc hserves hacc hwriting hup hdown honest =>
    exact Phase.server_joining hcl hpc hserves hacc hwriting hup hdown honest hact
  | quitting hcl hpc hup hdown hover =>
    rw [Session.act_server_of_receives (by simp [Conn.receives, hpc]) hup] at hact
    simp only [Conn.receive, hpc, Option.map_some, Option.some.injEq, Prod.mk.injEq] at hact
    obtain ⟨rfl, rfl⟩ := hact
    have hquiet : s.conn.Quiet { s.conn with pc := .closed } :=
      ⟨by simp [hpc, ConnPc.uploading], rfl, rfl, rfl, rfl, rfl, rfl, rfl, rfl⟩
    exact ⟨.left hcl rfl rfl (by simp [Session.serverMoved, hdown]) (hover.quiet hquiet),
      .quiet hquiet⟩
  | left hcl hpc hup hdown hover | closed hcl hpc hup hdown hover =>
    rw [Session.act_server_of_not_receives (by simp [Conn.receives, hpc])] at hact
    simp [Conn.proceed, hpc] at hact
  | exist hcl hpc hup hdown hdormant hrep hserves =>
    exact Phase.server_exist hcl hpc hup hdown hdormant hrep hserves hact
  | notExist hcl hpc hup hdown hdormant hrep =>
    rw [Session.act_server_of_nil (by simp [Conn.receives, hpc]) hup] at hact
    cases hact
  | sending hpc hup hdown htype hdormant hrep hserves =>
    exact Phase.server_sending hpc hup hdown htype hdormant hrep hserves hact
  | sent hpc hup hdown hend hdormant hrep =>
    rw [Session.act_server_of_nil (by simp [Conn.receives, hpc]) hup] at hact
    cases hact

end DedupServer
