import DedupServer.Protocol.Writers
import DedupServer.Upload.Batches

/-! # Client and server in lockstep

Where the two sides of a session can be at the same time (`Phase`): the program points, the
messages in flight, and what links the client's pending batch, the server's hash list, its reply
buffer and its queue of duplicate addresses. Nothing here speaks about the shared state: whatever
the other sessions do, a session is always in one of these phases. -/

namespace DedupServer

open Foundations

/-- The answers to the last query. -/
def Conn.answers (c : Conn) : Bytes := c.outData.take c.hashList.length

/-- They are what the queries say first. -/
theorem Conn.Asked.map_fst_queries {c : Conn} (h : c.Asked) : c.queries.map (·.1) = c.answers := by
  rw [Conn.queries, List.map_fst_zip (by rw [h.length_answers])]
  rfl

/-- **The answers to a new query** are those of the index. -/
theorem Conn.answers_answerQuery {c : Conn} {msg : DataMsg} {uniq next : List Bytes}
    (hf : c.Fits msg uniq next) (st : StoreLoop) :
    (c.answerQuery msg st).answers = next.map (Conn.queryAnswer st.server) := by
  rw [Conn.answers, Conn.answerQuery_hashList, hf.queriedHashes]
  simp [Conn.answerQuery, overwrite, hf.queriedHashes]

/-- **How the file of an honest client is divided**: into the chunks that have a recipe entry, the
chunks whose hashes were queried last, and the rest. -/
structure Conn.Splits (env : Env) (file : Bytes) (c : Conn) (stored pending rest : List Bytes) :
    Prop where
  chunks : fileChunks env file = stored ++ pending ++ rest
  entries : c.entries.length = stored.length
  hashList : c.hashList = pending.map env.generateHash

namespace Session

/-- The name of the recipe file the session is about. -/
def recipePath (env : Env) (s : Session) : Bytes :=
  env.recipeNameHash s.client.client_id s.client.fileName

/-- The server has accepted the upload. -/
def Accepted (s : Session) : Prop := s.conn.uploadRep = some .UNIQUE

instance (s : Session) : Decidable s.Accepted :=
  inferInstanceAs (Decidable (s.conn.uploadRep = some .UNIQUE))

/-- The connection works for the client and on its file. -/
structure Serves (env : Env) (s : Session) : Prop where
  client_id : s.conn.client_id = s.client.client_id
  path : s.conn.recipeNameHash = s.recipePath env

/-- The request a client starts with. -/
def Requests (s : Session) (m : Msg) : Prop :=
  (s.client.pc = .awaitUploadRep ∧ m = .control .UPLOAD s.client.fileName .NONE) ∨
  (s.client.pc = .awaitDownloadRep ∧ m = .control .DOWNLOAD s.client.fileName .NONE) ∨
  (s.client.pc = .awaitQuitRep ∧ m = .control .QUIT [] .NONE)

/-- **An accepted upload, up to its `FILEEND`.** The client may be ahead of the server, which has
still to register the file. -/
structure Uploading (env : Env) (s : Session) : Prop where
  serves : s.Serves env
  accepted : s.Accepted
  asked : s.conn.Asked
  stage : (s.conn.pc = .register s.client.fileName ∧ s.conn.Dormant) ∨
    (s.conn.pc = .body ∧ s.conn.Writing false)

/-- **A message of an honest client**: the chunks of the last query that the server wants, and the
hashes of the next batch, if there is one. -/
structure Sends (env : Env) (s : Session) (stored pending batch rest uniq next : List Bytes) :
    Prop where
  splits : s.conn.Splits env s.client.file stored pending (batch ++ rest)
  uniq : uniq = picks 1 (s.conn.answers.zip pending)
  next : next = batch.map env.generateHash
  aligned : batch = [] ∨ ∃ before after,
    fileBatches env s.client.file = before ++ batch :: after ∧ before.flatten = stored ++ pending

/-- An honest client has sent a batch and keeps it for the reply. -/
def Asks (env : Env) (s : Session) (uniq next : List Bytes) : Prop :=
  ∃ stored pending batch rest, s.Sends env stored pending batch rest uniq next ∧
    s.client.readBuffer.chunks = batch ∧ s.client.Ahead env rest

/-- **An honest client knows the chunks that the last reply is about.** -/
def Knows (env : Env) (s : Session) : Prop :=
  ∃ stored pending rest, s.conn.Splits env s.client.file stored pending rest ∧
    s.client.readBuffer.chunks = pending ∧ s.client.Ahead env rest

/-- An honest client has sent everything. -/
def Ends (env : Env) (s : Session) (uniq : List Bytes) : Prop :=
  ∃ stored pending, s.Sends env stored pending [] [] uniq []

/-- The recipe has an entry for every chunk of the file. -/
def Listed (env : Env) (s : Session) : Prop :=
  s.conn.entries.length = (fileChunks env s.client.file).length

/-- **The session has nothing more to do but quit**: it has uploaded nothing, or its upload is
over. -/
def Over (env : Env) (s : Session) : Prop :=
  (s.conn.Dormant ∧ ¬ s.Accepted) ∨
  (s.conn.Joined ∧ s.Accepted ∧ (s.client.rogue = false → s.Listed env))

/-- **What a download has in flight**: the answer to the request, unless it has been received, some
blocks of the file, and `tail`. -/
def Receives (s : Session) (tail : List Msg) : Prop :=
  ∃ bodies : List DataMsg,
    (∀ b ∈ bodies, b.header.dataMsgType = .DOWNLOADBODY ∧
      b.data.length ≤ b.header.size - sizeofDataMsg) ∧
    ((s.client.pc = .awaitDownloadRep ∧
        s.down = .control .DOWNLOADREP [] .EXIST :: (bodies.map .data ++ tail)) ∨
      (s.client.pc = .awaitBody ∧ s.down = bodies.map .data ++ tail))

end Session

/-- **The phases of a session.** -/
inductive Phase (env : Env) (s : Session) : Prop
  | login {m : Msg} (hreq : s.Requests m) (hpc : s.conn.pc = .login)
      (hup : s.up = [.login s.client.client_id, m]) (hdown : s.down = [])
      (hdormant : s.conn.Dormant) (hrep : s.conn.uploadRep = none)
      (hroom : s.conn.outData.length = CHUNKSIZE * BATCHSIZE)
  | order {m : Msg} (hreq : s.Requests m) (hpc : s.conn.pc = .order) (hup : s.up = [m])
      (hdown : s.down = []) (hdormant : s.conn.Dormant) (hrep : s.conn.uploadRep = none)
      (hroom : s.conn.outData.length = CHUNKSIZE * BATCHSIZE)
      (hid : s.conn.client_id = s.client.client_id)
  | lookup (hcl : s.client.pc = .awaitUploadRep) (hpc : s.conn.pc = .lookup s.client.fileName)
      (hup : s.up = []) (hdown : s.down = []) (hdormant : s.conn.Dormant)
      (hrep : s.conn.uploadRep = none)
      (hroom : s.conn.outData.length = CHUNKSIZE * BATCHSIZE) (hserves : s.Serves env)
  | reply (hcl : s.client.pc = .awaitUploadRep) (hpc : s.conn.pc = .reply s.client.fileName)
      (hup : s.up = []) (hdown : s.down = []) (hdormant : s.conn.Dormant)
      (hrep : s.conn.uploadRep = none)
      (hroom : s.conn.outData.length = CHUNKSIZE * BATCHSIZE) (hserves : s.Serves env)
  | refused (hcl : s.client.pc = .awaitUploadRep) (hpc : s.conn.pc = .order) (hup : s.up = [])
      (hdown : s.down = [.control .UPLOADREP [] .DUPLICATE]) (hdormant : s.conn.Dormant)
      (hrep : s.conn.uploadRep = some .DUPLICATE)
  | accepted (hcl : s.client.pc = .awaitUploadRep) (hupl : s.Uploading env) (hup : s.up = [])
      (hdown : s.down = [.control .UPLOADREP [] .UNIQUE]) (hhash : s.conn.hashList = [])
      (hentries : s.conn.entries = [])
  | asking {msg : DataMsg} {uniq next : List Bytes} (hcl : s.client.pc = .awaitBodyRep)
      (hupl : s.Uploading env) (hup : s.up = [.data msg]) (hdown : s.down = [])
      (hfits : s.conn.Fits msg uniq next) (hnext : next ≠ [])
      (honest : s.client.rogue = false → s.Asks env uniq next)
  | answered {msg : DataMsg} (hcl : s.client.pc = .awaitBodyRep) (hpc : s.conn.pc = .body)
      (hupl : s.Uploading env) (hup : s.up = []) (hdown : s.down = [.data msg])
      (hmsg : msg.data = s.conn.answers) (honest : s.client.rogue = false → s.Knows env)
  | last {msg fileEnd : DataMsg} {uniq : List Bytes} (hcl : s.client.pc = .awaitQuitRep)
      (hupl : s.Uploading env)
      (hup : s.up = [.data msg, .data fileEnd, .control .QUIT [] .NONE]) (hdown : s.down = [])
      (hfits : s.conn.Fits msg uniq []) (hend : fileEnd.header.dataMsgType = .FILEEND)
      (honest : s.client.rogue = false → s.Ends env uniq)
  | ending {fileEnd : DataMsg} (hcl : s.client.pc = .awaitQuitRep) (hpc : s.conn.pc = .body)
      (hupl : s.Uploading env) (hup : s.up = [.data fileEnd, .control .QUIT [] .NONE])
      (hdown : s.down = []) (hend : fileEnd.header.dataMsgType = .FILEEND)
      (honest : s.client.rogue = false → s.Listed env)
  | joining (hcl : s.client.pc = .awaitQuitRep) (hpc : s.conn.pc = .join)
      (hserves : s.Serves env) (hacc : s.Accepted) (hwriting : s.conn.Writing true)
      (hup : s.up = [.control .QUIT [] .NONE]) (hdown : s.down = [])
      (honest : s.client.rogue = false → s.Listed env)
  | quitting (hcl : s.client.pc = .awaitQuitRep) (hpc : s.conn.pc = .order)
      (hup : s.up = [.control .QUIT [] .NONE]) (hdown : s.down = []) (hover : s.Over env)
  | left (hcl : s.client.pc = .awaitQuitRep) (hpc : s.conn.pc = .closed) (hup : s.up = [])
      (hdown : s.down = [.control .QUITREP [] .NONE]) (hover : s.Over env)
  | closed (hcl : s.client.pc = .closed) (hpc : s.conn.pc = .closed) (hup : s.up = [])
      (hdown : s.down = []) (hover : s.Over env)
  | exist (hcl : s.client.pc = .awaitDownloadRep) (hpc : s.conn.pc = .exist s.client.fileName)
      (hup : s.up = []) (hdown : s.down = []) (hdormant : s.conn.Dormant)
      (hrep : s.conn.uploadRep = none) (hserves : s.Serves env)
  | notExist (hcl : s.client.pc = .awaitDownloadRep) (hpc : s.conn.pc = .order)
      (hup : s.up = []) (hdown : s.down = [.control .DOWNLOADREP [] .NOTEXIST])
      (hdormant : s.conn.Dormant) (hrep : s.conn.uploadRep = none)
  | sending {recipe : Option Nat} (hpc : s.conn.pc = .sending recipe) (hup : s.up = [])
      (hdown : s.Receives []) (htype : s.conn.outHeader.dataMsgType = .DOWNLOADBODY)
      (hdormant : s.conn.Dormant) (hrep : s.conn.uploadRep = none) (hserves : s.Serves env)
  | sent {fileEnd : DataMsg} (hpc : s.conn.pc = .order) (hup : s.up = [])
      (hdown : s.Receives [.data fileEnd]) (hend : fileEnd.header.dataMsgType = .FILEEND)
      (hdormant : s.conn.Dormant) (hrep : s.conn.uploadRep = none)

variable {env : Env} {s : Session} {sv sv' : Server}

/-! ## A new session -/

/-- A new connection is dormant. -/
theorem Conn.dormant_init (env : Env) (sv : Server) (junk : Bytes) :
    (Conn.init env sv junk).2.Dormant :=
  ⟨rfl, rfl, rfl, rfl, rfl, rfl, rfl, rfl, rfl, rfl⟩

/-- **A session starts in step.** -/
theorem Phase.connect (env : Env) (sv : Server) (arg : Arg) :
    Phase env (Session.connect env sv arg).2 := by
  simp only [Session.connect, Client.start]
  split_ifs
  · exact .login (.inl ⟨rfl, rfl⟩) rfl rfl rfl (Conn.dormant_init env sv arg.junk) rfl
      arg.junk_length
  · exact .login (.inr (.inl ⟨rfl, rfl⟩)) rfl rfl rfl (Conn.dormant_init env sv arg.junk) rfl
      arg.junk_length
  · exact .login (.inr (.inr ⟨rfl, rfl⟩)) rfl rfl rfl (Conn.dormant_init env sv arg.junk) rfl
      arg.junk_length

end DedupServer
