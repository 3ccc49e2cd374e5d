import DedupServer.Foundations.Interleaving
import DedupServer.Model.Client
import DedupServer.Model.Conn

/-! # The system: sessions over one server

A session is a client, its connection and the messages in flight between them. The system is a
family of sessions over the shared state of the server (`Foundations.Processes`): a step is one
connection accepted, one message processed by one side, one step of a writer thread, or one
database access. A session that stops is one that takes no further step. -/

namespace DedupServer

open Foundations

/-- A client, its connection, and the messages in flight in both directions. -/
structure Session where
  client : Client
  conn : Conn
  up : List Msg
  down : List Msg
  deriving DecidableEq

/-- Who moves in a session. A rogue client chooses what it sends. -/
inductive Act
  | client
  | rogue (chunkData hashes : List Bytes)
  | server
  | dataWriter
  | recipeWriter

/-- What a new session starts from: the command line of the client, its local file, whether it is
a rogue, and what the reply buffer of the connection contains. -/
structure Arg where
  client_id : Int
  /-- The first character of the operation: `'u'` is 117, `'d'` is 100. -/
  op : UInt8
  file_path : Bytes
  file : Bytes
  rogue : Bool
  junk : Bytes
  junk_length : junk.length = CHUNKSIZE * BATCHSIZE

namespace Session

/-- A client connects: `DedupServer::run` creates its `ClientConn`, and the client sends its first
messages. -/
def connect (env : Env) (sv : Server) (arg : Arg) : Server × Session :=
  let created := Conn.init env sv arg.junk
  let started := Client.start arg.client_id arg.op arg.file_path arg.file arg.rogue
  (created.1, ⟨started.1, created.2, started.2, []⟩)

/-- The client has handled the first message in flight to it. -/
def clientMoved (s : Session) (rest : List Msg) (r : Client × List Msg) : Session :=
  { s with client := r.1, down := rest, up := s.up ++ r.2 }

/-- The serving thread has moved, leaving `rest` in flight to it. -/
def serverMoved (s : Session) (rest : List Msg) (c : Conn) (reply : List Msg) : Session :=
  { s with conn := c, up := rest, down := s.down ++ reply }

/-- **One action of a session.** -/
def act (env : Env) (sv : Server) (s : Session) : Act → Option (Server × Session)
  | .client =>
    match s.down with
    | m :: rest => (s.client.react env m).map fun r => (sv, s.clientMoved rest r)
    | [] => none
  | .rogue chunkData hashes =>
    match s.down with
    | m :: rest =>
      (s.client.rogueReact chunkData hashes m).map fun r => (sv, s.clientMoved rest r)
    | [] => none
  | .server =>
    if s.conn.receives then
      match s.up with
      | m :: rest =>
        (s.conn.receive env sv m).map fun r => (r.1, s.serverMoved rest r.2.1 r.2.2)
      | [] => none
    else (s.conn.proceed env sv).map fun r => (r.1, s.serverMoved s.up r.2.1 r.2.2)
  | .dataWriter => (s.conn.dataWriterStep sv).map fun r => (r.1, { s with conn := r.2 })
  | .recipeWriter => (s.conn.recipeWriterStep sv).map fun r => (r.1, { s with conn := r.2 })

end Session

/-- **The system**: sessions, named by numbers, over one server. -/
def sessions (env : Env) : Processes Server Session Act Arg where
  spawn := Session.connect env
  act := Session.act env

/-- A state of the system. -/
abbrev State := Config ℕ Server Session

/-- The state before anyone connects. -/
def State.init : State := ⟨Server.init, fun _ => none⟩

/-- A condition on the steps of the system. -/
abbrev Condition := StepCondition ℕ Server Session Act Arg

/-- The session has run to its end on both sides, and its writers with it. -/
def Session.Closed (s : Session) : Prop := s.client.pc = .closed ∧ s.conn.pc = .closed

instance (s : Session) : Decidable s.Closed := inferInstanceAs (Decidable (_ ∧ _))

end DedupServer
