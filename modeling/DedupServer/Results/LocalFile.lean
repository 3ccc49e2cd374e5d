import DedupServer.Model.Script

/-! # The local file of a download

`download_file` opens the local file for writing, which empties it, before it asks the server. The file is
what it was, or what a complete download makes of it, exactly if the download completes or nothing else had
been in it (`local_file_iff`); a name that the server does not know empties the file (`local_file_emptied`).

When the stream ends, the call of `receive_data` that waits for the next message does not return, and the
client ends from outside: what `fileStream` has not passed on to the file by then is missing. -/

namespace DedupServer

open Foundations

/-! ## Answers -/

/-- A `DOWNLOADBODY` message. -/
structure DownloadBody where
  start : ℕ
  queryNum : ℕ
  chunkNum : ℕ
  payload : Bytes

/-- The message on the stream. -/
def DownloadBody.msg (b : DownloadBody) : Msg :=
  .data ⟨⟨.DOWNLOADBODY, b.start, b.queryNum, b.chunkNum, sizeofDataMsg + b.payload.length⟩, b.payload⟩

/-- **How a stream ends**: with `FILEEND`, or before it. Then `receive_data` may still hand the loop what is
in `m_inMsgBuffer`, where a length that has never been read is zero by chance (`stale`), and `flushed` bytes
of what has been written get into the file. -/
inductive StreamEnd
  | fileEnd (msg : DataMsg) (hmsg : msg.header.dataMsgType = .FILEEND)
  | cut (stale : List DownloadBody) (flushed : ℕ)

/-- The messages at the end. -/
def StreamEnd.msgs : StreamEnd → List Msg
  | fileEnd msg _ => [.data msg]
  | cut stale _ => stale.map DownloadBody.msg

/-- **What the server answers** to the request: nothing, or a control message and a stream. -/
inductive Answers
  | nothing
  | replied (order : Order) (status : RepStatus) (bodies : List DownloadBody) (ending : StreamEnd)

namespace Answers

/-- All messages. -/
def msgs : Answers → List Msg
  | nothing => []
  | replied order status bodies ending =>
    .control order [] status :: (bodies.map DownloadBody.msg ++ ending.msgs)

/-- All body payloads. -/
def payloads : Answers → Bytes
  | nothing => []
  | replied _ _ bodies _ => bodies.flatMap DownloadBody.payload

/-- The stream ends with `FILEEND`. -/
def FileEnd : Answers → Prop
  | replied _ _ _ (.fileEnd _ _) => True
  | _ => False

/-- The request is not refused. -/
def Accepted : Answers → Prop
  | nothing => False
  | replied order status _ _ => order = .DOWNLOADREP ∧ status ≠ .NOTEXIST

instance : DecidablePred Accepted
  | nothing => inferInstanceAs (Decidable False)
  | replied order status _ _ => inferInstanceAs (Decidable (order = .DOWNLOADREP ∧ status ≠ .NOTEXIST))

/-- What gets into the file of a client that is ended from outside. -/
def flushed : Answers → ℕ
  | replied _ _ _ (.cut _ flushed) => flushed
  | _ => 0

end Answers

/-! ## `download_file` -/

namespace Client

/-- **`download_file`** on the messages that it receives, up to its return or the end of the stream. -/
def download (env : Env) (c : Client) : List Msg → Client
  | [] => c
  | m :: ms =>
    match c.react env m with
    | some (c', _) => if c'.pc = .awaitBody then c'.download env ms else c'
    | none => c

/-- What is in the file when `download_file` has stopped. On its return `fileStream` is closed. -/
def onDisk (c : Client) (flushed : ℕ) : Bytes := if c.pc = .awaitQuitRep then c.file else c.file.take flushed

/-- **The local file after `download_file`**, for a previous content `old`. -/
def localFile (env : Env) (client_id : Int) (file_path old : Bytes) (a : Answers) : Bytes :=
  ((start client_id 100 file_path old false).1.download env a.msgs).onDisk a.flushed

variable {env : Env} {c : Client}

/-- A body is appended to the file. -/
theorem react_body (hpc : c.pc = .awaitBody) (b : DownloadBody) :
    c.react env b.msg = some ({ c with file := c.file ++ b.payload }, []) := by
  have htype : ¬ DataMsgType.DOWNLOADBODY = .FILEEND := by decide
  simp only [react, DownloadBody.msg, hpc, if_neg htype, Nat.add_sub_cancel_left, List.take_length]

/-- **Bodies one after another.** -/
theorem download_bodies (hpc : c.pc = .awaitBody) (bodies : List DownloadBody) (ms : List Msg) :
    c.download env (bodies.map DownloadBody.msg ++ ms) =
      download env { c with file := c.file ++ bodies.flatMap DownloadBody.payload } ms := by
  induction bodies generalizing c with
  | nil => rw [List.flatMap_nil, List.append_nil, List.map_nil, List.nil_append]
  | cons b bodies ih =>
    rw [List.map_cons, List.cons_append, download, react_body hpc b]
    show (if c.pc = .awaitBody then _ else _) = _
    rw [if_pos hpc, ih (c := { c with file := c.file ++ b.payload }) hpc, List.flatMap_cons, List.append_assoc]

/-- **`FILEEND`** ends the download. -/
theorem download_fileEnd (hpc : c.pc = .awaitBody) {msg : DataMsg} (hmsg : msg.header.dataMsgType = .FILEEND) :
    c.download env [.data msg] = c.quit.1 := by
  simp only [download, react, hpc, if_pos hmsg]
  rfl

/-- **A refusal** ends it before a body is received. -/
theorem download_refused (hpc : c.pc = .awaitDownloadRep) {order : Order} {status : RepStatus}
    (hrefused : ¬ (order = .DOWNLOADREP ∧ status ≠ .NOTEXIST)) (ms : List Msg) :
    c.download env (.control order [] status :: ms) = c.quit.1 := by
  simp only [download, react, hpc, if_neg hrefused]
  rfl

/-- An acceptance starts the loop. -/
theorem download_accepted (hpc : c.pc = .awaitDownloadRep) {order : Order} {status : RepStatus}
    (haccepted : order = .DOWNLOADREP ∧ status ≠ .NOTEXIST) (ms : List Msg) :
    c.download env (.control order [] status :: ms) = download env { c with pc := .awaitBody } ms := by
  rw [download]
  simp only [react, hpc, if_pos haccepted, if_true]

end Client

/-! ## What is left -/

/-- **What `download_file` leaves**: all payloads when the stream ends with `FILEEND`, some of the bytes
when it is cut, and nothing without an acceptance. -/
def Answers.left : Answers → Bytes
  | nothing => []
  | replied order status bodies ending =>
    if order = .DOWNLOADREP ∧ status ≠ .NOTEXIST then
      match ending with
      | .fileEnd _ _ => bodies.flatMap DownloadBody.payload
      | .cut stale flushed => ((bodies ++ stale).flatMap DownloadBody.payload).take flushed
    else []

/-- **`download_file` never looks at what was there before.** -/
theorem localFile_eq_left (env : Env) (client_id : Int) (file_path old : Bytes) (a : Answers) :
    Client.localFile env client_id file_path old a = a.left := by
  cases a with
  | nothing => rfl
  | replied order status bodies ending =>
    show ((Client.start client_id 100 file_path old false).1.download env
      (.control order [] status :: (bodies.map DownloadBody.msg ++ ending.msgs))).onDisk _ = _
    show _ = if order = .DOWNLOADREP ∧ status ≠ .NOTEXIST then _ else []
    by_cases haccepted : order = .DOWNLOADREP ∧ status ≠ .NOTEXIST
    · rw [if_pos haccepted, Client.download_accepted rfl haccepted, Client.download_bodies rfl]
      cases ending with
      | fileEnd msg hmsg =>
        rw [StreamEnd.msgs, Client.download_fileEnd rfl hmsg]
        rfl
      | cut stale flushed =>
        -- the loop goes on with what is in the buffer
        show _ = ((bodies ++ stale).flatMap DownloadBody.payload).take flushed
        rw [StreamEnd.msgs, ← List.append_nil (stale.map _), Client.download_bodies rfl, List.flatMap_append]
        rfl
    · rw [if_neg haccepted, Client.download_refused rfl haccepted]
      rfl

/-- A download that is refused, or that the server does not answer, leaves an empty file. -/
theorem Answers.left_of_not_accepted {a : Answers} (h : ¬ a.Accepted) : a.left = [] := by
  cases a with
  | nothing => rfl
  | replied order status bodies ending => exact if_neg h

/-- A download that completes leaves all payloads. -/
theorem Answers.left_of_complete {a : Answers} (h : a.Accepted) (hend : a.FileEnd) : a.left = a.payloads := by
  cases a with
  | nothing => cases h
  | replied order status bodies ending =>
    cases ending with
    | fileEnd msg hmsg => exact if_pos h
    | cut stale flushed => cases hend

/-! ## Results -/

section

variable (env : Env) (client_id : Int) (file_path old : Bytes) (a : Answers)

/-- **The local file is all right after `download_file`**: it is made of all payloads of a stream that has
ended with `FILEEND`, or it is what it was before. -/
def LocalFileKept : Prop :=
  (a.FileEnd ∧ Client.localFile env client_id file_path old a = a.payloads) ∨
    Client.localFile env client_id file_path old a = old

/-- **When the local file is all right**: the stream ends with `FILEEND`, of a request that has been
accepted or without a byte; or there had been in the file what is left of the download. -/
theorem local_file_iff :
    LocalFileKept env client_id file_path old a ↔
      (a.FileEnd ∧ (a.Accepted ∨ a.payloads = [])) ∨ old = a.left := by
  unfold LocalFileKept
  rw [localFile_eq_left]
  constructor
  · rintro (⟨hend, hall⟩ | hold)
    · by_cases haccepted : a.Accepted
      · exact .inl ⟨hend, .inl haccepted⟩
      · rw [Answers.left_of_not_accepted haccepted] at hall
        exact .inl ⟨hend, .inr hall.symm⟩
    · exact .inr hold.symm
  · rintro (⟨hend, hall⟩ | hold)
    · refine .inl ⟨hend, ?_⟩
      by_cases haccepted : a.Accepted
      · exact Answers.left_of_complete haccepted hend
      · rw [Answers.left_of_not_accepted haccepted]
        exact (hall.resolve_left haccepted).symm
    · exact .inr hold.symm

end

/-- **A file is emptied**: the server does not know the name. -/
theorem local_file_emptied :
    Client.localFile Sample.env 1 [97] [7] (.replied .DOWNLOADREP .NOTEXIST [] (.cut [] 0)) = [] ∧
      ¬ LocalFileKept Sample.env 1 [97] [7] (.replied .DOWNLOADREP .NOTEXIST [] (.cut [] 0)) := by
  have hempty : Client.localFile Sample.env 1 [97] [7]
      (.replied .DOWNLOADREP .NOTEXIST [] (.cut [] 0)) = [] := rfl
  refine ⟨hempty, ?_⟩
  rintro (⟨hend, -⟩ | hold)
  · exact hend
  · rw [hempty] at hold
    cases hold

end DedupServer
