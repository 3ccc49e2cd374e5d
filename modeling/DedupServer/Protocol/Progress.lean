import DedupServer.Protocol.Frame
import DedupServer.Download.SendFile
import Mathlib.Data.Prod.Lex
import Mathlib.Order.WellFounded

/-! # Sessions come to an end

A session of an honest client never waits for ever: unless it is closed on both sides, one of its
threads can go on (`Phase.enabled`), and every step brings it nearer to its end
(`Session.left_act`). So a session that is left alone reaches its end (`State.InPhase.finishes`),
whichever of its threads moves first. -/

namespace DedupServer

open Foundations

variable {env : Env} {s s' : Session} {sv sv' : Server} {c c' : Conn}

/-! ## What is left to do -/

/-- What the client still has to do. Every batch costs a message and a reply. -/
def Client.work (env : Env) (c : Client) : ℕ :=
  match c.pc with
  | .awaitUploadRep => 20 * (readData env c.file).length + 24
  | .awaitBodyRep => 20 * c.readBufferQueue.length + 22
  | .awaitDownloadRep => 12
  | .awaitBody => 8
  | .awaitQuitRep => 1
  | .closed => 0

/-- How far a program point is from one at which the thread waits for a message. -/
def ConnPc.rank : ConnPc → ℕ
  | .lookup _ => 4
  | .reply _ => 3
  | .register _ | .exist _ => 2
  | .join | .sending _ => 1
  | .login | .order | .body | .closed => 0

/-- What is left of the recipe a download reads. -/
def Conn.reading (sv : Server) (c : Conn) : ℕ :=
  match c.pc with
  | .sending recipe => Conn.recipeRest sv c.recipeNameHash recipe
  | _ => 0

/-- What the writers still have to do. -/
def Conn.writing (c : Conn) : ℕ :=
  2 * c.upload.containerQueue.queue.length + 2 * c.upload.recipeQueue.queue.length +
    (match c.dataWriter with
      | .waiting => 1
      | .saving _ => 2
      | _ => 0) +
    match c.recipeWriter with
      | .opening | .writing _ _ _ => 2
      | .waiting _ _ => 1
      | _ => 0

/-- **What is left to do in a session**: messages to send and to answer, the rest of the recipe, and
messages to take and buffers to write. -/
def Session.left (env : Env) (sv : Server) (s : Session) : ℕ ×ₗ ℕ ×ₗ ℕ :=
  toLex (s.client.work env + 5 * s.up.length + s.conn.pc.rank,
    toLex (s.conn.reading sv, s.down.length + s.conn.writing))

theorem ConnPc.rank_le (pc : ConnPc) : pc.rank ≤ 4 := by
  cases pc <;> simp [rank]

/-! ## Every step leaves less -/

theorem Client.work_sendBatch (env : Env) (c : Client) (chunkData : Bytes) :
    (c.sendBatch chunkData).1.work env + 5 * (c.sendBatch chunkData).2.length
      ≤ 20 * c.readBufferQueue.length + 22 := by
  unfold sendBatch
  split
  · rename_i b rest hq
    unfold sendBody
    split
    · simp [quit, work, hq]
    · simp [work, hq]
      omega
  · simp [sendBody, quit, work]

/-- **A reaction of an honest client** is paid for by what it has done. -/
theorem Client.work_react {c : Client} {m : Msg} {r : Client × List Msg}
    (h : c.react env m = some r) : r.1.work env + 5 * r.2.length ≤ c.work env := by
  unfold react at h
  split at h
  · split at h
    · rename_i hpc
      split at h
      · split at h
        · cases h
        · obtain rfl := Option.some.inj h
          -- all batches are still to be sent
          have := Client.work_sendBatch env
            { c with readBufferQueue := readData env c.file } []
          simp only [Client.work, hpc] at this ⊢
          exact this.trans (by omega)
      · obtain rfl := Option.some.inj h
        simp [quit, work, hpc]
    · rename_i hpc
      split at h <;> obtain rfl := Option.some.inj h <;> simp [quit, work, hpc]
    · obtain rfl := Option.some.inj h
      simp [work]
    · cases h
  · split at h
    · rename_i hpc
      split at h
      · cases h
      · obtain rfl := Option.some.inj h
        -- one batch less is to be sent
        have := Client.work_sendBatch env
          { c with outHeader := { c.outHeader with
              chunkNum := (packChunks c.readBuffer ‹DataMsg›.data).length } }
          (packChunks c.readBuffer ‹DataMsg›.data).flatten
        simp only [Client.work, hpc] at this ⊢
        exact this
    · rename_i hpc
      split at h <;> obtain rfl := Option.some.inj h <;> simp [quit, work, hpc]
    · cases h
  · cases h

/-- **A step of the serving thread** takes a message, or brings it nearer to taking one, or reads
on in the recipe and does nothing else. -/
theorem Session.spends_server (h : Session.act env sv s .server = some (sv', s')) :
    s'.client = s.client ∧
      (5 * s'.up.length + s'.conn.pc.rank < 5 * s.up.length + s.conn.pc.rank ∨
        (5 * s'.up.length + s'.conn.pc.rank = 5 * s.up.length + s.conn.pc.rank ∧ sv' = sv ∧
          s'.conn.reading sv' < s.conn.reading sv ∧ s'.conn.writing = s.conn.writing)) := by
  simp only [Session.act] at h
  split at h
  · -- a message is taken
    split at h
    on_goal 2 => cases h
    rename_i m rest hup
    obtain ⟨r, -, heq⟩ := Option.map_eq_some_iff.mp h
    obtain ⟨rfl, rfl⟩ := Prod.mk.inj heq
    refine ⟨rfl, .inl ?_⟩
    have := r.2.1.pc.rank_le
    simp only [Session.serverMoved, hup, List.length_cons]
    omega
  · obtain ⟨r, hr, heq⟩ := Option.map_eq_some_iff.mp h
    obtain ⟨rfl, rfl⟩ := Prod.mk.inj heq
    refine ⟨rfl, ?_⟩
    cases hpc : s.conn.pc with
    | login | order | body | closed => simp [Conn.proceed, hpc] at hr
    | lookup | exist =>
      simp only [Conn.proceed, hpc] at hr
      split at hr <;> obtain rfl := Option.some.inj hr <;>
        exact .inl (by simp [Session.serverMoved, ConnPc.rank])
    | reply | register =>
      simp only [Conn.proceed, hpc] at hr
      obtain rfl := Option.some.inj hr
      exact .inl (by simp [Session.serverMoved, ConnPc.rank])
    | join =>
      simp only [Conn.proceed, hpc] at hr
      split at hr
      on_goal 2 => cases hr
      obtain rfl := Option.some.inj hr
      exact .inl (by simp [Session.serverMoved, ConnPc.rank, Conn.resetUpload])
    | sending recipe =>
      simp only [Conn.proceed, hpc] at hr
      split at hr
      · rename_i outData outHeader next msg hblock
        obtain rfl := Option.some.inj hr
        refine .inr ⟨by simp [Session.serverMoved, ConnPc.rank], rfl, ?_, rfl⟩
        simpa [Session.serverMoved, Conn.reading, hpc] using Conn.recipeRest_lt hblock
      · obtain rfl := Option.some.inj hr
        exact .inl (by simp [Session.serverMoved, ConnPc.rank])

/-- So it leaves less to do. -/
theorem Session.left_server (h : Session.act env sv s .server = some (sv', s')) :
    s'.left env sv' < s.left env sv := by
  obtain ⟨hclient, hlt | ⟨heq, -, hreading, -⟩⟩ := Session.spends_server h <;>
    rw [Session.left, Session.left, Prod.Lex.toLex_lt_toLex, hclient]
  · exact .inl (by dsimp only; omega)
  · rw [Prod.Lex.toLex_lt_toLex]
    exact .inr ⟨by dsimp only; omega, .inl hreading⟩

theorem Conn.writing_dataWriterStep (h : c.dataWriterStep sv = some (sv', c')) :
    c'.writing < c.writing := by
  obtain ⟨C, rest, hw, hq, rfl, rfl⟩ | ⟨hw, hq, hdone, rfl, rfl⟩ | ⟨C, hw, rfl, rfl⟩ :=
    Conn.dataWriterStep_cases h
  · simp only [Conn.writing, hw, hq, List.length_cons]
    omega
  · simp only [Conn.writing, hw, hq]
    omega
  · simp only [Conn.writing, hw]
    omega

theorem Conn.writing_recipeWriterStep (h : c.recipeWriterStep sv = some (sv', c')) :
    c'.writing < c.writing := by
  obtain ⟨hw, rfl, rfl⟩ | ⟨pos, total, r, rest, hw, hq, rfl, rfl⟩ |
    ⟨pos, total, hw, hq, hdone, rfl, rfl⟩ | ⟨pos, total, r, hw, rfl, rfl⟩ :=
    Conn.recipeWriterStep_cases h
  · simp only [Conn.writing, hw]
    omega
  · simp only [Conn.writing, hw, hq, List.length_cons]
    omega
  · simp only [Conn.writing, hw]
    omega
  · simp only [Conn.writing, hw]
    omega

/-- A step of a writer leaves less to write. -/
theorem Phase.left_writer (h : Phase env s) (hidle : ¬ s.conn.Dormant) (hjoined : ¬ s.conn.Joined)
    (hpc : c.pc = s.conn.pc) (hlt : c.writing < s.conn.writing) :
    ({ s with conn := c } : Session).left env sv' < s.left env sv := by
  have hreading : c.reading sv' = 0 ∧ s.conn.reading sv = 0 := by
    rcases (h.writing hidle hjoined).1 with ⟨hbody, -⟩ | ⟨hbody, -⟩ <;>
      simp [Conn.reading, hpc, hbody]
  rw [Session.left, Session.left, Prod.Lex.toLex_lt_toLex, Prod.Lex.toLex_lt_toLex]
  refine .inr ⟨by rw [hpc], .inr ⟨hreading.1.trans hreading.2.symm, ?_⟩⟩
  dsimp only
  omega

/-- **Every step of an honest session leaves less to do.** -/
theorem Session.left_act (h : Phase env s) (hrogue : s.client.rogue = false) {a : Act}
    (hact : Session.act env sv s a = some (sv', s')) : s'.left env sv' < s.left env sv := by
  cases a with
  | client =>
    simp only [Session.act] at hact
    split at hact
    on_goal 2 => cases hact
    rename_i m rest hdown
    obtain ⟨r, hr, heq⟩ := Option.map_eq_some_iff.mp hact
    obtain ⟨rfl, rfl⟩ := Prod.mk.inj heq
    have hwork := Client.work_react hr
    rw [Session.left, Session.left, Prod.Lex.toLex_lt_toLex, Prod.Lex.toLex_lt_toLex]
    simp only [Session.clientMoved, hdown, List.length_cons, List.length_append]
    -- either the client has less to do, or a message less is on the way to it
    rcases hwork.lt_or_eq with hlt | heq
    · exact .inl (by omega)
    · exact .inr ⟨by omega, .inr ⟨trivial, by omega⟩⟩
  -- an honest client has no such step
  | rogue chunkData hashes =>
    simp only [Session.act] at hact
    split at hact
    on_goal 2 => cases hact
    obtain ⟨r, hr, -⟩ := Option.map_eq_some_iff.mp hact
    simp [Client.rogueReact, hrogue] at hr
  | server => exact Session.left_server hact
  | dataWriter =>
    -- a writer thread runs down its own measure, the messages stay
    obtain ⟨r, hr, heq⟩ := Option.map_eq_some_iff.mp hact
    obtain ⟨rfl, rfl⟩ := Prod.mk.inj heq
    obtain ⟨hidle, hjoined⟩ := Conn.not_dormant_of_dataWriterStep hr
    exact h.left_writer hidle hjoined (Conn.alike_dataWriterStep hr).pc
      (Conn.writing_dataWriterStep hr)
  | recipeWriter =>
    obtain ⟨r, hr, heq⟩ := Option.map_eq_some_iff.mp hact
    obtain ⟨rfl, rfl⟩ := Prod.mk.inj heq
    obtain ⟨hidle, hjoined⟩ := Conn.not_dormant_of_recipeWriterStep hr
    refine h.left_writer hidle hjoined ?_ (Conn.writing_recipeWriterStep hr)
    rcases (h.writing hidle hjoined).1 with ⟨-, hw⟩ | ⟨-, hw⟩
    · exact (Conn.alike_recipeWriterStep hw hr).pc
    · exact (Conn.alike_recipeWriterStep hw hr).pc

/-! ## Some step is possible -/

/-- **After `FILEEND`** a writer can go on, or both have finished. -/
theorem Conn.Busy.enabled (h : c.Busy true) (sv : Server) :
    (∃ r, c.dataWriterStep sv = some r) ∨ (∃ r, c.recipeWriterStep sv = some r) ∨
      (c.dataWriter = .finished ∧ c.recipeWriter = .finished) := by
  cases hw : c.dataWriter with
  | idle => exact absurd hw h.dataOn.1
  | joined => exact absurd hw h.dataOn.2
  | waiting =>
    cases hq : c.upload.containerQueue.queue with
    | nil => exact .inl ⟨_, by simp [Conn.dataWriterStep, hw, hq, h.containerDone]; rfl⟩
    | cons C rest => exact .inl ⟨_, by simp [Conn.dataWriterStep, hw, hq]; rfl⟩
  | saving C => exact .inl ⟨_, by simp [Conn.dataWriterStep, hw]; rfl⟩
  | finished =>
    cases hw' : c.recipeWriter with
    | idle => exact absurd hw' h.recipeOn.1
    | joined => exact absurd hw' h.recipeOn.2
    | opening => exact .inr (.inl ⟨_, by simp [Conn.recipeWriterStep, hw']; rfl⟩)
    | waiting pos total =>
      cases hq : c.upload.recipeQueue.queue with
      | nil =>
        exact .inr (.inl ⟨_, by simp [Conn.recipeWriterStep, hw', hq, h.recipeDone]; rfl⟩)
      | cons C rest => exact .inr (.inl ⟨_, by simp [Conn.recipeWriterStep, hw', hq]; rfl⟩)
    | writing pos total r => exact .inr (.inl ⟨_, by simp [Conn.recipeWriterStep, hw']; rfl⟩)
    | finished => exact .inr (.inr ⟨rfl, rfl⟩)

/-- **While an upload is being finished** a writer can go on, or both have finished. -/
theorem Conn.Writing.enabled (h : c.Writing true) (sv : Server) :
    (∃ r, c.dataWriterStep sv = some r) ∨ (∃ r, c.recipeWriterStep sv = some r) ∨
      (c.dataWriter = .finished ∧ c.recipeWriter = .finished) :=
  h.busy.enabled sv

/-- The thread can go on at a point where it does not wait. -/
theorem Session.server_enabled (hrec : s.conn.receives = false)
    (hproceed : s.conn.proceed env sv ≠ none) : ∃ r, Session.act env sv s .server = some r := by
  obtain ⟨r, hr⟩ := Option.ne_none_iff_exists'.mp hproceed
  exact ⟨_, by rw [Session.act_server_of_not_receives hrec, hr]; rfl⟩

/-- The thread can go on when it gets the message it waits for. -/
theorem Session.server_enabled_of_receives {m : Msg} {rest : List Msg}
    (hrec : s.conn.receives = true) (hup : s.up = m :: rest)
    (hreceive : s.conn.receive env sv m ≠ none) :
    ∃ r, Session.act env sv s .server = some r := by
  obtain ⟨r, hr⟩ := Option.ne_none_iff_exists'.mp hreceive
  exact ⟨_, by rw [Session.act_server_of_receives hrec hup, hr]; rfl⟩

/-- The client can go on when it gets the message it waits for. -/
theorem Session.client_enabled {m : Msg} {rest : List Msg} (hdown : s.down = m :: rest)
    (hreact : s.client.react env m ≠ none) : ∃ r, Session.act env sv s .client = some r := by
  obtain ⟨r, hr⟩ := Option.ne_none_iff_exists'.mp hreact
  exact ⟨_, by simp only [Session.act, hdown, hr]; rfl⟩

/-- **A message of an upload can be taken**, or the server has still to register the file. -/
theorem Session.Uploading.enabled (h : s.Uploading env) {msg : DataMsg} {rest : List Msg}
    (hup : s.up = .data msg :: rest) {uniq next : List Bytes} (hfits : s.conn.Fits msg uniq next) :
    ∃ r, Session.act env sv s .server = some r := by
  rcases h.stage with ⟨hpc, -⟩ | ⟨hpc, -⟩
  · exact Session.server_enabled (by simp [Conn.receives, hpc]) (by simp [Conn.proceed, hpc])
  · obtain ⟨st, new, -, -, -, -, -, hbody⟩ := Conn.exists_receiveBody env sv h.asked hfits
    exact Session.server_enabled_of_receives (by simp [Conn.receives, hpc]) hup
      (by simp [Conn.receive, hpc, hfits.type, hbody])

/-- **A session of an honest client is closed, or can go on.** -/
theorem Phase.enabled (h : Phase env s) (sv : Server) (hrogue : s.client.rogue = false)
    (hclosed : ¬ s.Closed) :
    ∃ a r, Session.act env sv s a = some r := by
  cases h with
  -- in every phase one party can go on: the one that the others wait for
  | login hreq hpc hup =>
    exact ⟨.server, Session.server_enabled_of_receives (by simp [Conn.receives, hpc]) hup
      (by simp [Conn.receive, hpc])⟩
  | order hreq hpc hup =>
    refine ⟨.server, Session.server_enabled_of_receives (by simp [Conn.receives, hpc]) hup ?_⟩
    rcases hreq with ⟨-, rfl⟩ | ⟨-, rfl⟩ | ⟨-, rfl⟩ <;> simp [Conn.receive, hpc]
  | lookup hcl hpc | exist hcl hpc =>
    refine ⟨.server, Session.server_enabled (by simp [Conn.receives, hpc]) ?_⟩
    simp only [Conn.proceed, hpc]
    split <;> simp
  | reply hcl hpc =>
    exact ⟨.server, Session.server_enabled (by simp [Conn.receives, hpc])
      (by simp [Conn.proceed, hpc])⟩
  | refused hcl hpc hup hdown | notExist hcl hpc hup hdown | left hcl hpc hup hdown =>
    exact ⟨.client, Session.client_enabled hdown (by simp [Client.react, hcl])⟩
  | accepted hcl hupl hup hdown | answered hcl hpc hupl hup hdown =>
    exact ⟨.client, Session.client_enabled hdown (by simp [Client.react, hcl, hrogue])⟩
  | asking hcl hupl hup hdown hfits | last hcl hupl hup hdown hfits =>
    exact ⟨.server, hupl.enabled hup hfits⟩
  | ending hcl hpc hupl hup hdown hend =>
    exact ⟨.server, Session.server_enabled_of_receives (by simp [Conn.receives, hpc]) hup
      (by simp [Conn.receive, hpc, hend])⟩
  -- the receiver waits for both writers, one of which can go on until both have finished
  | joining hcl hpc hserves hacc hwriting =>
    rcases hwriting.enabled sv with ⟨r, hr⟩ | ⟨r, hr⟩ | hfinished
    · exact ⟨.dataWriter, _, by simp only [Session.act, hr]; rfl⟩
    · exact ⟨.recipeWriter, _, by simp only [Session.act, hr]; rfl⟩
    · exact ⟨.server, Session.server_enabled (by simp [Conn.receives, hpc])
        (by simp [Conn.proceed, hpc, hfinished])⟩
  | quitting hcl hpc hup =>
    exact ⟨.server, Session.server_enabled_of_receives (by simp [Conn.receives, hpc]) hup
      (by simp [Conn.receive, hpc])⟩
  | closed hcl hpc => exact absurd ⟨hcl, hpc⟩ hclosed
  | sending hpc =>
    refine ⟨.server, Session.server_enabled (by simp [Conn.receives, hpc]) ?_⟩
    simp only [Conn.proceed, hpc]
    split <;> simp
  -- the client still has the file end to read, perhaps behind blocks
  | sent hpc hup hdown hend =>
    obtain ⟨bodies, -, ⟨hcl, hd⟩ | ⟨hcl, hd⟩⟩ := hdown
    · exact ⟨.client, Session.client_enabled hd (by simp [Client.react, hcl])⟩
    · cases bodies with
      | nil => exact ⟨.client, Session.client_enabled hd (by simp [Client.react, hcl, hend])⟩
      | cons b bodies =>
        refine ⟨.client, Session.client_enabled hd ?_⟩
        simp only [Client.react, hcl]
        split <;> simp

/-! ## Runs to the end -/

/-- **A session that is left alone comes to its end.** -/
theorem State.InPhase.finishes {σ : State} (h : σ.InPhase env) {i : ℕ} {s : Session}
    (hi : σ.locals i = some s)
    (hrogue : s.client.rogue = false) :
    ∃ τ t, Reaches (sessions env) (soloStep i) σ τ ∧ τ.locals i = some t ∧ t.Closed := by
  by_cases hclosed : s.Closed
  · exact ⟨σ, s, .refl, hi, hclosed⟩
  · obtain ⟨a, ⟨sv', s'⟩, hact⟩ := (h i s hi).enabled σ.shared hrogue hclosed
    have hstep : Step (sessions env) σ (.act i a) (σ.moved i sv' s') := .act hi hact
    have hless := Session.left_act (h i s hi) hrogue hact
    have hrogue' : s'.client.rogue = false := ((h i s hi).act hact).2.kept.rogue.trans hrogue
    obtain ⟨τ, t, hreach, ht⟩ :=
      State.InPhase.finishes (h.step hstep) (Config.moved_locals_self _ _ _ _) hrogue'
    exact ⟨τ, t, .head ⟨_, hstep, a, rfl⟩ hreach, ht⟩
termination_by s.left env σ.shared
decreasing_by exact hless

end DedupServer
