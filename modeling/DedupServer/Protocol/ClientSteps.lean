import DedupServer.Protocol.Phase

/-! # The client keeps the lockstep

A step of the client, honest (`Phase.client`) or not (`Phase.rogue`), leads from phase to phase,
and the client keeps its identity and its file (`Client.Same`). -/

namespace DedupServer

open Foundations

variable {env : Env} {s s' : Session} {sv sv' : Server}

/-! ## What a phase depends on -/

/-- An upload does not notice what the client does to its buffers. -/
theorem Session.Uploading.congr (h : s.Uploading env) (hconn : s'.conn = s.conn)
    (hid : s'.client.client_id = s.client.client_id)
    (hpath : s'.client.file_path = s.client.file_path) : s'.Uploading env where
  serves := ⟨by rw [hconn, hid, h.serves.client_id], by
    rw [hconn, h.serves.path, recipePath, recipePath, Client.fileName, Client.fileName, hid,
      hpath]⟩
  accepted := by
    rw [Accepted, hconn]
    exact h.accepted
  asked := hconn ▸ h.asked
  stage := by
    rw [hconn, Client.fileName, hpath]
    exact h.stage

/-- The chunks an honest client selects fit the last query. -/
theorem Conn.Splits.fits {c : Conn} {file : Bytes} {stored pending rest : List Bytes}
    (h : c.Splits env file stored pending rest) {msg : DataMsg} {uniq next : List Bytes}
    (huniq : uniq = picks 1 (c.answers.zip pending)) (hcarries : msg.Carries uniq next)
    (hlength : ∀ x ∈ next, x.length = HASHSIZE) (hle : next.length ≤ BATCHSIZE) :
    c.Fits msg uniq next :=
  { hcarries with
    ragged := by
      have hpending : pending.Sublist (fileChunks env file) := by
        rw [h.chunks, List.append_assoc]
        exact (List.sublist_append_left _ _).trans (List.sublist_append_right _ _)
      rw [huniq]
      exact (ragged_fileChunks env file).sublist ((picks_zip_sublist 1 _ _).trans hpending)
    count := by
      rw [huniq, Conn.queries, h.hashList, picks_zip_map, List.length_map, List.length_map,
        Conn.answers, h.hashList, List.length_map]
    next_length := hlength
    next_le := hle }

/-! ## The client -/

/-- **One pass of `upload_file`** that is up to date with the server. -/
theorem Phase.sendBatch (hupl : s.Uploading env) (hup : s.up = []) {c : Client}
    (hid : c.client_id = s.client.client_id) (hpath : c.file_path = s.client.file_path)
    (hfile : c.file = s.client.file) {stored pending rest uniq : List Bytes}
    (hsplit : s.conn.Splits env s.client.file stored pending rest)
    (huniq : uniq = picks 1 (s.conn.answers.zip pending)) (hahead : c.Ahead env rest) :
    Phase env (s.clientMoved [] (c.sendBatch uniq.flatten)) := by
  have hupl' : ∀ (d : Client) (msgs : List Msg), d.client_id = c.client_id →
      d.file_path = c.file_path → (s.clientMoved [] (d, msgs)).Uploading env :=
    fun d msgs h1 h2 => hupl.congr rfl (h1.trans hid) (h2.trans hpath)
  rcases hq : c.readBufferQueue with _ | ⟨b, bs⟩
  · -- the last message: nothing is left of the file
    obtain ⟨header, fileEnd, hsend, hcarries, hend⟩ := Client.sendBatch_nil hq uniq
    have hrest : rest = [] := by simpa [hq] using hahead.chunks.symm
    rw [hsend]
    refine .last rfl (hupl' _ _ rfl rfl) (by rw [Session.clientMoved, hup]; rfl) rfl
      (hsplit.fits huniq hcarries (by simp) (by simp)) hend
      fun _ => ⟨stored, pending, ?_, huniq, rfl, .inl rfl⟩
    rw [hrest] at hsplit
    exact hfile ▸ hsplit
  · -- another batch
    have hb := hahead.wf b (by simp [hq])
    obtain ⟨header, hsend, hcarries⟩ := Client.sendBatch_cons hq hb uniq
    have hrest : rest = b.chunks ++ bs.flatMap (·.chunks) := by
      simpa [hq] using hahead.chunks.symm
    rw [hsend]
    refine .asking rfl (hupl' _ _ rfl rfl) (by rw [Session.clientMoved, hup]; rfl) rfl
      (hsplit.fits huniq hcarries ?_ ?_) ?_ fun _ =>
        ⟨stored, pending, b.chunks, bs.flatMap (·.chunks), ⟨?_, huniq, rfl, .inr ?_⟩, rfl, ?_, rfl⟩
    · intro x hx
      obtain ⟨y, -, rfl⟩ := List.mem_map.mp hx
      exact env.length_generateHash y
    · rw [List.length_map, ReadBuffer.length_chunks]
      exact hb.le
    · rw [Ne, List.map_eq_nil_iff, ← List.length_eq_zero_iff, ReadBuffer.length_chunks]
      exact hb.pos.ne'
    · rw [hrest] at hsplit
      exact hfile ▸ hsplit
    · -- the batches before this one are those whose chunks have been sent or asked about
      obtain ⟨before, hbefore⟩ := hahead.suffix
      rw [hq] at hbefore
      refine ⟨before.map (·.chunks), bs.map (·.chunks), ?_, ?_⟩
      · simp [Session.clientMoved, fileBatches, ← hbefore]
      · have hchunks := hsplit.chunks
        rw [← hfile, ← flatten_fileBatches, fileBatches, ← hbefore, hrest, List.map_append,
          List.map_cons, List.flatten_append, List.flatten_cons, List.flatMap_def] at hchunks
        exact List.append_cancel_right hchunks
    · exact (List.suffix_cons b bs).trans (hq ▸ hahead.suffix)

/-- **The client takes what a download has in flight**, message by message, up to the tail. -/
theorem Session.Receives.client {tail : List Msg} (h : s.Receives tail) {m : Msg}
    {rest : List Msg} (hd : s.down = m :: rest) {r : Client × List Msg}
    (hr : s.client.react env m = some r) :
    (r.2 = [] ∧ r.1.client_id = s.client.client_id ∧ r.1.file_path = s.client.file_path ∧
      (s.clientMoved rest r).Receives tail) ∨
    (tail = m :: rest ∧ s.client.pc = .awaitBody) := by
  obtain ⟨bodies, hbodies, ⟨hcl, hdown⟩ | ⟨hcl, hdown⟩⟩ := h
  · -- the answer to the request
    obtain ⟨rfl, rfl⟩ := List.cons.inj (hd.symm.trans hdown)
    obtain rfl : ({ s.client with pc := .awaitBody }, []) = r := by
      simpa [Client.react, hcl] using hr
    exact .inl ⟨rfl, rfl, rfl, bodies, hbodies, .inr ⟨rfl, rfl⟩⟩
  · cases bodies with
    | nil => exact .inr ⟨hdown.symm.trans hd, hcl⟩
    | cons b bodies =>
      obtain ⟨rfl, rfl⟩ := List.cons.inj (hd.symm.trans hdown)
      have hb := (hbodies b List.mem_cons_self).1
      simp only [Client.react, hcl, hb, reduceCtorEq, if_false, Option.some.injEq] at hr
      subst hr
      exact .inl ⟨rfl, rfl, rfl, bodies, fun b' hb' => hbodies b' (List.mem_cons_of_mem _ hb'),
        .inr ⟨rfl, rfl⟩⟩

/-- A client that sends nothing leaves the connection at its work. -/
theorem Session.Serves.clientMoved (h : s.Serves env) {rest : List Msg} {r : Client × List Msg}
    (hid : r.1.client_id = s.client.client_id) (hpath : r.1.file_path = s.client.file_path) :
    (s.clientMoved rest r).Serves env :=
  ⟨h.client_id.trans hid.symm, h.path.trans (by
    simp only [recipePath, Client.fileName, Session.clientMoved, hid, hpath])⟩

/-- **The client's reaction keeps the lockstep.** -/
theorem Phase.client (h : Phase env s) {m : Msg} {rest : List Msg} (hd : s.down = m :: rest)
    {r : Client × List Msg} (hr : s.client.react env m = some r) :
    Phase env (s.clientMoved rest r) := by
  cases h with
  | refused hcl hpc hup hdown hdormant hrep =>
    obtain ⟨rfl, rfl⟩ : m = .control .UPLOADREP [] .DUPLICATE ∧ rest = [] := by
      simpa [hdown, eq_comm] using hd
    obtain rfl : s.client.quit = r := by simpa [Client.react, hcl] using hr
    exact .quitting rfl hpc (by rw [Session.clientMoved, hup]; rfl) rfl
      (.inl ⟨hdormant, by simp [Session.Accepted, Session.clientMoved, hrep]⟩)
  -- the first batch: nothing is asked yet, so the message carries hashes only
  | accepted hcl hupl hup hdown hhash hentries =>
    obtain ⟨rfl, rfl⟩ : m = .control .UPLOADREP [] .UNIQUE ∧ rest = [] := by
      simpa [hdown, eq_comm] using hd
    have hstart : s.client.rogue = false ∧ s.client.startUpload env = r := by
      simpa [Client.react, hcl] using hr
    obtain ⟨-, rfl⟩ := hstart
    have hsplit : s.conn.Splits env s.client.file [] [] (fileChunks env s.client.file) :=
      ⟨rfl, by simp [hentries], hhash⟩
    have huniq : ([] : List Bytes) = picks 1 (s.conn.answers.zip ([] : List Bytes)) := by simp
    let c : Client := { s.client with readBufferQueue := readData env s.client.file }
    have hahead : c.Ahead env (fileChunks env s.client.file) := ⟨List.suffix_rfl, rfl⟩
    exact Phase.sendBatch hupl hup (c := c) rfl rfl rfl hsplit huniq hahead
  -- the answers name the chunks of the last batch that the next message has to carry
  | answered hcl hpc hupl hup hdown hmsg honest =>
    rename_i msg
    obtain ⟨rfl, rfl⟩ : m = .data msg ∧ rest = [] := by
      simpa [hdown, eq_comm] using hd
    have hcont : s.client.rogue = false ∧ s.client.continueUpload msg = r := by
      simpa [Client.react, hcl] using hr
    obtain ⟨hrogue, rfl⟩ := hcont
    obtain ⟨stored, pending, rest, hsplit, hbuffer, hahead⟩ := honest hrogue
    have hlen : msg.data.length = s.client.readBuffer.chunkNum := by
      rw [hmsg, Conn.answers, hupl.asked.length_answers, ← ReadBuffer.length_chunks, hbuffer,
        hsplit.hashList, List.length_map]
    have huniq : Client.packChunks s.client.readBuffer msg.data
        = picks 1 (s.conn.answers.zip pending) := by
      rw [packChunks_eq_picks _ hlen, hmsg, hbuffer]
    let c : Client := { s.client with
      outHeader := { s.client.outHeader with
        chunkNum := (Client.packChunks s.client.readBuffer msg.data).length } }
    have hahead' : c.Ahead env rest := ⟨hahead.suffix, hahead.chunks⟩
    exact Phase.sendBatch hupl hup (c := c) rfl rfl rfl hsplit huniq hahead'
  | left hcl hpc hup hdown hover =>
    obtain ⟨rfl, rfl⟩ : m = .control .QUITREP [] .NONE ∧ rest = [] := by
      simpa [hdown, eq_comm] using hd
    obtain rfl : ({ s.client with pc := .closed }, []) = r := by simpa [Client.react, hcl] using hr
    exact .closed rfl hpc (by rw [Session.clientMoved, hup]; rfl) rfl hover
  | notExist hcl hpc hup hdown hdormant hrep =>
    obtain ⟨rfl, rfl⟩ : m = .control .DOWNLOADREP [] .NOTEXIST ∧ rest = [] := by
      simpa [hdown, eq_comm] using hd
    obtain rfl : s.client.quit = r := by simpa [Client.react, hcl] using hr
    exact .quitting rfl hpc (by rw [Session.clientMoved, hup]; rfl) rfl
      (.inl ⟨hdormant, by simp [Session.Accepted, Session.clientMoved, hrep]⟩)
  | sending hpc hup hdown htype hdormant hrep hserves =>
    -- a block on the way is written to the file, the client then waits for the next one
    rcases hdown.client hd hr with ⟨hsend, hid, hpath, hrec⟩ | ⟨htail, -⟩
    · exact .sending hpc (by simp [Session.clientMoved, hup, hsend]) hrec htype hdormant hrep
        (hserves.clientMoved hid hpath)
    · cases htail
  -- the last message on the way ends the file, and the client leaves
  | sent hpc hup hdown hend hdormant hrep =>
    rcases hdown.client hd hr with ⟨hsend, -, -, hrec⟩ | ⟨htail, hcl⟩
    · exact .sent hpc (by simp [Session.clientMoved, hup, hsend]) hrec hend hdormant hrep
    · obtain ⟨rfl, rfl⟩ := List.cons.inj htail
      obtain rfl : s.client.quit = r := by simpa [Client.react, hcl, hend] using hr
      exact .quitting rfl hpc (by rw [Session.clientMoved, hup]; rfl) rfl
        (.inl ⟨hdormant, by simp [Session.Accepted, Session.clientMoved, hrep]⟩)
  -- in the other phases nothing is on the way to the client
  | login hreq hpc hup hdown | order hreq hpc hup hdown | lookup hcl hpc hup hdown
  | reply hcl hpc hup hdown | asking hcl hupl hup hdown | last hcl hupl hup hdown
  | ending hcl hpc hupl hup hdown | joining hcl hpc hserves hacc hwriting hup hdown
  | quitting hcl hpc hup hdown | closed hcl hpc hup hdown | exist hcl hpc hup hdown =>
    rw [hdown] at hd
    cases hd

/-- **A rogue keeps the lockstep too**: it is free in what it sends, not in when. -/
theorem Phase.rogue (h : Phase env s) {chunkData hashes : List Bytes} {m : Msg} {rest : List Msg}
    (hd : s.down = m :: rest) {r : Client × List Msg}
    (hr : s.client.rogueReact chunkData hashes m = some r) :
    Phase env (s.clientMoved rest r) := by
  unfold Client.rogueReact at hr
  split at hr
  on_goal 2 => cases hr
  rename_i hrogue
  obtain ⟨hrogue, hragged, hle, hlength⟩ := hrogue
  -- what the rogue sends fits when it sends as many chunks as the server wants
  have hsend : s.Uploading env → s.up = [] → rest = [] →
      chunkData.length = (picks 1 s.conn.queries).length →
      r = s.client.sendBody chunkData.flatten hashes.flatten hashes.length →
      Phase env (s.clientMoved rest r) := by
    rintro hupl hup rfl hcount rfl
    by_cases hnext : hashes = []
    · subst hnext
      obtain ⟨header, fileEnd, hbody, hcarries, hend⟩ := s.client.sendBody_last chunkData
      rw [List.flatten_nil, List.length_nil, hbody]
      exact .last rfl (hupl.congr rfl rfl rfl) (by rw [Session.clientMoved, hup]; rfl) rfl
        { hcarries with
          ragged := hragged, count := hcount, next_length := by simp, next_le := by simp }
        hend (by simp [Session.clientMoved, hrogue])
    · obtain ⟨header, hbody, hcarries⟩ := s.client.sendBody_query chunkData hnext
      rw [hbody]
      exact .asking rfl (hupl.congr rfl rfl rfl) (by rw [Session.clientMoved, hup]; rfl) rfl
        { hcarries with
          ragged := hragged, count := hcount, next_length := hlength, next_le := hle }
        hnext (by simp [Session.clientMoved, hrogue])
  cases h with
  | refused hcl hpc hup hdown =>
    obtain ⟨rfl, rfl⟩ : m = .control .UPLOADREP [] .DUPLICATE ∧ rest = [] := by
      simpa [hdown, eq_comm] using hd
    simp [hcl] at hr
  | accepted hcl hupl hup hdown hhash hentries =>
    obtain ⟨rfl, rfl⟩ : m = .control .UPLOADREP [] .UNIQUE ∧ rest = [] := by
      simpa [hdown, eq_comm] using hd
    simp only [hcl] at hr
    split at hr
    on_goal 2 => cases hr
    rename_i hnil
    obtain ⟨-, rfl⟩ := hnil
    refine hsend hupl hup rfl ?_ (Option.some.inj hr).symm
    simp [Conn.queries, hhash]
  | answered hcl hpc hupl hup hdown hmsg honest =>
    rename_i msg
    obtain ⟨rfl, rfl⟩ : m = .data msg ∧ rest = [] := by
      simpa [hdown, eq_comm] using hd
    simp only [hcl] at hr
    split at hr
    on_goal 2 => cases hr
    rename_i hcount
    refine hsend hupl hup rfl ?_ (Option.some.inj hr).symm
    rw [hcount, hmsg, Conn.answers, Conn.queries, length_picks_zip 1 hupl.asked.length_answers]
  | left hcl hpc hup hdown => simp [hcl] at hr
  | notExist hcl hpc hup hdown => simp [hcl] at hr
  | sending hpc hup hdown | sent hpc hup hdown =>
    obtain ⟨-, -, ⟨hcl, -⟩ | ⟨hcl, -⟩⟩ := hdown <;> simp [hcl] at hr
  | login hreq hpc hup hdown | order hreq hpc hup hdown | lookup hcl hpc hup hdown
  | reply hcl hpc hup hdown | asking hcl hupl hup hdown | last hcl hupl hup hdown
  | ending hcl hpc hupl hup hdown | joining hcl hpc hserves hacc hwriting hup hdown
  | quitting hcl hpc hup hdown | closed hcl hpc hup hdown | exist hcl hpc hup hdown =>
    rw [hdown] at hd
    cases hd

/-! ## What stays -/

/-- **What a reaction of the client leaves alone**; only a download changes the local file. -/
structure Client.Same (c c' : Client) : Prop where
  client_id : c'.client_id = c.client_id
  file_path : c'.file_path = c.file_path
  rogue : c'.rogue = c.rogue
  file : c.pc ≠ .awaitBody → c'.file = c.file
  pc : c'.pc ≠ .awaitUploadRep

/-- The buffers of the client do not matter. -/
theorem Client.Same.congr {c d c' : Client} (h : d.Same c') (hid : d.client_id = c.client_id)
    (hpath : d.file_path = c.file_path) (hrogue : d.rogue = c.rogue) (hfile : d.file = c.file)
    (hpc : d.pc = c.pc) : c.Same c' :=
  ⟨h.client_id.trans hid, h.file_path.trans hpath, h.rogue.trans hrogue,
    fun hne => (h.file (hpc ▸ hne)).trans hfile, h.pc⟩

theorem Client.same_sendBody (c : Client) (chunkData hashes : Bytes) (queryNum : Nat) :
    c.Same (c.sendBody chunkData hashes queryNum).1 := by
  unfold sendBody
  split <;> exact ⟨rfl, rfl, rfl, fun _ => rfl, by simp [quit]⟩

theorem Client.same_sendBatch (c : Client) (chunkData : Bytes) :
    c.Same (c.sendBatch chunkData).1 := by
  unfold sendBatch
  split
  · exact (Client.same_sendBody _ _ _ _).congr rfl rfl rfl rfl rfl
  · exact (Client.same_sendBody _ _ _ _).congr rfl rfl rfl rfl rfl

/-- A client keeps its identity, and outside of a download its file. -/
theorem Client.same_react {c : Client} {m : Msg} {r : Client × List Msg}
    (h : c.react env m = some r) : c.Same r.1 := by
  unfold react at h
  split at h
  · split at h
    · split at h
      · split at h
        · cases h
        · obtain rfl := Option.some.inj h
          -- `sendBatch` fills buffers and headers, it keeps the login, the path and the file
          exact (Client.same_sendBatch _ _).congr rfl rfl rfl rfl rfl
      · obtain rfl := Option.some.inj h
        exact ⟨rfl, rfl, rfl, fun _ => rfl, by simp [quit]⟩
    · split at h <;> obtain rfl := Option.some.inj h <;>
        exact ⟨rfl, rfl, rfl, fun _ => rfl, by simp [quit]⟩
    · obtain rfl := Option.some.inj h
      exact ⟨rfl, rfl, rfl, fun _ => rfl, by simp⟩
    · cases h
  · split at h
    · split at h
      · cases h
      · obtain rfl := Option.some.inj h
        exact (Client.same_sendBatch _ _).congr rfl rfl rfl rfl rfl
    · rename_i hpc
      split at h <;> obtain rfl := Option.some.inj h
      · exact ⟨rfl, rfl, rfl, fun _ => rfl, by simp [quit]⟩
      · exact ⟨rfl, rfl, rfl, fun hne => absurd hpc hne, by simp [hpc]⟩
    · cases h
  · cases h

/-- So does a rogue. -/
theorem Client.same_rogueReact {c : Client} {chunkData hashes : List Bytes} {m : Msg}
    {r : Client × List Msg} (h : c.rogueReact chunkData hashes m = some r) : c.Same r.1 := by
  unfold rogueReact at h
  split at h
  · split at h
    · split at h
      · obtain rfl := Option.some.inj h
        exact Client.same_sendBody c _ _ _
      · cases h
    · split at h
      · obtain rfl := Option.some.inj h
        exact Client.same_sendBody c _ _ _
      · cases h
    · cases h
  · cases h

end DedupServer
