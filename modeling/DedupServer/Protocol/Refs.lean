import DedupServer.Protocol.Frame

/-! # What the recipe of an upload refers to

A relation between addresses and chunks that holds of the addresses the index answers and of the
addresses under which chunks are stored, holds between the recipe entries and the chunks of the
file, position by position (`Session.Refs`). The argument is the same whatever the relation is: the
queue of duplicate addresses, filled with one message and used up with the next, stays aligned
with the last query (`Session.Refs.body`). -/

namespace DedupServer

open Foundations

variable {env : Env} {s s' : Session} {sv sv' : Server} {R R' : ChunkAddr → Bytes → Prop}

/-- The chunks the last query was about. -/
def Session.pending (env : Env) (s : Session) : List Bytes :=
  ((fileChunks env s.client.file).drop s.conn.entries.length).take s.conn.hashList.length

/-- **Entry by entry the recipe refers to the chunks of the file**, and so do the addresses that
wait for the next message. -/
structure Session.Refs (env : Env) (R : ChunkAddr → Bytes → Prop) (s : Session) : Prop where
  entries : List.Forall₂ R s.conn.entries
    ((fileChunks env s.client.file).take s.conn.entries.length)
  dups : s.conn.pc = .body → List.Forall₂ R s.conn.upload.duplicatedChunkAddr
    (picks 0 (s.conn.answers.zip (s.pending env)))

namespace Session.Refs

/-- The relation may be weakened. -/
theorem mono (h : s.Refs env R) (hR : ∀ a x, R a x → R' a x) : s.Refs env R' :=
  ⟨h.entries.imp hR, fun hpc => (h.dups hpc).imp hR⟩

/-- Only the entries, the query and its answers matter. -/
theorem of_eq (h : s.Refs env R) (hfile : s'.client.file = s.client.file)
    (hentries : s'.conn.entries = s.conn.entries)
    (hpc : s'.conn.pc = .body → s.conn.pc = .body ∧ s'.conn.answers = s.conn.answers ∧
      s'.conn.hashList = s.conn.hashList ∧
      s'.conn.upload.duplicatedChunkAddr = s.conn.upload.duplicatedChunkAddr) :
    s'.Refs env R := by
  refine ⟨by rw [hfile, hentries]; exact h.entries, fun hbody => ?_⟩
  obtain ⟨hbody', hanswers, hhash, hdups⟩ := hpc hbody
  rw [hdups, hanswers, Session.pending, hfile, hentries, hhash]
  exact h.dups hbody'

/-- A recipe that has not been begun refers to nothing. -/
theorem of_dormant (hdormant : s.conn.Dormant) (hwritten : s'.conn.written = s.conn.written)
    (hheld : s'.conn.recipeWriter.held = [])
    (hqueue : s'.conn.upload.recipeQueue = s.conn.upload.recipeQueue)
    (hbuffer : s'.conn.upload.recipeBuffer = s.conn.upload.recipeBuffer)
    (hdups : s'.conn.upload.duplicatedChunkAddr = s.conn.upload.duplicatedChunkAddr)
    (hhash : s'.conn.hashList = s.conn.hashList) : s'.Refs env R := by
  have hentries : s'.conn.entries = [] := by
    simp [Conn.entries, hwritten, hheld, hqueue, hbuffer, hdormant.written, hdormant.recipeQueue,
      hdormant.recipeBuffer, BlockQueue.empty]
  refine ⟨by simp [hentries], fun _ => ?_⟩
  simp [hdups, hhash, Conn.answers, hdormant.dups, hdormant.hashList]

/-- Steps outside of uploads do not matter. -/
theorem quiet (h : s.Refs env R) {c : Conn} {rest reply : List Msg} (hquiet : s.conn.Quiet c) :
    (s.serverMoved rest c reply).Refs env R :=
  h.of_eq rfl hquiet.entries fun hpc => absurd hpc (hquiet.after_ne rfl)

/-- `FILEEND` hands over the last entries. -/
theorem fileEnd (h : s.Refs env R) {rest : List Msg} (hpc : s.conn.pc = .body) :
    (s.serverMoved rest s.conn.receiveFileEnd []).Refs env R :=
  h.of_eq rfl (Conn.entries_receiveFileEnd hpc)
    (by simp [Session.serverMoved, Conn.receiveFileEnd])

/-- When the upload returns, its entries are written. -/
theorem reset (h : s.Refs env R) (hpc : s.conn.pc = .join) (hwriting : s.conn.Writing true)
    (hdata : s.conn.dataWriter = .finished) (hrecipe : s.conn.recipeWriter = .finished) :
    (s.serverMoved s.up (s.conn.resetUpload env sv).2 []).Refs env R := by
  have hjoined : (s.conn.resetUpload env sv).2.Joined := hwriting.resetUpload hdata hrecipe
  refine h.of_eq rfl ?_ (by simp [Session.serverMoved, Conn.resetUpload])
  simp only [Session.serverMoved]
  rw [hjoined.entries (by simp [Conn.resetUpload]), hwriting.entries_eq_written hpc hrecipe]
  rfl

/-- The writers do not matter. -/
theorem alike (h : s.Refs env R) {c : Conn} (halike : s.conn.Alike c) :
    ({ s with conn := c } : Session).Refs env R :=
  h.of_eq rfl halike.entries fun hpc => ⟨halike.pc ▸ hpc,
    Conn.answers_of_eq halike.outData halike.hashList, halike.hashList, halike.dups⟩

/-- When the recipe is complete, its entries are for the chunks of the file. -/
theorem listed (h : s.Refs env R) (hlisted : s.Listed env) :
    List.Forall₂ R s.conn.entries (fileChunks env s.client.file) := by
  have hentries := h.entries
  rwa [show s.conn.entries.length = _ from hlisted, List.take_length] at hentries

end Session.Refs

namespace Session.Sends

variable {stored pending batch rest uniq next : List Bytes}

/-- The chunks with an entry are the first ones. -/
theorem take_entries (h : s.Sends env stored pending batch rest uniq next) :
    (fileChunks env s.client.file).take s.conn.entries.length = stored := by
  rw [h.splits.chunks, h.splits.entries, List.append_assoc, List.take_left]

/-- The pending chunks follow them. -/
theorem pending_eq (h : s.Sends env stored pending batch rest uniq next) :
    s.pending env = pending := by
  rw [Session.pending, h.splits.chunks, h.splits.entries, h.splits.hashList, List.length_map,
    List.append_assoc, List.drop_left, List.take_left]

end Session.Sends

/-- The addresses found for a query are for the chunks answered `0`. -/
theorem Conn.forall₂_storedAddrs_map {batch : List Bytes}
    (h : ∀ x ∈ batch, ∀ a,
      sv.allChunks (convertArrayHashToString (env.generateHash x)) = some a → R a x) :
    List.Forall₂ R (Conn.storedAddrs sv (batch.map env.generateHash))
      (batch.filter fun x => Conn.queryAnswer sv (env.generateHash x) = 0) := by
  induction batch with
  | nil => exact .nil
  | cons x batch ih =>
    have ih' := ih fun y hy => h y (List.mem_cons_of_mem _ hy)
    cases hx : sv.allChunks (convertArrayHashToString (env.generateHash x)) with
    | none =>
      simpa [Conn.storedAddrs, Conn.queryAnswer, Server.isChunkStored, hx] using ih'
    | some a =>
      have hax := h x List.mem_cons_self a hx
      simpa [Conn.storedAddrs, Conn.queryAnswer, Server.isChunkStored, hx, hax] using ih'

/-- **One `UPLOADBODY` message keeps the recipe aligned.** -/
theorem Session.Refs.body (h : s.Refs env R) (hpc : s.conn.pc = .body)
    {msg : DataMsg} {rest' : List Msg} {stored pending batch rest uniq next : List Bytes}
    (hasked : s.conn.Asked) (hfits : s.conn.Fits msg uniq next)
    (hsends : s.Sends env stored pending batch rest uniq next) {st : StoreLoop}
    {new : List ChunkAddr} (hentries : st.up.entries = s.conn.upload.entries ++ new)
    (hnil : st.up.duplicatedChunkAddr = [])
    (hlength : new.length = s.conn.queries.length)
    (hdups : picks 0 ((s.conn.queries.map (·.1)).zip new)
      = s.conn.upload.duplicatedChunkAddr)
    (huniq : List.Forall₂ R (picks 1 ((s.conn.queries.map (·.1)).zip new)) uniq)
    (hindex : ∀ x ∈ batch, ∀ a,
      st.server.allChunks (convertArrayHashToString (env.generateHash x)) = some a → R a x) :
    (s.serverMoved rest' (s.conn.answerQuery msg st)
      (s.conn.answerQuery msg st).bodyReply).Refs env R := by
  have hanswers := hasked.map_fst_queries
  have hlen_answers : s.conn.answers.length = pending.length := by
    rw [Conn.answers, hasked.length_answers, hsends.splits.hashList, List.length_map]
  have hlen_new : new.length = pending.length := by
    rw [hlength, hasked.length_queries, hsends.splits.hashList, List.length_map]
  -- the new entries are for the pending chunks
  have hnew : List.Forall₂ R new pending := by
    have h01 : (0 : UInt8) ≠ 1 := by decide
    have hans : ∀ c ∈ s.conn.answers, c = 0 ∨ c = 1 := by
      rw [← hanswers]
      intro c hc
      obtain ⟨q, hq, rfl⟩ := List.mem_map.mp hc
      exact hasked.answer q hq
    refine forall₂_of_picks h01 hans (by rw [hlen_answers, hlen_new]) hlen_answers ?_ ?_
    · rw [← hanswers, hdups, hanswers, ← hsends.pending_eq]
      exact h.dups hpc
    · rw [← hsends.uniq, ← hanswers]
      exact huniq
  have hentries' : (s.conn.answerQuery msg st).entries = s.conn.entries ++ new := by
    simp only [UploadState.entries] at hentries
    simp only [Conn.entries, Conn.answerQuery, hpc, reduceCtorEq, if_false, List.append_assoc]
    rw [hentries, List.append_assoc]
  have hlen_entries : (s.conn.answerQuery msg st).entries.length = (stored ++ pending).length := by
    rw [hentries', List.length_append, List.length_append, hsends.splits.entries, hlen_new]
  have hchunks : fileChunks env s.client.file = (stored ++ pending) ++ (batch ++ rest) :=
    hsends.splits.chunks
  refine ⟨?_, fun _ => ?_⟩
  · simp only [Session.serverMoved]
    rw [hlen_entries, hchunks, List.take_left, hentries']
    have := h.entries
    rw [hsends.take_entries] at this
    exact List.rel_append this hnew
  · have hpending : (s.serverMoved rest' (s.conn.answerQuery msg st)
        (s.conn.answerQuery msg st).bodyReply).pending env = batch := by
      have hhash : (s.conn.answerQuery msg st).hashList.length = batch.length := by
        rw [Conn.answerQuery_hashList, hfits.queriedHashes, hsends.next, List.length_map]
      simp only [Session.pending, Session.serverMoved]
      rw [hlen_entries, hchunks, List.drop_left, hhash, List.take_left]
    have hanswers' : (s.conn.answerQuery msg st).answers
        = batch.map fun x => Conn.queryAnswer st.server (env.generateHash x) := by
      rw [Conn.answers_answerQuery hfits, hsends.next, List.map_map]
      rfl
    rw [hpending]
    simp only [Session.serverMoved]
    rw [hanswers', List.zip_map_left, List.zip_eq_zipWith, List.zipWith_self, List.map_map]
    have hpicks := picks_map_self 0
      (fun x => Conn.queryAnswer st.server (env.generateHash x)) batch
    simp only [Function.comp_def, Prod.map_apply, id_eq]
    rw [hpicks]
    have hdups' : (s.conn.answerQuery msg st).upload.duplicatedChunkAddr
        = Conn.storedAddrs st.server (batch.map env.generateHash) := by
      simp only [Conn.answerQuery, hnil, List.nil_append, hfits.queriedHashes, hsends.next]
    rw [hdups']
    exact Conn.forall₂_storedAddrs_map hindex

end DedupServer
