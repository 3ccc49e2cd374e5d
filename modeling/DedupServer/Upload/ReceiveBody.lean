import DedupServer.Upload.StoreLoop

/-! # One `UPLOADBODY` message

What the peer has to put into a message for the server to make sense of it (`Conn.Fits`), what
the connection remembers between two messages (`Conn.Asked`), and that processing a fitting
message succeeds and leaves the connection ready for the next (`Conn.exists_receiveBody`,
`Conn.Asked.answerQuery`). -/

namespace DedupServer

open Foundations

/-- **The message carries the chunks `uniq` and the hashes `next` of a new query.** -/
structure DataMsg.Carries (msg : DataMsg) (uniq next : List Bytes) : Prop where
  type : msg.header.dataMsgType = .UPLOADBODY
  start : msg.header.start = uniq.flatten.length
  queryNum : msg.header.queryNum = next.length
  data : msg.data = uniq.flatten ++ next.flatten

namespace DataMsg.Carries

variable {msg : DataMsg} {uniq next : List Bytes}

/-- **The hashes of the query are read off the message.** -/
theorem queriedHashes (h : msg.Carries uniq next) (hlength : ∀ hash ∈ next, hash.length = HASHSIZE) :
    Conn.queriedHashes msg = next := by
  have hpieces := map_piece_flatten_append (by decide) hlength []
  rw [List.append_nil] at hpieces
  rw [Conn.queriedHashes, h.queryNum]
  refine Eq.trans (List.map_congr_left fun i _ => ?_) hpieces
  rw [piece, h.start, h.data, List.drop_length_add_append]

/-- **Where slot `u` of the message lies**: it is the `u`-th chunk, no offset of it reaches `2 ^ 32`, and
it ends where the chunks do, or before. -/
theorem slot (h : msg.Carries uniq next) (hragged : Ragged CHUNKSIZE uniq)
    (hle : uniq.length ≤ BATCHSIZE) {u : ℕ} (hu : u < uniq.length) :
    u32 (u * CHUNKSIZE) = u * CHUNKSIZE ∧ chunkSlotSize msg u = uniq[u].length ∧
      u * CHUNKSIZE + chunkSlotSize msg u
        = u32 (min ((u + 1) * CHUNKSIZE) msg.header.start) ∧
      u * CHUNKSIZE + chunkSlotSize msg u ≤ msg.header.start := by
  have htotal := hragged.length_flatten_le
  obtain ⟨hoff, -⟩ := hragged.offsets hu
  rw [chunkSlotSize, h.start]
  simp only [CHUNKSIZE, BATCHSIZE] at *
  rw [u32_of_lt (by omega), u32_of_lt (by omega), sub32_of_le (by omega) (by omega)]
  omega

/-- **The chunks are cut out of the message.** -/
theorem chunkSlot (h : msg.Carries uniq next) (hragged : Ragged CHUNKSIZE uniq)
    (hle : uniq.length ≤ BATCHSIZE) {u : ℕ} (hu : u < uniq.length) :
    chunkSlotSize msg u = uniq[u].length ∧ chunkSlot msg u = uniq[u] := by
  obtain ⟨hstart, hsize, -⟩ := h.slot hragged hle hu
  obtain ⟨hoff, -⟩ := hragged.offsets hu
  refine ⟨hsize, ?_⟩
  have hslice := hragged.slice_append next.flatten hu
  rwa [show min ((u + 1) * CHUNKSIZE) uniq.flatten.length - u * CHUNKSIZE = uniq[u].length by omega,
    ← h.data, ← hsize, ← hstart] at hslice

end DataMsg.Carries

/-- **A message within the buffers**, when the last query asked for `count` chunks: it fits into the
receive buffer, its query into the lists that hold it, and the chunks and the hashes that the server reads
lie in its data. -/
structure DataMsg.InBounds (msg : DataMsg) (count : ℕ) : Prop where
  type : msg.header.dataMsgType = .UPLOADBODY
  fits : msg.data.length ≤ (CHUNKSIZE + HASHSIZE) * BATCHSIZE
  queryNum : msg.header.queryNum ≤ BATCHSIZE
  hashes : msg.header.start + HASHSIZE * msg.header.queryNum ≤ msg.data.length
  chunks : CHUNKSIZE * (count - 1) ≤ msg.header.start

/-- Slot `u` of a message within the buffers lies in its data and is not longer than a chunk. -/
theorem DataMsg.InBounds.slot {msg : DataMsg} {count u : ℕ} (h : msg.InBounds count)
    (hu : u < count) :
    chunkSlotSize msg u ≤ CHUNKSIZE ∧ (chunkSlot msg u).length = chunkSlotSize msg u := by
  have hfits := h.fits
  have hhashes := h.hashes
  have hchunks := h.chunks
  simp only [CHUNKSIZE, BATCHSIZE, HASHSIZE] at hfits hhashes hchunks
  have hsize : chunkSlotSize msg u = min ((u + 1) * 4096) msg.header.start - u * 4096 := by
    rw [chunkSlotSize]
    simp only [CHUNKSIZE]
    rw [u32_of_lt (by omega), u32_of_lt (by omega), sub32_of_le (by omega) (by omega)]
  constructor
  · rw [hsize, CHUNKSIZE]
    omega
  · rw [chunkSlot, List.length_take, List.length_drop, hsize]
    simp only [CHUNKSIZE]
    rw [u32_of_lt (by omega)]
    omega

namespace Conn

/-- **What the connection remembers of the last query**: the hashes, an answer for each of them,
and an address for each answer `0`. -/
structure Asked (c : Conn) : Prop where
  num_le : c.hashList.length ≤ BATCHSIZE
  room : c.outData.length = CHUNKSIZE * BATCHSIZE
  hash_length : ∀ h ∈ c.hashList, h.length = HASHSIZE
  answer : ∀ q ∈ c.queries, q.1 = 0 ∨ q.1 = 1
  dups : c.upload.duplicatedChunkAddr.length = (picks 0 c.queries).length

/-- The same, when `left` addresses are in the queue of duplicates beyond those of the last query. -/
structure Remembers (c : Conn) (left : ℕ) : Prop where
  num_le : c.hashList.length ≤ BATCHSIZE
  room : c.outData.length = CHUNKSIZE * BATCHSIZE
  hash_length : ∀ h ∈ c.hashList, h.length = HASHSIZE
  answer : ∀ q ∈ c.queries, q.1 = 0 ∨ q.1 = 1
  dups : c.upload.duplicatedChunkAddr.length = left + (picks 0 c.queries).length

theorem remembers_zero_iff {c : Conn} : c.Remembers 0 ↔ c.Asked := by
  constructor
  · intro h
    exact ⟨h.num_le, h.room, h.hash_length, h.answer, h.dups.trans (Nat.zero_add _)⟩
  · intro h
    exact ⟨h.num_le, h.room, h.hash_length, h.answer, h.dups.trans (Nat.zero_add _).symm⟩

/-- **A message that answers the last query**: it carries one chunk for each answer `1`, only the
last of them short, and no more hashes than fit. -/
structure Fits (c : Conn) (msg : DataMsg) (uniq next : List Bytes) : Prop
    extends msg.Carries uniq next where
  ragged : Ragged CHUNKSIZE uniq
  count : uniq.length = (picks 1 c.queries).length
  next_length : ∀ h ∈ next, h.length = HASHSIZE
  next_le : next.length ≤ BATCHSIZE

/-- A message within the buffers, after what has been asked last. -/
abbrev InBounds (c : Conn) (msg : DataMsg) : Prop := msg.InBounds (picks 1 c.queries).length

variable {c : Conn} {msg : DataMsg} {uniq next : List Bytes} {left : ℕ}

/-- The answers stand beside their hashes. -/
theorem Remembers.length_answers (h : c.Remembers left) :
    (c.outData.take c.hashList.length).length = c.hashList.length := by
  have h1 := h.num_le
  have h2 := h.room
  simp only [CHUNKSIZE, BATCHSIZE] at h1 h2
  rw [List.length_take]
  omega

theorem Remembers.length_queries (h : c.Remembers left) : c.queries.length = c.hashList.length := by
  rw [queries, List.length_zip, h.length_answers, min_self]

/-- No more chunks are asked for than were queried. -/
theorem Remembers.length_picks_le (h : c.Remembers left) :
    (picks 1 c.queries).length ≤ BATCHSIZE := by
  have hsub := (picks_zip_sublist 1 (c.outData.take c.hashList.length) c.hashList).length_le
  exact hsub.trans h.num_le

theorem Asked.length_answers (h : c.Asked) :
    (c.outData.take c.hashList.length).length = c.hashList.length :=
  (remembers_zero_iff.mpr h).length_answers

theorem Asked.length_queries (h : c.Asked) : c.queries.length = c.hashList.length :=
  (remembers_zero_iff.mpr h).length_queries

/-- The hashes of the queries are the hash list. -/
theorem Asked.map_queries (h : c.Asked) : c.queries.map (·.2) = c.hashList := by
  rw [queries, List.map_snd_zip (by rw [h.length_answers])]

/-- No more chunks are sent than were queried. -/
theorem Fits.length_uniq_le (hf : c.Fits msg uniq next) (h : c.Asked) :
    uniq.length ≤ BATCHSIZE := by
  rw [hf.count]
  exact (remembers_zero_iff.mpr h).length_picks_le

/-- **The server reads the queried hashes off the message.** -/
theorem Fits.queriedHashes (hf : c.Fits msg uniq next) : queriedHashes msg = next :=
  hf.toCarries.queriedHashes hf.next_length

/-- **The server cuts out the chunks.** Slot `u` of the message is the `u`-th chunk, and its size
does not wrap. -/
theorem Fits.chunkSlot (hf : c.Fits msg uniq next) (h : c.Asked) {u : Nat}
    (hu : u < uniq.length) :
    chunkSlotSize msg u = uniq[u].length ∧ chunkSlot msg u = uniq[u] :=
  hf.toCarries.chunkSlot hf.ragged (hf.length_uniq_le h) hu

/-- **A message is processed** when the connection remembers what was asked. -/
theorem Remembers.exists_receiveBody (env : Env) (sv : Server) (h : c.Remembers left) (msg : DataMsg) :
    ∃ st new, StoreLoop.run env msg ⟨sv, c.upload, none, 0⟩ c.queries = some st ∧
      StoreLoop.Extends ⟨sv, c.upload, none, 0⟩ st new ∧ new.length = c.hashList.length ∧
      st.up.duplicatedChunkAddr.length = left ∧ st.currentUniqueNum = (picks 1 c.queries).length ∧
      c.receiveBody env sv msg =
        some (st.server, c.answerQuery msg st, (c.answerQuery msg st).bodyReply) := by
  obtain ⟨st, new, hrun, hext, hnew, hleft, hcur⟩ :=
    StoreLoop.exists_run_left env msg c.queries h.answer left ⟨sv, c.upload, none, 0⟩ h.dups
  refine ⟨st, new, hrun, hext, hnew.trans h.length_queries, hleft, ?_, ?_⟩
  · rw [hcur, Nat.zero_add]
  · rw [receiveBody, hrun, Option.map_some]

/-- **A fitting message is processed.** -/
theorem exists_receiveBody (env : Env) (sv : Server) (h : c.Asked)
    (hf : c.Fits msg uniq next) :
    ∃ st new, StoreLoop.run env msg ⟨sv, c.upload, none, 0⟩ c.queries = some st ∧
      StoreLoop.Extends ⟨sv, c.upload, none, 0⟩ st new ∧ new.length = c.hashList.length ∧
      st.up.duplicatedChunkAddr = [] ∧ st.currentUniqueNum = uniq.length ∧
      c.receiveBody env sv msg =
        some (st.server, c.answerQuery msg st, (c.answerQuery msg st).bodyReply) := by
  obtain ⟨st, new, hrun, hext, hnew, hleft, hcur, hbody⟩ :=
    (remembers_zero_iff.mpr h).exists_receiveBody env sv msg
  exact ⟨st, new, hrun, hext, hnew, List.length_eq_zero_iff.mp hleft, hcur.trans hf.count.symm, hbody⟩

/-! ## The new query -/

/-- After a message the queries are the hashes it asks for, each with the answer of the index. -/
theorem queries_answerQuery_queried (c : Conn) (msg : DataMsg) (st : StoreLoop) :
    (c.answerQuery msg st).queries =
      (queriedHashes msg).map fun h => (queryAnswer st.server h, h) := by
  have htake : (overwrite c.outData 0 ((queriedHashes msg).map (queryAnswer st.server))).take
      (queriedHashes msg).length = (queriedHashes msg).map (queryAnswer st.server) := by
    simp [overwrite]
  simp only [queries, answerQuery, htake]
  rw [List.zip_map_left, List.zip_eq_zipWith, List.map_zipWith, List.zipWith_self]
  rfl

/-- Every hash answered `0` has its address in the queue of duplicates. -/
theorem forall₂_storedAddrs (sv : Server) (hashes : List Bytes) :
    List.Forall₂ (fun h a => sv.isChunkStored (convertArrayHashToString h) = some a)
      (hashes.filter fun h => queryAnswer sv h = 0) (storedAddrs sv hashes) := by
  induction hashes with
  | nil => exact List.Forall₂.nil
  | cons h hs ih =>
    cases hstored : sv.isChunkStored (convertArrayHashToString h) with
    | none => simpa [storedAddrs, queryAnswer, hstored] using ih
    | some a => simpa [storedAddrs, queryAnswer, hstored] using ih

/-- **The connection is ready for the next message**, when the hashes it has been asked for are whole and
no more than fit. -/
theorem Remembers.answerQuery (h : c.Remembers left) {st : StoreLoop}
    (hnum : (queriedHashes msg).length ≤ BATCHSIZE)
    (hlength : ∀ h ∈ queriedHashes msg, h.length = HASHSIZE)
    (hleft : st.up.duplicatedChunkAddr.length = left) : (c.answerQuery msg st).Remembers left where
  num_le := hnum
  room := by
    simp only [Conn.answerQuery]
    rw [length_overwrite]
    · exact h.room
    · have h2 := h.room
      simp only [CHUNKSIZE, BATCHSIZE, List.length_map] at *
      omega
  hash_length := hlength
  answer := by
    rw [queries_answerQuery_queried]
    intro q hq
    obtain ⟨h', -, rfl⟩ := List.mem_map.mp hq
    simp only [queryAnswer]
    split <;> simp
  dups := by
    rw [queries_answerQuery_queried, picks_map_self]
    simp only [Conn.answerQuery, List.length_append, hleft]
    rw [(forall₂_storedAddrs st.server (queriedHashes msg)).length_eq]

/-- **The connection is ready for the next message.** -/
theorem Asked.answerQuery (h : c.Asked) (hf : c.Fits msg uniq next) {st : StoreLoop}
    (hnil : st.up.duplicatedChunkAddr = []) : (c.answerQuery msg st).Asked := by
  apply remembers_zero_iff.mp
  apply (remembers_zero_iff.mpr h).answerQuery _ _ (List.length_eq_zero_iff.mpr hnil)
  · rw [hf.queriedHashes]
    exact hf.next_le
  · rw [hf.queriedHashes]
    exact hf.next_length

/-- A message within the buffers asks for whole hashes. -/
theorem InBounds.length_queriedHashes (hb : c.InBounds msg) :
    (queriedHashes msg).length ≤ BATCHSIZE ∧
      ∀ h ∈ queriedHashes msg, h.length = HASHSIZE := by
  constructor
  · rw [queriedHashes, List.length_map, List.length_range]
    exact hb.queryNum
  · intro h hh
    obtain ⟨i, hi, rfl⟩ := List.mem_map.mp hh
    rw [List.mem_range] at hi
    have hin := hb.hashes
    rw [List.length_take, List.length_drop]
    simp only [HASHSIZE] at *
    omega

@[simp] theorem answerQuery_hashList (c : Conn) (msg : DataMsg) (st : StoreLoop) :
    (c.answerQuery msg st).hashList = Conn.queriedHashes msg := rfl

/-- The reply carries the answers; there is none to a message without hashes. -/
theorem bodyReply_answerQuery (hf : c.Fits msg uniq next) (st : StoreLoop) :
    (c.answerQuery msg st).bodyReply =
      if next = [] then []
      else [.data ⟨(c.answerQuery msg st).outHeader,
        (c.answerQuery msg st).outData.take (c.answerQuery msg st).hashList.length⟩] := by
  have hnum : (c.answerQuery msg st).outHeader.queryNum = next.length := by
    simp [Conn.answerQuery, hf.queryNum]
  have hsize : (c.answerQuery msg st).outHeader.size - sizeofDataMsg = next.length := by
    simp [Conn.answerQuery, hf.queryNum]
  rw [bodyReply, hnum, hsize, answerQuery_hashList, hf.queriedHashes]
  simp only [List.length_eq_zero_iff]

end Conn

end DedupServer
