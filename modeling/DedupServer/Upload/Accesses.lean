import DedupServer.Store.Bytes
import DedupServer.Protocol.Residue

/-! # What `receive_file` accesses

The accesses to buffers that `receive_file` makes for one `UPLOADBODY` message, in the order of the source
(`Conn.bodyAccesses`), each with what decides whether it is in range (`Access.InRange`). Nothing in the
source compares `header.start` or `header.queryNum` with anything but each other. The accesses of the store
loop are in range exactly if its slots lie in the message (`StoreLoop.inRange_iff`), those of the query
exactly if its hashes do and there are no more of them than `m_hashList` holds (`inRange_query_iff`). -/

namespace DedupServer

open Foundations

/-- **An access**: some bytes of `m_hashList->data`, of `m_outMsgBuffer->data`, of the received data, of the
container or of the recipe buffer; the bounds of a chunk in the received data; or `front` of a queue with so
many addresses. -/
inductive Access
  | hashList (offset size : ℕ)
  | reply (offset size : ℕ)
  | payload (offset size : ℕ)
  | container (offset size : ℕ)
  | recipe (offset size : ℕ)
  | slice (start stop : ℕ)
  | front (waiting : ℕ)

/-- **The access is in range**, when `received` bytes of data have been received. -/
def Access.InRange (received : ℕ) : Access → Prop
  | .hashList offset size => offset + size ≤ HASHSIZE * BATCHSIZE
  | .reply offset size => offset + size ≤ CHUNKSIZE * BATCHSIZE
  | .payload offset size => offset + size ≤ received
  | .container offset size => offset + size ≤ CONTAINERSIZE
  | .recipe offset size => offset + size ≤ sizeofChunkAddr * BATCHSIZE
  | .slice start stop => start ≤ stop ∧ stop ≤ received
  | .front waiting => 0 < waiting

/-- `start` of the `u`-th chunk, a `uint32_t`. -/
def chunkStart (u : ℕ) : ℕ := u32 (u * CHUNKSIZE)

/-- `end` of the `u`-th chunk. -/
def chunkEnd (msg : DataMsg) (u : ℕ) : ℕ := u32 (min ((u + 1) * CHUNKSIZE) msg.header.start)

/-- `chunkSize` is their difference. -/
theorem chunkSlotSize_eq (msg : DataMsg) (u : ℕ) :
    chunkSlotSize msg u = sub32 (chunkEnd msg u) (chunkStart u) := rfl

/-- `m_recipeBuffer.num` when an entry is written: a full buffer has been replaced. -/
def UploadState.entryNum (up : UploadState) : ℕ :=
  if BATCHSIZE ≤ up.recipeBuffer.num then 0 else up.recipeBuffer.num

namespace StoreLoop

/-- The accesses of the `i`-th pass of the loop over `m_hashList`, which has been answered `answer`. -/
def accesses (env : Env) (msg : DataMsg) (i : ℕ) (st : StoreLoop) (answer : UInt8) : List Access :=
  let size := chunkSlotSize msg st.currentUniqueNum
  [.hashList (i * HASHSIZE) HASHSIZE, .reply i 1] ++
    (if answer = 1 then
      [.slice (chunkStart st.currentUniqueNum) (chunkEnd msg st.currentUniqueNum),
        .payload (chunkStart st.currentUniqueNum) size,
        .container (st.up.rollOver env size st.server).2.containerBuffer.occupied size]
    else if answer = 0 then [.front st.up.duplicatedChunkAddr.length]
    else []) ++
    [.recipe (st.up.entryNum * sizeofChunkAddr) sizeofChunkAddr]

/-- The accesses of the loop from its `i`-th pass on. -/
def runAccesses (env : Env) (msg : DataMsg) : ℕ → StoreLoop → List (UInt8 × Bytes) → List Access
  | _, _, [] => []
  | i, st, q :: qs =>
    st.accesses env msg i q.1 ++
      match st.step env msg q with
      | some st' => runAccesses env msg (i + 1) st' qs
      | none => []

end StoreLoop

/-- The accesses for the new query of a message, with sizes and positions in a `size_t`: the hashes are copied
to `m_hashList`, each is looked up and answered, and the answers are sent. -/
def queryAccesses (msg : DataMsg) : List Access :=
  let size := HASHSIZE * msg.header.queryNum % 2 ^ 64
  if msg.header.queryNum = 0 then []
  else
    [.payload msg.header.start size, .hashList 0 size] ++
      ((List.range msg.header.queryNum).flatMap fun i =>
        [.payload ((msg.header.start + i * HASHSIZE) % 2 ^ 64) HASHSIZE, .reply i 1]) ++
      [.reply 0 msg.header.queryNum]

/-- **The accesses for an `UPLOADBODY` message.** -/
def Conn.bodyAccesses (env : Env) (sv : Server) (c : Conn) (msg : DataMsg) : List Access :=
  StoreLoop.runAccesses env msg 0 ⟨sv, c.upload, none, 0⟩ c.queries ++ queryAccesses msg

/-- All accesses are in range. -/
def AllInRange (received : ℕ) (accesses : List Access) : Prop := ∀ x ∈ accesses, x.InRange received

section AllInRange

variable {received : ℕ} {accesses accesses' : List Access} {x : Access}

@[simp] theorem allInRange_nil : AllInRange received [] := by
  intro x hx
  cases hx

@[simp] theorem allInRange_cons :
    AllInRange received (x :: accesses) ↔ x.InRange received ∧ AllInRange received accesses := by
  simp [AllInRange]

@[simp] theorem allInRange_append :
    AllInRange received (accesses ++ accesses') ↔
      AllInRange received accesses ∧ AllInRange received accesses' := by
  simp [AllInRange, or_imp, forall_and]

@[simp] theorem allInRange_flatMap {l : List ℕ} {f : ℕ → List Access} :
    AllInRange received (l.flatMap f) ↔ ∀ i ∈ l, AllInRange received (f i) := by
  simp only [AllInRange, List.mem_flatMap]
  exact ⟨fun h i hi x hx => h x ⟨i, hi, hx⟩, fun h x ⟨i, hi, hx⟩ => h i hi x hx⟩

end AllInRange

/-! ## The store loop -/

/-- The slot of the `u`-th chunk lies in the received data. -/
def SlotInRange (msg : DataMsg) (u : ℕ) : Prop :=
  chunkStart u ≤ chunkEnd msg u ∧ chunkEnd msg u ≤ msg.data.length

variable {env : Env} {msg : DataMsg} {u : ℕ}

/-- Among the chunks of a query, no position wraps around. -/
theorem chunkStart_of_le (msg : DataMsg) (h : u ≤ BATCHSIZE) :
    chunkStart u = u * CHUNKSIZE ∧ chunkEnd msg u = min ((u + 1) * CHUNKSIZE) msg.header.start := by
  simp only [BATCHSIZE] at h
  simp only [chunkStart, chunkEnd, CHUNKSIZE]
  constructor
  · apply u32_of_lt
    omega
  · apply u32_of_lt
    omega

/-- **A slot that lies in the data** has the size of a chunk at most, and the size does not wrap. -/
theorem SlotInRange.size (h : SlotInRange msg u) (hu : u ≤ BATCHSIZE) :
    chunkSlotSize msg u ≤ CHUNKSIZE ∧ chunkStart u + chunkSlotSize msg u = chunkEnd msg u := by
  obtain ⟨hle, -⟩ := h
  obtain ⟨hstart, hend⟩ := chunkStart_of_le msg hu
  rw [hstart, hend] at hle
  simp only [BATCHSIZE] at hu
  rw [chunkSlotSize_eq, hstart, hend, sub32_of_le hle]
  · simp only [CHUNKSIZE] at hle ⊢
    omega
  · simp only [CHUNKSIZE] at hle ⊢
    omega

namespace StoreLoop

variable {st : StoreLoop}

/-- A recipe buffer has room for an entry. -/
theorem entryNum_lt (up : UploadState) : up.entryNum < BATCHSIZE := by
  unfold UploadState.entryNum
  split
  · decide
  · rename_i hroom
    exact Nat.lt_of_not_le hroom

/-- **One pass** is in range when its index is, there is an address for an answer `0`, and the slot of an
answer `1` lies in the data. -/
theorem inRange_accesses (env : Env) (msg : DataMsg) (i : ℕ) (answer : UInt8) (hi : i < BATCHSIZE)
    (hroom : st.Room)
    (hcur : st.currentUniqueNum ≤ BATCHSIZE) (hanswer : answer = 0 ∨ answer = 1)
    (hdup : answer = 0 → 0 < st.up.duplicatedChunkAddr.length) :
    AllInRange msg.data.length (st.accesses env msg i answer) ↔
      (answer = 1 → SlotInRange msg st.currentUniqueNum) := by
  -- the hash, the reply byte and the recipe entry are in range for every answer
  have hhash : i * HASHSIZE + HASHSIZE ≤ HASHSIZE * BATCHSIZE := by
    simp only [HASHSIZE, BATCHSIZE] at *
    omega
  have hreply : i + 1 ≤ CHUNKSIZE * BATCHSIZE := by
    simp only [CHUNKSIZE, BATCHSIZE] at *
    omega
  have hrecipe : st.up.entryNum * sizeofChunkAddr + sizeofChunkAddr ≤ sizeofChunkAddr * BATCHSIZE := by
    have hlt := entryNum_lt st.up
    simp only [sizeofChunkAddr, BATCHSIZE] at *
    omega
  -- a known chunk is not copied, so its slot is never read
  rcases hanswer with rfl | rfl
  · simp [accesses, Access.InRange, hhash, hreply, hrecipe, hdup rfl]
  · constructor
    · intro h _
      simp [accesses, Access.InRange] at h
      exact h.2.2.1
    · intro h
      have hslot := h rfl
      obtain ⟨hsize, hstop⟩ := hslot.size hcur
      -- the container rolled over if it had to, and then the slot fits
      obtain ⟨-, hroom', hfits⟩ := bytes_rollOver env st.server hsize hroom
      have hcontainer : (st.up.rollOver env (chunkSlotSize msg st.currentUniqueNum)
          st.server).2.containerBuffer.occupied + chunkSlotSize msg st.currentUniqueNum ≤
            CONTAINERSIZE := by
        omega
      simp [accesses, Access.InRange, hhash, hreply, hrecipe, hslot.1, hslot.2, hcontainer, hstop]

/-- **The store loop is in range** exactly if the slots of its chunks lie in the data. -/
theorem inRange_iff (env : Env) (msg : DataMsg) (qs : List (UInt8 × Bytes)) (left i : ℕ) (st : StoreLoop)
    (hanswer : ∀ q ∈ qs, q.1 = 0 ∨ q.1 = 1) (hi : i + qs.length ≤ BATCHSIZE)
    (hcur : st.currentUniqueNum ≤ i) (hroom : st.Room)
    (hdup : st.up.duplicatedChunkAddr.length = left + (picks 0 qs).length) :
    AllInRange msg.data.length (st.runAccesses env msg i qs) ↔
      ∀ u < (picks 1 qs).length, SlotInRange msg (st.currentUniqueNum + u) := by
  induction qs generalizing st i with
  | nil =>
    refine iff_of_true allInRange_nil fun u hu => ?_
    cases hu
  | cons q qs ih =>
    obtain ⟨answer, hash⟩ := q
    have hanswer' : ∀ q ∈ qs, q.1 = 0 ∨ q.1 = 1 :=
      fun q hq => hanswer q (List.mem_cons_of_mem _ hq)
    rw [List.length_cons] at hi
    rcases hanswer (answer, hash) List.mem_cons_self with rfl | rfl
    · -- a duplicate: the queue is not empty
      rw [picks_cons_self, List.length_cons, ← Nat.add_assoc] at hdup
      obtain ⟨a, rest, hrest⟩ := List.exists_cons_of_length_eq_add_one hdup
      have hlen : (st.useDuplicate a rest).up.duplicatedChunkAddr.length
          = left + (picks 0 qs).length := by
        simpa [useDuplicate, hrest] using hdup
      have hpass := inRange_accesses env msg i 0 (by omega) hroom (by omega) (.inl rfl)
        (fun _ => by omega)
      have hrec := ih (i + 1) (st.useDuplicate a rest) hanswer' (by omega)
        (hcur.trans (Nat.le_succ _)) (hroom.useDuplicate a rest) hlen
      rw [runAccesses, allInRange_append, hpass, step_zero env msg hrest, picks_cons_of_ne (by decide)]
      dsimp only
      rw [hrec]
      simp [useDuplicate]
    · -- a chunk to be stored
      rw [picks_cons_of_ne (by decide)] at hdup
      have hpass := inRange_accesses env msg i 1 (by omega) hroom (by omega) (.inr rfl)
        (fun h => absurd h (by decide))
      rw [runAccesses, allInRange_append, hpass, step_one, picks_cons_self, List.length_cons]
      dsimp only
      have hsplit : (∀ u < (picks 1 qs).length + 1, SlotInRange msg (st.currentUniqueNum + u)) ↔
          SlotInRange msg st.currentUniqueNum ∧
            ∀ u < (picks 1 qs).length, SlotInRange msg (st.currentUniqueNum + 1 + u) := by
        rw [Nat.forall_lt_succ_left]
        simp only [Nat.add_zero, Nat.add_right_comm, Nat.add_assoc]
      rw [hsplit, forall_prop_of_true rfl]
      apply and_congr_right
      intro hslot
      -- the container has room again only when the slot is no longer than a chunk
      have hsize := (hslot.size (by omega)).1
      have hroom' := (bytes_storeUnique env hash hsize hroom).2
      exact ih (i + 1) (st.storeUnique env msg hash) hanswer' (by omega) (Nat.succ_le_succ hcur) hroom'
        ((congrArg List.length (storeUnique_duplicatedChunkAddr env msg hash st)).trans hdup)

/-- The counters of the container agree with its size after the loop, too. -/
theorem room_run {st' : StoreLoop} {qs : List (UInt8 × Bytes)}
    (hcur : st.currentUniqueNum + (picks 1 qs).length ≤ BATCHSIZE) (hroom : st.Room)
    (hslots : ∀ u < (picks 1 qs).length, SlotInRange msg (st.currentUniqueNum + u))
    (hanswer : ∀ q ∈ qs, q.1 = 0 ∨ q.1 = 1) (hrun : st.run env msg qs = some st') : st'.Room := by
  induction qs generalizing st with
  | nil =>
    obtain rfl := Option.some.inj hrun
    exact hroom
  | cons q qs ih =>
    obtain ⟨answer, hash⟩ := q
    have hanswer' : ∀ q ∈ qs, q.1 = 0 ∨ q.1 = 1 :=
      fun q hq => hanswer q (List.mem_cons_of_mem _ hq)
    rw [run_cons] at hrun
    -- by the answer of the first hash: a known chunk uses no slot, a new one the next slot
    rcases hanswer (answer, hash) List.mem_cons_self with rfl | rfl
    · rw [picks_cons_of_ne (by decide)] at hcur hslots
      cases hdup : st.up.duplicatedChunkAddr with
      | nil => simp [step, hdup] at hrun
      | cons a rest =>
        rw [step_zero env msg hdup, Option.bind_some] at hrun
        have hcur' : (st.useDuplicate a rest).currentUniqueNum + (picks 1 qs).length ≤ BATCHSIZE :=
          hcur
        exact ih hcur' (hroom.useDuplicate a rest) hslots hanswer' hrun
    · rw [picks_cons_self, List.length_cons] at hcur hslots
      rw [step_one, Option.bind_some] at hrun
      have hslot : SlotInRange msg st.currentUniqueNum := hslots 0 (Nat.succ_pos _)
      have hroom' := (bytes_storeUnique env hash (hslot.size (by omega)).1 hroom).2
      refine ih ?_ hroom' (fun u hu => ?_) hanswer' hrun
      · rw [storeUnique_currentUniqueNum]
        omega
      · rw [storeUnique_currentUniqueNum, Nat.add_assoc, Nat.add_comm 1 u]
        exact hslots (u + 1) (Nat.succ_lt_succ hu)

end StoreLoop

/-! ## The query and the message -/

/-- **The query is in range** exactly if its hashes lie in the data and `m_hashList` has room for them. -/
theorem inRange_query_iff (msg : DataMsg)
    (hfits : msg.data.length ≤ (CHUNKSIZE + HASHSIZE) * BATCHSIZE) :
    AllInRange msg.data.length (queryAccesses msg) ↔
      (msg.header.queryNum ≠ 0 → msg.header.queryNum ≤ BATCHSIZE ∧
        msg.header.start + HASHSIZE * msg.header.queryNum ≤ msg.data.length) := by
  simp only [CHUNKSIZE, HASHSIZE, BATCHSIZE] at hfits
  by_cases hnone : msg.header.queryNum = 0
  · rw [queryAccesses, if_pos hnone]
    exact iff_of_true allInRange_nil fun h => absurd hnone h
  · rw [queryAccesses, if_neg hnone]
    simp only [allInRange_append, allInRange_cons, allInRange_nil, allInRange_flatMap, and_true,
      List.mem_range, Access.InRange, HASHSIZE, CHUNKSIZE, BATCHSIZE, Nat.zero_add]
    constructor
    · rintro ⟨⟨⟨hcopied, hlist⟩, hread⟩, -⟩ _
      have hin : msg.header.start + 32 * msg.header.queryNum ≤ msg.data.length := by
        -- otherwise the first hash that does not lie in the data is read
        by_contra hout
        have hfirst := (hread ((msg.data.length - msg.header.start) / 32) (by omega)).1
        omega
      omega
    · intro h
      obtain ⟨hnum, hin⟩ := h hnone
      refine ⟨⟨⟨?_, ?_⟩, fun i hi => ?_⟩, ?_⟩
      · omega
      · omega
      · omega
      · omega

/-- **What a message has to meet** when the last reply asked for `count` chunks: the slots of these chunks and
the hashes of the query lie in the data, and there are no more hashes than `m_hashList` holds. -/
structure DataMsg.WithinRange (msg : DataMsg) (count : ℕ) : Prop where
  chunks : count ≠ 0 → CHUNKSIZE * (count - 1) ≤ msg.header.start ∧
    min (CHUNKSIZE * count) msg.header.start ≤ msg.data.length
  query : msg.header.queryNum ≠ 0 → msg.header.queryNum ≤ BATCHSIZE ∧
    msg.header.start + HASHSIZE * msg.header.queryNum ≤ msg.data.length

/-- The slots lie in the data when the last of them does. -/
theorem slots_inRange_iff {msg : DataMsg} {count : ℕ} (hcount : count ≤ BATCHSIZE) :
    (∀ u < count, SlotInRange msg u) ↔
      (count ≠ 0 → CHUNKSIZE * (count - 1) ≤ msg.header.start ∧
        min (CHUNKSIZE * count) msg.header.start ≤ msg.data.length) := by
  have hslot : ∀ u < count, SlotInRange msg u ↔
      u * CHUNKSIZE ≤ min ((u + 1) * CHUNKSIZE) msg.header.start ∧
        min ((u + 1) * CHUNKSIZE) msg.header.start ≤ msg.data.length := by
    intro u hu
    obtain ⟨hstart, hend⟩ := chunkStart_of_le msg (hu.le.trans hcount)
    rw [SlotInRange, hstart, hend]
  simp only [CHUNKSIZE] at hslot ⊢
  constructor
  · intro h hsome
    have hlast := (hslot (count - 1) (by omega)).mp (h _ (by omega))
    omega
  · intro h u hu
    obtain ⟨hstart, hend⟩ := h (by omega)
    apply (hslot u hu).mpr
    omega

namespace Conn

/-- **The state of an upload between two messages**, as far as the buffers are concerned. -/
structure Roomy (c : Conn) (left : ℕ) : Prop where
  asked : c.Remembers left
  room : c.upload.containerBuffer.occupied + c.upload.containerBuffer.capacity = CONTAINERSIZE

/-- A connection on which an upload begins. -/
theorem Settled.roomy {c : Conn} (h : c.Settled)
    (hroom : c.outData.length = CHUNKSIZE * BATCHSIZE) :
    c.Roomy c.upload.duplicatedChunkAddr.length := by
  have hqueries : c.queries = [] := by
    rw [queries, h.hashList, List.zip_nil_right]
  obtain ⟨containerID, hcontainer⟩ := h.containerBuffer
  refine ⟨⟨?_, hroom, ?_, ?_, ?_⟩, ?_⟩
  · rw [h.hashList]
    exact Nat.zero_le _
  · rw [h.hashList]
    intro hash hmem
    cases hmem
  · rw [hqueries]
    intro q hq
    cases hq
  · rw [hqueries]
    rfl
  · rw [hcontainer]
    exact Nat.zero_add _

variable {c : Conn} {left : ℕ}

/-- **One message is processed in range** exactly if it meets the condition. -/
theorem Roomy.inRange_iff (h : c.Roomy left) (env : Env) (sv : Server) (msg : DataMsg)
    (hfits : msg.data.length ≤ (CHUNKSIZE + HASHSIZE) * BATCHSIZE) :
    AllInRange msg.data.length (c.bodyAccesses env sv msg) ↔
      msg.WithinRange (picks 1 c.queries).length := by
  have hnum : c.queries.length ≤ BATCHSIZE := h.asked.length_queries.trans_le h.asked.num_le
  have hcount := h.asked.length_picks_le
  have hloop := StoreLoop.inRange_iff env msg c.queries left 0 ⟨sv, c.upload, none, 0⟩ h.asked.answer
    (by rw [Nat.zero_add]; exact hnum) le_rfl h.room h.asked.dups
  simp only [Nat.zero_add] at hloop
  rw [bodyAccesses, allInRange_append, hloop, inRange_query_iff msg hfits, slots_inRange_iff hcount]
  exact ⟨fun hrange => ⟨hrange.1, hrange.2⟩, fun hmsg => ⟨hmsg.chunks, hmsg.query⟩⟩

/-- **A message that meets the condition** leaves the connection ready for the next. -/
theorem Roomy.receiveBody (h : c.Roomy left) (env : Env) (sv : Server) {msg : DataMsg}
    (hmsg : msg.WithinRange (picks 1 c.queries).length) {r : Server × Conn × List Msg}
    (hstep : c.receiveBody env sv msg = some r) : r.2.1.Roomy left := by
  obtain ⟨st, new, hrun, -, -, hleft, -, hbody⟩ := h.asked.exists_receiveBody env sv msg
  rw [hbody] at hstep
  obtain rfl := Option.some.inj hstep
  have hcount := h.asked.length_picks_le
  -- the hashes asked for lie inside the message
  have hnum : (queriedHashes msg).length ≤ BATCHSIZE ∧
      ∀ hash ∈ queriedHashes msg, hash.length = HASHSIZE := by
    rw [queriedHashes, List.length_map, List.length_range]
    by_cases hnone : msg.header.queryNum = 0
    · rw [hnone]
      exact ⟨Nat.zero_le _, fun hash hmem => (by cases hmem)⟩
    · obtain ⟨hle, hin⟩ := hmsg.query hnone
      refine ⟨hle, fun hash hmem => ?_⟩
      obtain ⟨i, hi, rfl⟩ := List.mem_map.mp hmem
      rw [List.mem_range] at hi
      rw [List.length_take, List.length_drop]
      simp only [HASHSIZE] at *
      omega
  refine ⟨h.asked.answerQuery hnum.1 hnum.2 hleft, ?_⟩
  have hslots := (slots_inRange_iff hcount).mpr hmsg.chunks
  have hroom : StoreLoop.Room ⟨sv, c.upload, none, 0⟩ := h.room
  refine StoreLoop.room_run ?_ hroom (fun u hu => ?_) h.asked.answer hrun
  · rw [Nat.zero_add]
    exact hcount
  · rw [Nat.zero_add]
    exact hslots u hu

end Conn

end DedupServer
