import DedupServer.Model.Conn

/-! # The loop that stores the chunks of a message

What `receive_file` does with the answers of the last query when the next message arrives, seen
from the control flow alone: the loop ends, uses up the queue of duplicate addresses exactly, and
appends one recipe entry for each hash (`StoreLoop.exists_run`). The chunks that it cuts out of the message go
to the containers one behind the other, each under the address that its entry has (`StoreLoop.run_cuts`). What
the entries point to over a whole run is the subject of `DedupServer.Store`. -/

namespace DedupServer

open Foundations

namespace UploadState

/-- The recipe entries that have not been taken by the recipe writer. -/
def entries (up : UploadState) : List ChunkAddr :=
  up.recipeQueue.queue.flatMap (·.data) ++ up.recipeBuffer.data

/-- The containers that have not been taken by the container writer. -/
def containers (up : UploadState) : List Container :=
  up.containerQueue.queue ++ [up.containerBuffer]

/-- **The address stands for the chunk** in one of these containers. -/
def HasChunk (up : UploadState) (a : ChunkAddr) (x : Bytes) : Prop :=
  a.size.toNat = x.length ∧ ∃ C ∈ up.containers, C.containerID = a.containerID ∧
    (C.data.drop a.offset.toNat).take x.length = x

section Fields

variable (env : Env) (size : Nat) (sv : Server) (up : UploadState) (a : ChunkAddr)

/-- A recipe entry is appended, whether or not the buffer is handed over. -/
@[simp] theorem entries_writeRecipeEntry :
    (up.writeRecipeEntry a).entries = up.entries ++ [a] := by
  unfold writeRecipeEntry
  split <;> simp [entries, insertRecipeQueue, newRecipe, BlockQueue.push]

@[simp] theorem writeRecipeEntry_containerQueue :
    (up.writeRecipeEntry a).containerQueue = up.containerQueue := by
  unfold writeRecipeEntry
  split <;> rfl

@[simp] theorem writeRecipeEntry_containerBuffer :
    (up.writeRecipeEntry a).containerBuffer = up.containerBuffer := by
  unfold writeRecipeEntry
  split <;> rfl

@[simp] theorem writeRecipeEntry_duplicatedChunkAddr :
    (up.writeRecipeEntry a).duplicatedChunkAddr = up.duplicatedChunkAddr := by
  unfold writeRecipeEntry
  split <;> rfl

@[simp] theorem writeRecipeEntry_receivedFileSize :
    (up.writeRecipeEntry a).receivedFileSize = up.receivedFileSize := by
  unfold writeRecipeEntry
  split <;> rfl

@[simp] theorem writeRecipeEntry_recipeQueue_done :
    (up.writeRecipeEntry a).recipeQueue.done = up.recipeQueue.done := by
  unfold writeRecipeEntry
  split <;> rfl

@[simp] theorem containers_writeRecipeEntry :
    (up.writeRecipeEntry a).containers = up.containers := by
  simp [containers]

/-- Rolling over a container does not touch the recipe, the duplicates or the counters. -/
theorem rollOver_frame :
    let r := up.rollOver env size sv
    r.2.recipeQueue = up.recipeQueue ∧ r.2.recipeBuffer = up.recipeBuffer ∧
      r.2.duplicatedChunkAddr = up.duplicatedChunkAddr ∧
      r.2.receivedFileSize = up.receivedFileSize ∧
      r.2.containerQueue.done = up.containerQueue.done ∧
      r.1.files = sv.files ∧ r.1.allChunks = sv.allChunks ∧ r.1.containers = sv.containers ∧
      r.1.recipes = sv.recipes ∧ sv.drawn ≤ r.1.drawn := by
  unfold rollOver
  split <;> simp [newContainer, insertContainerQueue, BlockQueue.push]

end Fields

end UploadState

/-! ## Containers -/

/-- The counters of a container agree with its bytes. -/
structure Container.Counted (C : Container) : Prop where
  occupied : C.occupied = C.data.length
  capacity : C.occupied + C.capacity = CONTAINERSIZE

namespace Container.Counted

variable {C : Container} {x : Bytes}

/-- A chunk that fits is appended without any wrap-around. -/
theorem append (h : C.Counted) (hx : x.length ≤ C.capacity) :
    C.append x x.length = ⟨C.containerID, C.occupied + x.length, C.capacity - x.length, C.data ++ x⟩ := by
  have hcap := h.capacity
  have hocc := h.occupied
  simp only [CONTAINERSIZE] at hcap
  rw [Container.append, hocc, overwrite_length, u32_of_lt (by omega), sub32_of_le (by omega) (by omega)]

/-- The counters go on agreeing. -/
theorem counted_append (h : C.Counted) (hx : x.length ≤ C.capacity) : (C.append x x.length).Counted := by
  have hcap := h.capacity
  have hocc := h.occupied
  rw [h.append hx]
  refine ⟨?_, ?_⟩
  · show C.occupied + x.length = (C.data ++ x).length
    rw [List.length_append, hocc]
  · show C.occupied + x.length + (C.capacity - x.length) = CONTAINERSIZE
    omega

/-- **The address of the chunk** that has just been appended. -/
theorem lastChunk (h : C.Counted) (hx : x.length ≤ C.capacity) :
    let a := (C.append x x.length).lastChunk x.length
    a.containerID = C.containerID ∧ a.offset.toNat = C.data.length ∧ a.size.toNat = x.length := by
  have hcap := h.capacity
  have hocc := h.occupied
  simp only [CONTAINERSIZE] at hcap
  rw [h.append hx, Container.lastChunk]
  refine ⟨rfl, ?_, ?_⟩
  · dsimp only
    rw [UInt64.toNat_ofNat_of_lt' (by simp only [UInt64.size]; omega)]
    omega
  · exact UInt64.toNat_ofNat_of_lt' (by simp only [UInt64.size]; omega)

end Container.Counted

namespace UploadState

variable {up up' : UploadState} {a : ChunkAddr} {x : Bytes}

/-- What an address stands for stays when the containers only grow. -/
theorem HasChunk.mono (h : up.HasChunk a x)
    (hgrow : ∀ C ∈ up.containers, ∃ C' ∈ up'.containers, C'.containerID = C.containerID ∧ C.data <+: C'.data) :
    up'.HasChunk a x := by
  obtain ⟨hsize, C, hC, hid, hx⟩ := h
  obtain ⟨C', hC', hid', t, ht⟩ := hgrow C hC
  refine ⟨hsize, C', hC', hid'.trans hid, ?_⟩
  have hlen := congrArg List.length hx
  rw [List.length_take, List.length_drop] at hlen
  rcases Nat.eq_zero_or_pos x.length with hzero | hpos
  · rw [hzero, List.take_zero, List.length_eq_zero_iff.mp hzero]
  · rw [← ht, List.drop_append_of_le_length (by omega),
      List.take_append_of_le_length (by rw [List.length_drop]; omega), hx]

/-- **A full container is replaced** before a chunk is stored: no byte moves, and there is room then. -/
theorem rollOver_counted (env : Env) (sv : Server) (h : up.containerBuffer.Counted) {size : ℕ}
    (hsize : size ≤ CHUNKSIZE) :
    let r := up.rollOver env size sv
    r.2.containerBuffer.Counted ∧ size ≤ r.2.containerBuffer.capacity ∧
      r.2.containers.flatMap (·.data) = up.containers.flatMap (·.data) ∧
      ∀ a x, up.HasChunk a x → r.2.HasChunk a x := by
  unfold rollOver
  split
  · refine ⟨⟨rfl, Nat.zero_add _⟩, hsize.trans (show CHUNKSIZE ≤ CONTAINERSIZE by decide), ?_, fun a x ha => ?_⟩
    · simp [containers, newContainer, insertContainerQueue, BlockQueue.push]
    · apply ha.mono
      intro C hC
      exact ⟨C, List.mem_append_left _ hC, rfl, List.prefix_rfl⟩
  · rename_i hroom
    exact ⟨h, not_lt.mp hroom, rfl, fun _ _ ha => ha⟩

end UploadState

namespace StoreLoop

/-- **The loop went on from `st` to `st'` and wrote the entries `new`.** The files, the registry
and the done flags are not its business, and the index only gains entries. -/
structure Extends (st st' : StoreLoop) (new : List ChunkAddr) : Prop where
  entries : st'.up.entries = st.up.entries ++ new
  containerDone : st'.up.containerQueue.done = st.up.containerQueue.done
  recipeDone : st'.up.recipeQueue.done = st.up.recipeQueue.done
  files : st'.server.files = st.server.files
  containers : st'.server.containers = st.server.containers
  recipes : st'.server.recipes = st.server.recipes
  index : ∀ k a, st.server.allChunks k = some a → st'.server.allChunks k = some a
  drawn : st.server.drawn ≤ st'.server.drawn

namespace Extends

variable {st st' st'' : StoreLoop} {new new' : List ChunkAddr}

theorem refl (st : StoreLoop) : Extends st st [] :=
  ⟨by simp, rfl, rfl, rfl, rfl, rfl, fun _ _ h => h, le_rfl⟩

theorem trans (h : Extends st st' new) (h' : Extends st' st'' new') :
    Extends st st'' (new ++ new') where
  entries := by rw [h'.entries, h.entries, List.append_assoc]
  containerDone := h'.containerDone.trans h.containerDone
  recipeDone := h'.recipeDone.trans h.recipeDone
  files := h'.files.trans h.files
  containers := h'.containers.trans h.containers
  recipes := h'.recipes.trans h.recipes
  index k a hk := h'.index k a (h.index k a hk)
  drawn := h.drawn.trans h'.drawn

end Extends

variable (env : Env) (msg : DataMsg)

/-- The address under which a chunk is stored. -/
def storedAddr (st : StoreLoop) : ChunkAddr :=
  let size := chunkSlotSize msg st.currentUniqueNum
  ((st.up.rollOver env size st.server).2.containerBuffer.append
    (chunkSlot msg st.currentUniqueNum) size).lastChunk size

/-- Storing a chunk writes one entry, its address. -/
theorem storeUnique_extends (hash : Bytes) (st : StoreLoop) :
    Extends st (st.storeUnique env msg hash) [storedAddr env msg st] := by
  have hframe := st.up.rollOver_frame env (chunkSlotSize msg st.currentUniqueNum) st.server
  obtain ⟨hrq, hrb, -, -, hcd, hf, hi, hc, hr, hd⟩ := hframe
  refine ⟨?_, ?_, ?_, ?_, ?_, ?_, ?_, ?_⟩
  · simp only [storeUnique, UploadState.entries_writeRecipeEntry, storedAddr]
    simp only [UploadState.entries, hrq, hrb]
  · simpa [storeUnique] using hcd
  · simp [storeUnique, hrq]
  · simp [storeUnique, hf]
  · simp [storeUnique, hc]
  · simp [storeUnique, hr]
  · intro k a hk
    simp [storeUnique, Server.addChunk_allChunks, hi, hk]
  · simpa [storeUnique] using hd

@[simp] theorem storeUnique_currentUniqueNum (hash : Bytes) (st : StoreLoop) :
    (st.storeUnique env msg hash).currentUniqueNum = st.currentUniqueNum + 1 := rfl

@[simp] theorem storeUnique_duplicatedChunkAddr (hash : Bytes) (st : StoreLoop) :
    (st.storeUnique env msg hash).up.duplicatedChunkAddr = st.up.duplicatedChunkAddr := by
  obtain ⟨-, -, hd, -⟩ :=
    st.up.rollOver_frame env (chunkSlotSize msg st.currentUniqueNum) st.server
  simpa [storeUnique] using hd

/-- The state after a duplicate whose address was the head of the queue. -/
def useDuplicate (st : StoreLoop) (a : ChunkAddr) (rest : List ChunkAddr) : StoreLoop :=
  { st with
    up := { st.up with duplicatedChunkAddr := rest }.writeRecipeEntry a
    chunkAddr := some a }

/-- Using a duplicate writes one entry, the address from the queue. -/
theorem useDuplicate_extends (st : StoreLoop) (a : ChunkAddr) (rest : List ChunkAddr) :
    Extends st (st.useDuplicate a rest) [a] := by
  refine ⟨?_, ?_, ?_, rfl, rfl, rfl, fun _ _ h => h, le_rfl⟩
  · rw [useDuplicate, UploadState.entries_writeRecipeEntry]
    rfl
  · simp [useDuplicate]
  · simp [useDuplicate]

/-- A hash answered `1`: its chunk is stored. -/
@[simp] theorem step_one (st : StoreLoop) (h : Bytes) :
    st.step env msg (1, h) = some (st.storeUnique env msg h) := by
  simp [step]

/-- A hash answered `0`: the next address of the queue is used. -/
theorem step_zero {st : StoreLoop} {a : ChunkAddr} {rest : List ChunkAddr}
    (hdup : st.up.duplicatedChunkAddr = a :: rest) (h : Bytes) :
    st.step env msg (0, h) = some (st.useDuplicate a rest) := by
  simp [step, hdup, useDuplicate]

theorem run_cons (st : StoreLoop) (q : UInt8 × Bytes) (qs : List (UInt8 × Bytes)) :
    st.run env msg (q :: qs) = (st.step env msg q).bind fun st' => st'.run env msg qs := by
  simp [run]

/-- **The loop ends.** When the answers are zeros and ones and the queue holds an address for
every zero and `left` more, the loop takes an address for every zero, one chunk of the message for every
one, and writes one entry for every hash. -/
theorem exists_run_left (qs : List (UInt8 × Bytes)) (hans : ∀ q ∈ qs, q.1 = 0 ∨ q.1 = 1) (left : ℕ)
    (st : StoreLoop) (hdup : st.up.duplicatedChunkAddr.length = left + (picks 0 qs).length) :
    ∃ st' new, st.run env msg qs = some st' ∧ Extends st st' new ∧ new.length = qs.length ∧
      st'.up.duplicatedChunkAddr.length = left ∧
      st'.currentUniqueNum = st.currentUniqueNum + (picks 1 qs).length := by
  induction qs generalizing st with
  | nil => exact ⟨st, [], rfl, Extends.refl st, rfl, hdup, rfl⟩
  | cons q qs ih =>
    obtain ⟨answer, h⟩ := q
    have hans' : ∀ q ∈ qs, q.1 = 0 ∨ q.1 = 1 := fun q hq => hans q (List.mem_cons_of_mem _ hq)
    rcases hans (answer, h) List.mem_cons_self with rfl | rfl
    · -- a duplicate: the queue is not empty
      rw [picks_cons_self, List.length_cons, ← Nat.add_assoc] at hdup
      obtain ⟨a, rest, hrest⟩ := List.exists_cons_of_length_eq_add_one hdup
      have hlen : (st.useDuplicate a rest).up.duplicatedChunkAddr.length
          = left + (picks 0 qs).length := by
        simpa [useDuplicate, hrest] using hdup
      obtain ⟨st', new, hrun, hext, hnew, hleft, hcur⟩ := ih hans' _ hlen
      refine ⟨st', a :: new, ?_, (useDuplicate_extends st a rest).trans hext, ?_, hleft, ?_⟩
      · rw [run_cons, step_zero env msg hrest, Option.bind_some, hrun]
      · rw [List.length_cons, List.length_cons, hnew]
      · rw [hcur, picks_cons_of_ne (by decide)]
        rfl
    · -- a chunk to be stored
      rw [picks_cons_of_ne (by decide)] at hdup
      obtain ⟨st', new, hrun, hext, hnew, hleft, hcur⟩ :=
        ih hans' (st.storeUnique env msg h) (by simpa using hdup)
      refine ⟨st', _ :: new, ?_, (storeUnique_extends env msg h st).trans hext, ?_, hleft, ?_⟩
      · rw [run_cons, step_one, Option.bind_some, hrun]
      · rw [List.length_cons, List.length_cons, hnew]
      · rw [hcur, picks_cons_self, List.length_cons, storeUnique_currentUniqueNum]
        omega

/-- When the queue holds an address for every zero and no more, the loop uses it up. -/
theorem exists_run (qs : List (UInt8 × Bytes)) (hans : ∀ q ∈ qs, q.1 = 0 ∨ q.1 = 1)
    (st : StoreLoop) (hdup : st.up.duplicatedChunkAddr.length = (picks 0 qs).length) :
    ∃ st' new, st.run env msg qs = some st' ∧ Extends st st' new ∧ new.length = qs.length ∧
      st'.up.duplicatedChunkAddr = [] ∧
      st'.currentUniqueNum = st.currentUniqueNum + (picks 1 qs).length := by
  obtain ⟨st', new, hrun, hext, hnew, hleft, hcur⟩ :=
    exists_run_left env msg qs hans 0 st (hdup.trans (Nat.zero_add _).symm)
  exact ⟨st', new, hrun, hext, hnew, List.length_eq_zero_iff.mp hleft, hcur⟩

/-- **A message that stores nothing.** When every answer was `0`, the loop moves the addresses from
the queue of duplicates to the recipe, and that is all. -/
theorem run_of_zero (qs : List (UInt8 × Bytes)) (hzero : ∀ q ∈ qs, q.1 = 0) {st st' : StoreLoop}
    (hrun : st.run env msg qs = some st') :
    st'.server = st.server ∧ st'.up.containerQueue = st.up.containerQueue ∧
      st'.up.containerBuffer = st.up.containerBuffer ∧
      ∃ new, st'.up.entries = st.up.entries ++ new ∧ new.length = qs.length ∧
        st.up.duplicatedChunkAddr = new ++ st'.up.duplicatedChunkAddr := by
  induction qs generalizing st with
  | nil =>
    obtain rfl := Option.some.inj hrun
    exact ⟨rfl, rfl, rfl, [], by simp, rfl, rfl⟩
  | cons q qs ih =>
    obtain ⟨answer, h⟩ := q
    obtain rfl : answer = 0 := hzero (answer, h) List.mem_cons_self
    rw [run_cons] at hrun
    cases hdup : st.up.duplicatedChunkAddr with
    | nil => simp [step, hdup] at hrun
    -- each known chunk uses up one of the waiting addresses
    | cons a rest =>
      rw [step_zero env msg hdup, Option.bind_some] at hrun
      obtain ⟨hserver, hqueue, hbuffer, new, hentries, hlen, hnew⟩ :=
        ih (fun q hq => hzero q (List.mem_cons_of_mem _ hq)) hrun
      refine ⟨hserver, by simpa [useDuplicate] using hqueue, by simpa [useDuplicate] using hbuffer,
        a :: new, ?_, by simp [hlen], ?_⟩
      · rw [hentries, (useDuplicate_extends st a rest).entries, List.append_assoc]
        rfl
      · rw [List.cons_append, ← hnew]
        simp [useDuplicate]

/-! ## What the loop cuts out -/

/-- A pass counts the chunk that it stores. -/
theorem step_currentUniqueNum {st st' : StoreLoop} {q : UInt8 × Bytes}
    (h : st.step env msg q = some st') :
    st'.currentUniqueNum = if q.1 = 1 then st.currentUniqueNum + 1 else st.currentUniqueNum := by
  rw [step] at h
  split at h
  · rename_i hone
    obtain rfl := Option.some.inj h
    rw [if_pos hone]
    rfl
  · rename_i hother
    rw [if_neg hother]
    split at h
    · split at h
      · obtain rfl := Option.some.inj h
        rfl
      · cases h
    · split at h
      · obtain rfl := Option.some.inj h
        rfl
      · cases h

/-- **The loop has cut `chunks` out of a message**, one for each answer `1`: their bytes come behind those
that the containers had, in their order, and of the entries `new` that it has written for the hashes those at
the answers `1` stand for the chunks. -/
structure Cuts (st st' : StoreLoop) (answers : Bytes) (chunks : List Bytes) (new : List ChunkAddr) :
    Prop where
  bytes : st'.up.containers.flatMap (·.data) = st.up.containers.flatMap (·.data) ++ chunks.flatten
  entries : st'.up.entries = st.up.entries ++ new
  length : new.length = answers.length
  extents : List.Forall₂ st'.up.HasChunk (picks 1 (answers.zip new)) chunks
  kept : ∀ a x, st.up.HasChunk a x → st'.up.HasChunk a x

/-- **A chunk is stored**: its bytes go to the end of the containers, and the entry stands for it. -/
theorem storeUnique_cuts {st : StoreLoop} {x : Bytes} (hash : Bytes) (hcounted : st.up.containerBuffer.Counted)
    (hx : x.length ≤ CHUNKSIZE) (hsize : chunkSlotSize msg st.currentUniqueNum = x.length)
    (hslot : chunkSlot msg st.currentUniqueNum = x) :
    let st' := st.storeUnique env msg hash
    st'.up.containerBuffer.Counted ∧
      st'.up.containers.flatMap (·.data) = st.up.containers.flatMap (·.data) ++ x ∧
      st'.up.HasChunk (storedAddr env msg st) x ∧ ∀ a y, st.up.HasChunk a y → st'.up.HasChunk a y := by
  obtain ⟨hcounted', hroom, hbytes, hkept⟩ := st.up.rollOver_counted env st.server hcounted hx
  generalize hr : st.up.rollOver env x.length st.server = r at *
  obtain ⟨hid, hoffset, hlen⟩ := hcounted'.lastChunk hroom
  have happend := hcounted'.append hroom
  have haddr : storedAddr env msg st = (r.2.containerBuffer.append x x.length).lastChunk x.length := by
    simp only [storedAddr, hsize, hslot, hr]
  have hbuffer : (st.storeUnique env msg hash).up.containerBuffer = r.2.containerBuffer.append x x.length := by
    simp only [storeUnique, hsize, hslot, hr, UploadState.writeRecipeEntry_containerBuffer]
  have hcontainers : (st.storeUnique env msg hash).up.containers =
      r.2.containerQueue.queue ++ [r.2.containerBuffer.append x x.length] := by
    simp only [storeUnique, hsize, hslot, hr, UploadState.containers_writeRecipeEntry]
    rfl
  refine ⟨?_, ?_, ⟨?_, r.2.containerBuffer.append x x.length, ?_, ?_, ?_⟩, fun a y hy => ?_⟩
  · rw [hbuffer]
    exact hcounted'.counted_append hroom
  · rw [hcontainers, ← hbytes, UploadState.containers, List.flatMap_append, List.flatMap_append, happend]
    simp
  · rw [haddr, hlen]
  · rw [hcontainers]
    exact List.mem_append_right _ (List.mem_singleton_self _)
  · rw [haddr, hid, happend]
  · rw [haddr, hoffset, happend, List.drop_left, List.take_length]
  · apply (hkept a y hy).mono
    intro C hC
    rw [hcontainers]
    rcases List.mem_append.mp hC with hC | hC
    · exact ⟨C, List.mem_append_left _ hC, rfl, List.prefix_rfl⟩
    · -- the last container only grows
      obtain rfl := List.mem_singleton.mp hC
      refine ⟨_, List.mem_append_right _ (List.mem_singleton_self _), ?_, ?_⟩
      · rw [happend]
      · rw [happend]
        exact List.prefix_append _ _

/-- **The whole loop** cuts out the chunks of the slots, one after another. -/
theorem run_cuts (qs : List (UInt8 × Bytes)) (hans : ∀ q ∈ qs, q.1 = 0 ∨ q.1 = 1) {st st' : StoreLoop}
    {chunks : List Bytes} (hcounted : st.up.containerBuffer.Counted)
    (hcount : chunks.length = (picks 1 qs).length)
    (hslot : ∀ (u : ℕ) (hu : u < chunks.length), chunks[u].length ≤ CHUNKSIZE ∧
      chunkSlotSize msg (st.currentUniqueNum + u) = chunks[u].length ∧
        chunkSlot msg (st.currentUniqueNum + u) = chunks[u])
    (hrun : st.run env msg qs = some st') : ∃ new, Cuts st st' (qs.map Prod.fst) chunks new := by
  induction qs generalizing st chunks with
  | nil =>
    obtain rfl := Option.some.inj hrun
    obtain rfl : chunks = [] := List.length_eq_zero_iff.mp hcount
    exact ⟨[], by simp, by simp, rfl, .nil, fun _ _ h => h⟩
  | cons q qs ih =>
    obtain ⟨answer, hash⟩ := q
    have hans' : ∀ q ∈ qs, q.1 = 0 ∨ q.1 = 1 := fun q hq => hans q (List.mem_cons_of_mem _ hq)
    rw [run_cons] at hrun
    rcases hans (answer, hash) List.mem_cons_self with rfl | rfl
    · -- a duplicate: only the recipe grows
      rw [picks_cons_of_ne (by decide)] at hcount
      cases hdup : st.up.duplicatedChunkAddr with
      | nil => simp [step, hdup] at hrun
      | cons a rest =>
        rw [step_zero env msg hdup, Option.bind_some] at hrun
        have hcounted' : (st.useDuplicate a rest).up.containerBuffer.Counted := by
          rw [useDuplicate, UploadState.writeRecipeEntry_containerBuffer]
          exact hcounted
        have hcontainers : (st.useDuplicate a rest).up.containers = st.up.containers :=
          UploadState.containers_writeRecipeEntry _ _
        obtain ⟨new, hcuts⟩ := ih hans' hcounted' hcount hslot hrun
        refine ⟨a :: new, ?_, ?_, ?_, ?_, fun b x hb => hcuts.kept b x ?_⟩
        · rw [hcuts.bytes, hcontainers]
        · rw [hcuts.entries, (useDuplicate_extends st a rest).entries, List.append_assoc]
          rfl
        · rw [List.map_cons, List.length_cons, List.length_cons, hcuts.length]
        · rw [List.map_cons, List.zip_cons_cons, picks_cons_of_ne (show (0 : UInt8) ≠ 1 by decide)]
          exact hcuts.extents
        · rw [UploadState.HasChunk, hcontainers]
          exact hb
    · -- a chunk of the message
      rw [picks_cons_self, List.length_cons] at hcount
      obtain ⟨x, chunks, rfl⟩ := List.exists_cons_of_length_eq_add_one hcount
      rw [step_one, Option.bind_some] at hrun
      obtain ⟨hx, hsize, hcut⟩ := hslot 0 (Nat.succ_pos _)
      rw [List.getElem_cons_zero] at hx hsize hcut
      obtain ⟨hcounted', hbytes, hstored, hkept⟩ := storeUnique_cuts env msg hash hcounted hx hsize hcut
      have hnext : ∀ u, (st.storeUnique env msg hash).currentUniqueNum + u = st.currentUniqueNum + (u + 1) := by
        intro u
        rw [storeUnique_currentUniqueNum, Nat.add_assoc, Nat.add_comm 1 u]
      obtain ⟨new, hcuts⟩ := ih hans' hcounted' (Nat.succ.inj hcount) (fun u hu => by
        rw [hnext]
        exact hslot (u + 1) (Nat.succ_lt_succ hu)) hrun
      refine ⟨storedAddr env msg st :: new, ?_, ?_, ?_, ?_, fun b y hb => hcuts.kept b y (hkept b y hb)⟩
      · rw [hcuts.bytes, hbytes, List.flatten_cons, List.append_assoc]
      · rw [hcuts.entries, (storeUnique_extends env msg hash st).entries, List.append_assoc]
        rfl
      · rw [List.map_cons, List.length_cons, List.length_cons, hcuts.length]
      · rw [List.map_cons, List.zip_cons_cons, picks_cons_self]
        exact .cons (hcuts.kept _ _ hstored) hcuts.extents

end StoreLoop

end DedupServer
