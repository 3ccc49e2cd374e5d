import DedupServer.Store.Records

/-! # No extent is larger than a chunk

Whatever clients send, the server records no address of more than `CHUNKSIZE` bytes: neither in the
chunk index, nor in a queue of duplicates, nor in a recipe (`State.Bounded`). So a block of a recipe
fits into the reply buffer of `send_file` (`Conn.sendBlock_bounded`). -/

namespace DedupServer

open Foundations

variable {env : Env} {s s' : Session} {sv sv' : Server} {σ τ : State}

/-- **The extent is at most a chunk.** -/
def ChunkAddr.Bounded (a : ChunkAddr) : Prop := a.size.toNat ≤ CHUNKSIZE

/-- What the server has recorded for everybody: the chunk index and the recipe files. -/
structure Server.Bounded (sv : Server) : Prop where
  index : ∀ k a, sv.allChunks k = some a → a.Bounded
  recipes : ∀ path file, sv.recipes.lookup path = some file → Records ChunkAddr.Bounded file

/-- What a connection has recorded for its upload: the addresses of duplicates and the recipe. -/
structure Conn.Bounded (c : Conn) : Prop where
  dups : ∀ a ∈ c.upload.duplicatedChunkAddr, a.Bounded
  entries : ∀ a ∈ c.entries, a.Bounded

/-- The same in the loop over the hashes of a message. -/
structure StoreLoop.Bounded (st : StoreLoop) : Prop where
  index : ∀ k a, st.server.allChunks k = some a → a.Bounded
  dups : ∀ a ∈ st.up.duplicatedChunkAddr, a.Bounded
  entries : ∀ a ∈ st.up.entries, a.Bounded

/-! ## The store loop -/

namespace StoreLoop

variable {msg : DataMsg} {st st' : StoreLoop}

/-- **A chunk of the message** is stored under an address of its size. -/
theorem Bounded.storeUnique (h : st.Bounded) (env : Env) (hash : Bytes)
    (hsize : chunkSlotSize msg st.currentUniqueNum ≤ CHUNKSIZE) :
    (st.storeUnique env msg hash).Bounded := by
  -- a chunk of at most `CHUNKSIZE` bytes fits the `uint64_t` of its address
  have haddr : (storedAddr env msg st).Bounded := by
    simp only [ChunkAddr.Bounded, storedAddr, Container.lastChunk]
    rw [UInt64.toNat_ofNat_of_lt']
    · exact hsize
    · simp only [CHUNKSIZE] at hsize
      simp only [UInt64.size]
      omega
  have hext := storeUnique_extends env msg hash st
  refine ⟨?_, ?_, ?_⟩
  · intro k a hk
    obtain ⟨-, -, -, -, -, -, hindex, -⟩ :=
      st.up.rollOver_frame env (chunkSlotSize msg st.currentUniqueNum) st.server
    simp only [StoreLoop.storeUnique, Server.addChunk_allChunks, hindex] at hk
    rcases Option.or_eq_some_iff.mp hk with hold | ⟨-, hnew⟩
    -- either the key was there before or it is the one just added
    · exact h.index k a hold
    · split at hnew
      · obtain rfl := Option.some.inj hnew
        exact haddr
      · cases hnew
  · intro a ha
    rw [storeUnique_duplicatedChunkAddr] at ha
    exact h.dups a ha
  · intro a ha
    rw [hext.entries, List.mem_append, List.mem_singleton] at ha
    rcases ha with ha | rfl
    · exact h.entries a ha
    · exact haddr

/-- A duplicate is recorded under the address from the queue. -/
theorem Bounded.useDuplicate (h : st.Bounded) {a : ChunkAddr} {rest : List ChunkAddr}
    (hdup : st.up.duplicatedChunkAddr = a :: rest) : (st.useDuplicate a rest).Bounded := by
  have hrest : ∀ b ∈ a :: rest, b.Bounded := fun b hb => h.dups b (hdup ▸ hb)
  refine ⟨h.index, ?_, ?_⟩
  · intro b hb
    simp only [StoreLoop.useDuplicate, UploadState.writeRecipeEntry_duplicatedChunkAddr] at hb
    exact hrest b (List.mem_cons_of_mem _ hb)
  · intro b hb
    rw [(useDuplicate_extends st a rest).entries, List.mem_append, List.mem_singleton] at hb
    rcases hb with hb | rfl
    · exact h.entries b hb
    · exact hrest b List.mem_cons_self

/-- **A message records no address of more than a chunk.** -/
theorem Bounded.run (qs : List (UInt8 × Bytes)) (hans : ∀ q ∈ qs, q.1 = 0 ∨ q.1 = 1)
    {n : ℕ} (hcount : st.currentUniqueNum + (picks 1 qs).length = n)
    (hslot : ∀ u < n, chunkSlotSize msg u ≤ CHUNKSIZE) (h : st.Bounded)
    (hrun : st.run env msg qs = some st') : st'.Bounded := by
  induction qs generalizing st with
  | nil =>
    obtain rfl := Option.some.inj hrun
    exact h
  | cons q qs ih =>
    obtain ⟨answer, hash⟩ := q
    have hans' : ∀ q ∈ qs, q.1 = 0 ∨ q.1 = 1 := fun q hq => hans q (List.mem_cons_of_mem _ hq)
    rw [run_cons] at hrun
    rcases hans (answer, hash) List.mem_cons_self with rfl | rfl
    · -- a duplicate
      rw [picks_cons_of_ne (by decide)] at hcount
      cases hdup : st.up.duplicatedChunkAddr with
      | nil => simp [step, hdup] at hrun
      | cons a rest =>
        rw [step_zero env msg hdup, Option.bind_some] at hrun
        have hcount' : (st.useDuplicate a rest).currentUniqueNum + (picks 1 qs).length = n :=
          hcount
        exact ih hans' hcount' (h.useDuplicate hdup) hrun
    · -- a chunk of the message
      rw [picks_cons_self, List.length_cons] at hcount
      rw [step_one, Option.bind_some] at hrun
      refine ih hans' ?_ (h.storeUnique env hash (hslot _ (by omega))) hrun
      rw [storeUnique_currentUniqueNum]
      omega

end StoreLoop

/-! ## One step of a session -/

/-- **An `UPLOADBODY` message** records no address of more than a chunk. -/
theorem Conn.Bounded.body (h : s.conn.Bounded) (hsv : sv.Bounded) (hpc : s.conn.pc = .body)
    (hasked : s.conn.Asked) {msg : DataMsg} {uniq next : List Bytes}
    (hfits : s.conn.Fits msg uniq next) {st : StoreLoop}
    (hrun : StoreLoop.run env msg ⟨sv, s.conn.upload, none, 0⟩ s.conn.queries = some st) :
    (s.conn.answerQuery msg st).Bounded ∧ st.server.Bounded := by
  obtain ⟨st', new, hrun', hext, -, hnil, -, -⟩ := Conn.exists_receiveBody env sv hasked hfits
  obtain rfl := Option.some.inj (hrun.symm.trans hrun')
  -- what the body state holds open is part of the entries of the connection
  have hentries : ∀ a ∈ s.conn.upload.entries, a ∈ s.conn.entries := by
    intro a ha
    simp only [UploadState.entries, Conn.entries, hpc] at ha ⊢
    rcases List.mem_append.mp ha with ha | ha
    · simp [ha]
    · simp [ha]
  have hslot : ∀ u < uniq.length, chunkSlotSize msg u ≤ CHUNKSIZE := by
    intro u hu
    rw [(hfits.chunkSlot hasked hu).1]
    exact (hfits.ragged.2 _ (List.getElem_mem hu)).2
  have hst : st.Bounded := by
    refine StoreLoop.Bounded.run s.conn.queries hasked.answer (by rw [hfits.count, Nat.zero_add])
      hslot ⟨hsv.index, h.dups, ?_⟩ hrun
    intro a ha
    exact h.entries a (hentries a ha)
  -- the addresses for the next batch are read from the index
  refine ⟨⟨?_, ?_⟩, hst.index, ?_⟩
  · intro a ha
    simp only [Conn.answerQuery, hnil, List.nil_append] at ha
    obtain ⟨k, -, hk⟩ := List.mem_filterMap.mp ha
    exact hst.index _ a hk
  · intro a ha
    rw [Conn.entries_answerQuery hpc hext] at ha
    rcases List.mem_append.mp ha with ha | ha
    · exact h.entries a ha
    · apply hst.entries a
      rw [hext.entries]
      exact List.mem_append_right _ ha
  · rw [hext.recipes]
    exact hsv.recipes

/-- The writers change neither the duplicates nor the entries. -/
theorem Conn.Bounded.alike {c c' : Conn} (h : c.Bounded) (ha : c.Alike c') : c'.Bounded :=
  ⟨ha.dups ▸ h.dups, ha.entries ▸ h.entries⟩

/-- **A step of a session records no address of more than a chunk.** -/
theorem Moves.bounded (h : Moves env sv s sv' s') (hphase : Phase env s) (hsv : sv.Bounded)
    (hs : s.conn.Bounded) : sv'.Bounded ∧ s'.conn.Bounded := by
  cases h with
  | client => exact ⟨hsv, hs⟩
  | server hserved =>
    cases hserved with
    | quiet hquiet =>
      refine ⟨hsv, ?_, ?_⟩
      · rw [Session.serverMoved, hquiet.upload]
        exact hs.dups
      · rw [Session.serverMoved, hquiet.entries]
        exact hs.entries
    | unique hpc | refuse hpc | accept hpc =>
      refine ⟨hsv, hs.dups, ?_⟩
      simpa [Session.serverMoved, Conn.entries, hpc] using hs.entries
    | register hpc hdormant =>
      refine ⟨⟨hsv.index, hsv.recipes⟩, hs.dups, ?_⟩
      simpa [Session.serverMoved, Conn.entries, hpc, RecipeWriter.held, hdormant.recipeWriter]
        using hs.entries
    | body hpc hup hupl hfits honest hrun =>
      obtain ⟨hconn, hserver⟩ := hs.body hsv hpc hupl.asked hfits hrun
      exact ⟨hserver, hconn⟩
    | fileEnd hpc hupl =>
      refine ⟨hsv, ?_, ?_⟩
      · intro a ha
        apply hs.dups a
        simp only [Session.serverMoved, Conn.receiveFileEnd] at ha
        split at ha <;> exact ha
      · rw [Session.serverMoved, Conn.entries_receiveFileEnd hpc]
        exact hs.entries
    -- after the reset the entries are what the recipe writer has written
    | reset hpc hacc hwriting hserves hdata hrecipe =>
      refine ⟨⟨hsv.index, hsv.recipes⟩, hs.dups, ?_⟩
      have hjoined : (s.conn.resetUpload env sv).2.Joined := hwriting.resetUpload hdata hrecipe
      rw [Session.serverMoved, hjoined.entries (by simp [Conn.resetUpload])]
      have hwritten := hwriting.entries_eq_written hpc hrecipe
      intro a ha
      apply hs.entries a
      rw [hwritten]
      exact ha
  | dataWriter hstep =>
    refine ⟨?_, hs.alike (Conn.alike_dataWriterStep hstep)⟩
    obtain ⟨-, -, -, -, rfl, -⟩ | ⟨-, -, -, rfl, -⟩ | ⟨-, -, rfl, -⟩ :=
      Conn.dataWriterStep_cases hstep
    all_goals exact ⟨hsv.index, hsv.recipes⟩
  | recipeWriter hstep =>
    -- only the recipe writer changes the files: it writes entries of this connection over holes
    refine ⟨⟨?_, ?_⟩, hs.alike (hphase.alike_recipeWriterStep hstep)⟩
    · obtain ⟨-, rfl, -⟩ | ⟨-, -, -, -, -, -, rfl, -⟩ | ⟨-, -, -, -, -, rfl, -⟩ |
        ⟨-, -, -, -, rfl, -⟩ := Conn.recipeWriterStep_cases hstep
      all_goals exact hsv.index
    · have hhole : holeAddr.Bounded := Nat.zero_le _
      exact Records.recipeWriter hsv.recipes hhole hphase (fun _ => hs.entries) hstep

/-! ## All states -/

/-- **No extent is larger than a chunk**, wherever it is recorded. -/
structure State.Bounded (σ : State) : Prop where
  shared : σ.shared.Bounded
  locals : ∀ i s, σ.locals i = some s → s.conn.Bounded

theorem State.bounded_init : State.init.Bounded where
  shared := by
    constructor
    · intro k a hk
      cases hk
    · intro path file hfile
      cases hfile
  locals := by
    intro i s hs
    cases hs

/-- One step. -/
theorem State.Bounded.step {ℓ : Label ℕ Act Arg} (h : σ.Bounded) (hphase : σ.InPhase env)
    (hs : Step (sessions env) σ ℓ τ) : τ.Bounded := by
  cases hs with
  -- a new connection holds no address at all
  | @spawn i arg hnone =>
    have hnew : (Session.connect env σ.shared arg).2.conn.Bounded := by
      constructor
      · simp [Session.connect, Conn.init, UploadState.newContainer, UploadState.newRecipe]
      · simp [Session.connect, Conn.init, Conn.entries, UploadState.newContainer,
          UploadState.newRecipe, RecipeWriter.held, BlockQueue.empty]
    refine ⟨⟨h.shared.index, h.shared.recipes⟩, fun j s hj => ?_⟩
    by_cases hij : j = i
    · subst hij
      obtain rfl := Option.some.inj ((Config.moved_locals_self _ _ _ _).symm.trans hj)
      exact hnew
    · rw [Config.moved_locals_of_ne _ hij] at hj
      exact h.locals j s hj
  -- the acting session keeps its own bounds, the others are not moved
  | @act i a l l' sh hl hact =>
    obtain ⟨hshared, hconn⟩ :=
      ((hphase i l hl).act hact).2.bounded (hphase i l hl) h.shared (h.locals i l hl)
    refine ⟨hshared, fun j s hj => ?_⟩
    by_cases hij : j = i
    · subst hij
      obtain rfl := Option.some.inj ((Config.moved_locals_self _ _ _ _).symm.trans hj)
      exact hconn
    · rw [Config.moved_locals_of_ne _ hij] at hj
      exact h.locals j s hj

/-- **In every state that can be reached.** -/
theorem State.bounded_of_reaches {ok : Condition} (hr : Reaches (sessions env) ok State.init σ) :
    σ.InPhase env ∧ σ.Bounded :=
  hr.invariant (I := fun σ : State => σ.InPhase env ∧ σ.Bounded)
    (fun _ _ _ h hs _ => ⟨h.1.step hs, h.2.step h.1 hs⟩) ⟨State.inPhase_init env, State.bounded_init⟩

/-! ## A block of the recipe fits into a message -/

namespace Conn

variable {name outData outData' : Bytes} {outHeader outHeader' : DataMsgHeader}
  {recipe next : Option ℕ} {msg : DataMsg}

/-- The position of the stream on the recipe is that of a record, unless reading has failed. -/
def AtRecord (recipe : Option ℕ) : Prop := ∀ pos ∈ recipe, ∃ k, pos = 4 + sizeofChunkAddr * k

/-- **Bounded extents stay in the buffer**, when there is room for as many chunks. -/
theorem foldl_readExtent_bounded (sv : Server) {as : List ChunkAddr} (h : ∀ a ∈ as, a.Bounded)
    (st : Bytes × ℕ)
    (hst : st.2 + CHUNKSIZE * as.length ≤ st.1.length) :
    (as.foldl (readExtent sv) st).1.length = st.1.length ∧
      (as.foldl (readExtent sv) st).2 ≤ st.2 + CHUNKSIZE * as.length := by
  induction as generalizing st with
  | nil => exact ⟨rfl, by simp⟩
  | cons a as ih =>
    have ha : a.size.toNat ≤ CHUNKSIZE := h a List.mem_cons_self
    have hext : (extentOnDisk sv a).length ≤ CHUNKSIZE :=
      (List.length_take_le _ _).trans ha
    rw [List.length_cons, Nat.mul_succ] at hst
    have hlen : (readExtent sv st a).1.length = st.1.length := length_overwrite (by omega)
    have hnext : (readExtent sv st a).2 = st.2 + a.size.toNat := rfl
    obtain ⟨hlen', hoff⟩ := ih (fun b hb => h b (List.mem_cons_of_mem _ hb)) (readExtent sv st a)
      (by rw [hlen, hnext]; omega)
    rw [List.foldl_cons, List.length_cons, Nat.mul_succ]
    exact ⟨hlen'.trans hlen, by rw [hnext] at hoff; omega⟩

/-- **A block of bounded extents** fits the reply buffer, and leaves it as large as it is. -/
theorem foldl_readExtent_fits (sv : Server) {as : List ChunkAddr} (h : ∀ a ∈ as, a.Bounded)
    (hle : as.length ≤ BATCHSIZE) (hroom : outData.length = CHUNKSIZE * BATCHSIZE) :
    (as.foldl (readExtent sv) (outData, 0)).1.length = CHUNKSIZE * BATCHSIZE ∧
      (as.foldl (readExtent sv) (outData, 0)).2 ≤ CHUNKSIZE * BATCHSIZE := by
  have hfits : 0 + CHUNKSIZE * as.length ≤ CHUNKSIZE * BATCHSIZE := by
    rw [Nat.zero_add]
    exact Nat.mul_le_mul_left _ hle
  obtain ⟨hlen, hoff⟩ := foldl_readExtent_bounded sv h (outData, 0) (by rw [hroom]; exact hfits)
  exact ⟨hlen.trans hroom, hoff.trans hfits⟩

/-- The next block of a recipe consists of at most `BATCHSIZE` records. -/
theorem blockEntries_bounded (name : Bytes) (hrec : ∀ path file,
    sv.recipes.lookup path = some file → Records ChunkAddr.Bounded file) (hat : AtRecord recipe) :
    (∀ a ∈ blockEntries (readRecipe sv name recipe), a.Bounded) ∧
      (blockEntries (readRecipe sv name recipe)).length ≤ BATCHSIZE := by
  cases recipe with
  | none => exact ⟨by simp [readRecipe, blockEntries], by simp [readRecipe, blockEntries]⟩
  | some pos =>
    obtain ⟨k, rfl⟩ := hat pos rfl
    cases hl : sv.recipes.lookup name with
    | none => exact ⟨by simp [readRecipe, blockEntries, hl], by simp [readRecipe, blockEntries, hl]⟩
    | some file =>
      obtain ⟨n, as, rfl, has⟩ := hrec name _ hl
      have hlen := length_encodeTotalChunkNum n
      have hblock : readRecipe sv name (some (4 + sizeofChunkAddr * k))
          = encodeEntries ((as.drop k).take BATCHSIZE) := by
        rw [readRecipe, hl, Option.getD_some, ← hlen, List.drop_length_add_append,
          drop_encodeEntries, recipeBlockSize, take_encodeEntries]
      rw [hblock, blockEntries_encodeEntries]
      refine ⟨fun a ha => has a (List.mem_of_mem_drop (List.mem_of_mem_take ha)), ?_⟩
      exact List.length_take_le _ _

/-- **A pass of the loop of `send_file`** keeps the reply buffer as large as it is, and sends no more
than it holds. -/
theorem sendBlock_bounded (hrec : ∀ path file, sv.recipes.lookup path = some file →
    Records ChunkAddr.Bounded file) (hroom : outData.length = CHUNKSIZE * BATCHSIZE)
    (hat : AtRecord recipe)
    (h : sendBlock sv name outData outHeader recipe = some (outData', outHeader', next, msg)) :
    outData'.length = CHUNKSIZE * BATCHSIZE ∧ msg.data.length ≤ CHUNKSIZE * BATCHSIZE ∧
      AtRecord next := by
  obtain ⟨hbounded, hle⟩ := blockEntries_bounded name hrec hat
  obtain ⟨hlen, hoff⟩ := foldl_readExtent_fits sv hbounded hle hroom
  simp only [sendBlock] at h
  split at h
  · cases h
  · simp only [Option.some.injEq, Prod.mk.injEq] at h
    obtain ⟨rfl, -, rfl, rfl⟩ := h
    refine ⟨hlen, (List.length_take_le _ _).trans hoff, ?_⟩
    intro pos hpos
    split at hpos
    · obtain ⟨pos', hpos', rfl⟩ := Option.map_eq_some_iff.mp hpos
      obtain ⟨k, rfl⟩ := hat pos' hpos'
      exact ⟨k + BATCHSIZE, by rw [recipeBlockSize, Nat.mul_add, Nat.add_assoc]⟩
    · cases hpos

end Conn

end DedupServer
