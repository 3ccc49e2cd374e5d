import DedupServer.Store.Pool

/-! # The store loop on the pool

`DedupServer.Upload.StoreLoop` says that the loop of `receive_file` ends and writes one recipe
entry for each hash. Here it is said what the entries point to (`StoreLoop.Stores`): an answer
`0` takes the next address of the queue of duplicates, an answer `1` the address under which the
chunk from the message has just been stored, in a container of the session. -/

namespace DedupServer

open Foundations

namespace StoreLoop

/-- **The loop's part of the store is sound**: the containers in memory are those the writer holds
(`held`), the queue and the buffer. -/
structure Sound (env : Env) (Good : Bytes → Bytes → Prop) (i : ℕ) (P : Pool)
    (held : List Container) (st : StoreLoop) : Prop where
  sound : P.Sound env Good st.server
  owns : Pool.Owns i P st.server.containers (held ++ st.up.containers)

variable {env : Env} {Good : Bytes → Bytes → Prop} {i : ℕ} {P : Pool} {held : List Container}
  {msg : DataMsg} {st st' : StoreLoop}

/-- **A container is replaced when there is no room.** -/
theorem rollOver_sound {size : Nat} (hsize : size ≤ CHUNKSIZE) {sv : Server} {up : UploadState}
    (hsound : P.Sound env Good sv) (howns : Pool.Owns i P sv.containers (held ++ up.containers))
    (hfresh : env.FreshUpTo (up.rollOver env size sv).1.drawn) :
    ∃ P', Pool.Extends i P sv P' (up.rollOver env size sv).1 ∧
      P'.Sound env Good (up.rollOver env size sv).1 ∧
      Pool.Owns i P' (up.rollOver env size sv).1.containers
        (held ++ (up.rollOver env size sv).2.containers) ∧
      size ≤ (up.rollOver env size sv).2.containerBuffer.capacity := by
  unfold UploadState.rollOver at hfresh ⊢
  split
  · rename_i hroom
    rw [if_pos hroom] at hfresh
    obtain ⟨hsound', hext⟩ := hsound.opened { sv with drawn := sv.drawn + 1 } hfresh rfl rfl rfl i
    refine ⟨_, hext, hsound', ?_, hsize.trans (show CHUNKSIZE ≤ CONTAINERSIZE by decide)⟩
    have howns' := howns.opened hsound hfresh
    rw [List.append_assoc] at howns'
    exact howns'
  · rename_i hroom
    exact ⟨P, .refl i P sv, hsound, howns, not_lt.mp hroom⟩

/-- **Storing one chunk.** Its bytes are appended to a container of the session, and its address is
published and written to the recipe. -/
theorem storeUnique_sound (h : st.Sound env Good i P held) {hash x : Bytes}
    (hlen : hash.length = HASHSIZE) (hgood : Good hash x) (hx : x ≠ [])
    (hxle : x.length ≤ CHUNKSIZE) (hsize : chunkSlotSize msg st.currentUniqueNum = x.length)
    (hslot : chunkSlot msg st.currentUniqueNum = x)
    (hfresh : env.FreshUpTo (st.storeUnique env msg hash).server.drawn) :
    ∃ P', Pool.Extends i P st.server P' (st.storeUnique env msg hash).server ∧
      (st.storeUnique env msg hash).Sound env Good i P' held ∧ P'.At (storedAddr env msg st) x ∧
      P'.OwnedBy i (storedAddr env msg st).containerID := by
  have hdrawn : (st.storeUnique env msg hash).server.drawn
      = (st.up.rollOver env x.length st.server).1.drawn := by simp [storeUnique, hsize]
  rw [hdrawn] at hfresh
  obtain ⟨P₁, hext₁, hsound₁, howns₁, hroom⟩ := rollOver_sound hxle h.sound h.owns hfresh
  generalize hr : st.up.rollOver env x.length st.server = r at *
  -- the buffer is the last of the containers in memory
  have hlive : held ++ r.2.containers
      = (held ++ r.2.containerQueue.queue) ++ [r.2.containerBuffer] := by
    rw [UploadState.containers, List.append_assoc]
  rw [hlive] at howns₁
  have hback := howns₁.backs _ (List.mem_append_right _ (List.mem_singleton_self _))
  have happend := hback.append hroom
  obtain ⟨hsound₂, hext₂⟩ := hsound₁.appended hback.log
    (howns₁.offDisk _ (List.mem_append_right _ (List.mem_singleton_self _))) x
  have howns₂ := howns₁.appended hroom
  -- the address
  have haddr : storedAddr env msg st
      = (r.2.containerBuffer.append x x.length).lastChunk x.length := by
    simp only [storedAddr, hsize, hslot, hr]
  have hoffset : (storedAddr env msg st).offset.toNat = r.2.containerBuffer.data.length ∧
      (storedAddr env msg st).size.toNat = x.length ∧
      (storedAddr env msg st).containerID = r.2.containerBuffer.containerID := by
    have hocc := hback.occupied
    have hcap := hback.capacity
    simp only [CONTAINERSIZE, CHUNKSIZE] at hcap hxle
    rw [haddr, happend, Container.lastChunk]
    refine ⟨?_, ?_, rfl⟩
    · dsimp only
      rw [UInt64.toNat_ofNat_of_lt' (by simp only [UInt64.size]; omega)]
      omega
    · exact UInt64.toNat_ofNat_of_lt' (by simp only [UInt64.size]; omega)
  have hat : Pool.At (P₁.appended r.2.containerBuffer.containerID i r.2.containerBuffer.data x)
      (storedAddr env msg st) x := by
    rw [Pool.At, hoffset.1, hoffset.2.1, hoffset.2.2]
    exact Logs.holds_appended
  have hown : Pool.OwnedBy (P₁.appended r.2.containerBuffer.containerID i
      r.2.containerBuffer.data x) i (storedAddr env msg st).containerID := by
    rw [hoffset.2.2]
    exact ⟨_, Logs.appended_self⟩
  obtain ⟨hsound₃, hext₃⟩ := hsound₂.published hlen hx hat hgood hown
  have hserver : (st.storeUnique env msg hash).server
      = r.1.addChunk (convertArrayHashToString hash) (storedAddr env msg st) := by
    simp only [storeUnique, hsize, hslot, hr, haddr]
  refine ⟨_, ?_, ⟨?_, ?_⟩, hat, hown⟩
  · rw [hserver]
    exact (hext₁.trans hext₂).trans hext₃
  · rw [hserver]
    exact hsound₃
  · rw [hserver, Server.addChunk_containers]
    have hcontainers : held ++ (st.storeUnique env msg hash).up.containers
        = (held ++ r.2.containerQueue.queue) ++ [r.2.containerBuffer.append x x.length] := by
      simp only [storeUnique, hsize, hslot, hr, UploadState.containers_writeRecipeEntry]
      rw [UploadState.containers, List.append_assoc]
    rw [hcontainers]
    exact howns₂

/-- **What the loop has done** when it went from `st` to `st'` over the queries `qs`, with the chunks
`uniq` for the answers `1`: the new recipe entries `new` are the addresses of the duplicates at
the answers `0` and addresses of the chunks at the answers `1`. -/
structure Stores (i : ℕ) (P' : Pool) (st st' : StoreLoop) (qs : List (UInt8 × Bytes))
    (uniq : List Bytes) (new : List ChunkAddr) : Prop where
  entries : st'.up.entries = st.up.entries ++ new
  length : new.length = qs.length
  dups : picks 0 ((qs.map (·.1)).zip new) = st.up.duplicatedChunkAddr
  stored : List.Forall₂ (fun a x => P'.At a x ∧ P'.OwnedBy i a.containerID)
    (picks 1 ((qs.map (·.1)).zip new)) uniq

/-- **The whole loop.** -/
theorem run_sound (qs : List (UInt8 × Bytes)) (hans : ∀ q ∈ qs, q.1 = 0 ∨ q.1 = 1)
    (hlen : ∀ q ∈ qs, q.2.length = HASHSIZE) {P : Pool} {st : StoreLoop}
    (h : st.Sound env Good i P held)
    (hdup : st.up.duplicatedChunkAddr.length = (picks 0 qs).length) {uniq : List Bytes}
    (hgood : List.Forall₂ Good (picks 1 qs) uniq) (hne : ∀ x ∈ uniq, x ≠ [])
    (hle : ∀ x ∈ uniq, x.length ≤ CHUNKSIZE)
    (hslot : ∀ (u : ℕ) (hu : u < uniq.length),
      chunkSlotSize msg (st.currentUniqueNum + u) = uniq[u].length ∧
        chunkSlot msg (st.currentUniqueNum + u) = uniq[u])
    (hrun : st.run env msg qs = some st') (hfresh : env.FreshUpTo st'.server.drawn) :
    ∃ P' new, Pool.Extends i P st.server P' st'.server ∧ st'.Sound env Good i P' held ∧
      Stores i P' st st' qs uniq new := by
  induction qs generalizing st P uniq with
  | nil =>
    obtain rfl := Option.some.inj hrun
    have hnil : st.up.duplicatedChunkAddr = [] := List.length_eq_zero_iff.mp hdup
    refine ⟨P, [], .refl i P _, h, by simp, rfl, by simp [hnil], ?_⟩
    cases hgood
    exact .nil
  | cons q qs ih =>
    obtain ⟨answer, hash⟩ := q
    have hans' : ∀ q ∈ qs, q.1 = 0 ∨ q.1 = 1 := fun q hq => hans q (List.mem_cons_of_mem _ hq)
    have hlen' : ∀ q ∈ qs, q.2.length = HASHSIZE := fun q hq => hlen q (List.mem_cons_of_mem _ hq)
    have h01 : (0 : UInt8) ≠ 1 := by decide
    rw [run_cons] at hrun
    rcases hans (answer, hash) List.mem_cons_self with rfl | rfl
    · -- a duplicate
      rw [picks_cons_self, List.length_cons] at hdup
      obtain ⟨a, rest, hrest⟩ := List.exists_cons_of_length_eq_add_one hdup
      rw [step_zero env msg hrest, Option.bind_some] at hrun
      rw [picks_cons_of_ne h01] at hgood
      have hsound : (st.useDuplicate a rest).Sound env Good i P held := by
        refine ⟨h.sound, ?_⟩
        have : (st.useDuplicate a rest).up.containers = st.up.containers := by
          rw [useDuplicate, UploadState.containers_writeRecipeEntry]
          rfl
        rw [this]
        exact h.owns
      have hdups : (st.useDuplicate a rest).up.duplicatedChunkAddr = rest := by
        simp [useDuplicate]
      obtain ⟨P', new, hext, hsound', hstores⟩ := ih hans' hlen' hsound
        (by rw [hdups]; simpa [hrest] using hdup) hgood hne hle hslot hrun
      refine ⟨P', a :: new, hext, hsound', ?_, by simp [hstores.length], ?_, ?_⟩
      · rw [hstores.entries, (useDuplicate_extends st a rest).entries, List.append_assoc]
        rfl
      · rw [List.map_cons, List.zip_cons_cons, picks_cons_self, hstores.dups, hdups, hrest]
      · rw [List.map_cons, List.zip_cons_cons, picks_cons_of_ne h01]
        exact hstores.stored
    · -- a chunk to be stored
      rw [step_one, Option.bind_some] at hrun
      rw [picks_cons_self] at hgood
      rw [picks_cons_of_ne h01.symm] at hdup
      obtain ⟨x, uniq, hgoodx, htail, rfl⟩ := List.forall₂_cons_left_iff.mp hgood
      obtain ⟨hsize₀, hslot₀⟩ := hslot 0 (by simp)
      simp only [Nat.add_zero, List.getElem_cons_zero] at hsize₀ hslot₀
      obtain ⟨st'', new', hrun', hext', -⟩ := exists_run env msg qs hans'
        (st.storeUnique env msg hash) (by simpa using hdup)
      obtain rfl := Option.some.inj (hrun.symm.trans hrun')
      have hmono : (st.storeUnique env msg hash).server.drawn ≤ st'.server.drawn := hext'.drawn
      have hfresh₁ : env.FreshUpTo (st.storeUnique env msg hash).server.drawn :=
        hfresh.mono hmono
      obtain ⟨P₁, hext₁, hsound₁, hat, hown⟩ := storeUnique_sound h
        (hlen (1, hash) List.mem_cons_self) hgoodx (hne x List.mem_cons_self)
        (hle x List.mem_cons_self) hsize₀ hslot₀ hfresh₁
      obtain ⟨P', new, hext, hsound', hstores⟩ := ih hans' hlen' hsound₁ (by simpa using hdup)
        htail (fun y hy => hne y (List.mem_cons_of_mem _ hy))
        (fun y hy => hle y (List.mem_cons_of_mem _ hy))
        (fun u hu => by
          have := hslot (u + 1) (by simpa using hu)
          rw [List.getElem_cons_succ, show st.currentUniqueNum + (u + 1)
            = (st.storeUnique env msg hash).currentUniqueNum + u by
              rw [storeUnique_currentUniqueNum]; omega] at this
          exact this) hrun
      refine ⟨P', storedAddr env msg st :: new, hext₁.trans hext, hsound', ?_,
        by simp [hstores.length], ?_, ?_⟩
      · rw [hstores.entries, (storeUnique_extends env msg hash st).entries, List.append_assoc]
        rfl
      · rw [List.map_cons, List.zip_cons_cons, picks_cons_of_ne h01.symm, hstores.dups,
          storeUnique_duplicatedChunkAddr]
      · rw [List.map_cons, List.zip_cons_cons, picks_cons_self]
        exact .cons ⟨hext.at_ hat, Pool.Extends.ownedBy hext.grows hown⟩ hstores.stored

end StoreLoop

end DedupServer
