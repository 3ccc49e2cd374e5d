import DedupServer.Upload.ReceiveBody

/-! # Uploads up to container ids

Two servers and upload states that are the same but for the ids of some containers (`Twins`), those drawn
from some point on, which one side draws one later. The loop that stores the chunks of a message keeps
them the same (`Twins.run`). -/

namespace DedupServer

open Foundations

variable {env : Env} {d : ℕ}

/-- Related options are both empty, or hold related values. -/
theorem none_or_some_of_rel {α β : Type*} {R : α → β → Prop} {o : Option α} {o' : Option β}
    (h : Option.Rel R o o') :
    o = none ∧ o' = none ∨ ∃ a b, o = some a ∧ o' = some b ∧ R a b := by
  cases h with
  | none => exact .inl ⟨rfl, rfl⟩
  | some hab => exact .inr ⟨_, _, rfl, rfl, hab⟩

/-- **The same container**, up to ids drawn from the `d`-th on: the other side draws them one later. -/
def SameContainer (env : Env) (d : ℕ) (a b : ContainerID) : Prop :=
  a = b ∨ ∃ k, d ≤ k ∧ a = env.uuid k ∧ b = env.uuid (k + 1)

/-- The same address, up to container ids. -/
def SameAddr (env : Env) (d : ℕ) (a b : ChunkAddr) : Prop :=
  SameContainer env d a.containerID b.containerID ∧ a.offset = b.offset ∧ a.size = b.size

/-- The same recipe entries, up to container ids. -/
def SameEntries (env : Env) (d : ℕ) (r r' : RecipeEntryContainer) : Prop :=
  List.Forall₂ (SameAddr env d) r.data r'.data

/-- **Two servers and upload states are the same**, up to container ids. -/
structure Twins (env : Env) (d : ℕ) (sv : Server) (up : UploadState) (sv' : Server)
    (up' : UploadState) : Prop where
  files : sv'.files = sv.files
  index : ∀ k, Option.Rel (SameAddr env d) (sv.allChunks k) (sv'.allChunks k)
  drawn : sv'.drawn = sv.drawn + 1
  since : d ≤ sv.drawn
  dups : List.Forall₂ (SameAddr env d) up.duplicatedChunkAddr up'.duplicatedChunkAddr
  container : SameContainer env d up.containerBuffer.containerID up'.containerBuffer.containerID
  occupied : up'.containerBuffer.occupied = up.containerBuffer.occupied
  capacity : up'.containerBuffer.capacity = up.containerBuffer.capacity
  containers : up'.containerQueue.queue.length = up.containerQueue.queue.length
  containerDone : up'.containerQueue.done = up.containerQueue.done
  recipeBuffer : SameEntries env d up.recipeBuffer up'.recipeBuffer
  recipes : List.Forall₂ (SameEntries env d) up.recipeQueue.queue up'.recipeQueue.queue
  recipeDone : up'.recipeQueue.done = up.recipeQueue.done

namespace Twins

variable {sv sv' : Server} {up up' : UploadState} {st st' : StoreLoop} {a a' : ChunkAddr}

/-- A container that is full is replaced on both sides. -/
theorem rollOver (h : Twins env d sv up sv' up') (size : ℕ) :
    Twins env d (up.rollOver env size sv).1 (up.rollOver env size sv).2
      (up'.rollOver env size sv').1 (up'.rollOver env size sv').2 := by
  unfold UploadState.rollOver
  rw [h.capacity]
  split
  · refine ⟨h.files, h.index, ?_, Nat.le_succ_of_le h.since, h.dups, ?_, rfl, rfl, ?_,
      h.containerDone, h.recipeBuffer, h.recipes, h.recipeDone⟩
    · show sv'.drawn + 1 = sv.drawn + 1 + 1
      rw [h.drawn]
    · right
      refine ⟨sv.drawn, h.since, rfl, ?_⟩
      show env.uuid sv'.drawn = _
      rw [h.drawn]
    · show (up'.containerQueue.queue ++ [up'.containerBuffer]).length =
        (up.containerQueue.queue ++ [up.containerBuffer]).length
      rw [List.length_append, List.length_append, h.containers]
      rfl
  · exact h

/-- A recipe buffer is handed over on both sides. -/
theorem insertRecipeQueue (h : Twins env d sv up sv' up') :
    Twins env d sv up.insertRecipeQueue sv' up'.insertRecipeQueue :=
  { h with recipes := List.rel_append h.recipes (.cons h.recipeBuffer .nil) }

/-- An entry is written on both sides. -/
theorem writeRecipeEntry (h : Twins env d sv up sv' up') (ha : SameAddr env d a a') :
    Twins env d sv (up.writeRecipeEntry a) sv' (up'.writeRecipeEntry a') := by
  unfold UploadState.writeRecipeEntry
  have hnum : up'.recipeBuffer.num = up.recipeBuffer.num := h.recipeBuffer.length_eq.symm
  rw [hnum]
  split
  · -- the buffers are full
    exact { h.insertRecipeQueue with recipeBuffer := List.Forall₂.cons ha .nil }
  · exact { h with recipeBuffer := List.rel_append h.recipeBuffer (.cons ha .nil) }

/-- An address is published on both sides, unless the chunk is known already. -/
theorem addChunk (h : Twins env d sv up sv' up') (k : Bytes) (ha : SameAddr env d a a') :
    Twins env d (sv.addChunk k a) up (sv'.addChunk k a') up' := by
  refine { h with files := ?_, index := ?_, drawn := ?_, since := ?_ }
  · simpa using h.files
  · intro k'
    rw [Server.addChunk_allChunks, Server.addChunk_allChunks]
    obtain ⟨hk, hk'⟩ | ⟨b, b', hk, hk', hb⟩ := none_or_some_of_rel (h.index k')
    · rw [hk, hk', Option.none_or, Option.none_or]
      split
      · exact .some ha
      · exact .none
    · rw [hk, hk']
      exact .some hb
  · simpa using h.drawn
  · simpa using h.since

/-- **One pass of the loop** does the same on both sides. -/
theorem step (h : Twins env d st.server st.up st'.server st'.up)
    (hlast : Option.Rel (SameAddr env d) st.chunkAddr st'.chunkAddr)
    (hnum : st'.currentUniqueNum = st.currentUniqueNum) (msg : DataMsg) (q : UInt8 × Bytes) :
    Option.Rel (fun s s' => Twins env d s.server s.up s'.server s'.up ∧
        Option.Rel (SameAddr env d) s.chunkAddr s'.chunkAddr ∧
        s'.currentUniqueNum = s.currentUniqueNum)
      (st.step env msg q) (st'.step env msg q) := by
  unfold StoreLoop.step
  split
  · -- a chunk is stored
    apply Option.Rel.some
    have hroll := h.rollOver (chunkSlotSize msg st.currentUniqueNum)
    unfold StoreLoop.storeUnique
    rw [hnum]
    dsimp only
    have haddr : SameAddr env d
        (((st.up.rollOver env (chunkSlotSize msg st.currentUniqueNum) st.server).2.containerBuffer.append
          (chunkSlot msg st.currentUniqueNum) (chunkSlotSize msg st.currentUniqueNum)).lastChunk
            (chunkSlotSize msg st.currentUniqueNum))
        (((st'.up.rollOver env (chunkSlotSize msg st.currentUniqueNum) st'.server).2.containerBuffer.append
          (chunkSlot msg st.currentUniqueNum) (chunkSlotSize msg st.currentUniqueNum)).lastChunk
            (chunkSlotSize msg st.currentUniqueNum)) := by
      refine ⟨hroll.container, ?_, rfl⟩
      simp only [Container.lastChunk, Container.append, hroll.occupied]
    refine ⟨?_, .some haddr, rfl⟩
    apply writeRecipeEntry _ haddr
    apply addChunk _ _ haddr
    refine { hroll with occupied := ?_, capacity := ?_ }
    · simp only [Container.append, hroll.occupied]
    · simp only [Container.append, hroll.capacity]
  · split
    · -- a duplicate
      have hdups := h.dups
      cases hd : st.up.duplicatedChunkAddr with
      | nil =>
        rw [hd] at hdups
        cases hd' : st'.up.duplicatedChunkAddr with
        | nil => exact .none
        | cons b rest' =>
          rw [hd'] at hdups
          cases hdups
      | cons b rest =>
        rw [hd] at hdups
        cases hd' : st'.up.duplicatedChunkAddr with
        | nil =>
          rw [hd'] at hdups
          cases hdups
        | cons b' rest' =>
          rw [hd'] at hdups
          obtain ⟨hb, hrest⟩ := List.forall₂_cons.mp hdups
          apply Option.Rel.some
          refine ⟨?_, .some hb, hnum⟩
          apply writeRecipeEntry _ hb
          exact { h with dups := hrest }
    · -- any other answer: the last address again
      obtain ⟨hc, hc'⟩ | ⟨b, b', hc, hc', hb⟩ := none_or_some_of_rel hlast
      · rw [hc, hc']
        exact .none
      · rw [hc, hc']
        exact .some ⟨h.writeRecipeEntry hb, .some hb, hnum⟩

/-- **The loop** does the same on both sides. -/
theorem run (h : Twins env d st.server st.up st'.server st'.up)
    (hlast : Option.Rel (SameAddr env d) st.chunkAddr st'.chunkAddr)
    (hnum : st'.currentUniqueNum = st.currentUniqueNum) (msg : DataMsg)
    (qs : List (UInt8 × Bytes)) :
    Option.Rel (fun s s' => Twins env d s.server s.up s'.server s'.up)
      (st.run env msg qs) (st'.run env msg qs) := by
  induction qs generalizing st st' with
  | nil => exact .some h
  | cons q qs ih =>
    rw [StoreLoop.run_cons, StoreLoop.run_cons]
    obtain ⟨hs, hs'⟩ | ⟨s, s', hs, hs', htwins, hlast', hnum'⟩ :=
      none_or_some_of_rel (h.step hlast hnum msg q)
    · rw [hs, hs']
      exact .none
    · rw [hs, hs']
      exact ih htwins hlast' hnum'

/-! ## Around the loop -/

/-- A query is answered alike. -/
theorem queryAnswer (h : Twins env d sv up sv' up') (hash : Bytes) :
    Conn.queryAnswer sv' hash = Conn.queryAnswer sv hash := by
  unfold Conn.queryAnswer Server.isChunkStored
  obtain ⟨hk, hk'⟩ | ⟨b, b', hk, hk', -⟩ :=
    none_or_some_of_rel (h.index (convertArrayHashToString hash))
  · rw [hk, hk']
  · rw [hk, hk']
    rfl

/-- The addresses of the chunks that are stored are the same. -/
theorem storedAddrs (h : Twins env d sv up sv' up') (hashes : List Bytes) :
    List.Forall₂ (SameAddr env d) (Conn.storedAddrs sv hashes) (Conn.storedAddrs sv' hashes) := by
  induction hashes with
  | nil => exact .nil
  | cons hash hashes ih =>
    simp only [Conn.storedAddrs, Server.isChunkStored, List.filterMap_cons] at ih ⊢
    obtain ⟨hk, hk'⟩ | ⟨b, b', hk, hk', hb⟩ :=
      none_or_some_of_rel (h.index (convertArrayHashToString hash))
    · rw [hk, hk']
      exact ih
    · rw [hk, hk']
      exact .cons hb ih

/-- The last buffers are handed over on both sides. -/
theorem fileEnd (h : Twins env d sv up sv' up') {c c' : Conn} (hc : c.upload = up)
    (hc' : c'.upload = up') :
    Twins env d sv c.receiveFileEnd.upload sv' c'.receiveFileEnd.upload := by
  subst hc hc'
  have hlast : Twins env d sv
      (if c.upload.containerBuffer.occupied ≠ 0 then c.upload.insertContainerQueue else c.upload) sv'
      (if c'.upload.containerBuffer.occupied ≠ 0 then c'.upload.insertContainerQueue
        else c'.upload) := by
    rw [h.occupied]
    split
    · refine { h with containers := ?_ }
      show (c'.upload.containerQueue.queue ++ [c'.upload.containerBuffer]).length =
        (c.upload.containerQueue.queue ++ [c.upload.containerBuffer]).length
      rw [List.length_append, List.length_append, h.containers]
      rfl
    · exact h
  exact { hlast.insertRecipeQueue with containerDone := rfl, recipeDone := rfl }

/-- The buffers and queues are renewed on both sides. -/
theorem reset (h : Twins env d sv up sv' up') {c c' : Conn} (hc : c.upload = up)
    (hc' : c'.upload = up') :
    Twins env d (c.resetUpload env sv).1 (c.resetUpload env sv).2.upload
      (c'.resetUpload env sv').1 (c'.resetUpload env sv').2.upload := by
  subst hc hc'
  refine { h with
    drawn := ?_, since := Nat.le_succ_of_le h.since, container := ?_, occupied := rfl,
    capacity := rfl, containerDone := rfl, recipeBuffer := .nil, recipeDone := rfl }
  · show sv'.drawn + 1 = sv.drawn + 1 + 1
    rw [h.drawn]
  · right
    refine ⟨sv.drawn, h.since, rfl, ?_⟩
    show env.uuid sv'.drawn = _
    rw [h.drawn]

end Twins

end DedupServer
