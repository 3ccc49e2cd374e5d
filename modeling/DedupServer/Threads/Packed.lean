import DedupServer.Foundations.Tiling
import DedupServer.Threads.Written

/-! # How containers are filled

The containers of an upload that have been pushed, and the one being filled (`Pipeline.buffers`), change in
few ways (`Pipeline.Fills`): a chunk is copied to the end of the last one, with the address that is handed out
for it (`Pipeline.handedOut`), a new one is begun, or an empty one is left out at the end of the file. So the
addresses handed out for a container tile it (`Pipeline.Tight`). -/

namespace DedupServer

open Foundations

namespace Pipeline

variable {env : Env} {σ σ' : Pipeline} {a : PipelineAct} {handed : List (ChunkAddr × Bytes)}

/-- **The address that a step hands out**, and the chunk it is the address of. -/
def handedOut (σ : Pipeline) : PipelineAct → List (ChunkAddr × Bytes)
  | .receiver =>
    match σ.pc with
    | .copying loop _ =>
      let size := chunkSlotSize loop.msg loop.currentUniqueNum
      [((σ.containerBuffer.append size).lastChunk size, chunkSlot loop.msg loop.currentUniqueNum)]
    | _ => []
  | _ => []

/-- **The address handed out is the one that is published** and that becomes the next recipe entry. -/
theorem copyChunk_of_store {loop : HashLoop} {hash : Bytes} {heap : Heap} {e : ChunkAddr × Bytes}
    (hpc : σ.pc = .copying loop hash) (hout : σ.handedOut .receiver = [e])
    (hstore : σ.heap.store σ.containerBuffer.data σ.containerBuffer.occupied e.2 = some heap) :
    σ.copyChunk loop hash = { σ with
      heap := heap
      containerBuffer := σ.containerBuffer.append (chunkSlotSize loop.msg loop.currentUniqueNum)
      server := σ.server.addChunk (convertArrayHashToString hash) e.1
      pc := .entering { loop with currentUniqueNum := loop.currentUniqueNum + 1 } e.1 } := by
  unfold handedOut at hout
  rw [hpc] at hout
  obtain rfl := (List.singleton_inj.mp hout).symm
  unfold copyChunk
  rw [hstore]

/-- **The containers of the upload** that have been pushed, and the one being filled, with their bytes. -/
def buffers (σ : Pipeline) : List (ContainerID × Bytes) :=
  σ.pushed ++ σ.filling.map (containerValue σ.heap)

/-- The names of the containers. -/
theorem map_fst_buffers (σ : Pipeline) :
    σ.buffers.map Prod.fst = σ.pushed.map Prod.fst ++ σ.filling.map ContainerStruct.containerID := by
  rw [buffers, List.map_append, List.map_map]
  rfl

/-- Nothing has changed when nothing was pushed and nobody wrote to the container being filled. -/
theorem buffers_congr (hpushed : σ'.pushed = σ.pushed) (hfilling : σ'.filling = σ.filling)
    (hheap : ∀ c ∈ σ.filling, σ'.heap c.data = σ.heap c.data) : σ'.buffers = σ.buffers := by
  rw [buffers, buffers, hpushed, hfilling]
  apply congrArg
  apply List.map_congr_left
  intro c hc
  rw [containerValue, containerValue, Heap.read_congr (hheap c hc)]

/-- **What a step does to the containers**: it leaves them, or pushes one that is not empty, or leaves out an
empty one, or begins one, or copies a chunk to the last one. -/
inductive Fills (σ : Pipeline) (a : PipelineAct) (σ' : Pipeline) : Prop
  | keep (hout : σ.handedOut a = []) (hcontainer : σ'.containerBuffer = σ.containerBuffer)
      (hpushed : ∀ f ∈ σ'.pushed, f ∈ σ.pushed ∨ 0 < f.2.length ∧ f.2.length ≤ CONTAINERSIZE)
      (hbuffers : σ'.buffers = σ.buffers)
  | drop (id : ContainerID) (hout : σ.handedOut a = [])
      (hcontainer : σ'.containerBuffer = σ.containerBuffer) (hpushed : σ'.pushed = σ.pushed)
      (hbuffers : σ.buffers = σ'.buffers ++ [(id, [])])
  | renew (id : ContainerID) (hout : σ.handedOut a = [])
      (hcontainer : σ'.containerBuffer.occupied + σ'.containerBuffer.capacity = CONTAINERSIZE)
      (hpushed : σ'.pushed = σ.pushed) (hbuffers : σ'.buffers = σ.buffers ++ [(id, [])])
  | copy (e : ChunkAddr × Bytes) (content : Bytes) (hout : σ.handedOut a = [e])
      (hcontainer : σ'.containerBuffer.occupied + σ'.containerBuffer.capacity = CONTAINERSIZE)
      (hpushed : σ'.pushed = σ.pushed)
      (hbuffers : σ.buffers = σ.pushed ++ [(e.1.containerID, content)])
      (hbuffers' : σ'.buffers = σ.pushed ++ [(e.1.containerID, content ++ e.2)])
      (hoffset : e.1.offset.toNat = content.length) (hsize : e.1.size.toNat = e.2.length)

/-! ## Steps of the serving thread -/

/-- The container being filled. -/
theorem filling_of_holds (hc : σ.pc.HoldsContainer = true) : σ.filling = [σ.containerBuffer] := by
  rw [filling, hc]
  rfl

/-- As many bytes are read as the container says. -/
theorem Memory.length_read (h : Memory σ) {c : ContainerStruct} (hc : c ∈ σ.containers) :
    (σ.heap.read c.data c.occupied).length = c.occupied := by
  obtain ⟨block, hblock, hsize⟩ :=
    h.owned.live (containerBlock c) (List.mem_append_left _ (List.mem_map_of_mem hc))
  have hle := h.occupied c hc
  have hlength := block.length_data
  have hread : σ.heap.read c.data c.occupied = block.data.take c.occupied := by
    rw [Heap.read, show σ.heap c.data = some block from hblock]
    rfl
  rw [hread, List.length_take, hlength, hsize]
  exact min_eq_left hle

/-- The container being filled is one of those in memory. -/
theorem containerBuffer_mem (hc : σ.pc.HoldsContainer = true) : σ.containerBuffer ∈ σ.containers :=
  (Memory.perm_filling hc).mem_iff.mpr List.mem_cons_self

/-- **A container is pushed**, with something in it. -/
theorem fills_insertContainerQueue {pc : ReceiverPc} (hmem : Memory σ)
    (hout : σ.handedOut a = []) (hc : σ.pc.HoldsContainer = true) (hc' : pc.HoldsContainer = false)
    (hsome : 0 < σ.containerBuffer.occupied) (hstep : σ.insertContainerQueue pc = some σ') :
    Fills σ a σ' := by
  obtain ⟨q, hpush, rfl⟩ := Option.map_eq_some_iff.mp hstep
  refine .keep hout rfl (fun f hf => ?_) ?_
  · rcases List.mem_append.mp hf with hf | hf
    · exact .inl hf
    · obtain rfl := List.mem_singleton.mp hf
      right
      have hlength := hmem.length_read (containerBuffer_mem hc)
      refine ⟨hsome.trans_eq hlength.symm, hlength.trans_le ?_⟩
      exact hmem.occupied _ (containerBuffer_mem hc)
  · -- the container goes from the one being filled to those pushed
    rw [buffers, buffers, filling_of_holds hc]
    simp [filling, hc']

/-- Steps of the serving thread that do not touch the containers. -/
theorem fills_of_pc {pc : ReceiverPc} (hout : σ.handedOut a = []) (hpc : σ'.pc = pc)
    (hc : pc.HoldsContainer = σ.pc.HoldsContainer) (hcontainer : σ'.containerBuffer = σ.containerBuffer)
    (hpushed : σ'.pushed = σ.pushed) (hheap : ∀ c ∈ σ.filling, σ'.heap c.data = σ.heap c.data) :
    Fills σ a σ' := by
  refine .keep hout hcontainer (fun f hf => .inl (hpushed ▸ hf)) (buffers_congr hpushed ?_ hheap)
  rw [filling, filling, hpc, hc, hcontainer]

/-- **The head of the loop.** A container is pushed when a chunk has no room, so it is not empty. -/
theorem fills_loopHead {loop : HashLoop} (h : Receiving σ) (hmem : Memory σ)
    (hpc : σ.pc = .looping loop) (hstep : σ.loopHead loop = some σ') : Fills σ .receiver σ' := by
  have hout : σ.handedOut .receiver = [] := by
    rw [handedOut, hpc]
  have hholds : σ.pc.HoldsContainer = true := by
    rw [hpc]
    rfl
  have hready : Ready loop loop.rest σ.duplicatedChunkAddr := by
    have hat := h.ready
    rw [hpc] at hat
    exact hat
  unfold Pipeline.loopHead at hstep
  split at hstep
  · obtain rfl := Option.some.inj hstep
    exact fills_of_pc hout rfl (by rw [hpc]; rfl) rfl rfl fun _ _ => rfl
  · rename_i answer hash rest hrest
    dsimp only at hstep
    split at hstep
    · rename_i hone
      split at hstep
      · rename_i hfull
        refine fills_insertContainerQueue hmem hout hholds rfl ?_ hstep
        -- there would be room for any chunk in an empty container
        have hcapacity := h.capacity hholds
        have hslot := hready.slot
        rw [hrest, hone, picks_cons_self, List.length_cons] at hslot
        have hsize := (hslot loop.currentUniqueNum (by omega)).1
        simp only [CONTAINERSIZE, CHUNKSIZE] at hcapacity hsize
        omega
      · obtain rfl := Option.some.inj hstep
        exact fills_of_pc hout rfl (by rw [hpc]; rfl) rfl rfl fun _ _ => rfl
    · split at hstep
      · split at hstep
        · obtain rfl := Option.some.inj hstep
          exact fills_of_pc hout rfl (by rw [hpc]; rfl) rfl rfl fun _ _ => rfl
        · obtain rfl := Option.some.inj hstep
          exact fills_of_pc hout rfl rfl rfl rfl fun _ _ => rfl
      · split at hstep
        · obtain rfl := Option.some.inj hstep
          exact fills_of_pc hout rfl (by rw [hpc]; rfl) rfl rfl fun _ _ => rfl
        · obtain rfl := Option.some.inj hstep
          exact fills_of_pc hout rfl rfl rfl rfl fun _ _ => rfl

/-- **A chunk is copied** to the end of the container, and the address is that of the copy. -/
theorem fills_copyChunk {loop : HashLoop} {hash : Bytes} (h : Receiving σ) (hmem : Memory σ)
    (hpc : σ.pc = .copying loop hash) : Fills σ .receiver (σ.copyChunk loop hash) := by
  have hready := h.ready
  rw [hpc] at hready
  obtain ⟨hready, hroom⟩ := hready
  have hholds : σ.pc.HoldsContainer = true := by
    rw [hpc]
    rfl
  have hcapacity := h.capacity hholds
  have hslot := hready.slot
  rw [picks_cons_self, List.length_cons] at hslot
  obtain ⟨hsize, hlength⟩ := hslot loop.currentUniqueNum (by omega)
  obtain ⟨hoccupied, hrest⟩ := ContainerStruct.append_of_le hcapacity hroom
  let size := chunkSlotSize loop.msg loop.currentUniqueNum
  let e : ChunkAddr × Bytes :=
    ((σ.containerBuffer.append size).lastChunk size, chunkSlot loop.msg loop.currentUniqueNum)
  -- the address handed out and the bytes it stands for
  have hout : σ.handedOut .receiver = [e] := by
    rw [handedOut, hpc]
  have hle : σ.containerBuffer.occupied + e.2.length ≤ CONTAINERSIZE := by
    show σ.containerBuffer.occupied + (chunkSlot loop.msg loop.currentUniqueNum).length ≤ CONTAINERSIZE
    rw [hlength]
    omega
  have howned := hmem.owned_container (Memory.perm_filling hholds)
  obtain ⟨heap, hstore⟩ := howned.exists_store hle
  obtain ⟨-, hread, -⟩ := howned.store hstore
  rw [copyChunk_of_store hpc hout hstore]
  -- the offset of the chunk is what was occupied before it
  have hoffset : (σ.containerBuffer.append size).occupied - size = σ.containerBuffer.occupied := by
    rw [hoccupied]
    exact Nat.add_sub_cancel _ _
  refine .copy e (σ.heap.read σ.containerBuffer.data σ.containerBuffer.occupied) hout ?_ rfl ?_ ?_ ?_ ?_
  · show (σ.containerBuffer.append size).occupied + (σ.containerBuffer.append size).capacity = CONTAINERSIZE
    rw [hoccupied, hrest]
    omega
  · rw [buffers, filling_of_holds hholds]
    rfl
  · rw [hlength] at hread
    rw [buffers, filling_of_holds rfl, ← hread, ← hoccupied]
    rfl
  -- offset and size both fit in their `uint64_t`
  · rw [hmem.length_read (containerBuffer_mem hholds)]
    show (UInt64.ofNat ((σ.containerBuffer.append size).occupied - size)).toNat = σ.containerBuffer.occupied
    rw [hoffset]
    apply UInt64.toNat_ofNat_of_lt'
    simp only [CONTAINERSIZE, UInt64.size] at *
    omega
  · show (UInt64.ofNat size).toNat = (chunkSlot loop.msg loop.currentUniqueNum).length
    rw [hlength]
    apply UInt64.toNat_ofNat_of_lt'
    simp only [CHUNKSIZE, UInt64.size] at *
    omega

/-- **An entry is written**, to the block of the recipe buffer. -/
theorem fills_enterAddr {loop : HashLoop} {chunkAddr : ChunkAddr} (hmem : Memory σ)
    (hpc : σ.pc = .entering loop chunkAddr) (hstep : σ.enterAddr loop chunkAddr = some σ') :
    Fills σ .receiver σ' := by
  have hout : σ.handedOut .receiver = [] := by
    rw [handedOut, hpc]
  unfold Pipeline.enterAddr at hstep
  split at hstep
  · obtain ⟨q, -, rfl⟩ := Option.map_eq_some_iff.mp hstep
    exact fills_of_pc hout rfl (by rw [hpc]; rfl) rfl rfl fun _ _ => rfl
  · have hholds : σ.pc.HoldsRecipe = true := by
      rw [hpc]
      rfl
    split at hstep
    · obtain rfl := Option.some.inj hstep
      exact fills_of_pc hout rfl rfl rfl rfl fun _ _ => rfl
    · rename_i heap hstore
      obtain rfl := Option.some.inj hstep
      have hperm := Memory.perm_fillingRecipe hholds
      obtain ⟨-, -, hother⟩ := (hmem.owned_recipe hperm).store hstore
      refine fills_of_pc hout rfl (by rw [hpc]; rfl) rfl rfl fun c hc => ?_
      exact hother _ ((hmem.ne_recipe hperm).2 c (List.mem_append_left _ (List.mem_append_left _ hc)))

/-- **One step of `receive_file`.** -/
theorem fills_receiver (h : Receiving σ) (hmem : Memory σ) (hstep : σ.receiverStep = some σ') :
    Fills σ .receiver σ' := by
  unfold receiverStep at hstep
  split at hstep
  · rename_i loop hpc
    exact fills_loopHead h hmem hpc hstep
  · rename_i loop hash hpc
    obtain rfl := Option.some.inj hstep
    exact fills_copyChunk h hmem hpc
  · rename_i loop chunkAddr hpc
    exact fills_enterAddr hmem hpc hstep
  · rename_i msg hpc
    obtain rfl := Option.some.inj hstep
    exact fills_of_pc (by rw [handedOut, hpc]) rfl (by rw [hpc]; rfl) rfl rfl fun _ _ => rfl
  · rename_i hpc
    have hout : σ.handedOut .receiver = [] := by
      rw [handedOut, hpc]
    have hholds : σ.pc.HoldsContainer = true := by
      rw [hpc]
      rfl
    split at hstep
    · rename_i hsome
      exact fills_insertContainerQueue hmem hout hholds rfl (Nat.pos_of_ne_zero hsome) hstep
    · rename_i hempty
      obtain rfl := Option.some.inj hstep
      refine .drop σ.containerBuffer.containerID hout rfl rfl ?_
      -- nothing is read from a container that is empty
      have hnone : σ.heap.read σ.containerBuffer.data σ.containerBuffer.occupied = [] := by
        rw [not_not.mp hempty]
        exact List.take_zero
      rw [buffers, buffers, filling_of_holds hholds, List.map_singleton, containerValue, hnone]
      simp [filling, ReceiverPc.HoldsContainer]
  · rename_i hpc
    obtain ⟨q, -, rfl⟩ := Option.map_eq_some_iff.mp hstep
    exact fills_of_pc (by rw [handedOut, hpc]) rfl (by rw [hpc]; rfl) rfl rfl fun _ _ => rfl
  · rename_i hpc
    obtain rfl := Option.some.inj hstep
    exact fills_of_pc (by rw [handedOut, hpc]) rfl (by rw [hpc]; rfl) rfl rfl fun _ _ => rfl
  · rename_i hpc
    obtain rfl := Option.some.inj hstep
    exact fills_of_pc (by rw [handedOut, hpc]) rfl (by rw [hpc]; rfl) rfl rfl fun _ _ => rfl
  · rename_i hpc
    split at hstep
    · obtain rfl := Option.some.inj hstep
      exact fills_of_pc (by rw [handedOut, hpc]) rfl (by rw [hpc]; rfl) rfl rfl fun _ _ => rfl
    · cases hstep
  · rename_i hpc
    split at hstep
    · obtain rfl := Option.some.inj hstep
      exact fills_of_pc (by rw [handedOut, hpc]) rfl (by rw [hpc]; rfl) rfl rfl fun _ _ => rfl
    · cases hstep
  · cases hstep

/-- **A new buffer.** -/
theorem fills_malloc {p : ℕ} {block : Block} (hmem : Memory σ)
    (hstep : σ.mallocStep env p block = some σ') : Fills σ (.malloc p block) σ' := by
  unfold mallocStep at hstep
  split at hstep
  · rename_i loop hash hpc
    split at hstep
    · obtain ⟨heap, -, rfl⟩ := Option.map_eq_some_iff.mp hstep
      refine .renew (env.uuid σ.server.drawn) rfl (Nat.zero_add _) rfl ?_
      have hnone : heap.read p 0 = [] := List.take_zero
      rw [buffers, buffers, filling_of_holds rfl, List.map_singleton, containerValue, hnone]
      simp [filling, hpc, ReceiverPc.HoldsContainer]
    · cases hstep
  · rename_i loop chunkAddr hpc
    split at hstep
    · obtain ⟨heap, hmalloc, rfl⟩ := Option.map_eq_some_iff.mp hstep
      obtain ⟨-, hother⟩ := hmem.owned.malloc hmalloc
      refine fills_of_pc rfl rfl (by rw [hpc]; rfl) rfl rfl fun c hc => ?_
      exact hother _ ((hmem.ne_malloc hmalloc).1 c
        (List.mem_append_left _ (List.mem_append_left _ hc)))
    · cases hstep
  · cases hstep

/-! ## Steps of the writers -/

/-- **One step of `write_container`.** It frees another block than that of the container being filled. -/
theorem fills_container (hmem : Memory σ) (hstep : σ.containerStep = some σ') :
    Fills σ .containerThread σ' := by
  unfold containerStep at hstep
  split at hstep
  -- only the `free` touches the heap, and of a container that the receiver no longer holds
  · split at hstep
    · cases hstep
    · obtain rfl := Option.some.inj hstep
      exact fills_of_pc rfl rfl rfl rfl rfl fun _ _ => rfl
    · obtain rfl := Option.some.inj hstep
      exact fills_of_pc rfl rfl rfl rfl rfl fun _ _ => rfl
  · obtain rfl := Option.some.inj hstep
    exact fills_of_pc rfl rfl rfl rfl rfl fun _ _ => rfl
  · split at hstep
    · obtain rfl := Option.some.inj hstep
      exact fills_of_pc rfl rfl rfl rfl rfl fun _ _ => rfl
    · obtain rfl := Option.some.inj hstep
      exact fills_of_pc rfl rfl rfl rfl rfl fun _ _ => rfl
  · rename_i hw
    split at hstep
    · obtain rfl := Option.some.inj hstep
      exact fills_of_pc rfl rfl rfl rfl rfl fun _ _ => rfl
    · rename_i heap hfree
      obtain rfl := Option.some.inj hstep
      have hperm := Memory.perm_spent hw
      obtain ⟨-, hother⟩ := (hmem.owned_container hperm).free hfree
      refine fills_of_pc rfl rfl rfl rfl rfl fun c hc => ?_
      exact hother _ ((hmem.ne_container hperm).1 c (List.mem_append_left _ hc))
  · cases hstep

/-- **One step of `write_recipe`.** -/
theorem fills_recipe (hmem : Memory σ) (hstep : σ.recipeStep = some σ') :
    Fills σ .recipeThread σ' := by
  unfold recipeStep at hstep
  dsimp only at hstep
  split at hstep
  -- of this thread's steps too, only the `free` touches the heap
  · obtain rfl := Option.some.inj hstep
    exact fills_of_pc rfl rfl rfl rfl rfl fun _ _ => rfl
  · split at hstep
    · cases hstep
    · obtain rfl := Option.some.inj hstep
      exact fills_of_pc rfl rfl rfl rfl rfl fun _ _ => rfl
    · obtain rfl := Option.some.inj hstep
      exact fills_of_pc rfl rfl rfl rfl rfl fun _ _ => rfl
  · split at hstep
    · obtain rfl := Option.some.inj hstep
      exact fills_of_pc rfl rfl rfl rfl rfl fun _ _ => rfl
    · obtain rfl := Option.some.inj hstep
      exact fills_of_pc rfl rfl rfl rfl rfl fun _ _ => rfl
  · rename_i hw
    split at hstep
    · obtain rfl := Option.some.inj hstep
      exact fills_of_pc rfl rfl rfl rfl rfl fun _ _ => rfl
    · rename_i heap hfree
      obtain rfl := Option.some.inj hstep
      have hperm := Memory.perm_spentRecipe hw
      obtain ⟨-, hother⟩ := (hmem.owned_recipe hperm).free hfree
      refine fills_of_pc rfl rfl rfl rfl rfl fun c hc => ?_
      exact hother _ ((hmem.ne_recipe hperm).2 c
        (List.mem_append_left _ (List.mem_append_left _ hc)))
  · obtain rfl := Option.some.inj hstep
    exact fills_of_pc rfl rfl rfl rfl rfl fun _ _ => rfl
  · cases hstep

/-! ## Every step -/

/-- **Every step fills the containers** in one of these ways. -/
theorem fills_of_step (h : Receiving σ) (hmem : Memory σ)
    (hstep : (pipelineMachine env).step σ a = some σ') : Fills σ a σ' := by
  cases a with
  | message msg =>
    simp only [pipelineMachine, Pipeline.step] at hstep
    split at hstep
    · rename_i hpc
      obtain rfl := Option.some.inj hstep
      unfold Pipeline.message
      split
      · exact fills_of_pc rfl rfl (by rw [hpc]; rfl) rfl rfl fun _ _ => rfl
      · exact fills_of_pc rfl rfl (by rw [hpc]; rfl) rfl rfl fun _ _ => rfl
    · cases hstep
  | receiver => exact fills_receiver h hmem hstep
  | malloc p block => exact fills_malloc hmem hstep
  | containerThread => exact fills_container hmem hstep
  | recipeThread => exact fills_recipe hmem hstep
  | others server =>
    obtain rfl := Option.some.inj hstep
    exact fills_of_pc rfl rfl rfl rfl rfl fun _ _ => rfl

/-- A chunk where it was put. -/
def placed (e : ChunkAddr × Bytes) : Placed ContainerID UInt8 :=
  ⟨e.1.containerID, e.1.offset.toNat, e.2⟩

/-- **The containers are packed without gaps**, by the addresses handed out so far. -/
structure Tight (σ : Pipeline) (handed : List (ChunkAddr × Bytes)) : Prop where
  capacity : σ.containerBuffer.occupied + σ.containerBuffer.capacity = CONTAINERSIZE
  packed : Packed (handed.map placed) σ.buffers
  size : ∀ e ∈ handed, e.1.size.toNat = e.2.length
  chunk : ∀ e ∈ handed, e.2 ≠ []
  pushed : ∀ f ∈ σ.pushed, 0 < f.2.length ∧ f.2.length ≤ CONTAINERSIZE

/-- **Every step keeps the containers tight**, when no chunk is empty and every container has a name of its
own. -/
theorem Tight.fills (h : Tight σ handed) (hf : Fills σ a σ') (hnamed : Named env σ)
    (hnamed' : Named env σ') (hchunk : ∀ e ∈ σ.handedOut a, e.2 ≠ []) :
    Tight σ' (handed ++ σ.handedOut a) := by
  cases hf with
  | keep hout hcontainer hpushed hbuffers =>
    rw [hout, List.append_nil]
    refine ⟨hcontainer ▸ h.capacity, hbuffers ▸ h.packed, h.size, h.chunk, fun f hf => ?_⟩
    exact (hpushed f hf).elim (h.pushed f) id
  | drop id hout hcontainer hpushed hbuffers =>
    rw [hout, List.append_nil]
    refine ⟨hcontainer ▸ h.capacity, ?_, h.size, h.chunk, hpushed ▸ h.pushed⟩
    apply (hbuffers ▸ h.packed).drop
    intro p hp
    obtain ⟨e, he, rfl⟩ := List.mem_map.mp hp
    exact h.chunk e he
  | renew id hout hcontainer hpushed hbuffers =>
    rw [hout, List.append_nil]
    refine ⟨hcontainer, ?_, h.size, h.chunk, hpushed ▸ h.pushed⟩
    rw [hbuffers]
    apply h.packed.renew
    -- the new name is none of the others
    have hnodup := hnamed'.nodup
    rw [← map_fst_buffers, hbuffers, List.map_append] at hnodup
    intro hid
    exact (List.nodup_append.mp hnodup).2.2 id hid id List.mem_cons_self rfl
  | copy e content hout hcontainer hpushed hbuffers hbuffers' hoffset hsize =>
    have hnodup := hnamed.nodup
    rw [← map_fst_buffers, hbuffers, List.map_append] at hnodup
    have hother : e.1.containerID ∉ σ.pushed.map Prod.fst := by
      intro hid
      exact (List.nodup_append.mp hnodup).2.2 _ hid _ List.mem_cons_self rfl
    rw [hout] at hchunk ⊢
    refine ⟨hcontainer, ?_, ?_, ?_, hpushed ▸ h.pushed⟩
    · have hput := (hbuffers ▸ h.packed).put hother e.2
      rw [hbuffers', List.map_append, List.map_singleton, placed, hoffset]
      exact hput
    · intro e' he'
      rcases List.mem_append.mp he' with he' | he'
      · exact h.size e' he'
      · rw [List.mem_singleton.mp he']
        exact hsize
    · intro e' he'
      rcases List.mem_append.mp he' with he' | he'
      · exact h.chunk e' he'
      · exact hchunk e' he'

/-- **An upload whose chunks are not empty**: what it is promised (`uploads`), and every chunk that is stored
has at least one byte. -/
def storesChunks : Machine.Condition (Pipeline × List (ChunkAddr × Bytes)) PipelineAct :=
  fun s a t => uploads s.1 a t.1 ∧ ∀ e ∈ s.1.handedOut a, 0 < e.2.length

/-- Nothing has been handed out when an upload begins. -/
theorem Begun.tight (h : Begun env σ) : Tight σ [] := by
  have hholds : σ.pc.HoldsContainer = true := by
    rw [h.pc]
    rfl
  refine ⟨?_, ?_, ?_, ?_, ?_⟩
  · rw [h.container.1, h.container.2, Nat.zero_add]
  · have hnone : σ.heap.read σ.containerBuffer.data 0 = [] := List.take_zero
    rw [buffers, filling_of_holds hholds, h.pushed, List.map_singleton, containerValue, h.container.1,
      hnone]
    exact Packed.nil _
  · intro e he
    cases he
  · intro e he
    cases he
  · rw [h.pushed]
    intro f hf
    cases hf

/-- **It holds along every run.** -/
theorem Tight.run {s t : Pipeline × List (ChunkAddr × Bytes)} (h : Tight s.1 s.2)
    (hinv : Invariant env s.1)
    (hrun : ((pipelineMachine env).logged handedOut).Run storesChunks s t)
    (hfresh : env.FreshUpTo t.1.server.drawn) : Tight t.1 t.2 := by
  -- as for the invariant, the ids need to be different up to those drawn at the end
  have hall : Receiving t.1 ∧ Memory t.1 ∧
      (t.1.server.drawn ≤ t.1.server.drawn → Invariant env t.1 ∧ Tight t.1 t.2) := by
    refine hrun.invariant (I := fun u => Receiving u.1 ∧ Memory u.1 ∧
      (u.1.server.drawn ≤ t.1.server.drawn → Invariant env u.1 ∧ Tight u.1 u.2)) ?_
      ⟨hinv.receiving, hinv.memory, fun _ => ⟨hinv, h⟩⟩
    rintro u a v ⟨hreceiving, hmemory, hat⟩ hstep ⟨hok, hchunk⟩
    obtain ⟨hstep, hlog⟩ := Machine.logged_step_eq_some hstep
    obtain ⟨hreceiving', hm⟩ := moves_of_step hreceiving hmemory hstep hok
    refine ⟨hreceiving', hmemory.moves hm, fun hle => ?_⟩
    obtain ⟨hinv, htight⟩ := hat (hm.drawn.trans hle)
    have hinv' := hinv.moves hreceiving' hm (hfresh.mono hle)
    refine ⟨hinv', ?_⟩
    rw [hlog]
    apply htight.fills (fills_of_step hreceiving hmemory hstep) hinv.named hinv'.named
    intro e he
    exact List.ne_nil_of_length_pos (hchunk e he)
  exact (hall.2.2 le_rfl).2

end Pipeline

end DedupServer
