import DedupServer.Threads.Pipeline

/-! # Who owns a buffer

Every buffer of an upload is with the serving thread, in a queue, or with a writer
(`Pipeline.containers`, `Pipeline.recipes`), and nobody else has its block (`Pipeline.Memory`). What a step
does to the buffers is one of a few moves (`Pipeline.Moves`, `Pipeline.moves_of_step`): a buffer changes
hands, is filled by its owner, saved or freed. -/

namespace DedupServer

open Foundations

/-- The serving thread has a container to fill. -/
def ReceiverPc.HoldsContainer : ReceiverPc → Bool
  | .renewing _ _ | .lastRecipe | .containerDone | .recipeDone | .joinRecipe | .joinData | .joined => false
  | _ => true

/-- The serving thread has a recipe buffer to fill. -/
def ReceiverPc.HoldsRecipe : ReceiverPc → Bool
  | .renewingRecipe _ _ | .containerDone | .recipeDone | .joinRecipe | .joinData | .joined => false
  | _ => true

/-- How far the end of the upload has got: `set_done` of either queue, and either join. -/
def ReceiverPc.closing : ReceiverPc → ℕ
  | .recipeDone => 1
  | .joinRecipe => 2
  | .joinData => 3
  | .joined => 4
  | _ => 0

/-- The container the writer has taken and not written yet. -/
def ContainerThread.held : ContainerThread → List ContainerStruct
  | .opening c | .writing c => [c]
  | _ => []

/-- The container the writer has written and not freed yet. -/
def ContainerThread.spent : ContainerThread → List ContainerStruct
  | .freeing c => [c]
  | _ => []

/-- The recipe buffer the writer has taken and not written yet. -/
def RecipeThread.held : RecipeThread → List RecipeStruct
  | .writing _ _ r => [r]
  | _ => []

/-- The recipe buffer the writer has written and not freed yet. -/
def RecipeThread.spent : RecipeThread → List RecipeStruct
  | .freeing _ _ r => [r]
  | _ => []

/-- `write_recipe` has left its loop. -/
def RecipeThread.Ended : RecipeThread → Prop
  | .patching _ | .finished => True
  | _ => False

/-- The counters of a container that has room do not wrap. -/
theorem ContainerStruct.append_of_le {c : ContainerStruct} {size : ℕ}
    (h : c.occupied + c.capacity = CONTAINERSIZE) (hsize : size ≤ c.capacity) :
    (c.append size).occupied = c.occupied + size ∧ (c.append size).capacity = c.capacity - size := by
  simp only [CONTAINERSIZE] at h
  constructor
  · apply u32_of_lt
    omega
  · apply sub32_of_le hsize
    omega

namespace Pipeline

variable {env : Env} {σ σ' : Pipeline}

/-- The container being filled. -/
def filling (σ : Pipeline) : List ContainerStruct :=
  if σ.pc.HoldsContainer then [σ.containerBuffer] else []

/-- The recipe buffer being filled. -/
def fillingRecipe (σ : Pipeline) : List RecipeStruct :=
  if σ.pc.HoldsRecipe then [σ.recipeBuffer] else []

/-- The containers pushed and not written. -/
def pending (σ : Pipeline) : List ContainerStruct := σ.containerThread.held ++ σ.containerQueue.queue

/-- The recipe buffers pushed and not written. -/
def pendingRecipes (σ : Pipeline) : List RecipeStruct := σ.recipeThread.held ++ σ.recipeQueue.queue

/-- All containers in memory. -/
def containers (σ : Pipeline) : List ContainerStruct :=
  σ.filling ++ σ.pending ++ σ.containerThread.spent

/-- All recipe buffers in memory. -/
def recipes (σ : Pipeline) : List RecipeStruct :=
  σ.fillingRecipe ++ σ.pendingRecipes ++ σ.recipeThread.spent

/-- The block of a container. -/
def containerBlock (c : ContainerStruct) : ℕ × ℕ := (c.data, CONTAINERSIZE)

/-- The block of a recipe buffer. -/
def recipeBlock (r : RecipeStruct) : ℕ × ℕ := (r.data, recipeBufferSize)

/-- **The blocks of all buffers.** -/
def blocks (σ : Pipeline) : List (ℕ × ℕ) :=
  σ.containers.map containerBlock ++ σ.recipes.map recipeBlock

/-- **Every buffer has a block of its own**, and nothing has gone wrong in memory. -/
structure Memory (σ : Pipeline) : Prop where
  sound : σ.faulted = false
  owned : σ.heap.Owned σ.blocks
  occupied : ∀ c ∈ σ.containers, c.occupied ≤ CONTAINERSIZE
  num : ∀ r ∈ σ.recipes, r.num ≤ BATCHSIZE

/-- **What can happen to the buffers.** -/
inductive Moves (env : Env) (σ : Pipeline) : Pipeline → Prop
  /-- The serving thread does something that does not concern the buffers. -/
  | tick {pc : ReceiverPc} (hashList : List Bytes) (answers : Bytes) (addrs : List ChunkAddr)
      (hc : pc.HoldsContainer = σ.pc.HoldsContainer) (hr : pc.HoldsRecipe = σ.pc.HoldsRecipe)
      (hclosing : pc.closing = σ.pc.closing) :
      Moves env σ { σ with
        pc := pc, hashList := hashList, answers := answers, duplicatedChunkAddr := addrs }
  | pushContainer {pc : ReceiverPc} {q : BlockQueueState ContainerStruct}
      (hpush : σ.containerQueue.push σ.containerBuffer = some q)
      (hc : σ.pc.HoldsContainer = true) (hc' : pc.HoldsContainer = false)
      (hr : pc.HoldsRecipe = σ.pc.HoldsRecipe) (hopen : σ.pc.closing = 0) (hopen' : pc.closing = 0) :
      Moves env σ { σ with
        containerQueue := q
        pushed := σ.pushed ++ [containerValue σ.heap σ.containerBuffer]
        pc := pc }
  | pushRecipe {pc : ReceiverPc} {q : BlockQueueState RecipeStruct}
      (hpush : σ.recipeQueue.push σ.recipeBuffer = some q)
      (hr : σ.pc.HoldsRecipe = true) (hr' : pc.HoldsRecipe = false)
      (hc : pc.HoldsContainer = σ.pc.HoldsContainer) (hopen : σ.pc.closing = 0)
      (hopen' : pc.closing = 0) :
      Moves env σ { σ with recipeQueue := q, pc := pc }
  /-- The last container is empty and not pushed. -/
  | drop {pc : ReceiverPc} (hc' : pc.HoldsContainer = false)
      (hr : pc.HoldsRecipe = σ.pc.HoldsRecipe) (hclosing : pc.closing = σ.pc.closing) :
      Moves env σ { σ with pc := pc }
  | copy {pc : ReceiverPc} {heap : Heap} {bs : Bytes} (size : ℕ) (key : Bytes) (chunkAddr : ChunkAddr)
      (hstore : σ.heap.store σ.containerBuffer.data σ.containerBuffer.occupied bs = some heap)
      (hc : σ.pc.HoldsContainer = true) (hc' : pc.HoldsContainer = true)
      (hr : pc.HoldsRecipe = σ.pc.HoldsRecipe) (hclosing : pc.closing = σ.pc.closing)
      (hoccupied : (σ.containerBuffer.append size).occupied ≤ CONTAINERSIZE) :
      Moves env σ { σ with
        heap := heap
        containerBuffer := σ.containerBuffer.append size
        server := σ.server.addChunk key chunkAddr
        pc := pc }
  | enter {pc : ReceiverPc} {heap : Heap} {chunkAddr : ChunkAddr}
      (hstore : σ.heap.store σ.recipeBuffer.data (σ.recipeBuffer.num * sizeofChunkAddr)
        (encodeChunkAddr chunkAddr) = some heap)
      (hr : σ.pc.HoldsRecipe = true) (hr' : pc.HoldsRecipe = true)
      (hc : pc.HoldsContainer = σ.pc.HoldsContainer) (hclosing : pc.closing = σ.pc.closing)
      (hnum : σ.recipeBuffer.num < BATCHSIZE) :
      Moves env σ { σ with
        heap := heap
        recipeBuffer := { σ.recipeBuffer with num := σ.recipeBuffer.num + 1 }
        entries := σ.entries ++ [chunkAddr]
        pc := pc }
  | newContainer {pc : ReceiverPc} {heap : Heap} {p : ℕ} {block : Block}
      (hmalloc : σ.heap.malloc p block = some heap) (hsize : block.size = CONTAINERSIZE)
      (hc : σ.pc.HoldsContainer = false) (hc' : pc.HoldsContainer = true)
      (hr : pc.HoldsRecipe = σ.pc.HoldsRecipe) (hclosing : pc.closing = σ.pc.closing) :
      Moves env σ { σ with
        heap := heap
        server := { σ.server with drawn := σ.server.drawn + 1 }
        containerBuffer := ⟨env.uuid σ.server.drawn, 0, CONTAINERSIZE, p⟩
        pc := pc }
  | newRecipe {pc : ReceiverPc} {heap : Heap} {p : ℕ} {block : Block}
      (hmalloc : σ.heap.malloc p block = some heap) (hsize : block.size = recipeBufferSize)
      (hr : σ.pc.HoldsRecipe = false) (hr' : pc.HoldsRecipe = true)
      (hc : pc.HoldsContainer = σ.pc.HoldsContainer) (hclosing : pc.closing = σ.pc.closing) :
      Moves env σ { σ with heap := heap, recipeBuffer := ⟨0, p⟩, pc := pc }
  | containerDone (hpc : σ.pc = .containerDone) :
      Moves env σ { σ with containerQueue := σ.containerQueue.setDone, pc := .recipeDone }
  | recipeDone (hpc : σ.pc = .recipeDone) :
      Moves env σ { σ with recipeQueue := σ.recipeQueue.setDone, pc := .joinRecipe }
  | joinRecipe (hpc : σ.pc = .joinRecipe) (hfin : σ.recipeThread = .finished) :
      Moves env σ { σ with pc := .joinData }
  | joinData (hpc : σ.pc = .joinData) (hfin : σ.containerThread = .finished) :
      Moves env σ { σ with pc := .joined }
  | fetchContainer {c : ContainerStruct} {q : BlockQueueState ContainerStruct}
      (hw : σ.containerThread = .popping) (hpop : σ.containerQueue.pop = .got c q) :
      Moves env σ { σ with containerQueue := q, containerThread := .opening c }
  | finishContainers (hw : σ.containerThread = .popping) (hpop : σ.containerQueue.pop = .finished) :
      Moves env σ { σ with containerThread := .finished }
  | openContainer {c : ContainerStruct} (hw : σ.containerThread = .opening c) :
      Moves env σ { σ with
        server := { σ.server with containers := σ.server.containers.insert c.containerID [] }
        containerThread := .writing c }
  | saveContainer {c : ContainerStruct} (hw : σ.containerThread = .writing c) :
      Moves env σ { σ with
        server := { σ.server with
          containers := σ.server.containers.insert c.containerID (σ.heap.read c.data c.occupied) }
        saved := σ.saved ++ [containerValue σ.heap c]
        containerThread := .freeing c }
  | freeContainer {c : ContainerStruct} {heap : Heap} (hw : σ.containerThread = .freeing c)
      (hfree : σ.heap.free c.data = some heap) :
      Moves env σ { σ with heap := heap, containerThread := .popping }
  | openRecipe (hw : σ.recipeThread = .opening) :
      Moves env σ { σ with
        server := Conn.saveRecipe σ.server σ.recipeNameHash (encodeTotalChunkNum 0)
        recipeThread := .popping 4 0 }
  | fetchRecipe {pos total : ℕ} {r : RecipeStruct} {q : BlockQueueState RecipeStruct}
      (hw : σ.recipeThread = .popping pos total) (hpop : σ.recipeQueue.pop = .got r q) :
      Moves env σ { σ with recipeQueue := q, recipeThread := .writing pos total r }
  | finishRecipes {pos total : ℕ} (hw : σ.recipeThread = .popping pos total)
      (hpop : σ.recipeQueue.pop = .finished) :
      Moves env σ { σ with recipeThread := .patching total }
  | saveRecipe {pos total : ℕ} {r : RecipeStruct} (hw : σ.recipeThread = .writing pos total r) :
      Moves env σ { σ with
        server := Conn.saveRecipe σ.server σ.recipeNameHash
          (writeAt ((σ.server.recipes.lookup σ.recipeNameHash).getD []) pos
            (σ.heap.read r.data (r.num * sizeofChunkAddr)))
        recipeThread := .freeing (pos + (σ.heap.read r.data (r.num * sizeofChunkAddr)).length)
          (u32 (total + r.num)) r }
  | freeRecipe {pos total : ℕ} {r : RecipeStruct} {heap : Heap}
      (hw : σ.recipeThread = .freeing pos total r) (hfree : σ.heap.free r.data = some heap) :
      Moves env σ { σ with heap := heap, recipeThread := .popping pos total }
  | patch {total : ℕ} (hw : σ.recipeThread = .patching total) :
      Moves env σ { σ with
        server := Conn.saveRecipe σ.server σ.recipeNameHash
          (writeAt ((σ.server.recipes.lookup σ.recipeNameHash).getD []) 0
            (encodeTotalChunkNum total))
        recipeThread := .finished }
  | others {server : Server} (hdrawn : σ.server.drawn ≤ server.drawn)
      (hrecipe : server.recipes.lookup σ.recipeNameHash = σ.server.recipes.lookup σ.recipeNameHash)
      (hcontainers : ∀ id ∈ σ.pushed.map Prod.fst,
        server.containers.lookup id = σ.server.containers.lookup id) :
      Moves env σ { σ with server := server, foreign := server.containers }

/-- The containers depend on who fills one, on the queue and on the writer. -/
theorem containers_congr (hc : σ'.pc.HoldsContainer = σ.pc.HoldsContainer)
    (hbuffer : σ'.containerBuffer = σ.containerBuffer) (hpending : σ'.pending = σ.pending)
    (hspent : σ'.containerThread.spent = σ.containerThread.spent) : σ'.containers = σ.containers := by
  rw [containers, filling, hc, hbuffer, hpending, hspent, containers, filling]

/-- So do the recipe buffers. -/
theorem recipes_congr (hr : σ'.pc.HoldsRecipe = σ.pc.HoldsRecipe)
    (hbuffer : σ'.recipeBuffer = σ.recipeBuffer) (hpending : σ'.pendingRecipes = σ.pendingRecipes)
    (hspent : σ'.recipeThread.spent = σ.recipeThread.spent) : σ'.recipes = σ.recipes := by
  rw [recipes, fillingRecipe, hr, hbuffer, hpending, hspent, recipes, fillingRecipe]

namespace Memory

/-- Buffers that stay where they are. -/
theorem of_eq (h : Memory σ) (hheap : σ'.heap = σ.heap) (hsound : σ'.faulted = σ.faulted)
    (hc : σ'.containers = σ.containers) (hr : σ'.recipes = σ.recipes) : Memory σ' where
  sound := hsound.trans h.sound
  owned := by
    rw [hheap, blocks, hc, hr]
    exact h.owned
  occupied := hc ▸ h.occupied
  num := hr ▸ h.num

/-- Buffers that change hands, or are forgotten. -/
theorem of_subperm (h : Memory σ) (hheap : σ'.heap = σ.heap) (hsound : σ'.faulted = σ.faulted)
    (hc : σ'.containers.Subperm σ.containers) (hr : σ'.recipes.Subperm σ.recipes) : Memory σ' where
  sound := hsound.trans h.sound
  owned := by
    rw [hheap]
    exact h.owned.subperm ((subperm_map _ hc).append (subperm_map _ hr))
  occupied := fun c hmem => h.occupied c (hc.subset hmem)
  num := fun r hmem => h.num r (hr.subset hmem)

/-- The blocks, one container first. -/
theorem owned_container (h : Memory σ) {c : ContainerStruct} {rest : List ContainerStruct}
    (hc : σ.containers.Perm (c :: rest)) :
    σ.heap.Owned (containerBlock c :: (rest.map containerBlock ++ σ.recipes.map recipeBlock)) :=
  h.owned.subperm ((hc.map containerBlock).append_right _).symm.subperm

/-- The blocks, one recipe buffer first. -/
theorem owned_recipe (h : Memory σ) {r : RecipeStruct} {rest : List RecipeStruct}
    (hr : σ.recipes.Perm (r :: rest)) :
    σ.heap.Owned (recipeBlock r :: (σ.containers.map containerBlock ++ rest.map recipeBlock)) := by
  apply h.owned.subperm
  apply List.Perm.subperm
  refine List.Perm.trans ?_ ((hr.map recipeBlock).append_left _).symm
  exact List.perm_middle.symm

/-- The container being filled. -/
theorem perm_filling (hc : σ.pc.HoldsContainer = true) :
    σ.containers.Perm (σ.containerBuffer :: (σ.pending ++ σ.containerThread.spent)) := by
  rw [containers, filling, hc]
  exact .refl _

/-- The recipe buffer being filled. -/
theorem perm_fillingRecipe (hr : σ.pc.HoldsRecipe = true) :
    σ.recipes.Perm (σ.recipeBuffer :: (σ.pendingRecipes ++ σ.recipeThread.spent)) := by
  rw [recipes, fillingRecipe, hr]
  exact .refl _

/-- The container to be freed. -/
theorem perm_spent {c : ContainerStruct} (hw : σ.containerThread = .freeing c) :
    σ.containers.Perm (c :: (σ.filling ++ σ.pending)) := by
  rw [containers, hw]
  exact List.perm_append_singleton _ _

/-- The recipe buffer to be freed. -/
theorem perm_spentRecipe {pos total : ℕ} {r : RecipeStruct}
    (hw : σ.recipeThread = .freeing pos total r) :
    σ.recipes.Perm (r :: (σ.fillingRecipe ++ σ.pendingRecipes)) := by
  rw [recipes, hw]
  exact List.perm_append_singleton _ _

/-- The buffers in another heap. -/
theorem of_perm (hsound : σ'.faulted = false) {cs : List ContainerStruct} {rs : List RecipeStruct}
    (hc : σ'.containers.Perm cs) (hr : σ'.recipes.Perm rs)
    (howned : σ'.heap.Owned (cs.map containerBlock ++ rs.map recipeBlock))
    (hoccupied : ∀ c ∈ cs, c.occupied ≤ CONTAINERSIZE) (hnum : ∀ r ∈ rs, r.num ≤ BATCHSIZE) :
    Memory σ' where
  sound := hsound
  owned := howned.subperm ((hc.map _).append (hr.map _)).subperm
  occupied := fun c hmem => hoccupied c (hc.mem_iff.mp hmem)
  num := fun r hmem => hnum r (hr.mem_iff.mp hmem)

/-- The container being filled goes to the end of the queue. -/
theorem subperm_push {q : BlockQueueState ContainerStruct}
    (hqueue : q.queue = σ.containerQueue.queue ++ [σ.containerBuffer])
    (hc : σ.pc.HoldsContainer = true) (hc' : σ'.pc.HoldsContainer = false)
    (hq : σ'.containerQueue = q) (hthread : σ'.containerThread = σ.containerThread) :
    σ'.containers.Subperm σ.containers := by
  apply List.Perm.subperm
  apply List.perm_iff_count.mpr
  intro c
  simp only [containers, filling, hc, hc', pending, hq, hthread, hqueue, if_true, List.count_append]
  simp only [Bool.false_eq_true, if_false, List.count_nil]
  omega

/-- The recipe buffer being filled goes to the end of the queue. -/
theorem subperm_pushRecipe {q : BlockQueueState RecipeStruct}
    (hqueue : q.queue = σ.recipeQueue.queue ++ [σ.recipeBuffer])
    (hr : σ.pc.HoldsRecipe = true) (hr' : σ'.pc.HoldsRecipe = false)
    (hq : σ'.recipeQueue = q) (hthread : σ'.recipeThread = σ.recipeThread) :
    σ'.recipes.Subperm σ.recipes := by
  apply List.Perm.subperm
  apply List.perm_iff_count.mpr
  intro r
  simp only [recipes, fillingRecipe, hr, hr', pendingRecipes, hq, hthread, hqueue, if_true,
    List.count_append]
  simp only [Bool.false_eq_true, if_false, List.count_nil]
  omega

/-- The container that the writer has written is one to be freed. -/
theorem subperm_spent {c : ContainerStruct} (hw : σ.containerThread = .writing c)
    (hw' : σ'.containerThread = .freeing c) (hfilling : σ'.filling = σ.filling)
    (hq : σ'.containerQueue = σ.containerQueue) : σ'.containers.Subperm σ.containers := by
  apply List.Perm.subperm
  apply List.perm_iff_count.mpr
  intro d
  simp only [containers, hfilling, pending, hq, hw, hw', ContainerThread.held, ContainerThread.spent,
    List.count_append, List.count_nil]
  omega

/-- So is the recipe buffer. -/
theorem subperm_spentRecipe {pos total pos' total' : ℕ} {r : RecipeStruct}
    (hw : σ.recipeThread = .writing pos total r) (hw' : σ'.recipeThread = .freeing pos' total' r)
    (hfilling : σ'.fillingRecipe = σ.fillingRecipe) (hq : σ'.recipeQueue = σ.recipeQueue) :
    σ'.recipes.Subperm σ.recipes := by
  apply List.Perm.subperm
  apply List.perm_iff_count.mpr
  intro d
  simp only [recipes, hfilling, pendingRecipes, hq, hw, hw', RecipeThread.held, RecipeThread.spent,
    List.count_append, List.count_nil]
  omega

/-- Without the container being filled. -/
theorem containers_of_not_holds (hc : σ.pc.HoldsContainer = false) :
    σ.containers = σ.pending ++ σ.containerThread.spent := by
  rw [containers, filling, hc]
  rfl

/-- Without the recipe buffer being filled. -/
theorem recipes_of_not_holds (hr : σ.pc.HoldsRecipe = false) :
    σ.recipes = σ.pendingRecipes ++ σ.recipeThread.spent := by
  rw [recipes, fillingRecipe, hr]
  rfl

/-- **Every move** leaves each buffer with a block of its own. -/
theorem moves (h : Memory σ) (hm : Moves env σ σ') : Memory σ' := by
  cases hm with
  | tick _ _ _ hc hr =>
    exact h.of_eq rfl rfl (containers_congr hc rfl rfl rfl) (recipes_congr hr rfl rfl rfl)
  | pushContainer hpush hc hc' hr =>
    obtain ⟨hqueue, -⟩ := BlockQueueState.push_eq_some hpush
    exact h.of_subperm rfl rfl (subperm_push hqueue hc hc' rfl rfl)
      (List.Perm.subperm (.of_eq (recipes_congr hr rfl rfl rfl)))
  | pushRecipe hpush hr hr' hc =>
    obtain ⟨hqueue, -⟩ := BlockQueueState.push_eq_some hpush
    exact h.of_subperm rfl rfl (List.Perm.subperm (.of_eq (containers_congr hc rfl rfl rfl)))
      (subperm_pushRecipe hqueue hr hr' rfl rfl)
  | drop hc' hr =>
    refine h.of_subperm rfl rfl ?_ (List.Perm.subperm (.of_eq (recipes_congr hr rfl rfl rfl)))
    rw [containers_of_not_holds hc']
    exact ((List.sublist_append_right σ.filling σ.pending).append_right _).subperm
  | copy _ _ _ hstore hc hc' hr hclosing hoccupied =>
    have hperm := perm_filling hc
    obtain ⟨howned, -⟩ := (h.owned_container hperm).store hstore
    refine of_perm h.sound (perm_filling hc') (.of_eq (recipes_congr hr rfl rfl rfl)) howned ?_ h.num
    intro c hmem
    rcases List.mem_cons.mp hmem with rfl | hmem
    · exact hoccupied
    · exact h.occupied c (hperm.mem_iff.mpr (List.mem_cons_of_mem _ hmem))
  | enter hstore hr hr' hc hclosing hnum =>
    have hperm := perm_fillingRecipe hr
    obtain ⟨howned, -⟩ := (h.owned_recipe hperm).store hstore
    refine of_perm h.sound (.of_eq (containers_congr hc rfl rfl rfl)) (perm_fillingRecipe hr')
      (howned.subperm List.perm_middle.subperm) h.occupied ?_
    intro r hmem
    rcases List.mem_cons.mp hmem with rfl | hmem
    · exact hnum
    · exact h.num r (hperm.mem_iff.mpr (List.mem_cons_of_mem _ hmem))
  | newContainer hmalloc hsize hc hc' hr =>
    have hold := containers_of_not_holds hc
    obtain ⟨howned, -⟩ := h.owned.malloc hmalloc
    rw [hsize, blocks, hold] at howned
    refine of_perm h.sound (perm_filling hc') (.of_eq (recipes_congr hr rfl rfl rfl)) howned ?_ h.num
    intro c hmem
    rcases List.mem_cons.mp hmem with rfl | hmem
    · exact Nat.zero_le _
    · exact h.occupied c (hold ▸ hmem)
  | newRecipe hmalloc hsize hr hr' hc =>
    have hold := recipes_of_not_holds hr
    obtain ⟨howned, -⟩ := h.owned.malloc hmalloc
    rw [hsize, blocks, hold] at howned
    refine of_perm h.sound (.of_eq (containers_congr hc rfl rfl rfl)) (perm_fillingRecipe hr')
      (howned.subperm List.perm_middle.subperm) h.occupied ?_
    intro r hmem
    rcases List.mem_cons.mp hmem with rfl | hmem
    · exact Nat.zero_le _
    · exact h.num r (hold ▸ hmem)
  | containerDone hpc | recipeDone hpc | joinRecipe hpc | joinData hpc =>
    exact h.of_eq rfl rfl (containers_congr (by rw [hpc]; rfl) rfl rfl rfl)
      (recipes_congr (by rw [hpc]; rfl) rfl rfl rfl)
  | fetchContainer hw hpop =>
    -- the head of the queue is now with the writer
    obtain ⟨hqueue, -⟩ := BlockQueueState.pop_eq_got hpop
    refine h.of_eq rfl rfl (containers_congr rfl rfl ?_ (by rw [hw]; rfl)) rfl
    simp only [pending, hw, hqueue, ContainerThread.held]
    rfl
  | finishContainers hw | openContainer hw =>
    exact h.of_eq rfl rfl
      (containers_congr rfl rfl (by simp only [pending, hw, ContainerThread.held]) (by rw [hw]; rfl)) rfl
  | saveContainer hw => exact h.of_subperm rfl rfl (subperm_spent hw rfl rfl rfl) (.refl _)
  | freeContainer hw hfree =>
    have hperm := perm_spent hw
    obtain ⟨howned, -⟩ := (h.owned_container hperm).free hfree
    refine of_perm h.sound ?_ (.refl _) howned (fun c hmem => ?_) h.num
    · simp only [containers, filling, pending, hw, ContainerThread.held, ContainerThread.spent,
        List.append_nil]
      exact .refl _
    · exact h.occupied c (hperm.mem_iff.mpr (List.mem_cons_of_mem _ hmem))
  | fetchRecipe hw hpop =>
    obtain ⟨hqueue, -⟩ := BlockQueueState.pop_eq_got hpop
    refine h.of_eq rfl rfl rfl (recipes_congr rfl rfl ?_ (by rw [hw]; rfl))
    simp only [pendingRecipes, hw, hqueue, RecipeThread.held]
    rfl
  | openRecipe hw | finishRecipes hw | patch hw =>
    exact h.of_eq rfl rfl rfl
      (recipes_congr rfl rfl (by simp only [pendingRecipes, hw, RecipeThread.held]) (by rw [hw]; rfl))
  | saveRecipe hw => exact h.of_subperm rfl rfl (.refl _) (subperm_spentRecipe hw rfl rfl rfl)
  | freeRecipe hw hfree =>
    have hperm := perm_spentRecipe hw
    obtain ⟨howned, -⟩ := (h.owned_recipe hperm).free hfree
    refine of_perm h.sound (.refl _) ?_ howned h.occupied (fun r hmem => ?_)
    · simp only [recipes, fillingRecipe, pendingRecipes, hw, RecipeThread.held, RecipeThread.spent,
        List.append_nil]
      exact .refl _
    · exact h.num r (hperm.mem_iff.mpr (List.mem_cons_of_mem _ hmem))
  | others => exact h.of_eq rfl rfl rfl rfl

end Memory

/-! ## The serving thread -/

/-- **The loop can go on** over `rest`: every answer is `0` or `1`, there is an address for each `0`, and the
slot of each `1` lies in the message. -/
structure Ready (loop : HashLoop) (rest : List (UInt8 × Bytes)) (addrs : List ChunkAddr) : Prop where
  answer : ∀ q ∈ rest, q.1 = 0 ∨ q.1 = 1
  addrs : (picks 0 rest).length ≤ addrs.length
  slot : ∀ u < loop.currentUniqueNum + (picks 1 rest).length,
    chunkSlotSize loop.msg u ≤ CHUNKSIZE ∧
      (chunkSlot loop.msg u).length = chunkSlotSize loop.msg u

/-- **The serving thread goes on without fault**: its container has as much room as it says, and the loop
over the last query is ready. -/
structure Receiving (σ : Pipeline) : Prop where
  capacity : σ.pc.HoldsContainer = true →
    σ.containerBuffer.occupied + σ.containerBuffer.capacity = CONTAINERSIZE
  ready : match σ.pc with
    | .receiving => (∀ q ∈ σ.queries, q.1 = 0 ∨ q.1 = 1) ∧
        (picks 0 σ.queries).length ≤ σ.duplicatedChunkAddr.length
    | .looping loop => Ready loop loop.rest σ.duplicatedChunkAddr
    | .renewing loop hash => Ready loop ((1, hash) :: loop.rest) σ.duplicatedChunkAddr
    | .copying loop hash => Ready loop ((1, hash) :: loop.rest) σ.duplicatedChunkAddr ∧
        chunkSlotSize loop.msg loop.currentUniqueNum ≤ σ.containerBuffer.capacity
    | .entering loop _ | .renewingRecipe loop _ => Ready loop loop.rest σ.duplicatedChunkAddr
    | _ => True

/-- **A message within the buffers**, or the end of the file, arrives. -/
theorem Receiving.message {msg : DataMsg} (h : Receiving σ) (hpc : σ.pc = .receiving)
    (hmsg : msg.header.dataMsgType = .FILEEND ∨ msg.InBounds (picks 1 σ.queries).length) :
    Receiving (σ.message msg) ∧ Moves env σ (σ.message msg) := by
  have hready := h.ready
  rw [hpc] at hready
  have hcapacity := h.capacity
  rw [hpc] at hcapacity
  unfold Pipeline.message
  split
  · refine ⟨⟨fun _ => hcapacity rfl, trivial⟩, ?_⟩
    exact .tick _ _ _ (by rw [hpc]; rfl) (by rw [hpc]; rfl) (by rw [hpc]; rfl)
  · rename_i htype
    have hin := hmsg.resolve_left htype
    refine ⟨⟨fun _ => hcapacity rfl, hready.1, hready.2, fun u hu => ?_⟩, ?_⟩
    · apply hin.slot
      rw [Nat.zero_add] at hu
      exact hu
    · exact .tick _ _ _ (by rw [hpc]; rfl) (by rw [hpc]; rfl) (by rw [hpc]; rfl)

/-- A container is handed over, at the head of the loop or at the end of the file. -/
theorem moves_insertContainerQueue {pc : ReceiverPc}
    (hc : σ.pc.HoldsContainer = true) (hc' : pc.HoldsContainer = false)
    (hr : pc.HoldsRecipe = σ.pc.HoldsRecipe) (hopen : σ.pc.closing = 0) (hopen' : pc.closing = 0)
    (hstep : σ.insertContainerQueue pc = some σ') :
    Moves env σ σ' ∧ σ'.pc = pc ∧ σ'.duplicatedChunkAddr = σ.duplicatedChunkAddr := by
  obtain ⟨q, hpush, rfl⟩ := Option.map_eq_some_iff.mp hstep
  exact ⟨.pushContainer hpush hc hc' hr hopen hopen', rfl, rfl⟩

/-- A recipe buffer is handed over. -/
theorem moves_insertRecipeQueue {pc : ReceiverPc}
    (hr : σ.pc.HoldsRecipe = true) (hr' : pc.HoldsRecipe = false)
    (hc : pc.HoldsContainer = σ.pc.HoldsContainer) (hopen : σ.pc.closing = 0)
    (hopen' : pc.closing = 0) (hstep : σ.insertRecipeQueue pc = some σ') :
    Moves env σ σ' ∧ σ'.pc = pc ∧ σ'.duplicatedChunkAddr = σ.duplicatedChunkAddr ∧
      σ'.containerBuffer = σ.containerBuffer := by
  obtain ⟨q, hpush, rfl⟩ := Option.map_eq_some_iff.mp hstep
  exact ⟨.pushRecipe hpush hr hr' hc hopen hopen', rfl, rfl, rfl⟩

/-- **The head of the loop.** -/
theorem Receiving.loopHead {loop : HashLoop} (h : Receiving σ) (hpc : σ.pc = .looping loop)
    (hstep : σ.loopHead loop = some σ') : Receiving σ' ∧ Moves env σ σ' := by
  have hready : Ready loop loop.rest σ.duplicatedChunkAddr := by
    have hat := h.ready
    rw [hpc] at hat
    exact hat
  have hcapacity := h.capacity (by rw [hpc]; rfl)
  unfold Pipeline.loopHead at hstep
  split at hstep
  · -- no hash is left
    obtain rfl := Option.some.inj hstep
    refine ⟨⟨fun _ => hcapacity, trivial⟩, ?_⟩
    exact .tick _ _ _ (by rw [hpc]; rfl) (by rw [hpc]; rfl) (by rw [hpc]; rfl)
  · rename_i answer hash rest hrest
    rw [hrest] at hready
    rcases hready.answer _ List.mem_cons_self with hzero | hone
    · -- a duplicate: there is an address
      obtain rfl : answer = 0 := hzero
      dsimp only at hstep
      rw [if_neg (by decide), if_pos rfl] at hstep
      have hlen := hready.addrs
      rw [picks_cons_self, List.length_cons] at hlen
      split at hstep
      · rename_i chunkAddr addrs haddrs
        obtain rfl := Option.some.inj hstep
        rw [haddrs, List.length_cons] at hlen
        refine ⟨⟨fun _ => hcapacity, ⟨?_, Nat.le_of_succ_le_succ hlen, ?_⟩⟩, ?_⟩
        · exact fun q hq => hready.answer q (List.mem_cons_of_mem _ hq)
        · have hslot := hready.slot
          rw [picks_cons_of_ne (by decide)] at hslot
          exact hslot
        · exact .tick _ _ _ (by rw [hpc]; rfl) (by rw [hpc]; rfl) (by rw [hpc]; rfl)
      · rename_i haddrs
        rw [haddrs] at hlen
        exact absurd hlen (Nat.not_succ_le_zero _)
    · -- a chunk to be stored
      obtain rfl : answer = 1 := hone
      dsimp only at hstep
      rw [if_pos rfl] at hstep
      split at hstep
      · obtain ⟨hmoves, hpc', haddrs⟩ := moves_insertContainerQueue (by rw [hpc]; rfl) rfl
          (by rw [hpc]; rfl) (by rw [hpc]; rfl) rfl hstep
        refine ⟨⟨fun hholds => ?_, ?_⟩, hmoves⟩
        · rw [hpc'] at hholds
          cases hholds
        · rw [hpc', haddrs]
          exact ⟨hready.answer, hready.addrs, hready.slot⟩
      · rename_i hroom
        obtain rfl := Option.some.inj hstep
        refine ⟨⟨fun _ => hcapacity, ⟨hready.answer, hready.addrs, hready.slot⟩, ?_⟩, ?_⟩
        · exact Nat.le_of_not_lt hroom
        · exact .tick _ _ _ (by rw [hpc]; rfl) (by rw [hpc]; rfl) (by rw [hpc]; rfl)

/-- **A chunk is copied** to a container that has room for it. -/
theorem Receiving.copyChunk {loop : HashLoop} {hash : Bytes} (h : Receiving σ) (hmem : Memory σ)
    (hpc : σ.pc = .copying loop hash) :
    Receiving (σ.copyChunk loop hash) ∧ Moves env σ (σ.copyChunk loop hash) := by
  have hready := h.ready
  rw [hpc] at hready
  obtain ⟨hready, hroom⟩ := hready
  have hholds : σ.pc.HoldsContainer = true := by
    rw [hpc]
    rfl
  have hcapacity := h.capacity hholds
  have hslot := hready.slot
  rw [picks_cons_self, List.length_cons] at hslot
  obtain ⟨hsize, hlength⟩ := hslot loop.currentUniqueNum (by omega)
  have hle : σ.containerBuffer.occupied + (chunkSlot loop.msg loop.currentUniqueNum).length ≤
      CONTAINERSIZE := by
    rw [hlength]
    -- the branch before has left room for the slot, so the copy stays in the buffer
    omega
  obtain ⟨heap, hstore⟩ := (hmem.owned_container (Memory.perm_filling hholds)).exists_store hle
  let size := chunkSlotSize loop.msg loop.currentUniqueNum
  let chunkAddr := (σ.containerBuffer.append size).lastChunk size
  have hstep : σ.copyChunk loop hash = { σ with
      heap := heap
      containerBuffer := σ.containerBuffer.append size
      server := σ.server.addChunk (convertArrayHashToString hash) chunkAddr
      pc := .entering { loop with currentUniqueNum := loop.currentUniqueNum + 1 } chunkAddr } := by
    unfold Pipeline.copyChunk
    rw [hstore]
  obtain ⟨hoccupied, hrest⟩ := ContainerStruct.append_of_le hcapacity hroom
  rw [hstep]
  refine ⟨⟨fun _ => ?_, ⟨?_, ?_, ?_⟩⟩, ?_⟩
  · show (σ.containerBuffer.append size).occupied + (σ.containerBuffer.append size).capacity = _
    rw [hoccupied, hrest]
    omega
  · exact fun q hq => hready.answer q (List.mem_cons_of_mem _ hq)
  -- the next addresses are those of the known chunks, which this one is not
  · have haddrs := hready.addrs
    rw [picks_cons_of_ne (by decide)] at haddrs
    exact haddrs
  · intro u hu
    apply hslot u
    dsimp only at hu
    omega
  · refine .copy _ _ _ hstore hholds rfl (by rw [hpc]; rfl) (by rw [hpc]; rfl) ?_
    rw [hoccupied]
    omega

/-- **An entry is written**, to a buffer that has room for it. -/
theorem Receiving.enterAddr {loop : HashLoop} {chunkAddr : ChunkAddr} (h : Receiving σ)
    (hmem : Memory σ) (hpc : σ.pc = .entering loop chunkAddr)
    (hstep : σ.enterAddr loop chunkAddr = some σ') : Receiving σ' ∧ Moves env σ σ' := by
  have hready := h.ready
  rw [hpc] at hready
  have hcapacity := h.capacity (by rw [hpc]; rfl)
  unfold Pipeline.enterAddr at hstep
  split at hstep
  · -- the buffer is full
    obtain ⟨hmoves, hpc', haddrs, hbuffer⟩ := moves_insertRecipeQueue (by rw [hpc]; rfl) rfl
      (by rw [hpc]; rfl) (by rw [hpc]; rfl) rfl hstep
    refine ⟨⟨fun _ => ?_, ?_⟩, hmoves⟩
    · rw [hbuffer]
      exact hcapacity
    · rw [hpc', haddrs]
      exact hready
  · rename_i hroom
    have hholds : σ.pc.HoldsRecipe = true := by
      rw [hpc]
      rfl
    have hle : σ.recipeBuffer.num * sizeofChunkAddr + (encodeChunkAddr chunkAddr).length ≤
        recipeBufferSize := by
      rw [length_encodeChunkAddr, ← Nat.succ_mul]
      exact Nat.mul_le_mul_right _ (Nat.lt_of_not_le hroom)
    obtain ⟨heap, hstore⟩ := (hmem.owned_recipe (Memory.perm_fillingRecipe hholds)).exists_store hle
    rw [hstore] at hstep
    obtain rfl := Option.some.inj hstep
    refine ⟨⟨fun _ => hcapacity, ⟨hready.answer, hready.addrs, hready.slot⟩⟩, ?_⟩
    exact .enter hstore hholds rfl (by rw [hpc]; rfl) (by rw [hpc]; rfl) (Nat.lt_of_not_le hroom)

/-- **The new query is answered.** -/
theorem Receiving.answerQuery {msg : DataMsg} (h : Receiving σ) (hpc : σ.pc = .querying msg) :
    Receiving (σ.answerQuery msg) ∧ Moves env σ (σ.answerQuery msg) := by
  have hcapacity := h.capacity (by rw [hpc]; rfl)
  have hqueries : (σ.answerQuery msg).queries =
      (Conn.queriedHashes msg).map fun hash => (Conn.queryAnswer σ.server hash, hash) := by
    rw [queries, Pipeline.answerQuery]
    dsimp only
    rw [List.zip_map_left, List.zip_eq_zipWith, List.map_zipWith, List.zipWith_self]
    rfl
  refine ⟨⟨fun _ => hcapacity, ?_, ?_⟩, ?_⟩
  · rw [hqueries]
    intro q hq
    obtain ⟨hash, -, rfl⟩ := List.mem_map.mp hq
    simp only [Conn.queryAnswer]
    split <;> simp
  · rw [hqueries, picks_map_self, (Conn.forall₂_storedAddrs _ _).length_eq]
    show _ ≤ (σ.duplicatedChunkAddr ++ _).length
    rw [List.length_append]
    omega
  · exact .tick _ _ _ (by rw [hpc]; rfl) (by rw [hpc]; rfl) (by rw [hpc]; rfl)

/-- **One step of `receive_file`.** -/
theorem Receiving.receiver (h : Receiving σ) (hmem : Memory σ) (hstep : σ.receiverStep = some σ') :
    Receiving σ' ∧ Moves env σ σ' := by
  unfold receiverStep at hstep
  split at hstep
  · rename_i loop hpc
    exact h.loopHead hpc hstep
  · rename_i loop hash hpc
    obtain rfl := Option.some.inj hstep
    -- the copy into the container buffer
    exact h.copyChunk hmem hpc
  · rename_i loop chunkAddr hpc
    exact h.enterAddr hmem hpc hstep
  · rename_i msg hpc
    obtain rfl := Option.some.inj hstep
    exact h.answerQuery hpc
  -- the file end: a container with something in it is pushed, an empty one is dropped
  · rename_i hpc
    split at hstep
    · obtain ⟨hmoves, hpc', -⟩ := moves_insertContainerQueue (by rw [hpc]; rfl) rfl
        (by rw [hpc]; rfl) (by rw [hpc]; rfl) rfl hstep
      refine ⟨⟨fun hholds => ?_, ?_⟩, hmoves⟩
      · rw [hpc'] at hholds
        cases hholds
      · rw [hpc']
        trivial
    · obtain rfl := Option.some.inj hstep
      refine ⟨⟨fun hholds => ?_, trivial⟩, ?_⟩
      · cases hholds
      · exact .drop rfl (by rw [hpc]; rfl) (by rw [hpc]; rfl)
  · rename_i hpc
    obtain ⟨hmoves, hpc', -⟩ := moves_insertRecipeQueue (by rw [hpc]; rfl) rfl
      (by rw [hpc]; rfl) (by rw [hpc]; rfl) rfl hstep
    refine ⟨⟨fun hholds => ?_, ?_⟩, hmoves⟩
    · rw [hpc'] at hholds
      cases hholds
    · rw [hpc']
      trivial
  · rename_i hpc
    obtain rfl := Option.some.inj hstep
    exact ⟨⟨fun hholds => (by cases hholds), trivial⟩, .containerDone hpc⟩
  · rename_i hpc
    obtain rfl := Option.some.inj hstep
    exact ⟨⟨fun hholds => (by cases hholds), trivial⟩, .recipeDone hpc⟩
  -- both joins wait for the thread to have finished
  · rename_i hpc
    split at hstep
    · rename_i hfin
      obtain rfl := Option.some.inj hstep
      exact ⟨⟨fun hholds => (by cases hholds), trivial⟩, .joinRecipe hpc hfin⟩
    · cases hstep
  · rename_i hpc
    split at hstep
    · rename_i hfin
      obtain rfl := Option.some.inj hstep
      exact ⟨⟨fun hholds => (by cases hholds), trivial⟩, .joinData hpc hfin⟩
    · cases hstep
  · cases hstep

/-- **A new buffer.** -/
theorem Receiving.malloc {p : ℕ} {block : Block} (h : Receiving σ)
    (hstep : σ.mallocStep env p block = some σ') : Receiving σ' ∧ Moves env σ σ' := by
  unfold mallocStep at hstep
  split at hstep
  · rename_i loop hash hpc
    have hready : Ready loop ((1, hash) :: loop.rest) σ.duplicatedChunkAddr := by
      have hat := h.ready
      rw [hpc] at hat
      exact hat
    split at hstep
    · rename_i hsize
      obtain ⟨heap, hmalloc, rfl⟩ := Option.map_eq_some_iff.mp hstep
      refine ⟨⟨fun _ => Nat.zero_add _, hready, ?_⟩, ?_⟩
      · -- a chunk fits into an empty container
        have hslot := hready.slot
        rw [picks_cons_self, List.length_cons] at hslot
        exact (hslot _ (by omega)).1.trans (show CHUNKSIZE ≤ CONTAINERSIZE by decide)
      · exact .newContainer hmalloc hsize (by rw [hpc]; rfl) rfl (by rw [hpc]; rfl) (by rw [hpc]; rfl)
    · cases hstep
  · rename_i loop chunkAddr hpc
    have hready : Ready loop loop.rest σ.duplicatedChunkAddr := by
      have hat := h.ready
      rw [hpc] at hat
      exact hat
    have hcapacity := h.capacity (by rw [hpc]; rfl)
    split at hstep
    · rename_i hsize
      obtain ⟨heap, hmalloc, rfl⟩ := Option.map_eq_some_iff.mp hstep
      refine ⟨⟨fun _ => hcapacity, hready⟩, ?_⟩
      exact .newRecipe hmalloc hsize (by rw [hpc]; rfl) rfl (by rw [hpc]; rfl) (by rw [hpc]; rfl)
    · cases hstep
  · cases hstep

/-! ## The writers -/

/-- The writers do not concern the serving thread. -/
theorem Receiving.of_eq (h : Receiving σ) (hpc : σ'.pc = σ.pc)
    (hbuffer : σ'.containerBuffer = σ.containerBuffer) (hqueries : σ'.queries = σ.queries)
    (haddrs : σ'.duplicatedChunkAddr = σ.duplicatedChunkAddr) : Receiving σ' where
  capacity := by
    rw [hpc, hbuffer]
    exact h.capacity
  ready := by
    rw [hpc, hbuffer, hqueries, haddrs]
    exact h.ready

/-- **One step of `write_container`.** -/
theorem Receiving.container (h : Receiving σ) (hmem : Memory σ)
    (hstep : σ.containerStep = some σ') : Receiving σ' ∧ Moves env σ σ' := by
  unfold containerStep at hstep
  split at hstep
  · rename_i hw
    split at hstep
    · cases hstep
    · rename_i hpop
      obtain rfl := Option.some.inj hstep
      exact ⟨h.of_eq rfl rfl rfl rfl, .finishContainers hw hpop⟩
    · rename_i c q hpop
      obtain rfl := Option.some.inj hstep
      exact ⟨h.of_eq rfl rfl rfl rfl, .fetchContainer hw hpop⟩
  · rename_i c hw
    obtain rfl := Option.some.inj hstep
    exact ⟨h.of_eq rfl rfl rfl rfl, .openContainer hw⟩
  · rename_i c hw
    -- the container is owned, so that it can be read
    have hc : c ∈ σ.containers := by
      rw [containers, pending, hw]
      simp [ContainerThread.held]
    have hload : σ.heap.load c.data c.occupied = some (σ.heap.read c.data c.occupied) := by
      apply hmem.owned.load _ (hmem.occupied c hc)
      exact List.mem_append_left _ (List.mem_map_of_mem hc)
    rw [hload] at hstep
    obtain rfl := Option.some.inj hstep
    exact ⟨h.of_eq rfl rfl rfl rfl, .saveContainer hw⟩
  · rename_i c hw
    obtain ⟨heap, hfree⟩ := (hmem.owned_container (Memory.perm_spent hw)).exists_free
    rw [hfree] at hstep
    obtain rfl := Option.some.inj hstep
    exact ⟨h.of_eq rfl rfl rfl rfl, .freeContainer hw hfree⟩
  · cases hstep

/-- **One step of `write_recipe`.** -/
theorem Receiving.recipe (h : Receiving σ) (hmem : Memory σ) (hstep : σ.recipeStep = some σ') :
    Receiving σ' ∧ Moves env σ σ' := by
  unfold recipeStep at hstep
  dsimp only at hstep
  split at hstep
  · rename_i hw
    obtain rfl := Option.some.inj hstep
    exact ⟨h.of_eq rfl rfl rfl rfl, .openRecipe hw⟩
  · rename_i pos total hw
    split at hstep
    · cases hstep
    · rename_i hpop
      obtain rfl := Option.some.inj hstep
      exact ⟨h.of_eq rfl rfl rfl rfl, .finishRecipes hw hpop⟩
    · rename_i r q hpop
      obtain rfl := Option.some.inj hstep
      exact ⟨h.of_eq rfl rfl rfl rfl, .fetchRecipe hw hpop⟩
  · rename_i pos total r hw
    -- the block fetched is still owned by this thread, so the load is in bounds
    have hr : r ∈ σ.recipes := by
      rw [recipes, pendingRecipes, hw]
      simp [RecipeThread.held]
    have hload : σ.heap.load r.data (r.num * sizeofChunkAddr) =
        some (σ.heap.read r.data (r.num * sizeofChunkAddr)) := by
      apply hmem.owned.load _ (Nat.mul_le_mul_right _ (hmem.num r hr))
      exact List.mem_append_right _ (List.mem_map_of_mem hr)
    rw [hload] at hstep
    obtain rfl := Option.some.inj hstep
    exact ⟨h.of_eq rfl rfl rfl rfl, .saveRecipe hw⟩
  -- and so is the `free` after the write
  · rename_i pos total r hw
    obtain ⟨heap, hfree⟩ := (hmem.owned_recipe (Memory.perm_spentRecipe hw)).exists_free
    rw [hfree] at hstep
    obtain rfl := Option.some.inj hstep
    exact ⟨h.of_eq rfl rfl rfl rfl, .freeRecipe hw hfree⟩
  · rename_i total hw
    obtain rfl := Option.some.inj hstep
    exact ⟨h.of_eq rfl rfl rfl rfl, .patch hw⟩
  · cases hstep

/-! ## Every step -/

/-- **What an upload is promised**: messages within the buffers, and other sessions that draw other ids,
and write neither its recipe nor its containers. -/
def uploads : Machine.Condition Pipeline PipelineAct := fun σ a _ =>
  match a with
  | .message msg => msg.header.dataMsgType = .FILEEND ∨ msg.InBounds (picks 1 σ.queries).length
  | .others server => σ.server.drawn ≤ server.drawn ∧
      server.recipes.lookup σ.recipeNameHash = σ.server.recipes.lookup σ.recipeNameHash ∧
      ∀ id ∈ σ.pushed.map Prod.fst, server.containers.lookup id = σ.server.containers.lookup id
  | _ => True

/-- **Every step is a move**, and none goes wrong. -/
theorem moves_of_step {a : PipelineAct} (h : Receiving σ) (hmem : Memory σ)
    (hstep : (pipelineMachine env).step σ a = some σ') (hok : uploads σ a σ') :
    Receiving σ' ∧ Moves env σ σ' := by
  cases a with
  | message msg =>
    simp only [pipelineMachine, Pipeline.step] at hstep
    split at hstep
    · rename_i hpc
      obtain rfl := Option.some.inj hstep
      exact h.message hpc hok
    · cases hstep
  | receiver => exact h.receiver hmem hstep
  | malloc p block => exact h.malloc hstep
  | containerThread => exact h.container hmem hstep
  | recipeThread => exact h.recipe hmem hstep
  | others server =>
    obtain rfl := Option.some.inj hstep
    obtain ⟨hdrawn, hrecipe, hcontainers⟩ := hok
    exact ⟨h.of_eq rfl rfl rfl rfl, .others hdrawn hrecipe hcontainers⟩

end Pipeline

end DedupServer
