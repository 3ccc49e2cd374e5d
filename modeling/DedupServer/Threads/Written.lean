import DedupServer.Threads.Drain

/-! # What reaches the disk

The containers that were pushed are those that have been written, followed by those on their way
(`Pipeline.Delivered`), and stay on disk as they were pushed (`Pipeline.OnDisk`), since no two have the same
name (`Pipeline.Named`). The recipe file grows by the entries in their order (`Pipeline.Streamed`). A writer
ends when its queue is empty and nothing follows (`Pipeline.Controlled`). -/

namespace DedupServer

open Foundations

namespace Pipeline

variable {env : Env} {σ σ' : Pipeline}

/-! ## Nobody else writes to a buffer -/

/-- The other buffers are in other blocks than a container. -/
theorem Memory.ne_container (h : Memory σ) {c : ContainerStruct} {rest : List ContainerStruct}
    (hc : σ.containers.Perm (c :: rest)) :
    (∀ d ∈ rest, d.data ≠ c.data) ∧ ∀ r ∈ σ.recipes, r.data ≠ c.data := by
  have howned := h.owned_container hc
  constructor
  · intro d hd
    exact howned.ne (List.mem_append_left _ (List.mem_map_of_mem hd))
  · intro r hr
    exact howned.ne (List.mem_append_right _ (List.mem_map_of_mem hr))

/-- The other buffers are in other blocks than a recipe buffer. -/
theorem Memory.ne_recipe (h : Memory σ) {r : RecipeStruct} {rest : List RecipeStruct}
    (hr : σ.recipes.Perm (r :: rest)) :
    (∀ s ∈ rest, s.data ≠ r.data) ∧ ∀ c ∈ σ.containers, c.data ≠ r.data := by
  have howned := h.owned_recipe hr
  constructor
  · intro s hs
    exact howned.ne (List.mem_append_right _ (List.mem_map_of_mem hs))
  · intro c hc
    exact howned.ne (List.mem_append_left _ (List.mem_map_of_mem hc))

/-- A new block is none of those in use. -/
theorem Memory.ne_malloc (h : Memory σ) {p : ℕ} {block : Block} {heap : Heap}
    (hmalloc : σ.heap.malloc p block = some heap) :
    (∀ c ∈ σ.containers, c.data ≠ p) ∧ ∀ r ∈ σ.recipes, r.data ≠ p := by
  have howned := (h.owned.malloc hmalloc).1
  constructor
  · intro c hc
    exact howned.ne (List.mem_append_left _ (List.mem_map_of_mem hc))
  · intro r hr
    exact howned.ne (List.mem_append_right _ (List.mem_map_of_mem hr))

theorem mem_containers_of_pending {c : ContainerStruct} (hc : c ∈ σ.pending) : c ∈ σ.containers :=
  List.mem_append_left _ (List.mem_append_right _ hc)

theorem mem_recipes_of_pending {r : RecipeStruct} (hr : r ∈ σ.pendingRecipes) : r ∈ σ.recipes :=
  List.mem_append_left _ (List.mem_append_right _ hr)

theorem recipeBuffer_mem (hr : σ.pc.HoldsRecipe = true) : σ.recipeBuffer ∈ σ.recipes := by
  rw [recipes, fillingRecipe, hr]
  exact List.mem_cons_self

/-- **A buffer that has been pushed does not change** until it is written, and the recipe buffer being
filled is changed by the serving thread alone. -/
theorem Memory.reads (h : Memory σ) (hm : Moves env σ σ') :
    (∀ c ∈ σ.pending, σ'.heap c.data = σ.heap c.data) ∧
    (∀ r ∈ σ.pendingRecipes, σ'.heap r.data = σ.heap r.data) ∧
    (σ.pc.HoldsRecipe = true → σ'.recipeBuffer = σ.recipeBuffer →
      σ'.heap σ.recipeBuffer.data = σ.heap σ.recipeBuffer.data) := by
  cases hm with
  | copy _ _ _ hstore hc =>
    have hperm := Memory.perm_filling hc
    obtain ⟨-, -, hother⟩ := (h.owned_container hperm).store hstore
    obtain ⟨hcs, hrs⟩ := h.ne_container hperm
    refine ⟨fun c hmem => ?_, fun r hmem => ?_, fun hr _ => ?_⟩
    · exact hother _ (hcs c (List.mem_append_left _ hmem))
    · exact hother _ (hrs r (mem_recipes_of_pending hmem))
    · exact hother _ (hrs _ (recipeBuffer_mem hr))
  | enter hstore hr =>
    have hperm := Memory.perm_fillingRecipe hr
    obtain ⟨-, -, hother⟩ := (h.owned_recipe hperm).store hstore
    obtain ⟨hrs, hcs⟩ := h.ne_recipe hperm
    refine ⟨fun c hmem => ?_, fun r hmem => ?_, fun _ hsame => ?_⟩
    · exact hother _ (hcs c (mem_containers_of_pending hmem))
    · exact hother _ (hrs r (List.mem_append_left _ hmem))
    · -- its number of entries changes
      exact absurd (congrArg RecipeStruct.num hsame) (Nat.succ_ne_self _)
  | newContainer hmalloc | newRecipe hmalloc =>
    obtain ⟨-, hother⟩ := h.owned.malloc hmalloc
    obtain ⟨hcs, hrs⟩ := h.ne_malloc hmalloc
    refine ⟨fun c hmem => ?_, fun r hmem => ?_, fun hr _ => ?_⟩
    · exact hother _ (hcs c (mem_containers_of_pending hmem))
    · exact hother _ (hrs r (mem_recipes_of_pending hmem))
    · exact hother _ (hrs _ (recipeBuffer_mem hr))
  | freeContainer hw hfree =>
    have hperm := Memory.perm_spent hw
    obtain ⟨-, hother⟩ := (h.owned_container hperm).free hfree
    obtain ⟨hcs, hrs⟩ := h.ne_container hperm
    refine ⟨fun c hmem => ?_, fun r hmem => ?_, fun hr _ => ?_⟩
    · exact hother _ (hcs c (List.mem_append_right _ hmem))
    · exact hother _ (hrs r (mem_recipes_of_pending hmem))
    · exact hother _ (hrs _ (recipeBuffer_mem hr))
  | freeRecipe hw hfree =>
    have hperm := Memory.perm_spentRecipe hw
    obtain ⟨-, hother⟩ := (h.owned_recipe hperm).free hfree
    obtain ⟨hrs, hcs⟩ := h.ne_recipe hperm
    refine ⟨fun c hmem => ?_, fun r hmem => ?_, fun hr _ => ?_⟩
    · exact hother _ (hcs c (mem_containers_of_pending hmem))
    · exact hother _ (hrs r (List.mem_append_right _ hmem))
    · apply hother _ (hrs _ (List.mem_append_left _ _))
      rw [fillingRecipe, hr]
      exact List.mem_cons_self
  | _ => exact ⟨fun _ _ => rfl, fun _ _ => rfl, fun _ _ => rfl⟩

/-! ## Containers -/

/-- **What was pushed** is what was written and what is on its way. -/
def Delivered (σ : Pipeline) : Prop :=
  σ.pushed = σ.saved ++ σ.pending.map (containerValue σ.heap)

/-- Moves that neither push nor write a container. -/
theorem Delivered.of_eq (h : Delivered σ) (hreads : ∀ c ∈ σ.pending, σ'.heap c.data = σ.heap c.data)
    (hpushed : σ'.pushed = σ.pushed) (hsaved : σ'.saved = σ.saved)
    (hpending : σ'.pending = σ.pending) : Delivered σ' := by
  rw [Delivered, hpushed, hsaved, hpending, h]
  apply congrArg
  apply List.map_congr_left
  intro c hc
  rw [containerValue, containerValue, Heap.read_congr (hreads c hc)]

/-- **Every move** keeps the account. -/
theorem Delivered.moves (h : Delivered σ) (hmem : Memory σ) (hm : Moves env σ σ') :
    Delivered σ' := by
  have hreads := (hmem.reads hm).1
  cases hm with
  | pushContainer hpush =>
    obtain ⟨hqueue, -⟩ := BlockQueueState.push_eq_some hpush
    rw [Delivered, pending]
    dsimp only
    -- the container goes from the receiver's hands to the back of the queue
    rw [h, hqueue, pending, ← List.append_assoc σ.containerThread.held, List.map_append,
      List.map_append, List.map_append, List.append_assoc, List.append_assoc, List.append_assoc]
    rfl
  | fetchContainer hw hpop =>
    obtain ⟨hqueue, -⟩ := BlockQueueState.pop_eq_got hpop
    refine h.of_eq hreads rfl rfl ?_
    rw [pending, pending, hw, hqueue]
    rfl
  | finishContainers hw | openContainer hw | freeContainer hw =>
    refine h.of_eq hreads rfl rfl ?_
    rw [pending, pending, hw]
    rfl
  -- and from the thread's hands to what is saved
  | saveContainer hw =>
    rw [Delivered, pending, hw] at h
    rw [Delivered, pending]
    dsimp only
    rw [h, List.append_assoc]
    rfl
  | _ => exact h.of_eq hreads rfl rfl rfl

/-- **No two containers of the upload have the same name**, as long as the ids drawn so far are
different. -/
structure Named (env : Env) (σ : Pipeline) : Prop where
  nodup : (σ.pushed.map Prod.fst ++ σ.filling.map ContainerStruct.containerID).Nodup
  drawn : ∀ id ∈ σ.pushed.map Prod.fst ++ σ.filling.map ContainerStruct.containerID,
    ∃ k < σ.server.drawn, id = env.uuid k

/-- Moves that push nothing and draw nothing for the upload. -/
theorem Named.of_eq (h : Named env σ) (hpushed : σ'.pushed = σ.pushed)
    (hfilling : σ'.filling.map ContainerStruct.containerID = σ.filling.map ContainerStruct.containerID)
    (hdrawn : σ.server.drawn ≤ σ'.server.drawn) : Named env σ' := by
  constructor
  · rw [hpushed, hfilling]
    exact h.nodup
  · rw [hpushed, hfilling]
    intro id hid
    obtain ⟨k, hk, hkid⟩ := h.drawn id hid
    exact ⟨k, hk.trans_le hdrawn, hkid⟩

/-- The ids only grow. -/
theorem Moves.drawn (hm : Moves env σ σ') : σ.server.drawn ≤ σ'.server.drawn := by
  cases hm with
  | copy =>
    dsimp only
    rw [Server.addChunk_drawn]
  | newContainer => exact Nat.le_succ _
  | others hdrawn => exact hdrawn
  | _ => exact le_rfl

/-- **Every move** keeps the names different. -/
theorem Named.moves (h : Named env σ) (hm : Moves env σ σ')
    (hfresh : env.FreshUpTo σ'.server.drawn) : Named env σ' := by
  have hdrawn := hm.drawn
  cases hm with
  | tick _ _ _ hc | pushRecipe _ _ _ hc | enter _ _ _ hc | newRecipe _ _ _ _ hc =>
    refine h.of_eq rfl ?_ hdrawn
    simp only [filling, hc]
  | containerDone hpc | recipeDone hpc | joinRecipe hpc | joinData hpc =>
    refine h.of_eq rfl ?_ hdrawn
    simp only [filling, hpc]
    rfl
  | pushContainer hpush hc hc' =>
    -- the name goes from the container being filled to those pushed
    have hids : (σ.pushed ++ [containerValue σ.heap σ.containerBuffer]).map Prod.fst ++ [] =
        σ.pushed.map Prod.fst ++ σ.filling.map ContainerStruct.containerID := by
      rw [filling, hc, List.append_nil, List.map_append]
      rfl
    constructor
    · simp only [filling, hc', Bool.false_eq_true, if_false, List.map_nil]
      rw [hids]
      exact h.nodup
    · simp only [filling, hc', Bool.false_eq_true, if_false, List.map_nil]
      rw [hids]
      exact h.drawn
  | drop hc' =>
    have hsub : (σ.pushed.map Prod.fst ++ []).Sublist
        (σ.pushed.map Prod.fst ++ σ.filling.map ContainerStruct.containerID) :=
      (List.nil_sublist _).append_left _
    constructor
    · simp only [filling, hc', Bool.false_eq_true, if_false, List.map_nil]
      exact h.nodup.sublist hsub
    · simp only [filling, hc', Bool.false_eq_true, if_false, List.map_nil]
      intro id hid
      exact h.drawn id (hsub.subset hid)
  | copy _ _ _ _ hc hc' =>
    refine h.of_eq rfl ?_ hdrawn
    simp only [filling, hc, hc']
    rfl
  | newContainer hmalloc hsize hc hc' =>
    have hold : σ.pushed.map Prod.fst ++ σ.filling.map ContainerStruct.containerID =
        σ.pushed.map Prod.fst := by
      rw [filling, hc]
      exact List.append_nil _
    have holdNodup := h.nodup
    have holdDrawn := h.drawn
    rw [hold] at holdNodup holdDrawn
    constructor
    · simp only [filling, hc', if_true, List.map_cons, List.map_nil]
      apply List.nodup_append.mpr
      refine ⟨holdNodup, List.nodup_singleton _, ?_⟩
      intro id hid id' hid' heq
      obtain ⟨k, hk, hkid⟩ := holdDrawn id hid
      rw [List.mem_singleton.mp hid', hkid] at heq
      have hsame := hfresh (Set.mem_Iio.mpr (Nat.lt_succ_of_lt hk))
        (Set.mem_Iio.mpr (Nat.lt_succ_self σ.server.drawn)) heq
      exact absurd hsame hk.ne
    · simp only [filling, hc', if_true, List.map_cons, List.map_nil]
      intro id hid
      rcases List.mem_append.mp hid with hid | hid
      · obtain ⟨k, hk, hkid⟩ := holdDrawn id hid
        exact ⟨k, Nat.lt_succ_of_lt hk, hkid⟩
      · exact ⟨σ.server.drawn, Nat.lt_succ_self _, List.mem_singleton.mp hid⟩
  | _ => exact h.of_eq rfl rfl hdrawn

/-- **The containers directory**: what was written stays, and everything that was not pushed is as the other
sessions left it. -/
structure OnDisk (σ : Pipeline) : Prop where
  saved : ∀ f ∈ σ.saved, σ.server.containers.lookup f.1 = some f.2
  foreign : ∀ id ∉ σ.pushed.map Prod.fst, σ.server.containers.lookup id = σ.foreign.lookup id

/-- Moves that change no container file. -/
theorem OnDisk.of_eq (h : OnDisk σ) (hsaved : σ'.saved = σ.saved)
    (hpushed : ∀ id ∈ σ.pushed.map Prod.fst, id ∈ σ'.pushed.map Prod.fst)
    (hdisk : σ'.server.containers = σ.server.containers) (hforeign : σ'.foreign = σ.foreign) :
    OnDisk σ' := by
  constructor
  · rw [hsaved, hdisk]
    exact h.saved
  · rw [hdisk, hforeign]
    intro id hid
    exact h.foreign id (mt (hpushed id) hid)

/-- **A container file is written**, of a container that was pushed and is not saved yet. -/
theorem OnDisk.insert (h : OnDisk σ) (hnamed : Named env σ) (hdelivered : Delivered σ)
    {c : ContainerStruct} {rest : List ContainerStruct} (hpending : σ.pending = c :: rest)
    (bs : Bytes) :
    (∀ f ∈ σ.saved, (σ.server.containers.insert c.containerID bs).lookup f.1 = some f.2) ∧
    ∀ id ∉ σ.pushed.map Prod.fst,
      (σ.server.containers.insert c.containerID bs).lookup id = σ.foreign.lookup id := by
  -- the container being saved is named among the pushed, and once only
  have hids : σ.pushed.map Prod.fst = σ.saved.map Prod.fst ++
      c.containerID :: rest.map ContainerStruct.containerID := by
    rw [hdelivered, hpending, List.map_append, List.map_cons, List.map_cons, List.map_map]
    rfl
  have hnodup := (List.nodup_append.mp hnamed.nodup).1
  rw [hids] at hnodup
  constructor
  · intro f hf
    have hne : f.1 ≠ c.containerID := by
      have hdisjoint := (List.nodup_append.mp hnodup).2.2
      exact hdisjoint _ (List.mem_map_of_mem hf) _ List.mem_cons_self
    rw [AList.lookup_insert_ne hne]
    exact h.saved f hf
  · intro id hid
    have hne : id ≠ c.containerID := by
      rintro rfl
      apply hid
      rw [hids]
      exact List.mem_append_right _ List.mem_cons_self
    rw [AList.lookup_insert_ne hne]
    exact h.foreign id hid

/-- **Every move** keeps the directory right. -/
theorem OnDisk.moves (h : OnDisk σ) (hnamed : Named env σ) (hdelivered : Delivered σ)
    (hm : Moves env σ σ') : OnDisk σ' := by
  cases hm with
  | pushContainer =>
    refine h.of_eq rfl (fun id hid => ?_) rfl rfl
    rw [List.map_append]
    exact List.mem_append_left _ hid
  | copy =>
    refine h.of_eq rfl (fun _ hid => hid) ?_ rfl
    exact Server.addChunk_containers _ _ _
  | @openContainer c hw =>
    have hpending : σ.pending = c :: σ.containerQueue.queue := by
      rw [pending, hw]
      rfl
    -- opening the file truncates it, before anything is written
    obtain ⟨hsaved, hforeign⟩ := h.insert hnamed hdelivered hpending []
    exact ⟨hsaved, hforeign⟩
  | @saveContainer c hw =>
    have hpending : σ.pending = c :: σ.containerQueue.queue := by
      rw [pending, hw]
      rfl
    obtain ⟨hsaved, hforeign⟩ := h.insert hnamed hdelivered hpending (σ.heap.read c.data c.occupied)
    refine ⟨fun f hf => ?_, hforeign⟩
    rcases List.mem_append.mp hf with hf | hf
    · exact hsaved f hf
    · obtain rfl := List.mem_singleton.mp hf
      exact AList.lookup_insert _
  -- the other sessions keep the containers that this one has pushed
  | others hdrawn hrecipe hcontainers =>
    refine ⟨fun f hf => ?_, fun _ _ => rfl⟩
    have hpushed : f.1 ∈ σ.pushed.map Prod.fst := by
      rw [hdelivered, List.map_append]
      exact List.mem_append_left _ (List.mem_map_of_mem hf)
    exact (hcontainers _ hpushed).trans (h.saved f hf)
  | _ => exact h.of_eq rfl (fun _ hid => hid) rfl rfl

/-! ## The recipe -/

/-- The bytes of a recipe buffer. -/
def recipeValue (heap : Heap) (r : RecipeStruct) : Bytes :=
  heap.read r.data (r.num * sizeofChunkAddr)

/-- The recipe buffers not written yet, in order. -/
def unwritten (σ : Pipeline) : List RecipeStruct := σ.pendingRecipes ++ σ.fillingRecipe

/-- The recipe file once the bytes `w`, of `k` entries, have been written: the state of the writer tells
what is in the count. -/
def RecipeFile (σ : Pipeline) (w : Bytes) (k : ℕ) : Prop :=
  match σ.recipeThread with
  | .opening => w = [] ∧ k = 0
  | .popping pos total | .writing pos total _ | .freeing pos total _ =>
    σ.server.recipes.lookup σ.recipeNameHash = some (encodeTotalChunkNum 0 ++ w) ∧
      pos = 4 + w.length ∧ total = u32 k
  | .patching total =>
    σ.server.recipes.lookup σ.recipeNameHash = some (encodeTotalChunkNum 0 ++ w) ∧ total = u32 k
  | .finished => σ.server.recipes.lookup σ.recipeNameHash = some (encodeTotalChunkNum k ++ w)

/-- **The recipe entries**, in the order they were produced, are those in the file followed by those in
the buffers. -/
def Streamed (σ : Pipeline) : Prop :=
  ∃ w k, σ.RecipeFile w k ∧
    encodeEntries σ.entries = w ++ σ.unwritten.flatMap (recipeValue σ.heap) ∧
    σ.entries.length = k + (σ.unwritten.map RecipeStruct.num).sum

/-- Moves that change neither the file nor the buffers not written yet. -/
theorem Streamed.of_eq (h : Streamed σ)
    (hreads : ∀ r ∈ σ.unwritten, σ'.heap r.data = σ.heap r.data)
    (hfile : ∀ w k, σ.RecipeFile w k → σ'.RecipeFile w k) (hentries : σ'.entries = σ.entries)
    (hunwritten : σ'.unwritten = σ.unwritten) : Streamed σ' := by
  obtain ⟨w, k, hwk, hbytes, hnum⟩ := h
  refine ⟨w, k, hfile w k hwk, ?_, ?_⟩
  · rw [hentries, hunwritten, hbytes]
    apply congrArg
    apply List.flatMap_congr
    intro r hr
    rw [recipeValue, recipeValue, Heap.read_congr (hreads r hr)]
  · rw [hentries, hunwritten]
    exact hnum

/-- The file is the same when the writer is where it was and nobody wrote to it. -/
theorem RecipeFile.congr {w : Bytes} {k : ℕ} (h : σ.RecipeFile w k)
    (hthread : σ'.recipeThread = σ.recipeThread) (hname : σ'.recipeNameHash = σ.recipeNameHash)
    (hlookup : σ'.server.recipes.lookup σ.recipeNameHash = σ.server.recipes.lookup σ.recipeNameHash) :
    σ'.RecipeFile w k := by
  rw [RecipeFile, hthread, hname, hlookup]
  exact h

/-- The buffers not written yet do not change, unless the serving thread fills one. -/
theorem Memory.reads_unwritten (h : Memory σ) (hm : Moves env σ σ')
    (hsame : σ'.recipeBuffer = σ.recipeBuffer) : ∀ r ∈ σ.unwritten, σ'.heap r.data = σ.heap r.data := by
  obtain ⟨-, hpending, hbuffer⟩ := h.reads hm
  intro r hr
  rcases List.mem_append.mp hr with hr | hr
  · exact hpending r hr
  · unfold fillingRecipe at hr
    split at hr
    · rename_i hholds
      obtain rfl := List.mem_singleton.mp hr
      exact hbuffer hholds hsame
    · cases hr

/-- Moves of the serving thread and the container writer that do not concern the recipe. -/
theorem Streamed.frame (h : Streamed σ) (hmem : Memory σ) (hm : Moves env σ σ')
    (hsame : σ'.recipeBuffer = σ.recipeBuffer) (hr : σ'.pc.HoldsRecipe = σ.pc.HoldsRecipe)
    (hqueue : σ'.recipeQueue.queue = σ.recipeQueue.queue)
    (hthread : σ'.recipeThread = σ.recipeThread) (hentries : σ'.entries = σ.entries)
    (hname : σ'.recipeNameHash = σ.recipeNameHash)
    (hlookup : σ'.server.recipes.lookup σ.recipeNameHash = σ.server.recipes.lookup σ.recipeNameHash) :
    Streamed σ' := by
  refine h.of_eq (hmem.reads_unwritten hm hsame) (fun w k hwk => hwk.congr hthread hname hlookup)
    hentries ?_
  simp only [unwritten, pendingRecipes, fillingRecipe, hr, hqueue, hthread, hsame]

/-- **An entry is written to the buffer.** -/
theorem Streamed.enter (h : Streamed σ) (hmem : Memory σ) {pc : ReceiverPc} {heap : Heap}
    {chunkAddr : ChunkAddr}
    (hstore : σ.heap.store σ.recipeBuffer.data (σ.recipeBuffer.num * sizeofChunkAddr)
      (encodeChunkAddr chunkAddr) = some heap)
    (hr : σ.pc.HoldsRecipe = true) (hr' : pc.HoldsRecipe = true) :
    Streamed { σ with
      heap := heap
      recipeBuffer := { σ.recipeBuffer with num := σ.recipeBuffer.num + 1 }
      entries := σ.entries ++ [chunkAddr]
      pc := pc } := by
  obtain ⟨w, k, hwk, hbytes, hnum⟩ := h
  have hperm := Memory.perm_fillingRecipe hr
  obtain ⟨-, hread, hother⟩ := (hmem.owned_recipe hperm).store hstore
  obtain ⟨hne, -⟩ := hmem.ne_recipe hperm
  -- the buffer contains the entry, the others are as they were
  have hbuffer : recipeValue heap { σ.recipeBuffer with num := σ.recipeBuffer.num + 1 } =
      recipeValue σ.heap σ.recipeBuffer ++ encodeChunkAddr chunkAddr := by
    rw [recipeValue, recipeValue]
    dsimp only
    rw [Nat.succ_mul]
    rw [length_encodeChunkAddr] at hread
    exact hread
  have hpending : σ.pendingRecipes.flatMap (recipeValue heap) =
      σ.pendingRecipes.flatMap (recipeValue σ.heap) := by
    apply List.flatMap_congr
    intro r hmem
    rw [recipeValue, recipeValue, Heap.read_congr (hother _ (hne r (List.mem_append_left _ hmem)))]
  refine ⟨w, k, hwk, ?_, ?_⟩
  · rw [unwritten, fillingRecipe, hr, if_pos rfl, List.flatMap_append, List.flatMap_singleton] at hbytes
    simp only [unwritten, fillingRecipe, hr', if_true, List.flatMap_append, List.flatMap_singleton]
    rw [hbuffer, encodeEntries_append, hbytes]
    have hentry : encodeEntries [chunkAddr] = encodeChunkAddr chunkAddr := List.append_nil _
    rw [hentry]
    show w ++ (_ ++ _) ++ _ = w ++ (σ.pendingRecipes.flatMap (recipeValue heap) ++ _)
    rw [hpending, List.append_assoc, List.append_assoc]
  · rw [unwritten, fillingRecipe, hr, if_pos rfl, List.map_append, List.sum_append] at hnum
    simp only [unwritten, fillingRecipe, hr', if_true, List.map_append, List.sum_append,
      List.length_append, List.length_singleton, List.map_cons, List.map_nil, List.sum_singleton]
      at hnum ⊢
    rw [hnum]
    exact Nat.add_assoc _ _ _

/-- **Every move** keeps the recipe in step. -/
theorem Streamed.moves (h : Streamed σ) (hmem : Memory σ) (hm : Moves env σ σ') : Streamed σ' := by
  have hm' := hm
  cases hm with
  | tick _ _ _ _ hr | pushContainer _ _ _ hr | drop _ hr | newContainer _ _ _ _ hr =>
    exact h.frame hmem hm' rfl hr rfl rfl rfl rfl rfl
  | containerDone hpc | recipeDone hpc | joinRecipe hpc | joinData hpc =>
    exact h.frame hmem hm' rfl (by rw [hpc]; rfl) rfl rfl rfl rfl rfl
  | pushRecipe hpush hr hr' =>
    obtain ⟨hqueue, -⟩ := BlockQueueState.push_eq_some hpush
    refine h.of_eq (hmem.reads_unwritten hm' rfl) (fun w k hwk => hwk.congr rfl rfl rfl) rfl ?_
    -- the buffer goes to the end of the queue
    simp only [unwritten, pendingRecipes, fillingRecipe, hr, hr', hqueue, if_true]
    simp only [Bool.false_eq_true, if_false, List.append_nil]
    exact (List.append_assoc _ _ _).symm
  | copy _ _ _ _ _ _ hr =>
    refine h.frame hmem hm' rfl hr rfl rfl rfl rfl ?_
    dsimp only
    rw [Server.addChunk_recipes]
  | enter hstore hr hr' => exact h.enter hmem hstore hr hr'
  | newRecipe hmalloc hsize hr hr' =>
    obtain ⟨-, hreads, -⟩ := hmem.reads hm'
    obtain ⟨w, k, hwk, hbytes, hnum⟩ := h
    have hold : σ.unwritten = σ.pendingRecipes := by
      rw [unwritten, fillingRecipe, hr]
      exact List.append_nil _
    rw [hold] at hbytes hnum
    refine ⟨w, k, hwk, ?_, ?_⟩
    · simp only [unwritten, fillingRecipe, hr', if_true, List.flatMap_append, List.flatMap_singleton]
      rw [hbytes]
      apply congrArg
      rw [recipeValue, Nat.zero_mul, Heap.read, List.take_zero, List.append_nil]
      apply List.flatMap_congr
      intro r hmem
      rw [recipeValue, recipeValue, Heap.read_congr (hreads r hmem)]
    · simp only [unwritten, fillingRecipe, hr', if_true, List.map_append, List.sum_append,
        List.map_cons, List.map_nil, List.sum_singleton]
      rw [hnum]
      rfl
  | openRecipe hw =>
    refine h.of_eq (hmem.reads_unwritten hm' rfl) (fun w k hwk => ?_) rfl ?_
    · rw [RecipeFile, hw] at hwk
      obtain ⟨rfl, rfl⟩ := hwk
      refine ⟨?_, rfl, rfl⟩
      rw [List.append_nil]
      exact AList.lookup_insert _
    · simp only [unwritten, pendingRecipes, hw, RecipeThread.held]
      rfl
  | fetchRecipe hw hpop =>
    obtain ⟨hqueue, -⟩ := BlockQueueState.pop_eq_got hpop
    refine h.of_eq (hmem.reads_unwritten hm' rfl) (fun w k hwk => ?_) rfl ?_
    · rw [RecipeFile, hw] at hwk
      exact hwk
    · simp only [unwritten, pendingRecipes, hw, hqueue, RecipeThread.held]
      rfl
  | finishRecipes hw hpop =>
    refine h.of_eq (hmem.reads_unwritten hm' rfl) (fun w k hwk => ?_) rfl ?_
    · rw [RecipeFile, hw] at hwk
      exact ⟨hwk.1, hwk.2.2⟩
    · simp only [unwritten, pendingRecipes, hw, RecipeThread.held]
      rfl
  | @saveRecipe pos total r hw =>
    obtain ⟨w, k, hwk, hbytes, hnum⟩ := h
    rw [RecipeFile, hw] at hwk
    obtain ⟨hfile, rfl, rfl⟩ := hwk
    have hunwritten : σ.unwritten = r :: (σ.recipeQueue.queue ++ σ.fillingRecipe) := by
      rw [unwritten, pendingRecipes, hw]
      rfl
    have hlength : 4 + w.length = (encodeTotalChunkNum 0 ++ w).length := by
      rw [List.length_append, length_encodeTotalChunkNum]
    rw [hunwritten] at hbytes hnum
    refine ⟨w ++ recipeValue σ.heap r, k + r.num, ⟨?_, ?_, ?_⟩, ?_, ?_⟩
    · dsimp only
      rw [hfile, Option.getD_some, hlength, writeAt_length, List.append_assoc]
      exact AList.lookup_insert _
    · rw [List.length_append, ← Nat.add_assoc]
      rfl
    · simp only [u32]
      omega
    · rw [hbytes, List.flatMap_cons, ← List.append_assoc]
      rfl
    · rw [hnum, List.map_cons, List.sum_cons, ← Nat.add_assoc]
      rfl
  | freeRecipe hw hfree =>
    refine h.of_eq (hmem.reads_unwritten hm' rfl) (fun w k hwk => ?_) rfl ?_
    · rw [RecipeFile, hw] at hwk
      exact hwk
    · simp only [unwritten, pendingRecipes, hw, RecipeThread.held]
      rfl
  | patch hw =>
    refine h.of_eq (hmem.reads_unwritten hm' rfl) (fun w k hwk => ?_) rfl ?_
    · rw [RecipeFile, hw] at hwk
      obtain ⟨hfile, rfl⟩ := hwk
      show AList.lookup _ (AList.insert _ _ _) = _
      rw [hfile, Option.getD_some, AList.lookup_insert,
        writeAt_zero ((length_encodeTotalChunkNum _).trans (length_encodeTotalChunkNum _).symm),
        encodeTotalChunkNum_u32]
    · simp only [unwritten, pendingRecipes, hw, RecipeThread.held]
      rfl
  | others hdrawn hrecipe => exact h.frame hmem hm' rfl rfl rfl rfl rfl rfl hrecipe
  | _ => exact h.frame hmem hm' rfl rfl rfl rfl rfl rfl rfl

/-! ## The end of the upload -/

/-- **A writer ends on an empty queue** to which nothing is pushed any more, and is then joined. -/
structure Controlled (σ : Pipeline) : Prop where
  containerDone : σ.containerQueue.done = true → 1 ≤ σ.pc.closing
  recipeDone : σ.recipeQueue.done = true → 2 ≤ σ.pc.closing
  containerEnded : σ.containerThread = .finished →
    σ.containerQueue.queue = [] ∧ σ.containerQueue.done = true
  recipeEnded : σ.recipeThread.Ended → σ.recipeQueue.queue = [] ∧ σ.recipeQueue.done = true
  recipeJoined : 3 ≤ σ.pc.closing → σ.recipeThread = .finished
  containerJoined : 4 ≤ σ.pc.closing → σ.containerThread = .finished

/-- Moves of the serving thread before the end of the file. -/
theorem Controlled.of_closing (h : Controlled σ) (hclosing : σ'.pc.closing = σ.pc.closing)
    (hcq : σ'.containerQueue = σ.containerQueue) (hrq : σ'.recipeQueue = σ.recipeQueue)
    (hct : σ'.containerThread = σ.containerThread) (hrt : σ'.recipeThread = σ.recipeThread) :
    Controlled σ' := by
  constructor
  · rw [hcq, hclosing]
    exact h.containerDone
  · rw [hrq, hclosing]
    exact h.recipeDone
  · rw [hcq, hct]
    exact h.containerEnded
  · rw [hrq, hrt]
    exact h.recipeEnded
  · rw [hclosing, hrt]
    exact h.recipeJoined
  · rw [hclosing, hct]
    exact h.containerJoined

/-- Moves of the container writer before its end. -/
theorem Controlled.of_container (h : Controlled σ) (hw : σ.containerThread ≠ .finished)
    (hw' : σ'.containerThread ≠ .finished) (hpc : σ'.pc = σ.pc)
    (hdone : σ'.containerQueue.done = σ.containerQueue.done) (hrq : σ'.recipeQueue = σ.recipeQueue)
    (hrt : σ'.recipeThread = σ.recipeThread) : Controlled σ' := by
  constructor
  · rw [hdone, hpc]
    exact h.containerDone
  · rw [hrq, hpc]
    exact h.recipeDone
  · exact fun hfin => absurd hfin hw'
  · rw [hrt, hrq]
    exact h.recipeEnded
  · rw [hpc, hrt]
    exact h.recipeJoined
  · rw [hpc]
    exact fun hclosed => absurd (h.containerJoined hclosed) hw

/-- Moves of the recipe writer in its loop. -/
theorem Controlled.of_recipe (h : Controlled σ) (hw : σ.recipeThread ≠ .finished)
    (hw' : ¬ σ'.recipeThread.Ended) (hpc : σ'.pc = σ.pc)
    (hdone : σ'.recipeQueue.done = σ.recipeQueue.done) (hcq : σ'.containerQueue = σ.containerQueue)
    (hct : σ'.containerThread = σ.containerThread) : Controlled σ' := by
  constructor
  · rw [hcq, hpc]
    exact h.containerDone
  · rw [hdone, hpc]
    exact h.recipeDone
  · rw [hct, hcq]
    exact h.containerEnded
  · exact fun hend => absurd hend hw'
  · rw [hpc]
    exact fun hclosed => absurd (h.recipeJoined hclosed) hw
  · rw [hpc, hct]
    exact h.containerJoined

/-- **Every move** respects the order of the end. -/
theorem Controlled.moves (h : Controlled σ) (hm : Moves env σ σ') : Controlled σ' := by
  cases hm with
  | tick _ _ _ _ _ hclosing | drop _ _ hclosing | copy _ _ _ _ _ _ _ hclosing
  | enter _ _ _ _ hclosing | newContainer _ _ _ _ _ hclosing | newRecipe _ _ _ _ _ hclosing =>
    exact h.of_closing hclosing rfl rfl rfl rfl
  | pushContainer hpush hc hc' hr hopen hopen' =>
    obtain ⟨-, -, hdone, -⟩ := BlockQueueState.push_eq_some hpush
    refine ⟨fun hd => ?_, fun hd => ?_, fun hfin => ?_, h.recipeEnded, ?_, ?_⟩
    · rw [hopen', ← hopen]
      exact h.containerDone (hdone ▸ hd)
    · rw [hopen', ← hopen]
      exact h.recipeDone hd
    · -- nothing is pushed once the queue is done
      have hclosed := h.containerDone (h.containerEnded hfin).2
      omega
    · rw [hopen', ← hopen]
      exact h.recipeJoined
    · rw [hopen', ← hopen]
      exact h.containerJoined
  | pushRecipe hpush hr hr' hc hopen hopen' =>
    obtain ⟨-, -, hdone, -⟩ := BlockQueueState.push_eq_some hpush
    refine ⟨fun hd => ?_, fun hd => ?_, h.containerEnded, fun hend => ?_, ?_, ?_⟩
    · rw [hopen', ← hopen]
      exact h.containerDone hd
    · rw [hopen', ← hopen]
      exact h.recipeDone (hdone ▸ hd)
    · have hclosed := h.recipeDone (h.recipeEnded hend).2
      omega
    · rw [hopen', ← hopen]
      exact h.recipeJoined
    · rw [hopen', ← hopen]
      exact h.containerJoined
  | containerDone hpc =>
    have hrecipe : σ.recipeQueue.done ≠ true := fun hd => by
      have hclosed := h.recipeDone hd
      rw [hpc] at hclosed
      exact absurd hclosed (by decide)
    refine ⟨fun _ => le_rfl, fun hd => absurd hd hrecipe, fun hfin => ?_, h.recipeEnded, ?_, ?_⟩
    · exact ⟨(h.containerEnded hfin).1, rfl⟩
    · exact fun hclosed => absurd hclosed (show ¬ 3 ≤ 1 by decide)
    · exact fun hclosed => absurd hclosed (show ¬ 4 ≤ 1 by decide)
  | recipeDone hpc =>
    refine ⟨fun _ => one_le_two, fun _ => le_rfl, h.containerEnded, fun hend => ?_, ?_, ?_⟩
    · exact ⟨(h.recipeEnded hend).1, rfl⟩
    · exact fun hclosed => absurd hclosed (show ¬ 3 ≤ 2 by decide)
    · exact fun hclosed => absurd hclosed (show ¬ 4 ≤ 2 by decide)
  | joinRecipe hpc hfin =>
    refine ⟨fun _ => show 1 ≤ 3 by decide, fun _ => show 2 ≤ 3 by decide, h.containerEnded,
      h.recipeEnded, fun _ => hfin, ?_⟩
    exact fun hclosed => absurd hclosed (show ¬ 4 ≤ 3 by decide)
  | joinData hpc hfin =>
    have hrecipe : σ.recipeThread = .finished := h.recipeJoined (by rw [hpc]; exact le_rfl)
    exact ⟨fun _ => show 1 ≤ 4 by decide, fun _ => show 2 ≤ 4 by decide, h.containerEnded,
      h.recipeEnded, fun _ => hrecipe, fun _ => hfin⟩
  | fetchContainer hw hpop =>
    obtain ⟨-, -, hdone, -⟩ := BlockQueueState.pop_eq_got hpop
    exact h.of_container (hw ▸ nofun) nofun rfl hdone rfl rfl
  | openContainer hw | saveContainer hw | freeContainer hw =>
    exact h.of_container (hw ▸ nofun) nofun rfl rfl rfl rfl
  | finishContainers hw hpop =>
    obtain ⟨hqueue, hdone⟩ := BlockQueueState.pop_eq_finished hpop
    exact ⟨h.containerDone, h.recipeDone, fun _ => ⟨hqueue, hdone⟩, h.recipeEnded, h.recipeJoined,
      fun _ => rfl⟩
  | fetchRecipe hw hpop =>
    obtain ⟨-, -, hdone, -⟩ := BlockQueueState.pop_eq_got hpop
    exact h.of_recipe (hw ▸ nofun) (fun hend => hend.elim) rfl hdone rfl rfl
  | openRecipe hw | saveRecipe hw | freeRecipe hw =>
    exact h.of_recipe (hw ▸ nofun) (fun hend => hend.elim) rfl rfl rfl rfl
  | finishRecipes hw hpop =>
    obtain ⟨hqueue, hdone⟩ := BlockQueueState.pop_eq_finished hpop
    refine ⟨h.containerDone, h.recipeDone, h.containerEnded, fun _ => ⟨hqueue, hdone⟩,
      fun hclosed => ?_, h.containerJoined⟩
    have hfin := h.recipeJoined hclosed
    rw [hw] at hfin
    cases hfin
  | patch hw =>
    have hended : σ.recipeThread.Ended := by
      rw [hw]
      trivial
    exact ⟨h.containerDone, h.recipeDone, h.containerEnded, fun _ => h.recipeEnded hended,
      fun _ => rfl, h.containerJoined⟩
  | others => exact h.of_closing rfl rfl rfl rfl rfl

/-! ## Runs -/

/-- **An upload has just been registered**: the buffers are new, the queues empty, the writers about to
begin. -/
structure Begun (env : Env) (σ : Pipeline) : Prop where
  sound : σ.faulted = false
  pc : σ.pc = .receiving
  hashList : σ.hashList = []
  owned : σ.heap.Owned [containerBlock σ.containerBuffer, recipeBlock σ.recipeBuffer]
  container : σ.containerBuffer.occupied = 0 ∧ σ.containerBuffer.capacity = CONTAINERSIZE
  recipe : σ.recipeBuffer.num = 0
  named : ∃ k < σ.server.drawn, σ.containerBuffer.containerID = env.uuid k
  containerQueue : σ.containerQueue = .new 1000
  recipeQueue : σ.recipeQueue = .new 1000
  containerThread : σ.containerThread = .popping
  recipeThread : σ.recipeThread = .opening
  pushed : σ.pushed = []
  saved : σ.saved = []
  entries : σ.entries = []
  foreign : σ.foreign = σ.server.containers

/-- **What holds in every state of an upload.** -/
structure Invariant (env : Env) (σ : Pipeline) : Prop where
  memory : Memory σ
  receiving : Receiving σ
  delivered : Delivered σ
  named : Named env σ
  onDisk : OnDisk σ
  streamed : Streamed σ
  controlled : Controlled σ

namespace Begun

variable (h : Begun env σ)
include h

/-- The first container is being filled. -/
theorem filling : σ.filling = [σ.containerBuffer] := by
  rw [Pipeline.filling, h.pc]
  rfl

/-- So is the first recipe buffer. -/
theorem fillingRecipe : σ.fillingRecipe = [σ.recipeBuffer] := by
  rw [Pipeline.fillingRecipe, h.pc]
  rfl

/-- No container is on its way. -/
theorem pending : σ.pending = [] := by
  rw [Pipeline.pending, h.containerThread, h.containerQueue]
  rfl

/-- Nor is a recipe buffer. -/
theorem pendingRecipes : σ.pendingRecipes = [] := by
  rw [Pipeline.pendingRecipes, h.recipeThread, h.recipeQueue]
  rfl

/-- The two buffers have blocks of their own. -/
theorem memory : Memory σ := by
  have hcontainers : σ.containers = [σ.containerBuffer] := by
    rw [containers, h.filling, h.pending, h.containerThread]
    rfl
  have hrecipes : σ.recipes = [σ.recipeBuffer] := by
    rw [recipes, h.fillingRecipe, h.pendingRecipes, h.recipeThread]
    rfl
  refine ⟨h.sound, ?_, ?_, ?_⟩
  · rw [blocks, hcontainers, hrecipes]
    exact h.owned
  · rw [hcontainers]
    intro c hc
    rw [List.mem_singleton.mp hc, h.container.1]
    exact Nat.zero_le _
  · rw [hrecipes]
    intro r hr
    rw [List.mem_singleton.mp hr, h.recipe]
    exact Nat.zero_le _

/-- The serving thread waits for the first message, with an empty container. -/
theorem receiving : Receiving σ := by
  have hqueries : σ.queries = [] := by
    rw [queries, h.hashList, List.zip_nil_right]
  refine ⟨fun _ => ?_, ?_⟩
  · rw [h.container.1, h.container.2, Nat.zero_add]
  · rw [h.pc, hqueries]
    exact ⟨fun q hq => (by cases hq), Nat.zero_le _⟩

/-- The first container has the id that was drawn last. -/
theorem namesDrawn : Named env σ := by
  constructor
  · rw [h.pushed, h.filling]
    exact List.nodup_singleton _
  · rw [h.pushed, h.filling]
    intro id hid
    rw [List.mem_singleton.mp hid]
    exact h.named

/-- There are no entries. -/
theorem streamed : Streamed σ := by
  refine ⟨[], 0, ?_, ?_, ?_⟩
  · rw [RecipeFile, h.recipeThread]
    exact ⟨rfl, rfl⟩
  · rw [h.entries, unwritten, h.pendingRecipes, h.fillingRecipe]
    rw [List.nil_append, List.nil_append, List.flatMap_singleton, recipeValue, h.recipe, Nat.zero_mul]
    rfl
  · rw [h.entries, unwritten, h.pendingRecipes, h.fillingRecipe]
    rw [List.nil_append, List.map_singleton, List.sum_singleton, h.recipe]
    rfl

/-- Nothing has ended. -/
theorem controlled : Controlled σ := by
  refine ⟨fun hd => ?_, fun hd => ?_, fun hfin => ?_, fun hend => ?_, fun hc => ?_, fun hc => ?_⟩
  · rw [h.containerQueue] at hd
    cases hd
  · rw [h.recipeQueue] at hd
    cases hd
  · rw [h.containerThread] at hfin
    cases hfin
  · rw [h.recipeThread] at hend
    exact hend.elim
  · rw [h.pc] at hc
    exact absurd hc (by decide)
  · rw [h.pc] at hc
    exact absurd hc (by decide)

/-- **It holds at the beginning.** -/
theorem invariant : Invariant env σ := by
  refine ⟨h.memory, h.receiving, ?_, h.namesDrawn, ⟨?_, ?_⟩, h.streamed, h.controlled⟩
  · rw [Delivered, h.pushed, h.saved, h.pending]
    rfl
  · rw [h.saved]
    intro f hf
    cases hf
  · intro id _
    rw [h.foreign]

end Begun

/-- **Every move keeps it**, as long as the ids drawn are different. -/
theorem Invariant.moves (h : Invariant env σ) (hreceiving : Receiving σ') (hm : Moves env σ σ')
    (hfresh : env.FreshUpTo σ'.server.drawn) : Invariant env σ' :=
  ⟨h.memory.moves hm, hreceiving, h.delivered.moves h.memory hm, h.named.moves hm hfresh,
    h.onDisk.moves h.named h.delivered hm, h.streamed.moves h.memory hm, h.controlled.moves hm⟩

/-- **It holds along every run.** -/
theorem Invariant.run {σ₀ : Pipeline} (h : Invariant env σ₀)
    (hrun : (pipelineMachine env).Run uploads σ₀ σ) (hfresh : env.FreshUpTo σ.server.drawn) :
    Invariant env σ := by
  -- the ids are different up to the last one drawn, so up to those drawn at any earlier state
  have hall : Receiving σ ∧ Memory σ ∧
      (σ.server.drawn ≤ σ.server.drawn → Invariant env σ) := by
    refine hrun.invariant (I := fun τ => Receiving τ ∧ Memory τ ∧
      (τ.server.drawn ≤ σ.server.drawn → Invariant env τ)) ?_ ⟨h.receiving, h.memory, fun _ => h⟩
    rintro τ a υ ⟨hreceiving, hmemory, hinv⟩ hstep hok
    obtain ⟨hreceiving', hm⟩ := moves_of_step hreceiving hmemory hstep hok
    refine ⟨hreceiving', hmemory.moves hm, fun hle => ?_⟩
    exact (hinv (hm.drawn.trans hle)).moves hreceiving' hm (hfresh.mono hle)
  exact hall.2.2 le_rfl

/-- **After both joins** nothing is in the queue of containers or with its writer. -/
theorem Invariant.pending_of_joined (h : Invariant env σ) (hjoined : σ.pc = .joined) :
    σ.pending = [] := by
  have hclosing : σ.pc.closing = 4 := by
    rw [hjoined]
    rfl
  have hfin : σ.containerThread = .finished := h.controlled.containerJoined hclosing.ge
  rw [pending, hfin, (h.controlled.containerEnded hfin).1]
  rfl

/-- **What was pushed has been written** then. -/
theorem Invariant.pushed_of_joined (h : Invariant env σ) (hjoined : σ.pc = .joined) :
    σ.pushed = σ.saved := by
  have hdelivered := h.delivered
  rw [Delivered, h.pending_of_joined hjoined, List.map_nil, List.append_nil] at hdelivered
  exact hdelivered

/-- **The recipe file is complete** then: the count, and the entries. -/
theorem Invariant.recipe_of_joined (h : Invariant env σ) (hjoined : σ.pc = .joined) :
    σ.server.recipes.lookup σ.recipeNameHash =
      some (encodeTotalChunkNum σ.entries.length ++ encodeEntries σ.entries) := by
  have hclosing : σ.pc.closing = 4 := by
    rw [hjoined]
    rfl
  have hrecipes : σ.recipeThread = .finished := h.controlled.recipeJoined (hclosing ▸ (by decide))
  have hended : σ.recipeThread.Ended := by
    rw [hrecipes]
    trivial
  -- nothing is left in the queue of recipe buffers
  have hunwritten : σ.unwritten = [] := by
    rw [unwritten, pendingRecipes, fillingRecipe, hrecipes, hjoined, (h.controlled.recipeEnded hended).1]
    rfl
  obtain ⟨w, k, hfile, hbytes, hnum⟩ := h.streamed
  rw [hunwritten, List.flatMap_nil, List.append_nil] at hbytes
  rw [hunwritten, List.map_nil, List.sum_nil, Nat.add_zero] at hnum
  rw [RecipeFile, hrecipes] at hfile
  rw [hbytes, hnum]
  exact hfile

end Pipeline

end DedupServer
