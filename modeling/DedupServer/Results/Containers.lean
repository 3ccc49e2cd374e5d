import DedupServer.Results.Pipeline
import DedupServer.Threads.Packed

/-! # Containers are packed without gaps

Whatever chunks an upload stores, of one byte or more, and however the serving thread is interleaved with the
writers: the addresses handed out for a container tile it, and the container files hold the chunks there. -/

namespace DedupServer

open Foundations

variable {env : Env} {σ₀ σ : Pipeline} {handed : List (ChunkAddr × Bytes)}

/-- The extents handed out for a container. -/
def extentsIn (handed : List (ChunkAddr × Bytes)) (id : ContainerID) : List (ℕ × ℕ) :=
  (handed.filter (·.1.containerID = id)).map fun e => (e.1.offset.toNat, e.1.size.toNat)

/-- The bytes at an address, in a container. -/
def ChunkAddr.slice (chunkAddr : ChunkAddr) (content : Bytes) : Bytes :=
  (content.drop chunkAddr.offset.toNat).take chunkAddr.size.toNat

/-- **The containers of an upload are packed** by the addresses handed out so far. -/
structure Pipeline.WellPacked (σ : Pipeline) (handed : List (ChunkAddr × Bytes)) : Prop where
  /-- Nothing has been written outside of a block. -/
  sound : σ.faulted = false
  capacity : σ.containerBuffer.occupied + σ.containerBuffer.capacity = CONTAINERSIZE
  /-- No empty container has been pushed, and none that is too long. -/
  pushed : ∀ f ∈ σ.pushed, 0 < f.2.length ∧ f.2.length ≤ CONTAINERSIZE
  /-- The extents handed out for a container that has been pushed tile it. -/
  tilesPushed : ∀ f ∈ σ.pushed, Tiles (extentsIn handed f.1) f.2.length
  /-- The extents handed out for the container being filled tile `[0, occupied)`. -/
  tilesFilling : σ.pc.HoldsContainer = true →
    Tiles (extentsIn handed σ.containerBuffer.containerID) σ.containerBuffer.occupied
  /-- Every chunk lies whole in one container, where its address says. -/
  held : ∀ e ∈ handed, e.1.size.toNat = e.2.length ∧
    e.1.offset.toNat + e.1.size.toNat ≤ CONTAINERSIZE ∧
      ∃ b ∈ σ.buffers, b.1 = e.1.containerID ∧ e.1.slice b.2 = e.2

/-- The extents are those of the chunks where they were put. -/
theorem extentsOf_placed (hsize : ∀ e ∈ handed, e.1.size.toNat = e.2.length) (id : ContainerID) :
    extentsOf (handed.map Pipeline.placed) id = extentsIn handed id := by
  rw [extentsOf, extentsIn, List.filter_map, List.map_map]
  apply List.map_congr_left
  intro e he
  show (e.1.offset.toNat, e.2.length) = _
  rw [hsize e (List.mem_of_mem_filter he)]

/-- **The invariant of the upload** tells that the containers are packed. -/
theorem Pipeline.Tight.wellPacked (h : σ.Tight handed) (hinv : σ.Invariant env) :
    σ.WellPacked handed := by
  have hlength : ∀ b ∈ σ.buffers, b.2.length ≤ CONTAINERSIZE := by
    intro b hb
    rcases List.mem_append.mp hb with hb | hb
    · exact (h.pushed b hb).2
    · obtain ⟨c, hc, rfl⟩ := List.mem_map.mp hb
      have hmem : c ∈ σ.containers := List.mem_append_left _ (List.mem_append_left _ hc)
      exact (hinv.memory.length_read hmem).trans_le (hinv.memory.occupied c hmem)
  refine ⟨hinv.memory.sound, h.capacity, h.pushed, fun f hf => ?_, fun hholds => ?_, fun e he => ?_⟩
  · rw [← extentsOf_placed h.size]
    exact h.packed.tiles f (List.mem_append_left _ hf)
  · have hfilling : containerValue σ.heap σ.containerBuffer ∈ σ.buffers := by
      rw [buffers, filling_of_holds hholds]
      exact List.mem_append_right _ List.mem_cons_self
    have htiles := h.packed.tiles _ hfilling
    rw [extentsOf_placed h.size, containerValue,
      hinv.memory.length_read (containerBuffer_mem hholds)] at htiles
    exact htiles
  · have hsize := h.size e he
    obtain ⟨b, hb, hid, hslice⟩ := h.packed.held (placed e) (List.mem_map_of_mem he)
    have hpos := List.length_pos_iff.mpr (h.chunk e he)
    refine ⟨hsize, ?_, b, hb, hid, ?_⟩
    · -- a slice that is not empty ends in the container
      have hle := hlength b hb
      have hbytes : min e.2.length (b.2.length - e.1.offset.toNat) = e.2.length := by
        have htake := congrArg List.length hslice
        rw [List.length_take, List.length_drop] at htake
        exact htake
      omega
    · rw [ChunkAddr.slice, hsize]
      exact hslice

/-- **Containers are packed without gaps and in bounds.** In every state of an upload that stores chunks of
one byte or more, `occupied + capacity` is `CONTAINERSIZE`, no container that has been pushed is empty, the
addresses handed out for a container tile it, and each of them has its chunk there. When `receive_file` has
joined its writers, the container files hold the chunks at the addresses that were handed out. -/
theorem containers_packed (hbegun : σ₀.Begun env)
    (hrun : ((pipelineMachine env).logged Pipeline.handedOut).Run Pipeline.storesChunks (σ₀, [])
      (σ, handed))
    (hfresh : env.FreshUpTo σ.server.drawn) :
    σ.WellPacked handed ∧
      (σ.pc = .joined → ∀ e ∈ handed, ∃ content,
        σ.server.containers.lookup e.1.containerID = some content ∧ e.1.slice content = e.2) := by
  have hinv : σ.Invariant env := by
    have hsteps := hrun.mono (fun _ _ _ hok => hok.1)
    exact hbegun.invariant.run (Machine.Run.of_logged hsteps) hfresh
  have htight : σ.Tight handed := hbegun.tight.run hbegun.invariant hrun hfresh
  have hpacked := htight.wellPacked hinv
  refine ⟨hpacked, fun hjoined e he => ?_⟩
  obtain ⟨-, -, b, hb, hid, hslice⟩ := hpacked.held e he
  -- no container is being filled any more, so it is one of those written
  have hbuffers : σ.buffers = σ.saved := by
    rw [Pipeline.buffers, Pipeline.filling, hjoined, hinv.pushed_of_joined hjoined]
    exact List.append_nil _
  refine ⟨b.2, ?_, hslice⟩
  rw [← hid]
  exact hinv.onDisk.saved b (hbuffers ▸ hb)

namespace Sample

/-- The threads of the upload, with the addresses handed out. -/
abbrev packing : Machine (Pipeline × List (ChunkAddr × Bytes)) PipelineAct :=
  (pipelineMachine Sample.env).logged Pipeline.handedOut

/-- A message within the buffers and what the threads do then, when all chunks that are stored have a byte. -/
theorem run_stores {s t : Pipeline × List (ChunkAddr × Bytes)} {msg : DataMsg} {acts : List PipelineAct}
    (hok : msg.header.dataMsgType = .FILEEND ∨ msg.InBounds (picks 1 s.1.queries).length)
    (hacts : ∀ a ∈ acts, Internal a = true) (hlog : ∀ e ∈ t.2, 0 < e.2.length)
    (hexec : packing.exec s (.message msg :: acts) = some t) :
    packing.Run Pipeline.storesChunks s t := by
  rw [Machine.exec_cons] at hexec
  obtain ⟨u, hstep, hrest⟩ := Option.bind_eq_some_iff.mp hexec
  refine .head hstep ⟨hok, fun e he => (by cases he)⟩ ?_
  apply Machine.run_logged_of_exec (fun σ a ha τ => ?_) hlog hrest
  have hinternal := hacts a ha
  cases a with
  | message => cases hinternal
  | others => cases hinternal
  | _ => trivial

end Sample

/-- A message with a chunk of one byte, which asks for the hash of another one. -/
def Sample.chunkAndQuery : DataMsg :=
  ⟨⟨.UPLOADBODY, 1, 1, 1, sizeofDataMsg + 33⟩, 7 :: List.replicate 32 8⟩

/-- A message with that other chunk. -/
def Sample.lastChunk : DataMsg := ⟨⟨.UPLOADBODY, 1, 0, 1, sizeofDataMsg + 1⟩, [8]⟩

/-- The addresses of the two chunks. -/
def Sample.twoChunks : List (ChunkAddr × Bytes) :=
  [(⟨Sample.env.uuid 0, 0, 1⟩, [7]), (⟨Sample.env.uuid 0, 1, 1⟩, [8])]

/-- Two chunks in two messages: their addresses tile the container, and their bytes are there in the end. -/
theorem containers_packed_sample : ∃ σ : Pipeline, ∃ handed, σ.pc = .joined ∧
    handed = Sample.twoChunks ∧ σ.WellPacked handed ∧ ∀ e ∈ handed, ∃ content,
      σ.server.containers.lookup e.1.containerID = some content ∧ e.1.slice content = e.2 := by
  let M := Sample.packing
  have hrun : (M.exec (Sample.begun, []) (.message Sample.query :: List.replicate 2 .receiver)).any
      (fun s => decide ((picks 1 s.1.queries).length = 1 ∧ s.2 = []) &&
        (M.exec s (.message Sample.chunkAndQuery :: List.replicate 5 .receiver)).any fun t =>
          decide ((picks 1 t.1.queries).length = 1 ∧ t.2 = Sample.twoChunks.take 1) &&
          (M.exec t (.message Sample.lastChunk :: List.replicate 5 .receiver)).any fun u =>
            decide (u.2 = Sample.twoChunks) &&
            (M.exec u (.message Sample.ending :: Sample.closing)).any fun v =>
              Sample.ended v.1 && decide (v.1.server.drawn = 1 ∧ v.2 = Sample.twoChunks)) = true := by
    decide +kernel
  obtain ⟨s, hquery, hs⟩ := (Option.any_eq_true _ _).mp hrun
  obtain ⟨hfirst, hs⟩ := (Bool.and_eq_true _ _).mp hs
  obtain ⟨t, hchunk, ht⟩ := (Option.any_eq_true _ _).mp hs
  obtain ⟨hsecond, ht⟩ := (Bool.and_eq_true _ _).mp ht
  obtain ⟨u, hlast, hu⟩ := (Option.any_eq_true _ _).mp ht
  obtain ⟨hthird, hu⟩ := (Bool.and_eq_true _ _).mp hu
  obtain ⟨⟨σ, handed⟩, hend, hv⟩ := (Option.any_eq_true _ _).mp hu
  obtain ⟨hended, hv⟩ := (Bool.and_eq_true _ _).mp hv
  obtain ⟨hcount₁, hnone⟩ := of_decide_eq_true hfirst
  obtain ⟨hcount₂, hone⟩ := of_decide_eq_true hsecond
  have htwo := of_decide_eq_true hthird
  obtain ⟨hdrawn, hhanded⟩ := of_decide_eq_true hv
  have hjoined : σ.pc = .joined := Sample.joined_of_ended hended
  -- each message is within the buffers, and each entry has a byte
  have hbyte : ∀ e ∈ Sample.twoChunks, 0 < e.2.length := by decide
  have hrun₁ : M.Run Pipeline.storesChunks (Sample.begun, []) s := by
    refine Sample.run_stores (.inr ⟨rfl, ?_, ?_, ?_, ?_⟩) (by decide) ?_ hquery
    · decide
    · decide
    · decide
    · exact Nat.zero_le _
    · rw [hnone]
      intro e he
      cases he
  have hrun₂ : M.Run Pipeline.storesChunks s t := by
    refine Sample.run_stores (.inr ?_) (by decide) ?_ hchunk
    · rw [hcount₁]
      exact ⟨rfl, by decide, by decide, by decide, by decide⟩
    · rw [hone]
      intro e he
      exact hbyte e (List.mem_of_mem_take he)
  have hrun₃ : M.Run Pipeline.storesChunks t u := by
    refine Sample.run_stores (.inr ?_) (by decide) (htwo ▸ hbyte) hlast
    rw [hcount₂]
    exact ⟨rfl, by decide, by decide, by decide, by decide⟩
  have hrun₄ : M.Run Pipeline.storesChunks u (σ, handed) :=
    Sample.run_stores (.inl rfl) (by decide) (hhanded ▸ hbyte) hend
  obtain ⟨hpacked, hheld⟩ := containers_packed Sample.begun_begun
    (((hrun₁.trans hrun₂).trans hrun₃).trans hrun₄) (Sample.freshUpTo (hdrawn ▸ (by decide)))
  exact ⟨σ, handed, hjoined, hhanded, hpacked, hheld hjoined⟩

end DedupServer
