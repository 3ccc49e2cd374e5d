import DedupServer.Download.SendFile
import DedupServer.Store.Recipe
import DedupServer.Store.Runs

/-! # Getting a file back

What the pool knows of an extent is what is on disk, once its container is there
(`Pool.Sound.extentOnDisk_eq`). The containers a finished upload has filled are on disk; the ones it
refers to because the index answered with them are the affair of others. When these are on disk
too, `send_file` sends the file (`Conn.sentBytes_of_extents`). -/

namespace DedupServer

open Foundations

variable {env : Env} {π : Policy env} {P : Pool} {sv : Server} {s : Session} {i : ℕ}
  {Good : Bytes → Bytes → Prop} {a : ChunkAddr} {x : Bytes}

/-- **An extent of a container on disk** is what the pool says. -/
theorem Pool.Sound.extentOnDisk_eq (h : P.Sound env Good sv) (hat : P.At a x)
    (hdisk : a.containerID ∈ sv.containers) :
    Conn.OnDisk sv a ∧ Conn.extentOnDisk sv a = x := by
  obtain ⟨data, hdata⟩ := Option.isSome_iff_exists.mp (AList.lookup_isSome.mpr hdisk)
  obtain ⟨o, hlog⟩ := h.disk _ data hdata
  obtain ⟨o', l, hl, hlen, hx⟩ := hat
  rw [hlog] at hl
  obtain ⟨-, rfl⟩ := Prod.mk.inj (Option.some.inj hl)
  exact Conn.onDisk_of_lookup hdata hlen hx

/-- **A finished upload has its containers on disk.** -/
theorem Policy.Local.onDisk (h : π.Local i P sv s) (hjoined : s.conn.Joined)
    (hpc : s.conn.pc ≠ .join) (hown : P.OwnedBy i a.containerID) (hat : P.At a x) (hx : x ≠ []) :
    a.containerID ∈ sv.containers := by
  obtain ⟨l, hl⟩ := hown
  have hne : l ≠ [] := by
    rintro rfl
    obtain ⟨o', l', hl', hlen, rfl⟩ := hat
    rw [hl] at hl'
    obtain ⟨-, rfl⟩ := Prod.mk.inj (Option.some.inj hl')
    simp at hx
  rcases h.owns.located _ l hl with hnil | hdisk | ⟨C, hC, hid⟩
  · exact absurd hnil hne
  · exact AList.lookup_isSome.mp (by rw [hdisk]; rfl)
  · -- the only container in memory is empty
    have hback := h.owns.backs C hC
    rw [Policy.live_of_ne_join hpc, UploadState.containers, hjoined.dataWriter,
      hjoined.containerQueue] at hC
    have hbuffer : C = s.conn.upload.containerBuffer := by
      simpa [DataWriter.held, BlockQueue.empty] using hC
    have hempty : C.data = [] := by
      rw [← List.length_eq_zero_iff, ← hback.occupied, hbuffer, hjoined.blank]
    have hlog := hback.log
    rw [hid, hl, hempty] at hlog
    exact absurd (Prod.mk.inj (Option.some.inj hlog)).2 hne

/-- The chunks of a file are not empty. -/
theorem ne_nil_of_mem_fileChunks {file : Bytes} (hx : x ∈ fileChunks env file) : x ≠ [] :=
  List.length_pos_iff.mp ((ragged_fileChunks env file).2 x hx).1

/-- **A finished upload whose answers are on disk is on disk.** -/
theorem Policy.Local.forall₂_extentOnDisk (h : π.Local i P sv s) (hsound : P.Sound env π.Good sv)
    (ht : i ∈ π.tracked) (hacc : s.Accepted) (hjoined : s.conn.Joined) (hpc : s.conn.pc ≠ .join)
    (hlisted : s.Listed env) (hanswered : ∀ a ∈ s.conn.answered, a.containerID ∈ sv.containers) :
    List.Forall₂ (fun a x => Conn.OnDisk sv a ∧ Conn.extentOnDisk sv a = x) s.conn.written
      (fileChunks env s.client.file) := by
  have hrefs := (h.refs ht hacc).listed hlisted
  rw [hjoined.entries hpc] at hrefs
  have hmem : List.Forall₂ (fun _ x => x ∈ fileChunks env s.client.file) s.conn.written
      (fileChunks env s.client.file) := by
    rw [List.forall₂_iff_zip]
    exact ⟨hrefs.length_eq, fun hz => (List.of_mem_zip hz).2⟩
  have hboth : List.Forall₂ (fun a x => Source i P s.conn.answered a x ∧
      x ∈ fileChunks env s.client.file) s.conn.written (fileChunks env s.client.file) := by
    rw [List.forall₂_iff_zip] at hrefs hmem ⊢
    exact ⟨hrefs.1, fun hz => ⟨hrefs.2 hz, hmem.2 hz⟩⟩
  refine hboth.imp ?_
  rintro a x ⟨⟨hat, hown | hans⟩, hx⟩
  · exact hsound.extentOnDisk_eq hat
      (h.onDisk hjoined hpc hown hat (ne_nil_of_mem_fileChunks hx))
  · exact hsound.extentOnDisk_eq hat (hanswered a hans)

/-- Extents that are the chunks one by one are the file. -/
theorem flatMap_extentOnDisk {as : List ChunkAddr} {file : Bytes}
    (h : List.Forall₂ (fun a x => Conn.OnDisk sv a ∧ Conn.extentOnDisk sv a = x) as
      (fileChunks env file)) : as.flatMap (Conn.extentOnDisk sv) = file := by
  have hmap : as.map (Conn.extentOnDisk sv) = fileChunks env file := by
    have := List.forall₂_map_left_iff.mpr (h.imp fun a x h => h.2)
    exact List.forall₂_eq_eq_eq ▸ this
  rw [List.flatMap_def, hmap, flatten_fileChunks]

/-- **`send_file` sends the file** whose chunks the recipe lists. -/
theorem Conn.sentBytes_of_extents {name file : Bytes} {as : List ChunkAddr}
    (hfile : sv.recipes.lookup name = some (encodeTotalChunkNum as.length ++ encodeEntries as))
    (h : List.Forall₂ (fun a x => Conn.OnDisk sv a ∧ Conn.extentOnDisk sv a = x) as
      (fileChunks env file)) (outData : Bytes) : Conn.sentBytes sv name outData = file := by
  have hdisk : ∀ a ∈ as, Conn.OnDisk sv a := ((List.forall₂_and_left _ _).mp h).1
  rw [Conn.sentBytes_eq hfile hdisk, flatMap_extentOnDisk h]

end DedupServer
