import DedupServer.Model.Util
import Mathlib.Data.List.TakeWhile

/-! # The shared state of the server: registry, chunk index and files

`DedupServer`'s members that sessions share, and the two directories they write to. The `FILES`
table is the list of its rows: it has no unique key, so `addFile` may insert a row twice. The
chunk index is the `std::map` from textual hashes to addresses, whose `insert` does not replace
an entry (`addChunk`). Files are named byte strings; `writeAt` is writing through an open stream
at its position, which leaves a hole of zero bytes when another stream has truncated the file. -/

namespace DedupServer

open Foundations

/-! ## Files -/

/-- The files of a directory. -/
abbrev Directory (κ : Type) := AList fun _ : κ => Bytes

/-- Writing `bs` into a file through a stream at position `pos`. -/
def writeAt (file : Bytes) (pos : Nat) (bs : Bytes) : Bytes :=
  overwrite (file ++ List.replicate (pos - file.length) 0) pos bs

/-- Writing at the end of a file appends. -/
theorem writeAt_length (file bs : Bytes) : writeAt file file.length bs = file ++ bs := by
  simp [writeAt, overwrite_length]

/-- Writing at the start of a file replaces as many bytes. -/
theorem writeAt_zero {old new rest : Bytes} (h : new.length = old.length) :
    writeAt (old ++ rest) 0 new = new ++ rest := by
  simp [writeAt, overwrite, h]

/-! ## Recipe files -/

/-- The bytes of a `ChunkAddr_t`: 40 characters with the id and its NUL, then `offset` and
`size`. The characters behind the NUL are indeterminate in the source; here they are zero. -/
def encodeChunkAddr (a : ChunkAddr) : Bytes :=
  a.containerID.chars ++ List.replicate (40 - a.containerID.chars.length) 0 ++
    (leBytes 8 a.offset.toNat ++ leBytes 8 a.size.toNat)

/-- The C string at the start of `char containerID[40]`. -/
def decodeContainerID (bs : Bytes) : ContainerID where
  chars := (bs.take 39).takeWhile (· ≠ 0)
  noNul h := by simpa using List.mem_takeWhile_imp h
  fits := by
    have h1 := (List.takeWhile_prefix (· ≠ 0) (l := bs.take 39)).length_le
    rw [List.length_take] at h1
    omega

/-- The `ChunkAddr_t` whose bytes are given. -/
def decodeChunkAddr (bs : Bytes) : ChunkAddr where
  containerID := decodeContainerID bs
  offset := UInt64.ofNat (ofLeBytes ((bs.drop 40).take 8))
  size := UInt64.ofNat (ofLeBytes ((bs.drop 48).take 8))

/-- The four bytes of `totalChunkNum` at the start of a recipe file. -/
def encodeTotalChunkNum (n : Nat) : Bytes := leBytes 4 (u32 n)

/-- The entries of a recipe as they are written to the file. -/
def encodeEntries (entries : List ChunkAddr) : Bytes := entries.flatMap encodeChunkAddr

@[simp] theorem length_encodeTotalChunkNum (n : Nat) : (encodeTotalChunkNum n).length = 4 :=
  length_leBytes _ _

/-- A file of which the count has been converted before is the same. -/
theorem encodeTotalChunkNum_u32 (n : ℕ) : encodeTotalChunkNum (u32 n) = encodeTotalChunkNum n := by
  rw [encodeTotalChunkNum, encodeTotalChunkNum, u32, u32, Nat.mod_mod]

@[simp] theorem length_encodeChunkAddr (a : ChunkAddr) :
    (encodeChunkAddr a).length = sizeofChunkAddr := by
  have := a.containerID.fits
  simp only [encodeChunkAddr, List.length_append, List.length_replicate, length_leBytes,
    sizeofChunkAddr]
  omega

@[simp] theorem encodeEntries_nil : encodeEntries [] = [] := rfl

@[simp] theorem encodeEntries_append (as bs : List ChunkAddr) :
    encodeEntries (as ++ bs) = encodeEntries as ++ encodeEntries bs := by
  simp [encodeEntries]

/-- A recipe of `n` entries takes `n` records. -/
theorem length_encodeEntries (as : List ChunkAddr) :
    (encodeEntries as).length = sizeofChunkAddr * as.length := by
  induction as with
  | nil => rfl
  | cons a as ih =>
    rw [encodeEntries, List.flatMap_cons, List.length_append, length_encodeChunkAddr]
    rw [encodeEntries] at ih
    rw [ih, List.length_cons, Nat.mul_succ, Nat.add_comm]

/-- **The container id reads back**, whatever stands behind its NUL. -/
theorem decodeContainerID_chars (c : ContainerID) (rest : Bytes) :
    decodeContainerID (c.chars ++ 0 :: rest) = c := by
  have hfits := c.fits
  have h : ((c.chars ++ 0 :: rest).take 39).takeWhile (· ≠ 0) = c.chars := by
    rw [List.take_append, List.take_of_length_le (by omega), List.takeWhile_append_of_pos]
    · rcases Nat.eq_zero_or_pos (39 - c.chars.length) with h0 | hpos
      · simp [h0]
      · obtain ⟨m, hm⟩ := Nat.exists_eq_succ_of_ne_zero hpos.ne'
        simp [hm]
    · intro b hb
      have : b ≠ 0 := fun h => c.noNul (h ▸ hb)
      simpa using this
  cases c
  simpa [decodeContainerID] using h

/-- **A recipe entry reads back.** -/
theorem decodeChunkAddr_encodeChunkAddr (a : ChunkAddr) :
    decodeChunkAddr (encodeChunkAddr a) = a := by
  have hfits := a.containerID.fits
  obtain ⟨k, hk⟩ : ∃ k, 40 - a.containerID.chars.length = k + 1 :=
    ⟨39 - a.containerID.chars.length, by omega⟩
  have hid : (a.containerID.chars ++ List.replicate (40 - a.containerID.chars.length) 0).length
      = 40 := by
    simp
    omega
  have hoff : ((encodeChunkAddr a).drop 40).take 8 = leBytes 8 a.offset.toNat := by
    rw [encodeChunkAddr, List.drop_left' hid, List.take_left' (length_leBytes _ _)]
  have hsize : ((encodeChunkAddr a).drop 48).take 8 = leBytes 8 a.size.toNat := by
    rw [encodeChunkAddr, show 48 = 40 + 8 from rfl, ← List.drop_drop, List.drop_left' hid,
      List.drop_left' (length_leBytes _ _), List.take_of_length_le (by simp)]
  have hcid : decodeContainerID (encodeChunkAddr a) = a.containerID := by
    rw [encodeChunkAddr, hk, List.replicate_succ, List.append_assoc, List.cons_append,
      decodeContainerID_chars]
  cases a with
  | mk containerID offset size =>
    simp only [decodeChunkAddr, hoff, hsize, hcid, ofLeBytes_leBytes]
    congr 1
    · rw [Nat.mod_eq_of_lt (by exact offset.toNat_lt), UInt64.ofNat_toNat]
    · rw [Nat.mod_eq_of_lt (by exact size.toNat_lt), UInt64.ofNat_toNat]

/-! ## The shared state -/

/-- **What all sessions share**: the `FILES` table, `m_all_chunks`, the `containers/` and
`recipes/` directories, and how many ids the random generator has drawn. -/
structure Server where
  files : List (Int × Bytes)
  allChunks : Bytes → Option ChunkAddr
  containers : Directory ContainerID
  recipes : Directory Bytes
  drawn : Nat

namespace Server

/-- The server when it starts, on an empty database and empty directories. -/
def init : Server := ⟨[], fun _ => none, ∅, ∅, 0⟩

/-- `DedupServer::isFileUnique`. -/
def isFileUnique (sv : Server) (client_id : Int) (file_name : Bytes) : Bool :=
  decide ((client_id, file_name) ∉ sv.files)

/-- `DedupServer::isFileExist`. -/
def isFileExist (sv : Server) (client_id : Int) (file_name : Bytes) : Bool :=
  !sv.isFileUnique client_id file_name

theorem isFileUnique_iff {sv : Server} {client_id : Int} {file_name : Bytes} :
    sv.isFileUnique client_id file_name = true ↔ (client_id, file_name) ∉ sv.files := by
  rw [isFileUnique, decide_eq_true_eq]

theorem isFileUnique_eq_false_iff {sv : Server} {client_id : Int} {file_name : Bytes} :
    sv.isFileUnique client_id file_name = false ↔ (client_id, file_name) ∈ sv.files := by
  rw [isFileUnique, decide_eq_false_iff_not, not_not]

theorem isFileExist_iff {sv : Server} {client_id : Int} {file_name : Bytes} :
    sv.isFileExist client_id file_name = true ↔ (client_id, file_name) ∈ sv.files := by
  rw [isFileExist, Bool.not_eq_true', isFileUnique_eq_false_iff]

/-- `DedupServer::addFile`. -/
def addFile (sv : Server) (client_id : Int) (file_name : Bytes) : Server :=
  { sv with files := sv.files ++ [(client_id, file_name)] }

/-- `DedupServer::addChunk`: `std::map::insert` keeps an entry that is there. -/
def addChunk (sv : Server) (strChunkHash : Bytes) (chunkAddr : ChunkAddr) : Server :=
  match sv.allChunks strChunkHash with
  | some _ => sv
  | none => { sv with allChunks := Function.update sv.allChunks strChunkHash (some chunkAddr) }

/-- `DedupServer::isChunkStored`, with the address it hands out. -/
def isChunkStored (sv : Server) (strChunkHash : Bytes) : Option ChunkAddr :=
  sv.allChunks strChunkHash

/-- The index after `addChunk`: an old entry wins. -/
theorem addChunk_allChunks (sv : Server) (k : Bytes) (a : ChunkAddr) (k' : Bytes) :
    (sv.addChunk k a).allChunks k' =
      (sv.allChunks k').or (if k' = k then some a else none) := by
  unfold addChunk
  by_cases hk : k' = k
  · subst hk
    split <;> simp_all
  · split <;> simp [hk]

@[simp] theorem addChunk_files (sv : Server) (k : Bytes) (a : ChunkAddr) :
    (sv.addChunk k a).files = sv.files := by
  unfold addChunk
  split <;> rfl

@[simp] theorem addChunk_containers (sv : Server) (k : Bytes) (a : ChunkAddr) :
    (sv.addChunk k a).containers = sv.containers := by
  unfold addChunk
  split <;> rfl

@[simp] theorem addChunk_recipes (sv : Server) (k : Bytes) (a : ChunkAddr) :
    (sv.addChunk k a).recipes = sv.recipes := by
  unfold addChunk
  split <;> rfl

@[simp] theorem addChunk_drawn (sv : Server) (k : Bytes) (a : ChunkAddr) :
    (sv.addChunk k a).drawn = sv.drawn := by
  unfold addChunk
  split <;> rfl

end Server

end DedupServer
