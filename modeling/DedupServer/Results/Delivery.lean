import DedupServer.Download.Delivery
import DedupServer.Protocol.Buffers
import Mathlib.Algebra.Group.Action.Defs

/-! # Wrong bytes delivered as a success

A download sends the bytes that its extents really have, or tells its client that it has failed, exactly if
the file is not registered or all extents of its recipe are on disk in full (`delivery_iff`). Of an extent
that is not, the client gets what the reply buffer contained before (`stale_bytes_delivered`). -/

namespace DedupServer

open Foundations

namespace Conn

variable (env : Env) (sv : Server) (c : Conn) (fileName : Bytes)

/-- **The right bytes**: each `DOWNLOADBODY` message carries the bytes that the extents of its entries have on
disk, one extent after another. -/
def SendsExtents : Prop :=
  sv.isFileExist c.client_id fileName = true →
    ∀ b ∈ c.sentBlocks sv (env.recipeNameHash c.client_id fileName), b.2.data = b.1.flatMap (extentOnDisk sv)

/-- **The client can tell** from the messages that the download has failed: whatever there is on the server
and in the reply buffer, no download of a registered file that sends the right bytes sends these messages.
-/
def ClientTells : Prop :=
  ∀ (sv' : Server) (c' : Conn), c'.client_id = c.client_id →
    c'.sendFileMsgs env sv' fileName = c.sendFileMsgs env sv fileName →
      sv'.isFileExist c'.client_id fileName = true → ¬ c'.SendsExtents env sv' fileName

/-- **All that the recipe addresses is on disk.** -/
def RecipeOnDisk : Prop :=
  ∀ as ∈ addressed sv (env.recipeNameHash c.client_id fileName), ∀ a ∈ as, OnDisk sv a

/-- **What a block addresses fits** behind the header of the reply buffer. -/
def FitsReply : Prop :=
  ∀ as ∈ addressed sv (env.recipeNameHash c.client_id fileName), blockSize as ≤ c.outData.length

variable {env sv c fileName}

/-- The blocks of a recipe of bounded extents. -/
theorem blockSize_le_of_bounded (as : List ChunkAddr) (h : ∀ a ∈ as, a.Bounded) :
    ∀ block ∈ recipeBlocks (encodeEntries as), blockSize block ≤ CHUNKSIZE * BATCHSIZE := by
  induction hn : as.length using Nat.strong_induction_on generalizing as with
  | _ n ih =>
    by_cases hnil : as = []
    · subst hnil
      rw [encodeEntries_nil, recipeBlocks_nil]
      exact fun block hblock => by cases hblock
    · have hpos := List.length_pos_iff.mpr hnil
      have hne : encodeEntries as ≠ [] := by
        rw [← List.length_pos_iff, length_encodeEntries]
        exact Nat.mul_pos (by decide) hpos
      rw [recipeBlocks_of_ne_nil hne, recipeBlockSize, take_encodeEntries, drop_encodeEntries,
        blockEntries_encodeEntries, List.forall_mem_cons]
      have hbatch : 0 < BATCHSIZE := by decide
      have hlt : (as.drop BATCHSIZE).length < n := by
        rw [List.length_drop]
        omega
      refine ⟨?_, ih _ hlt (as.drop BATCHSIZE) (fun a ha => h a (List.mem_of_mem_drop ha)) rfl⟩
      -- at most `BATCHSIZE` extents of at most `CHUNKSIZE` bytes
      have hsum := List.sum_le_card_nsmul ((as.take BATCHSIZE).map (·.size.toNat)) CHUNKSIZE (by
        intro size hsize
        obtain ⟨a, ha, rfl⟩ := List.mem_map.mp hsize
        exact h a (List.mem_of_mem_take ha))
      rw [List.length_map, smul_eq_mul, Nat.mul_comm] at hsum
      exact hsum.trans (Nat.mul_le_mul_left _ (List.length_take_le _ _))

/-- **Every recipe that the server writes fits**, whatever clients send. -/
theorem fitsReply_of_reaches {ok : Condition} {σ : State} {s : Session} {i : ℕ}
    (hr : Reaches (sessions env) ok State.init σ) (hi : σ.locals i = some s) (fileName : Bytes) :
    s.conn.FitsReply env σ.shared fileName := by
  rw [FitsReply, (State.sized hr hi).room, addressed]
  cases hfile : σ.shared.recipes.lookup (env.recipeNameHash s.conn.client_id fileName) with
  | none =>
    rw [Option.getD_none, List.drop_nil, recipeBlocks_nil]
    exact fun block hblock => by cases hblock
  | some file =>
    obtain ⟨count, as, rfl, has⟩ := (State.bounded_of_reaches hr).2.shared.recipes _ _ hfile
    rw [Option.getD_some, List.drop_left' (length_encodeTotalChunkNum count)]
    exact blockSize_le_of_bounded as has

/-- The right bytes are sent exactly if they are there. -/
theorem sendsExtents_iff (hfits : c.FitsReply env sv fileName) :
    c.SendsExtents env sv fileName ↔
      (sv.isFileExist c.client_id fileName = true → c.RecipeOnDisk env sv fileName) := by
  rw [SendsExtents, sentBlocks_eq, delivers_fillBlocks hfits, RecipeOnDisk]

/-- **Otherwise the client cannot tell.** -/
theorem not_clientTells (hfits : c.FitsReply env sv fileName)
    (hfile : ((sv.recipes.lookup (env.recipeNameHash c.client_id fileName)).getD []).length ≤ 2 ^ 64)
    (h : sv.isFileExist c.client_id fileName = true) : ¬ c.ClientTells env sv fileName := by
  obtain ⟨sv', hsame, honDisk⟩ := exists_otherServer env sv c fileName hfits hfile
  have hexist : sv'.isFileExist c.client_id fileName = true := by
    by_contra hnot
    rw [sendFileMsgs, sendFileMsgs, if_neg hnot, if_pos h] at hsame
    cases hsame
  intro htells
  refine htells sv' c rfl hsame hexist fun _ => ?_
  rw [sentBlocks_eq]
  exact data_fillBlocks_of_onDisk honDisk

end Conn

/-- **When no wrong bytes are delivered as a success.** For every recipe file and every content of the
containers and of the reply buffer: each message carries the bytes that its extents really have, or the
client can tell that the download has failed, if and only if the file is not registered or all extents are
on disk in full. The messages are those that the serving thread sends for the order, before it waits for the
next one. -/
theorem delivery_iff (env : Env) (sv : Server) (c : Conn) (fileName : Bytes)
    (hfits : c.FitsReply env sv fileName)
    (hfile : ((sv.recipes.lookup (env.recipeNameHash c.client_id fileName)).getD []).length ≤ 2 ^ 64) :
    ((c.SendsExtents env sv fileName ∨ c.ClientTells env sv fileName) ↔
      (sv.isFileExist c.client_id fileName = true → c.RecipeOnDisk env sv fileName)) ∧
    ∀ status, c.pc = .order → ∃ c' c'', c.receive env sv (.control .DOWNLOAD fileName status) =
        some (sv, c', []) ∧
      Conn.Sends env sv c' (c.sendFileMsgs env sv fileName) c'' ∧ c''.pc = .order := by
  constructor
  · rw [← Conn.sendsExtents_iff hfits]
    refine or_iff_left_of_imp fun htells hexist => ?_
    exact absurd htells (Conn.not_clientTells hfits hfile hexist)
  · intro status hpc
    exact Conn.sends_sendFileMsgs env sv c hpc fileName status

namespace Sample

/-- The extent of one byte at the start of a container. -/
def oneByte : ChunkAddr := ⟨⟨[120], by decide, by decide⟩, 0, 1⟩

/-- A server with one registered file of one byte. -/
def listing (containers : Directory ContainerID) : Server :=
  { Server.init with
    files := [(1, [65])]
    recipes := AList.insert (Sample.env.recipeNameHash 1 [65])
      (encodeTotalChunkNum 1 ++ encodeEntries [oneByte]) ∅
    containers := containers }

/-- A connection of client 1, with nines in its reply buffer. -/
def fetching : Conn :=
  { (Conn.init Sample.env .init (List.replicate (CHUNKSIZE * BATCHSIZE) 9)).2 with
    pc := .order
    client_id := 1 }

/-- Its recipe. -/
theorem lookup_listing (containers : Directory ContainerID) :
    (listing containers).recipes.lookup (Sample.env.recipeNameHash 1 [65]) =
      some (encodeTotalChunkNum 1 ++ encodeEntries [oneByte]) :=
  AList.lookup_insert _

/-- The recipe has one block of one entry. -/
theorem addressed_listing (containers : Directory ContainerID) :
    Conn.addressed (listing containers) (Sample.env.recipeNameHash 1 [65]) = [[oneByte]] := by
  rw [Conn.addressed, lookup_listing]
  decide +kernel

/-- It fits. -/
theorem fitsReply_fetching (containers : Directory ContainerID) :
    fetching.FitsReply Sample.env (listing containers) [65] := by
  have hroom : fetching.outData.length = CHUNKSIZE * BATCHSIZE := List.length_replicate
  show ∀ as ∈ Conn.addressed (listing containers) (Sample.env.recipeNameHash 1 [65]), _
  rw [addressed_listing, hroom]
  decide

/-- It is short. -/
theorem length_listing (containers : Directory ContainerID) :
    (((listing containers).recipes.lookup (Sample.env.recipeNameHash fetching.client_id [65])).getD []).length
      ≤ 2 ^ 64 := by
  rw [show fetching.client_id = 1 from rfl, lookup_listing]
  decide

end Sample

/-- The extent is on disk. -/
theorem delivery_iff_sample :
    Sample.fetching.SendsExtents Sample.env
        (Sample.listing (AList.insert Sample.oneByte.containerID [7] ∅)) [65] ∨
      Sample.fetching.ClientTells Sample.env
        (Sample.listing (AList.insert Sample.oneByte.containerID [7] ∅)) [65] := by
  refine (delivery_iff Sample.env _ Sample.fetching [65] (Sample.fitsReply_fetching _)
    (Sample.length_listing _)).1.mpr fun _ => ?_
  show ∀ as ∈ Conn.addressed (Sample.listing _) (Sample.env.recipeNameHash 1 [65]), _
  rw [Sample.addressed_listing]
  decide

/-- **A stale byte is delivered as a success**: the container is missing, and the client gets the byte that
the reply buffer contained. -/
theorem stale_bytes_delivered :
    Sample.fetching.sendFileMsgs Sample.env (Sample.listing ∅) [65] =
        [.control .DOWNLOADREP [] .EXIST, .data ⟨⟨.DOWNLOADBODY, 0, 0, 1, sizeofDataMsg + 1⟩, [9]⟩,
          .data ⟨⟨.FILEEND, 0, 0, 1, sizeofDataMsg + 1⟩, []⟩] ∧
      ¬ (Sample.fetching.SendsExtents Sample.env (Sample.listing ∅) [65] ∨
        Sample.fetching.ClientTells Sample.env (Sample.listing ∅) [65]) := by
  have hexist : (Sample.listing ∅).isFileExist Sample.fetching.client_id [65] = true := by decide
  have hsent : Sample.fetching.sentBlocks (Sample.listing ∅) (Sample.env.recipeNameHash 1 [65]) =
      [([Sample.oneByte], ⟨⟨.DOWNLOADBODY, 0, 0, 1, sizeofDataMsg + 1⟩, [9]⟩)] := by
    -- nothing is read, and the position moves on
    have hread : Conn.readExtent (Sample.listing ∅) (Sample.fetching.outData, 0) Sample.oneByte =
        (Sample.fetching.outData, 1) := by
      have hextent : Conn.extentOnDisk (Sample.listing ∅) Sample.oneByte = [] := by decide
      rw [Conn.readExtent, hextent, overwrite, List.length_nil, List.drop_zero]
      rfl
    have hnine : Sample.fetching.outData.take 1 = [9] := by
      show (List.replicate (CHUNKSIZE * BATCHSIZE) 9).take 1 = [9]
      rw [List.take_replicate]
      rfl
    rw [Conn.sentBlocks_eq, Sample.addressed_listing, Conn.fillBlocks, Conn.fillBlocks, List.foldl_cons,
      List.foldl_nil, hread, hnine]
    rfl
  refine ⟨?_, ?_⟩
  · rw [Conn.sendFileMsgs, if_pos hexist, show Sample.fetching.client_id = 1 from rfl, hsent]
    rfl
  · rintro (hextents | htells)
    · have hmissing := (Conn.sendsExtents_iff (Sample.fitsReply_fetching ∅)).mp hextents hexist
      rw [Conn.RecipeOnDisk, show Sample.fetching.client_id = 1 from rfl, Sample.addressed_listing] at hmissing
      revert hmissing
      decide
    · exact Conn.not_clientTells (Sample.fitsReply_fetching ∅) (Sample.length_listing ∅) hexist htells

end DedupServer
