import DedupServer.Download.RecipeFile
import Mathlib.Algebra.Order.BigOperators.Group.List
import Mathlib.Data.List.SplitLengths

/-! # What a download delivers

All messages of `send_file` on a server that does not change meanwhile (`Conn.sendFileMsgs`), for any recipe
file, any containers and any content of the reply buffer. A message carries the extents of its block exactly
if these are on disk in full (`Conn.delivers_fillBlocks`); but whatever the messages carry, there are a
recipe and containers from which the same messages are sent with all extents on disk
(`Conn.exists_otherServer`). -/

namespace DedupServer

open Foundations

namespace Conn

variable {env : Env} {sv sv' : Server} {name outData outData' : Bytes} {outHeader : DataMsgHeader}
  {file records : Bytes} {as : List ChunkAddr} {blocks : List (List ChunkAddr)}

/-! ## Messages -/

/-- **The blocks that the loop of `send_file` reads**, with the messages that it sends for them; `n` bounds
the number of passes. -/
def sendBlocks (sv : Server) (name : Bytes) :
    ℕ → Bytes → DataMsgHeader → Option ℕ → List (List ChunkAddr × DataMsg)
  | 0, _, _, _ => []
  | n + 1, outData, outHeader, recipe =>
    match sendBlock sv name outData outHeader recipe with
    | some (outData, outHeader, next, msg) =>
      (blockEntries (readRecipe sv name recipe), msg) :: sendBlocks sv name n outData outHeader next
    | none => []

/-- All blocks of a recipe. -/
def sentBlocks (sv : Server) (c : Conn) (name : Bytes) : List (List ChunkAddr × DataMsg) :=
  sendBlocks sv name (recipeRest sv name (openRecipe sv name)) c.outData
    { c.outHeader with dataMsgType := .DOWNLOADBODY } (openRecipe sv name)

/-- The header of the reply buffer behind some messages. -/
def headerAfter (outHeader : DataMsgHeader) (sent : List (List ChunkAddr × DataMsg)) : DataMsgHeader :=
  (sent.getLast?.map (·.2.header)).getD outHeader

/-- **All messages of `send_file`** on a server that does not change. -/
def sendFileMsgs (env : Env) (sv : Server) (c : Conn) (fileName : Bytes) : List Msg :=
  if sv.isFileExist c.client_id fileName then
    let sent := c.sentBlocks sv (env.recipeNameHash c.client_id fileName)
    .control .DOWNLOADREP [] .EXIST :: (sent.map fun b => .data b.2) ++
      [.data ⟨{ headerAfter c.outHeader sent with dataMsgType := .FILEEND }, []⟩]
  else [.control .DOWNLOADREP [] .NOTEXIST]

/-- **The thread goes on** on a server that it does not change, and sends these messages. -/
inductive Sends (env : Env) (sv : Server) : Conn → List Msg → Conn → Prop
  | refl (c : Conn) : Sends env sv c [] c
  | step {c c' c'' : Conn} {ms ms' : List Msg} (h : c.proceed env sv = some (sv, c', ms))
      (hrest : Sends env sv c' ms' c'') : Sends env sv c (ms ++ ms') c''

/-- At the end of the recipe no block is left. -/
theorem sendBlocks_of_none {recipe : Option ℕ} (h : sendBlock sv name outData outHeader recipe = none) (n : ℕ) :
    sendBlocks sv name n outData outHeader recipe = [] := by
  cases n with
  | zero => rfl
  | succ n => rw [sendBlocks, h]

/-- A block, and those behind it. -/
theorem sendBlocks_of_some {recipe next : Option ℕ} {outHeader' : DataMsgHeader} {msg : DataMsg}
    (h : sendBlock sv name outData outHeader recipe = some (outData', outHeader', next, msg)) (n : ℕ) :
    sendBlocks sv name (n + 1) outData outHeader recipe =
      (blockEntries (readRecipe sv name recipe), msg) :: sendBlocks sv name n outData' outHeader' next := by
  rw [sendBlocks, h]

/-- The header of a message stays in the reply buffer. -/
theorem header_of_sendBlock {recipe next : Option ℕ} {outHeader' : DataMsgHeader} {msg : DataMsg}
    (h : sendBlock sv name outData outHeader recipe = some (outData', outHeader', next, msg)) :
    msg.header = outHeader' := by
  simp only [sendBlock] at h
  split at h
  · cases h
  · obtain ⟨-, rfl, -, rfl⟩ := by simpa only [Option.some.injEq, Prod.mk.injEq] using h
    rfl

/-- One more message before some others. -/
theorem headerAfter_cons (outHeader : DataMsgHeader) (b : List ChunkAddr × DataMsg)
    (sent : List (List ChunkAddr × DataMsg)) :
    headerAfter outHeader (b :: sent) = headerAfter b.2.header sent := by
  cases sent with
  | nil => rfl
  | cons b' sent => rw [headerAfter, headerAfter, List.getLast?_cons_cons, List.getLast?_cons]; rfl

/-- The type of the header before the loop does not matter for `FILEEND`. -/
theorem headerAfter_fileEnd (outHeader : DataMsgHeader) (dataMsgType : DataMsgType)
    (sent : List (List ChunkAddr × DataMsg)) :
    { headerAfter { outHeader with dataMsgType := dataMsgType } sent with dataMsgType := .FILEEND } =
      { headerAfter outHeader sent with dataMsgType := .FILEEND } := by
  cases sent with
  | nil => rfl
  | cons b sent => rw [headerAfter_cons, headerAfter_cons]

/-- The end of the recipe. -/
theorem sends_fileEnd {c : Conn} {recipe : Option ℕ} (hpc : c.pc = .sending recipe)
    (hblock : sendBlock sv c.recipeNameHash c.outData c.outHeader recipe = none) :
    ∃ c', c'.pc = .order ∧ Sends env sv c [.data ⟨{ c.outHeader with dataMsgType := .FILEEND }, []⟩] c' := by
  have hproceed : c.proceed env sv = some (sv, { c with
      pc := .order, outHeader := { c.outHeader with dataMsgType := .FILEEND }, recipeNameHash := [] },
      [.data ⟨{ c.outHeader with dataMsgType := .FILEEND }, []⟩]) := by
    simp only [proceed, hpc, hblock]
  exact ⟨_, rfl, .step hproceed (.refl _)⟩

/-- **The loop**, from any position, up to `FILEEND`. -/
theorem sends_loop (n : ℕ) (c : Conn) {recipe : Option ℕ} (hpc : c.pc = .sending recipe)
    (hn : recipeRest sv c.recipeNameHash recipe ≤ n) :
    ∃ c', c'.pc = .order ∧ Sends env sv c
      ((sendBlocks sv c.recipeNameHash n c.outData c.outHeader recipe).map (fun b => Msg.data b.2) ++
        [.data ⟨{ headerAfter c.outHeader (sendBlocks sv c.recipeNameHash n c.outData c.outHeader recipe) with
          dataMsgType := .FILEEND }, []⟩]) c' := by
  induction n generalizing c recipe with
  | zero =>
    -- nothing is left of the recipe
    have hblock : sendBlock sv c.recipeNameHash c.outData c.outHeader recipe = none := by
      cases recipe with
      | none => simp [sendBlock, readRecipe]
      | some pos => exact absurd hn (Nat.not_succ_le_zero _)
    exact sends_fileEnd hpc hblock
  | succ n ih =>
    cases hblock : sendBlock sv c.recipeNameHash c.outData c.outHeader recipe with
    | none =>
      rw [sendBlocks_of_none hblock]
      exact sends_fileEnd hpc hblock
    | some r =>
      obtain ⟨outData, outHeader, next, msg⟩ := r
      have hproceed : c.proceed env sv = some (sv, { c with
          pc := .sending next, outData := outData, outHeader := outHeader }, [.data msg]) := by
        simp only [proceed, hpc, hblock]
      have hlt := recipeRest_lt hblock
      obtain ⟨c', hc', hsends⟩ := ih { c with pc := .sending next, outData := outData, outHeader := outHeader }
        rfl (by show recipeRest sv c.recipeNameHash next ≤ n; omega)
      refine ⟨c', hc', ?_⟩
      rw [sendBlocks_of_some hblock, headerAfter_cons, header_of_sendBlock hblock]
      have hstep := Sends.step hproceed hsends
      exact hstep

/-- **`send_file` sends these messages**: the thread takes the request, answers it, and comes back to where
it waits for the next order. -/
theorem sends_sendFileMsgs (env : Env) (sv : Server) (c : Conn) (hpc : c.pc = .order) (fileName : Bytes)
    (status : RepStatus) :
    ∃ c' c'', c.receive env sv (.control .DOWNLOAD fileName status) = some (sv, c', []) ∧
      Sends env sv c' (c.sendFileMsgs env sv fileName) c'' ∧ c''.pc = .order := by
  -- the order is received, then the file is looked up: the reply depends on the table
  obtain ⟨c', hc'⟩ : ∃ c', c' = { c with
    pc := ConnPc.exist fileName, recipeNameHash := env.recipeNameHash c.client_id fileName } := ⟨_, rfl⟩
  have hreceive : c.receive env sv (.control .DOWNLOAD fileName status) = some (sv, c', []) := by
    rw [hc']
    simp only [receive, hpc]
  by_cases hexist : sv.isFileExist c.client_id fileName = true
  · have hproceed : c'.proceed env sv = some (sv, { c' with
        pc := .sending (openRecipe sv c'.recipeNameHash)
        outHeader := { c'.outHeader with dataMsgType := .DOWNLOADBODY } },
        [.control .DOWNLOADREP [] .EXIST]) := by
      rw [hc']
      simp only [proceed, hexist, if_true]
    obtain ⟨c'', hc'', hsends⟩ := @sends_loop env sv _ { c' with
      pc := .sending (openRecipe sv c'.recipeNameHash)
      outHeader := { c'.outHeader with dataMsgType := .DOWNLOADBODY } } _ rfl le_rfl
    have hstep := Sends.step hproceed hsends
    refine ⟨c', c'', hreceive, ?_, hc''⟩
    -- the header that the loop ends with differs from the one it began with in its type only
    rw [sendFileMsgs, if_pos hexist]
    rw [headerAfter_fileEnd] at hstep
    subst hc'
    exact hstep
  · have hproceed : c'.proceed env sv = some (sv, { c' with pc := .order },
        [.control .DOWNLOADREP [] .NOTEXIST]) := by
      rw [hc']
      simp only [proceed, hexist]
      rfl
    refine ⟨c', { c' with pc := .order }, hreceive, ?_, rfl⟩
    rw [sendFileMsgs, if_neg hexist]
    exact .step hproceed (.refl _)

/-! ## Blocks of entries -/

/-- The blocks of the entries behind the count of a recipe. -/
def recipeBlocks (records : Bytes) : List (List ChunkAddr) :=
  (pieces recipeBlockSize records).map blockEntries

/-- The room that the extents of a block take in the reply buffer. -/
def blockSize (as : List ChunkAddr) : ℕ := (as.map (·.size.toNat)).sum

/-- **Messages for blocks of entries.** -/
def fillBlocks (sv : Server) :
    Bytes → DataMsgHeader → List (List ChunkAddr) → List (List ChunkAddr × DataMsg)
  | _, _, [] => []
  | outData, outHeader, as :: rest =>
    let filled := as.foldl (readExtent sv) (outData, 0)
    let header := { outHeader with chunkNum := as.length, size := sizeofDataMsg + filled.2 }
    (as, ⟨header, filled.1.take filled.2⟩) :: fillBlocks sv filled.1 header rest

theorem recipeBlocks_nil : recipeBlocks [] = [] := by
  rw [recipeBlocks, pieces_nil _ (by decide), List.map_nil]

theorem recipeBlocks_of_ne_nil (h : records ≠ []) : recipeBlocks records =
    blockEntries (records.take recipeBlockSize) :: recipeBlocks (records.drop recipeBlockSize) := by
  rw [recipeBlocks, pieces_of_ne_nil (by decide) h, List.map_cons, recipeBlocks]

/-- **The loop goes through the blocks** of what is left of the recipe. -/
theorem sendBlocks_eq (hfile : sv.recipes.lookup name = some file) (n : ℕ) {pos : ℕ}
    (hn : recipeRest sv name (some pos) ≤ n) (outData : Bytes) (outHeader : DataMsgHeader) :
    sendBlocks sv name n outData outHeader (some pos) =
      fillBlocks sv outData outHeader (recipeBlocks (file.drop pos)) := by
  induction n generalizing pos outData outHeader with
  | zero => exact absurd hn (Nat.not_succ_le_zero _)
  | succ n ih =>
    have hread : readRecipe sv name (some pos) = (file.drop pos).take recipeBlockSize := by
      rw [readRecipe, hfile, Option.getD_some]
    have hsize : 0 < recipeBlockSize := by decide
    by_cases hnil : file.drop pos = []
    · have hnone : sendBlock sv name outData outHeader (some pos) = none := by
        rw [sendBlock, hread, hnil, List.take_nil]
        exact if_pos rfl
      rw [sendBlocks_of_none hnone, hnil, recipeBlocks_nil]
      rfl
    · have hpos := List.length_pos_iff.mpr hnil
      have hlen : ((file.drop pos).take recipeBlockSize).length =
          min recipeBlockSize (file.drop pos).length := List.length_take
      have hne : ¬ (file.drop pos).take recipeBlockSize = [] := by
        rw [← List.length_eq_zero_iff, hlen]
        omega
      rw [recipeBlocks_of_ne_nil hnil, fillBlocks]
      by_cases hfull : ((file.drop pos).take recipeBlockSize).length = recipeBlockSize
      · -- the loop goes on behind a full block
        simp only [sendBlocks, sendBlock, hread, if_neg hne, if_pos hfull, Option.map_some]
        have hrest : recipeRest sv name (some (pos + recipeBlockSize)) ≤ n := by
          simp only [recipeRest, hfile, Option.getD_some, ← List.drop_drop, List.length_drop] at hn hpos ⊢
          omega
        rw [ih hrest, ← List.drop_drop]
      · -- the last block is not full
        have hdrop : (file.drop pos).drop recipeBlockSize = [] := by
          rw [List.drop_eq_nil_iff]
          omega
        simp only [sendBlocks, sendBlock, hread, if_neg hne, if_neg hfull]
        rw [sendBlocks_of_none (by simp [sendBlock, readRecipe]), hdrop, recipeBlocks_nil]
        rfl

/-! ## What the messages carry -/

/-- The position moves on by the sizes of the extents, wherever their bytes are. -/
theorem offset_foldl_readExtent (sv : Server) (as : List ChunkAddr) (st : Bytes × ℕ) :
    (as.foldl (readExtent sv) st).2 = st.2 + blockSize as := by
  induction as generalizing st with
  | nil => rfl
  | cons a as ih =>
    rw [List.foldl_cons, ih, blockSize, blockSize, List.map_cons, List.sum_cons, readExtent, Nat.add_assoc]

/-- Reading within the buffer leaves it as large as it is. -/
theorem length_foldl_readExtent (sv : Server) (as : List ChunkAddr) (st : Bytes × ℕ)
    (h : st.2 + blockSize as ≤ st.1.length) : (as.foldl (readExtent sv) st).1.length = st.1.length := by
  induction as generalizing st with
  | nil => rfl
  | cons a as ih =>
    rw [blockSize, List.map_cons, List.sum_cons] at h
    have hext : (extentOnDisk sv a).length ≤ a.size.toNat := List.length_take_le _ _
    have hlen : (readExtent sv st a).1.length = st.1.length := length_overwrite (by omega)
    rw [List.foldl_cons, ih, hlen]
    rw [hlen, readExtent, blockSize]
    omega

/-- **Extents are on disk in full** exactly if together they have as many bytes as the recipe says. -/
theorem forall_onDisk_iff (sv : Server) (as : List ChunkAddr) :
    (∀ a ∈ as, OnDisk sv a) ↔ (as.flatMap (extentOnDisk sv)).length = blockSize as := by
  have hle : ∀ as : List ChunkAddr, (as.flatMap (extentOnDisk sv)).length ≤ blockSize as := by
    intro as
    rw [List.length_flatMap, blockSize]
    exact List.sum_le_sum fun a _ => List.length_take_le _ _
  induction as with
  | nil => exact iff_of_true (fun a ha => by cases ha) rfl
  | cons a as ih =>
    have hext : (extentOnDisk sv a).length ≤ a.size.toNat := List.length_take_le _ _
    have hrest := hle as
    have hsize : blockSize (a :: as) = a.size.toNat + blockSize as := by
      rw [blockSize, List.map_cons, List.sum_cons, blockSize]
    rw [List.forall_mem_cons, OnDisk, List.flatMap_cons, List.length_append, hsize]
    constructor
    · rintro ⟨hfirst, hothers⟩
      have hall := ih.mp hothers
      omega
    · intro hall
      exact ⟨by omega, ih.mpr (by omega)⟩

/-- There is a message for each block. -/
theorem map_fst_fillBlocks (sv : Server) (outData : Bytes) (outHeader : DataMsgHeader)
    (blocks : List (List ChunkAddr)) : (fillBlocks sv outData outHeader blocks).map (·.1) = blocks := by
  induction blocks generalizing outData outHeader with
  | nil => rfl
  | cons as blocks ih => rw [fillBlocks, List.map_cons, ih]

/-- A message carries as many bytes as its extents should have. -/
theorem length_data_fillBlocks (hfits : ∀ as ∈ blocks, blockSize as ≤ outData.length) :
    ∀ b ∈ fillBlocks sv outData outHeader blocks, b.1 ∈ blocks ∧ b.2.data.length = blockSize b.1 := by
  induction blocks generalizing outData outHeader with
  | nil => intro b hb; cases hb
  | cons as blocks ih =>
    have hfirst : 0 + blockSize as ≤ outData.length :=
      (Nat.zero_add _).le.trans (hfits as List.mem_cons_self)
    have hlen := length_foldl_readExtent sv as (outData, 0) hfirst
    intro b hb
    rw [fillBlocks, List.mem_cons] at hb
    rcases hb with rfl | hb
    · refine ⟨List.mem_cons_self, ?_⟩
      rw [List.length_take, hlen, offset_foldl_readExtent, Nat.min_eq_left hfirst, Nat.zero_add]
    · obtain ⟨hmem, hdata⟩ := ih (fun as' has' => hlen ▸ hfits as' (List.mem_cons_of_mem _ has')) b hb
      exact ⟨List.mem_cons_of_mem _ hmem, hdata⟩

/-- **Messages carry the extents** of their blocks if these are on disk. -/
theorem data_fillBlocks_of_onDisk (h : ∀ as ∈ blocks, ∀ a ∈ as, OnDisk sv a) :
    ∀ b ∈ fillBlocks sv outData outHeader blocks, b.2.data = b.1.flatMap (extentOnDisk sv) := by
  induction blocks generalizing outData outHeader with
  | nil => intro b hb; cases hb
  | cons as blocks ih =>
    rw [List.forall_mem_cons] at h
    intro b hb
    rw [fillBlocks, List.mem_cons] at hb
    rcases hb with rfl | hb
    · rw [foldl_readExtent h.1 _ (Nat.zero_le _)]
      rfl
    · exact ih h.2 b hb

/-- **Every message carries the extents of its block** exactly if all of them are on disk in full. -/
theorem delivers_fillBlocks (hfits : ∀ as ∈ blocks, blockSize as ≤ outData.length) :
    (∀ b ∈ fillBlocks sv outData outHeader blocks, b.2.data = b.1.flatMap (extentOnDisk sv)) ↔
      ∀ as ∈ blocks, ∀ a ∈ as, OnDisk sv a := by
  refine ⟨fun h as has => ?_, data_fillBlocks_of_onDisk⟩
  -- the block has a message
  obtain ⟨b, hb, rfl⟩ : ∃ b ∈ fillBlocks sv outData outHeader blocks, b.1 = as := by
    rw [← List.mem_map, map_fst_fillBlocks]
    exact has
  rw [forall_onDisk_iff, ← h b hb]
  exact (length_data_fillBlocks hfits b hb).2

/-! ## Another server

Each entry gets a container of its own, and each container the bytes that have been sent for the entry. -/

/-- The id of container `n`. -/
def numberedID (n : ℕ) : ContainerID where
  chars := (leBytes 8 n).flatMap hexByte
  noNul h := (isHexDigit_of_mem_flatMap h).ne_zero rfl
  fits := by
    rw [length_flatMap_hexByte, length_leBytes]
    decide

/-- Ids of different numbers are different. -/
theorem numberedID_injOn : Set.InjOn numberedID (Set.Iio (2 ^ 64)) := by
  intro m hm n hn h
  have hbytes : leBytes 8 m = leBytes 8 n := flatMap_hexByte_injective (congrArg ContainerID.chars h)
  have hvalue := congrArg ofLeBytes hbytes
  rw [ofLeBytes_leBytes, ofLeBytes_leBytes] at hvalue
  rwa [Nat.mod_eq_of_lt (show m < 256 ^ 8 from hm), Nat.mod_eq_of_lt (show n < 256 ^ 8 from hn)] at hvalue

/-- Containers that hold some contents, in order. -/
def numberedContainers (cs : List Bytes) (h : cs.length ≤ 2 ^ 64) : Directory ContainerID where
  entries := cs.zipIdx.map fun c => ⟨numberedID c.2, c.1⟩
  nodupKeys := by
    have hkeys : (cs.zipIdx.map fun c => (⟨numberedID c.2, c.1⟩ : Sigma fun _ : ContainerID => Bytes)).keys =
        (List.range' 0 cs.length).map numberedID := by
      rw [← List.zipIdx_map_snd 0 cs, List.keys, List.map_map, List.map_map]
      rfl
    rw [List.NodupKeys, hkeys]
    refine List.Nodup.map_on (fun m hm n hn heq => ?_) List.nodup_range'
    rw [List.mem_range'_1] at hm hn
    exact numberedID_injOn (show m < 2 ^ 64 by omega) (show n < 2 ^ 64 by omega) heq

/-- What they hold. -/
theorem lookup_numberedContainers {cs : List Bytes} (h : cs.length ≤ 2 ^ 64) {i : ℕ} {x : Bytes}
    (hx : cs[i]? = some x) : (numberedContainers cs h).lookup (numberedID i) = some x := by
  apply AList.mem_lookup_iff.mpr
  exact List.mem_map.mpr ⟨(x, i), List.mk_mem_zipIdx_iff_getElem?.mpr hx, rfl⟩

/-- The containers from number `k` on hold `cs`. -/
def Holds (sv : Server) (k : ℕ) (cs : List Bytes) : Prop :=
  ∀ i x, cs[i]? = some x → sv.containers.lookup (numberedID (k + i)) = some x

/-- The first container, and the others. -/
theorem holds_cons {k : ℕ} {c : Bytes} {cs : List Bytes} (h : Holds sv k (c :: cs)) :
    sv.containers.lookup (numberedID k) = some c ∧ Holds sv (k + 1) cs := by
  refine ⟨h 0 c rfl, fun i x hx => ?_⟩
  rw [Nat.add_assoc, Nat.add_comm 1]
  exact h (i + 1) x hx

/-- The contents of one block, and the others. -/
theorem holds_append {k : ℕ} {cs ds : List Bytes} (h : Holds sv k (cs ++ ds)) :
    Holds sv k cs ∧ Holds sv (k + cs.length) ds := by
  refine ⟨fun i x hx => h i x ?_, fun i x hx => ?_⟩
  · obtain ⟨hlt, -⟩ := List.getElem?_eq_some_iff.mp hx
    rw [List.getElem?_append_left hlt, hx]
  · rw [Nat.add_assoc]
    apply h
    rw [List.getElem?_append_right (Nat.le_add_right _ _), Nat.add_sub_cancel_left, hx]

/-- **Entries of the same sizes** in containers of their own. -/
def renumber : ℕ → List ChunkAddr → List ChunkAddr
  | _, [] => []
  | k, a :: as => ⟨numberedID k, 0, a.size⟩ :: renumber (k + 1) as

@[simp] theorem length_renumber (k : ℕ) (as : List ChunkAddr) : (renumber k as).length = as.length := by
  induction as generalizing k with
  | nil => rfl
  | cons a as ih => rw [renumber, List.length_cons, ih, List.length_cons]

@[simp] theorem blockSize_renumber (k : ℕ) (as : List ChunkAddr) :
    blockSize (renumber k as) = blockSize as := by
  induction as generalizing k with
  | nil => rfl
  | cons a as ih =>
    have hrest := ih (k + 1)
    rw [blockSize, blockSize] at hrest ⊢
    rw [renumber, List.map_cons, List.sum_cons, List.map_cons, List.sum_cons, hrest]

/-- **Their extents** are what the containers hold. -/
theorem map_extentOnDisk_renumber {k : ℕ} {cs : List Bytes} (h : Holds sv k cs)
    (hsizes : cs.map List.length = as.map (·.size.toNat)) :
    (renumber k as).map (extentOnDisk sv) = cs := by
  induction as generalizing k cs with
  | nil => exact (List.map_eq_nil_iff.mp hsizes).symm
  | cons a as ih =>
    cases cs with
    | nil => cases hsizes
    | cons c cs =>
      obtain ⟨hfirst, hrest⟩ := holds_cons h
      obtain ⟨hsize, hsizes⟩ := List.cons.inj hsizes
      have hextent : extentOnDisk sv ⟨numberedID k, 0, a.size⟩ = c := by
        rw [extentOnDisk, hfirst, Option.getD_some]
        exact List.take_of_length_le hsize.le
      rw [renumber, List.map_cons, hextent, ih hrest hsizes]

/-- The same for the blocks of a recipe. -/
def renumberBlocks : ℕ → List (List ChunkAddr) → List (List ChunkAddr)
  | _, [] => []
  | k, as :: blocks => renumber k as :: renumberBlocks (k + as.length) blocks

theorem map_length_renumberBlocks (k : ℕ) (blocks : List (List ChunkAddr)) :
    (renumberBlocks k blocks).map List.length = blocks.map List.length := by
  induction blocks generalizing k with
  | nil => rfl
  | cons as blocks ih => rw [renumberBlocks, List.map_cons, ih, length_renumber, List.map_cons]

/-- The bytes that have been sent for each entry. -/
def shares (sent : List (List ChunkAddr × DataMsg)) : List Bytes :=
  sent.flatMap fun b => (b.1.map (·.size.toNat)).splitLengths b.2.data

/-- **The same messages are sent** from containers that hold what has been sent for each entry, whatever the
reply buffer contains, and all extents are on disk there. -/
theorem fillBlocks_renumberBlocks (outData' : Bytes) {k : ℕ}
    (hfits : ∀ as ∈ blocks, blockSize as ≤ outData.length)
    (h : Holds sv' k (shares (fillBlocks sv outData outHeader blocks))) :
    (fillBlocks sv' outData' outHeader (renumberBlocks k blocks)).map (·.2) =
        (fillBlocks sv outData outHeader blocks).map (·.2) ∧
      ∀ as ∈ renumberBlocks k blocks, ∀ a ∈ as, OnDisk sv' a := by
  induction blocks generalizing k outData outData' outHeader with
  | nil => exact ⟨rfl, fun as has => by cases has⟩
  | cons as blocks ih =>
    have hroom : blockSize as ≤ outData.length := hfits as List.mem_cons_self
    have hlen := length_foldl_readExtent sv as (outData, 0) ((Nat.zero_add _).le.trans hroom)
    obtain ⟨filled, hfilled⟩ : ∃ filled, filled = as.foldl (readExtent sv) (outData, 0) := ⟨_, rfl⟩
    have hoffset : filled.2 = blockSize as := by
      rw [hfilled, offset_foldl_readExtent, Nat.zero_add]
    rw [← hfilled] at hlen
    have hdata : (filled.1.take filled.2).length = blockSize as := by
      rw [List.length_take, hoffset, hlen, Nat.min_eq_left hroom]
    rw [fillBlocks, ← hfilled, shares, List.flatMap_cons] at h
    obtain ⟨hblock, hrest⟩ := holds_append h
    rw [List.length_splitLengths, List.length_map] at hrest
    -- this block
    have hextents := map_extentOnDisk_renumber hblock (List.map_splitLengths_length _ _ hdata.ge)
    have hsent : (renumber k as).flatMap (extentOnDisk sv') = filled.1.take filled.2 := by
      rw [List.flatMap_def, hextents]
      exact List.flatten_splitLengths _ _ hdata.le
    have honDisk : ∀ a ∈ renumber k as, OnDisk sv' a := by
      rw [forall_onDisk_iff, hsent, hdata, blockSize_renumber]
    have hsame := foldl_readExtent honDisk (outData', 0) (Nat.zero_le _)
    rw [List.take_zero, List.nil_append, hsent] at hsame
    have hoffset' : ((renumber k as).foldl (readExtent sv') (outData', 0)).2 = filled.2 := by
      rw [offset_foldl_readExtent, blockSize_renumber, Nat.zero_add, hoffset]
    -- the others
    obtain ⟨hmsgs, hall⟩ := ih ((renumber k as).foldl (readExtent sv') (outData', 0)).1
      (fun as' has' => hlen.symm ▸ hfits as' (List.mem_cons_of_mem _ has')) hrest
    rw [renumberBlocks, fillBlocks, fillBlocks, List.map_cons, List.map_cons, hsame, hoffset', length_renumber,
      hmsgs, ← hfilled]
    exact ⟨rfl, List.forall_mem_cons.mpr ⟨honDisk, hall⟩⟩

/-- A part of an entry behind the entries of a block is not read. -/
theorem blockEntries_append (as : List ChunkAddr) {rest : Bytes} (hrest : rest.length < sizeofChunkAddr) :
    blockEntries (encodeEntries as ++ rest) = as := by
  have hcount : (encodeEntries as ++ rest).length / sizeofChunkAddr = (as.map encodeChunkAddr).length := by
    rw [List.length_append, length_encodeEntries, Nat.mul_add_div (by decide), Nat.div_eq_of_lt hrest,
      Nat.add_zero, List.length_map]
  have hpieces := map_piece_flatten_append (by decide) (@length_of_mem_records as) rest
  have hdecoded := congrArg (List.map decodeChunkAddr) hpieces
  rw [List.map_map, List.map_map] at hdecoded
  rw [blockEntries, hcount, encodeEntries, List.flatMap_def]
  apply hdecoded.trans
  simp [Function.comp_def, decodeChunkAddr_encodeChunkAddr]

/-- The number of entries in a block. -/
theorem length_blockEntries (block : Bytes) : (blockEntries block).length = block.length / sizeofChunkAddr := by
  rw [blockEntries, List.length_map, List.length_range]

/-- **A recipe of other entries**, as many in each block. -/
theorem recipeBlocks_encodeEntries {blocks : List (List ChunkAddr)}
    (h : blocks.map List.length = (recipeBlocks records).map List.length) :
    recipeBlocks (encodeEntries blocks.flatten ++ records.drop (sizeofChunkAddr * blocks.flatten.length)) =
      blocks := by
  induction hn : records.length using Nat.strong_induction_on generalizing records blocks with
  | _ n ih =>
    by_cases hnil : records = []
    · subst hnil
      rw [recipeBlocks_nil, List.map_nil, List.map_eq_nil_iff] at h
      rw [h, List.drop_nil]
      exact recipeBlocks_nil
    · have hpos := List.length_pos_iff.mpr hnil
      rw [recipeBlocks_of_ne_nil hnil, List.map_cons, length_blockEntries, List.length_take] at h
      obtain ⟨as, blocks, rfl⟩ : ∃ as rest, blocks = as :: rest := by
        cases blocks with
        | nil => cases h
        | cons as rest => exact ⟨as, rest, rfl⟩
      obtain ⟨hfirst, hrest⟩ := List.cons.inj h
      rw [List.flatten_cons, encodeEntries_append, List.length_append, Nat.mul_add, ← List.drop_drop,
        List.append_assoc]
      rcases Nat.lt_or_ge records.length recipeBlockSize with hlt | hge
      · -- the last block, with a part of an entry behind it
        have hdrop : records.drop recipeBlockSize = [] := by
          rw [List.drop_eq_nil_iff]
          exact hlt.le
        rw [hdrop, recipeBlocks_nil, List.map_nil, List.map_eq_nil_iff] at hrest
        subst hrest
        rw [Nat.min_eq_right hlt.le] at hfirst
        have htail : (records.drop (sizeofChunkAddr * as.length)).length < sizeofChunkAddr := by
          rw [List.length_drop, hfirst]
          exact Nat.sub_lt_left_of_lt_add (Nat.mul_div_le _ _) (Nat.lt_mul_div_succ _ (by decide))
        have hlen : (encodeEntries as ++ records.drop (sizeofChunkAddr * as.length)).length =
            records.length := by
          rw [List.length_append, length_encodeEntries, List.length_drop, hfirst]
          exact Nat.add_sub_of_le (Nat.mul_div_le _ _)
        rw [List.flatten_nil, encodeEntries_nil, List.length_nil, Nat.mul_zero, List.drop_zero, List.nil_append,
          recipeBlocks_of_ne_nil (List.length_pos_iff.mp (hlen ▸ hpos)),
          List.take_of_length_le (hlen ▸ hlt.le), blockEntries_append as htail,
          List.drop_eq_nil_of_le (hlen ▸ hlt.le), recipeBlocks_nil]
      · -- a full block
        rw [Nat.min_eq_left hge] at hfirst
        have hsize : sizeofChunkAddr * as.length = recipeBlockSize := by
          rw [hfirst]
          decide
        have hlen : (encodeEntries as).length = recipeBlockSize := (length_encodeEntries as).trans hsize
        have hblock : 0 < recipeBlockSize := by decide
        have hlt : (records.drop recipeBlockSize).length < n := by
          rw [List.length_drop]
          omega
        have hne : encodeEntries as ++ (encodeEntries blocks.flatten ++
            (records.drop recipeBlockSize).drop (sizeofChunkAddr * blocks.flatten.length)) ≠ [] := by
          rw [← List.length_pos_iff, List.length_append, hlen]
          exact Nat.add_pos_left hblock _
        rw [hsize, recipeBlocks_of_ne_nil hne, List.take_left' hlen, List.drop_left' hlen,
          blockEntries_encodeEntries, ih _ hlt hrest rfl]

/-- No recipe has more entries than bytes. -/
theorem length_flatten_recipeBlocks (records : Bytes) :
    (recipeBlocks records).flatten.length ≤ records.length := by
  conv_rhs => rw [← flatten_pieces (show 0 < recipeBlockSize by decide) records]
  rw [List.length_flatten, List.length_flatten, recipeBlocks, List.map_map]
  apply List.sum_le_sum
  intro block _
  rw [Function.comp_apply, length_blockEntries]
  exact Nat.div_le_self _ _

/-! ## Downloads -/

/-- **The entries that a recipe file addresses**, by blocks. -/
def addressed (sv : Server) (name : Bytes) : List (List ChunkAddr) :=
  recipeBlocks (((sv.recipes.lookup name).getD []).drop 4)

/-- **The loop of `send_file` goes through the recipe.** -/
theorem sentBlocks_eq (sv : Server) (c : Conn) (name : Bytes) : c.sentBlocks sv name =
    fillBlocks sv c.outData { c.outHeader with dataMsgType := .DOWNLOADBODY } (addressed sv name) := by
  rw [sentBlocks, addressed, openRecipe]
  cases hfile : sv.recipes.lookup name with
  | none =>
    rw [Option.getD_none, List.drop_nil, recipeBlocks_nil]
    rfl
  | some file =>
    rw [Option.getD_some]
    by_cases hshort : file.length < 4
    · simp only [if_pos hshort]
      rw [List.drop_eq_nil_of_le hshort.le, recipeBlocks_nil]
      rfl
    · simp only [if_neg hshort]
      exact sendBlocks_eq hfile _ le_rfl _ _

/-- There is a share for each entry. -/
theorem length_shares (sv : Server) (outData : Bytes) (outHeader : DataMsgHeader)
    (blocks : List (List ChunkAddr)) :
    (shares (fillBlocks sv outData outHeader blocks)).length = blocks.flatten.length := by
  induction blocks generalizing outData outHeader with
  | nil => rfl
  | cons as blocks ih =>
    have hrest := ih (as.foldl (readExtent sv) (outData, 0)).1 { outHeader with
      chunkNum := as.length, size := sizeofDataMsg + (as.foldl (readExtent sv) (outData, 0)).2 }
    rw [shares] at hrest ⊢
    rw [fillBlocks, List.flatMap_cons, List.length_append, List.length_splitLengths, List.length_map, hrest,
      List.flatten_cons, List.length_append]

/-- Of the blocks, only their messages get to the client. -/
theorem sendFileMsgs_congr {c : Conn} {fileName : Bytes} (hfiles : sv'.files = sv.files)
    (h : (c.sentBlocks sv' (env.recipeNameHash c.client_id fileName)).map (·.2) =
      (c.sentBlocks sv (env.recipeNameHash c.client_id fileName)).map (·.2)) :
    c.sendFileMsgs env sv' fileName = c.sendFileMsgs env sv fileName := by
  have hheader : ∀ sent : List (List ChunkAddr × DataMsg), headerAfter c.outHeader sent =
      ((sent.map (·.2)).getLast?.map (·.header)).getD c.outHeader := by
    intro sent
    rw [headerAfter, List.getLast?_map, Option.map_map]
    rfl
  have hmsgs : ∀ sent : List (List ChunkAddr × DataMsg), sent.map (fun b => Msg.data b.2) =
      (sent.map (·.2)).map Msg.data := by
    intro sent
    rw [List.map_map]
    rfl
  have hexist : sv'.isFileExist c.client_id fileName = sv.isFileExist c.client_id fileName := by
    rw [Server.isFileExist, Server.isFileUnique, hfiles]
    rfl
  rw [sendFileMsgs, sendFileMsgs, hexist]
  simp only [hheader, hmsgs, h]

/-- **No client sees a difference.** Whatever a download sends, a server on which all extents are on disk
can send the same messages. -/
theorem exists_otherServer (env : Env) (sv : Server) (c : Conn) (fileName : Bytes)
    (hfits : ∀ as ∈ addressed sv (env.recipeNameHash c.client_id fileName), blockSize as ≤ c.outData.length)
    (hfile : ((sv.recipes.lookup (env.recipeNameHash c.client_id fileName)).getD []).length ≤ 2 ^ 64) :
    ∃ sv', c.sendFileMsgs env sv' fileName = c.sendFileMsgs env sv fileName ∧
      ∀ as ∈ addressed sv' (env.recipeNameHash c.client_id fileName), ∀ a ∈ as, OnDisk sv' a := by
  obtain ⟨name, hname⟩ : ∃ name, name = env.recipeNameHash c.client_id fileName := ⟨_, rfl⟩
  obtain ⟨file, hcontent⟩ : ∃ file, file = (sv.recipes.lookup name).getD [] := ⟨_, rfl⟩
  rw [← hname] at hfits hfile ⊢
  rw [← hcontent] at hfile
  have hblocks : addressed sv name = recipeBlocks (file.drop 4) := by rw [addressed, hcontent]
  -- as many containers as entries
  have hmany : (shares (c.sentBlocks sv name)).length ≤ 2 ^ 64 := by
    rw [sentBlocks_eq, length_shares, hblocks]
    apply (length_flatten_recipeBlocks _).trans
    rw [List.length_drop]
    exact (Nat.sub_le _ _).trans hfile
  obtain ⟨blocks, hnew⟩ : ∃ blocks, blocks = renumberBlocks 0 (addressed sv name) := ⟨_, rfl⟩
  obtain ⟨records, hrecords⟩ : ∃ records, records = encodeEntries blocks.flatten ++
    (file.drop 4).drop (sizeofChunkAddr * blocks.flatten.length) := ⟨_, rfl⟩
  have hread : recipeBlocks records = blocks := by
    rw [hrecords]
    apply recipeBlocks_encodeEntries
    rw [hnew, map_length_renumberBlocks, hblocks]
  have hdrop : (file.take 4 ++ records).drop 4 = records := by
    rcases Nat.lt_or_ge file.length 4 with hlt | hge
    · -- a file without entries
      have hnil : file.drop 4 = [] := List.drop_eq_nil_of_le hlt.le
      have hnone : blocks = [] := by
        rw [hnew, hblocks, hnil, recipeBlocks_nil]
        rfl
      rw [hrecords, hnone, hnil, List.take_of_length_le hlt.le, List.drop_nil]
      exact (congrArg _ (List.append_nil file)).trans hnil
    · exact List.drop_left' (List.length_take_of_le hge)
  obtain ⟨sv', hsv'⟩ : ∃ sv' : Server, sv' = { sv with
    recipes := sv.recipes.insert name (file.take 4 ++ records)
    containers := numberedContainers _ hmany } := ⟨_, rfl⟩
  have haddressed : addressed sv' name = blocks := by
    rw [addressed, hsv', AList.lookup_insert, Option.getD_some, hdrop, hread]
  have hholds : Holds sv' 0 (shares (c.sentBlocks sv name)) := by
    intro i x hx
    rw [hsv', Nat.zero_add]
    exact lookup_numberedContainers hmany hx
  rw [sentBlocks_eq] at hholds
  obtain ⟨hmsgs, honDisk⟩ := fillBlocks_renumberBlocks c.outData hfits hholds
  rw [← hnew] at hmsgs honDisk
  refine ⟨sv', sendFileMsgs_congr (by rw [hsv']) ?_, haddressed.symm ▸ honDisk⟩
  rw [← hname, sentBlocks_eq, sentBlocks_eq, haddressed, hmsgs]

end Conn

end DedupServer
