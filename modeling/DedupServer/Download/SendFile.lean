import DedupServer.Model.Conn

/-! # What `send_file` sends

The loop of `send_file` on a server that does not change meanwhile (`Conn.sendLoop`), as a function
of the recipe file, the containers and whatever the reply buffer contains. When the recipe lists
extents that are all on disk, it sends exactly these extents, one after another, and nothing of
what was in the buffer before (`Conn.sentBytes_eq`). -/

namespace DedupServer

open Foundations

namespace Conn

variable {sv sv' : Server} {name outData : Bytes} {outHeader : DataMsgHeader}

/-- The loop of `send_file` with a bound on the number of passes. -/
def sendLoop (sv : Server) (name : Bytes) :
    ℕ → Bytes → DataMsgHeader → Option ℕ → List DataMsg
  | 0, _, _, _ => []
  | n + 1, outData, outHeader, recipe =>
    match sendBlock sv name outData outHeader recipe with
    | some (outData, outHeader, next, msg) => msg :: sendLoop sv name n outData outHeader next
    | none => []

/-- What is left of the recipe: every pass but the last reads at least one byte of it. -/
def recipeRest (sv : Server) (name : Bytes) : Option ℕ → ℕ
  | some pos => (((sv.recipes.lookup name).getD []).drop pos).length + 1
  | none => 0

/-- **The bytes `send_file` still sends** from a position in the recipe, when the reply buffer
contains `outData`. -/
def remaining (sv : Server) (name outData : Bytes) (recipe : Option ℕ) : Bytes :=
  (sendLoop sv name (recipeRest sv name recipe) outData ⟨.DOWNLOADBODY, 0, 0, 0, 0⟩
    recipe).flatMap (·.data)

/-- **The bytes of the file `send_file` sends.** -/
def sentBytes (sv : Server) (name outData : Bytes) : Bytes :=
  remaining sv name outData (openRecipe sv name)

/-- **`send_file` as seen from its client**: nothing when the file is not registered, otherwise the
bytes sent. -/
def sendFile (env : Env) (sv : Server) (client_id : Int) (fileName outData : Bytes) :
    Option Bytes :=
  if sv.isFileExist client_id fileName then
    some (sentBytes sv (env.recipeNameHash client_id fileName) outData)
  else none

/-! ## One block -/

/-- **The entries of a block** of whole records. -/
theorem blockEntries_flatten {rs : List Bytes} (h : ∀ r ∈ rs, r.length = sizeofChunkAddr) :
    blockEntries rs.flatten = rs.map decodeChunkAddr := by
  have hcount : rs.flatten.length / sizeofChunkAddr = rs.length := by
    rw [length_flatten_of_length_eq h, Nat.mul_div_cancel _ (by decide)]
  have hpieces := map_piece_flatten_append (by decide) h []
  rw [List.append_nil] at hpieces
  rw [blockEntries, hcount]
  conv_rhs => rw [← hpieces, List.map_map]
  rfl

/-- The records of some entries. -/
theorem length_of_mem_records {as : List ChunkAddr} :
    ∀ r ∈ as.map encodeChunkAddr, r.length = sizeofChunkAddr := by
  intro r hr
  obtain ⟨a, -, rfl⟩ := List.mem_map.mp hr
  exact length_encodeChunkAddr a

/-- The entries of a block that was written as entries. -/
theorem blockEntries_encodeEntries (as : List ChunkAddr) :
    blockEntries (encodeEntries as) = as := by
  rw [encodeEntries, List.flatMap_def, blockEntries_flatten length_of_mem_records, List.map_map]
  simp [Function.comp_def, decodeChunkAddr_encodeChunkAddr]

/-- The first entries are the first bytes. -/
theorem take_encodeEntries (as : List ChunkAddr) (n : ℕ) :
    (encodeEntries as).take (sizeofChunkAddr * n) = encodeEntries (as.take n) := by
  rw [encodeEntries, encodeEntries, List.flatMap_def, List.flatMap_def, List.map_take]
  exact take_flatten_of_length_eq length_of_mem_records n

theorem drop_encodeEntries (as : List ChunkAddr) (n : ℕ) :
    (encodeEntries as).drop (sizeofChunkAddr * n) = encodeEntries (as.drop n) := by
  rw [encodeEntries, encodeEntries, List.flatMap_def, List.flatMap_def, List.map_drop]
  exact drop_flatten_of_length_eq length_of_mem_records n

/-- An extent that is on disk in full. -/
def OnDisk (sv : Server) (a : ChunkAddr) : Prop := (extentOnDisk sv a).length = a.size.toNat

/-- An extent within a container on disk. -/
theorem onDisk_of_lookup {sv : Server} {a : ChunkAddr} {content x : Bytes}
    (hdisk : sv.containers.lookup a.containerID = some content)
    (hlen : a.offset.toNat + a.size.toNat ≤ content.length)
    (hx : (content.drop a.offset.toNat).take a.size.toNat = x) :
    OnDisk sv a ∧ extentOnDisk sv a = x := by
  have hextent : extentOnDisk sv a = (content.drop a.offset.toNat).take a.size.toNat := by
    rw [extentOnDisk, hdisk, Option.getD_some]
  refine ⟨?_, hextent.trans hx⟩
  rw [OnDisk, hextent, List.length_take, List.length_drop]
  omega

instance (sv : Server) (a : ChunkAddr) : Decidable (OnDisk sv a) :=
  inferInstanceAs (Decidable (_ = _))

/-- **Reading extents into the buffer.** When they are all on disk, the part of the buffer that is
sent consists of them. -/
theorem foldl_readExtent {as : List ChunkAddr} (h : ∀ a ∈ as, OnDisk sv a) (st : Bytes × ℕ)
    (hst : st.2 ≤ st.1.length) :
    (as.foldl (readExtent sv) st).1.take (as.foldl (readExtent sv) st).2
      = st.1.take st.2 ++ as.flatMap (extentOnDisk sv) := by
  induction as generalizing st with
  | nil => simp
  | cons a as ih =>
    have ha : (extentOnDisk sv a).length = a.size.toNat := h a List.mem_cons_self
    have hnext : (readExtent sv st a).2 ≤ (readExtent sv st a).1.length := by
      simp only [readExtent, overwrite, List.length_append, List.length_take, List.length_drop, ha]
      omega
    rw [List.foldl_cons, ih (fun b hb => h b (List.mem_cons_of_mem _ hb)) _ hnext,
      List.flatMap_cons, ← List.append_assoc]
    congr 1
    rw [readExtent, ← ha]
    exact take_overwrite hst

/-! ## The loop -/

/-- After the end of the recipe nothing is sent. -/
@[simp] theorem sendLoop_none (n : ℕ) : sendLoop sv name n outData outHeader none = [] := by
  cases n <;> simp [sendLoop, sendBlock, readRecipe]

/-- **The loop sends the extents** the rest of the recipe lists. -/
theorem flatMap_sendLoop {as : List ChunkAddr} (h : ∀ a ∈ as, OnDisk sv a) {file : Bytes}
    (hfile : sv.recipes.lookup name = some file) {pos : ℕ}
    (hpos : file.drop pos = encodeEntries as) {n : ℕ} (hn : as.length < n) (outData : Bytes)
    (outHeader : DataMsgHeader) :
    (sendLoop sv name n outData outHeader (some pos)).flatMap (·.data)
      = as.flatMap (extentOnDisk sv) := by
  induction n generalizing as pos outData outHeader with
  | zero => omega
  | succ n ih =>
    have hblock : readRecipe sv name (some pos) = encodeEntries (as.take BATCHSIZE) := by
      rw [readRecipe, hfile, Option.getD_some, hpos, recipeBlockSize, take_encodeEntries]
    by_cases hnil : as = []
    · subst hnil
      simp [sendLoop, sendBlock, hblock]
    · have hne : encodeEntries (as.take BATCHSIZE) ≠ [] := by
        rw [Ne, ← List.length_eq_zero_iff, length_encodeEntries, List.length_take]
        have := List.length_pos_iff.mpr hnil
        simp only [sizeofChunkAddr, BATCHSIZE]
        omega
      have hfirst : ∀ a ∈ as.take BATCHSIZE, OnDisk sv a :=
        fun a ha => h a (List.mem_of_mem_take ha)
      have hdata := foldl_readExtent hfirst (outData, 0) (Nat.zero_le _)
      rw [List.take_zero, List.nil_append] at hdata
      simp only [sendLoop, sendBlock, hblock, hne, if_false, blockEntries_encodeEntries,
        List.flatMap_cons, hdata]
      have hsplit : as.flatMap (extentOnDisk sv) = (as.take BATCHSIZE).flatMap (extentOnDisk sv)
          ++ (as.drop BATCHSIZE).flatMap (extentOnDisk sv) := by
        rw [← List.flatMap_append, List.take_append_drop]
      rw [hsplit]
      congr 1
      by_cases hfull : (encodeEntries (as.take BATCHSIZE)).length = recipeBlockSize
      · -- a full block: the rest of the recipe follows
        rw [if_pos hfull, Option.map_some]
        refine ih (fun a ha => h a (List.mem_of_mem_drop ha)) ?_ ?_ _ _
        · rw [← List.drop_drop, hpos, recipeBlockSize, drop_encodeEntries]
        · have := List.length_pos_iff.mpr hnil
          simp only [List.length_drop, BATCHSIZE]
          omega
      · -- the last block
        rw [if_neg hfull, sendLoop_none]
        have hlt : as.length ≤ BATCHSIZE := by
          rw [length_encodeEntries, List.length_take, recipeBlockSize] at hfull
          by_contra hgt
          exact hfull (by rw [min_eq_left (by omega)])
        rw [List.drop_eq_nil_of_le hlt]
        rfl

/-- A block of the recipe is not read twice. -/
theorem recipeRest_lt {outData' : Bytes} {outHeader' : DataMsgHeader} {recipe next : Option ℕ}
    {msg : DataMsg}
    (h : sendBlock sv name outData outHeader recipe = some (outData', outHeader', next, msg)) :
    recipeRest sv name next < recipeRest sv name recipe := by
  simp only [sendBlock] at h
  split at h
  · cases h
  · rename_i hne
    simp only [Option.some.injEq, Prod.mk.injEq] at h
    obtain ⟨-, -, rfl, -⟩ := h
    cases recipe with
    | none => simp [readRecipe] at hne
    | some pos =>
      have hpos : 0 < (((sv.recipes.lookup name).getD []).drop pos).length := by
        refine List.length_pos_iff.mpr fun hnil => hne ?_
        rw [readRecipe, hnil, List.take_nil]
      split_ifs
      · simp only [recipeRest, Option.map_some, List.length_drop] at hpos ⊢
        have : 0 < recipeBlockSize := by decide
        omega
      · simp [recipeRest]

/-- The header of the reply buffer does not matter for the bytes. -/
theorem sendBlock_header_irrel (sv : Server) (name outData : Bytes)
    (outHeader outHeader' : DataMsgHeader) (recipe : Option ℕ) :
    (sendBlock sv name outData outHeader recipe).map (fun r => (r.1, r.2.2.1, r.2.2.2.data))
      = (sendBlock sv name outData outHeader' recipe).map
          fun r => (r.1, r.2.2.1, r.2.2.2.data) := by
  unfold sendBlock
  dsimp only
  split_ifs <;> rfl

/-- Once the bound is large enough, neither it nor the header matters. -/
theorem sendLoop_data_congr {m n : ℕ} {recipe : Option ℕ} (hm : recipeRest sv name recipe ≤ m)
    (hn : recipeRest sv name recipe ≤ n) (outData : Bytes) (outHeader outHeader' : DataMsgHeader) :
    (sendLoop sv name m outData outHeader recipe).map (·.data)
      = (sendLoop sv name n outData outHeader' recipe).map (·.data) := by
  -- on the bound `m`; the bound `n` of the other loop is used up along with it
  induction m generalizing n recipe outData outHeader outHeader' with
  | zero =>
    cases recipe with
    | none => simp
    | some pos => simp [recipeRest] at hm
  | succ m ih =>
    cases n with
    | zero =>
      cases recipe with
      | none => simp
      | some pos => simp [recipeRest] at hn
    | succ n =>
      -- the header goes into the message only, not into what is read
      have hirrel := sendBlock_header_irrel sv name outData outHeader outHeader' recipe
      rw [sendLoop, sendLoop]
      cases h : sendBlock sv name outData outHeader recipe with
      | none =>
        rw [h, Option.map_none] at hirrel
        rw [Option.map_eq_none_iff.mp hirrel.symm]
      | some r =>
        obtain ⟨outData₁, outHeader₁, next, msg⟩ := r
        rw [h, Option.map_some] at hirrel
        obtain ⟨⟨outData₂, outHeader₂, next', msg'⟩, h', heq⟩ :=
          Option.map_eq_some_iff.mp hirrel.symm
        simp only [Prod.mk.injEq] at heq
        obtain ⟨rfl, rfl, hdata⟩ := heq
        -- a block has been read, so less of the recipe is left than both bounds
        have hlt := recipeRest_lt h
        rw [h']
        simp only [List.map_cons, hdata, List.cons.injEq, true_and]
        exact ih (by omega) (by omega) _ _ _

/-- **One pass sends a part of the remaining bytes.** -/
theorem remaining_of_some {outData' : Bytes} {outHeader' : DataMsgHeader}
    {recipe next : Option ℕ} {msg : DataMsg}
    (h : sendBlock sv name outData outHeader recipe = some (outData', outHeader', next, msg)) :
    remaining sv name outData recipe = msg.data ++ remaining sv name outData' next := by
  have hlt := recipeRest_lt h
  have hloop : sendLoop sv name (recipeRest sv name recipe) outData outHeader recipe
      = msg :: sendLoop sv name (recipeRest sv name recipe - 1) outData' outHeader' next := by
    obtain ⟨n, hn⟩ : ∃ n, recipeRest sv name recipe = n + 1 :=
      ⟨recipeRest sv name recipe - 1, by omega⟩
    rw [hn, sendLoop, h, Nat.add_sub_cancel]
  have hfirst := sendLoop_data_congr (le_refl (recipeRest sv name recipe)) le_rfl outData
    ⟨.DOWNLOADBODY, 0, 0, 0, 0⟩ outHeader
  have hrest := sendLoop_data_congr (show recipeRest sv name next ≤ recipeRest sv name recipe - 1
    by omega) (le_refl (recipeRest sv name next)) outData' outHeader' ⟨.DOWNLOADBODY, 0, 0, 0, 0⟩
  rw [remaining, remaining, List.flatMap_def, List.flatMap_def, hfirst, hloop, List.map_cons,
    hrest, List.flatten_cons]

/-- At the end of the recipe nothing remains. -/
theorem remaining_of_none {recipe : Option ℕ}
    (h : sendBlock sv name outData outHeader recipe = none) :
    remaining sv name outData recipe = [] := by
  have hfirst := sendLoop_data_congr (le_refl (recipeRest sv name recipe)) le_rfl outData
    ⟨.DOWNLOADBODY, 0, 0, 0, 0⟩ outHeader
  rw [remaining, List.flatMap_def, hfirst]
  cases recipeRest sv name recipe with
  | zero => rfl
  | succ n => rw [sendLoop, h]; rfl

/-- Only the recipe and the containers matter. -/
theorem sentBytes_congr (hrecipes : sv'.recipes = sv.recipes)
    (hcontainers : sv'.containers = sv.containers) (name outData : Bytes) :
    sentBytes sv' name outData = sentBytes sv name outData := by
  have hextent : readExtent sv' = readExtent sv := by
    funext st a
    simp only [readExtent, extentOnDisk, hcontainers]
  have hread : readRecipe sv' = readRecipe sv := by
    funext name recipe
    cases recipe <;> simp only [readRecipe, hrecipes]
  have hblock : sendBlock sv' = sendBlock sv := by
    unfold sendBlock
    rw [hread, hextent]
  have hloop : ∀ n outData outHeader recipe,
      sendLoop sv' name n outData outHeader recipe = sendLoop sv name n outData outHeader recipe := by
    intro n
    induction n with
    | zero => exact fun _ _ _ => rfl
    | succ n ih =>
      intro outData outHeader recipe
      simp only [sendLoop, hblock, ih]
  have hrest : recipeRest sv' name = recipeRest sv name := by
    funext recipe
    cases recipe <;> simp only [recipeRest, hrecipes]
  simp only [sentBytes, remaining, hloop, hrest, openRecipe, hrecipes]

/-- **`send_file` sends the extents the recipe lists**, when they are on disk, whatever its reply
buffer contains. -/
theorem sentBytes_eq {as : List ChunkAddr} {count : ℕ}
    (hfile : sv.recipes.lookup name = some (encodeTotalChunkNum count ++ encodeEntries as))
    (h : ∀ a ∈ as, OnDisk sv a) (outData : Bytes) :
    sentBytes sv name outData = as.flatMap (extentOnDisk sv) := by
  have hopen : openRecipe sv name = some 4 := by
    rw [openRecipe, hfile]
    simp
  rw [sentBytes, hopen]
  refine flatMap_sendLoop h hfile (List.drop_left' (by simp)) ?_ _ _
  rw [recipeRest, hfile, Option.getD_some, List.drop_left' (by simp), length_encodeEntries]
  simp only [sizeofChunkAddr]
  omega

end Conn

end DedupServer
