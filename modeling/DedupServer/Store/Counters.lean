import DedupServer.Foundations.Ledger
import DedupServer.Store.Bytes
import DedupServer.Store.Ownership
import Mathlib.Algebra.Group.Prod

/-! # What `receive_file` counts

`receive_file` counts the unique chunks of a message when their bytes arrive, and the duplicates when
it answers the query, one message earlier. So between two messages the two counts are ahead of the
recipe by the addresses in the queue of duplicates (`Session.Counts.chunks`), which the next message
uses up. The count of bytes is compared with what the messages of the session carry and with what it
adds to the container files, summed along the run (`bookOf`). -/

namespace DedupServer

open Foundations

variable {env : Env} {s s' : Session} {sv sv' : Server} {c c' : Conn} {P : Pool} {i : ℕ}
  {msg : DataMsg} {st st' : StoreLoop} {taken added added' : ℕ}

/-! ## The counters in the store loop -/

/-- The counters of `receive_file`: `received_file_size`, `unique_chunk_num` and
`duplicated_chunk_num`. -/
def UploadState.counters (up : UploadState) : ℕ × ℕ × ℕ :=
  (up.receivedFileSize, up.uniqueChunkNum, up.duplicatedChunkNum)

@[simp] theorem UploadState.counters_writeRecipeEntry (up : UploadState) (a : ChunkAddr) :
    (up.writeRecipeEntry a).counters = up.counters := by
  unfold writeRecipeEntry
  split <;> rfl

@[simp] theorem UploadState.counters_rollOver (env : Env) (size : ℕ) (sv : Server)
    (up : UploadState) : (up.rollOver env size sv).2.counters = up.counters := by
  unfold rollOver
  split <;> rfl

namespace StoreLoop

/-- The bytes that are counted for an answer. -/
def countedSize (msg : DataMsg) (st : StoreLoop) (answer : UInt8) : ℕ :=
  if answer = 1 then chunkSlotSize msg st.currentUniqueNum else 0

/-- **One pass of the loop counts the bytes it copies** and no chunk: those are counted after the
loop. -/
theorem counters_step {q : UInt8 × Bytes} (h : st.step env msg q = some st') :
    st'.up.counters = (st.up.receivedFileSize + countedSize msg st q.1, st.up.uniqueChunkNum,
      st.up.duplicatedChunkNum) := by
  rw [step] at h
  rw [countedSize]
  split at h
  -- the branch of a new chunk: its slot is counted, whether or not the container rolls over
  · rename_i hone
    obtain rfl := Option.some.inj h
    have hframe := st.up.counters_rollOver env (chunkSlotSize msg st.currentUniqueNum) st.server
    simp only [UploadState.counters, Prod.mk.injEq] at hframe
    obtain ⟨hreceived, hunique, hduplicated⟩ := hframe
    rw [if_pos hone, storeUnique, UploadState.counters_writeRecipeEntry, UploadState.counters,
      hreceived, hunique, hduplicated]
  -- the branches of a known chunk count no byte
  · rename_i hother
    rw [if_neg hother, Nat.add_zero]
    split at h
    · split at h
      · obtain rfl := Option.some.inj h
        rw [UploadState.counters_writeRecipeEntry]
        rfl
      · cases h
    · split at h
      · obtain rfl := Option.some.inj h
        rw [UploadState.counters_writeRecipeEntry]
        rfl
      · cases h

/-- **The loop counts the sizes of the slots it copies**, one for each answer `1`. -/
theorem counters_run {qs : List (UInt8 × Bytes)} (hrun : st.run env msg qs = some st') :
    st'.up.counters = (st.up.receivedFileSize + ((List.range (picks 1 qs).length).map fun u =>
      chunkSlotSize msg (st.currentUniqueNum + u)).sum, st.up.uniqueChunkNum,
      st.up.duplicatedChunkNum) := by
  induction qs generalizing st with
  | nil =>
    obtain rfl := Option.some.inj hrun
    rfl
  | cons q qs ih =>
    rw [run_cons] at hrun
    obtain ⟨st₁, hstep, hrest⟩ := Option.bind_eq_some_iff.mp hrun
    have hcur := step_currentUniqueNum env msg hstep
    have hpass := counters_step hstep
    simp only [UploadState.counters, Prod.mk.injEq] at hpass
    obtain ⟨hreceived, hunique, hduplicated⟩ := hpass
    rw [ih hrest, hreceived, hunique, hduplicated]
    obtain ⟨answer, hash⟩ := q
    by_cases hone : answer = 1
    · -- the slot of this pass is the first one
      subst hone
      rw [if_pos rfl] at hcur
      have hnext : ∀ u, chunkSlotSize msg (st₁.currentUniqueNum + u)
          = chunkSlotSize msg (st.currentUniqueNum + (u + 1)) := by
        intro u
        rw [hcur, Nat.add_assoc, Nat.add_comm 1 u]
      rw [countedSize, if_pos rfl, picks_cons_self, List.length_cons, List.range_succ_eq_map,
        List.map_cons, List.map_map, List.sum_cons, Nat.add_zero]
      simp only [Function.comp_def, hnext, Nat.succ_eq_add_one, Nat.add_assoc]
    · rw [if_neg hone] at hcur
      rw [countedSize, if_neg hone, hcur, picks_cons_of_ne hone, Nat.add_zero]

end StoreLoop

/-- A message that fits is counted in full. -/
theorem Conn.Fits.counters_run (hasked : c.Asked) {uniq next : List Bytes}
    (hfits : c.Fits msg uniq next)
    (hrun : StoreLoop.run env msg ⟨sv, c.upload, none, 0⟩ c.queries = some st) :
    st.up.counters = (c.upload.receivedFileSize + msg.header.start, c.upload.uniqueChunkNum,
      c.upload.duplicatedChunkNum) := by
  have hsizes : (List.range uniq.length).map (chunkSlotSize msg) = uniq.map List.length := by
    apply List.ext_getElem
    · simp
    · intro u hu _
      have hu' : u < uniq.length := by simpa using hu
      simpa using (hfits.chunkSlot hasked hu').1
  have hcounters := StoreLoop.counters_run hrun
  simp only [Nat.zero_add] at hcounters
  rw [hcounters, ← hfits.count, hsizes, hfits.start, List.length_flatten]

/-! ## The counters of a session -/

/-- **What the counters say**, when the messages of the session have carried `taken` bytes and it
has added `added` bytes to the container files. -/
structure Session.Counts (s : Session) (taken added : ℕ) : Prop where
  chunks : s.conn.upload.uniqueChunkNum + s.conn.upload.duplicatedChunkNum
    = s.conn.entries.length + s.conn.upload.duplicatedChunkAddr.length
  taken : s.conn.upload.receivedFileSize = taken
  added : s.conn.upload.receivedFileSize = added + s.conn.liveBytes
  idle : s.conn.dataWriter = .idle → s.conn.upload.receivedFileSize = 0

namespace Session.Counts

/-- Steps that count nothing. -/
theorem of_eq (h : s.Counts taken added)
    (hcounters : s'.conn.upload.counters = s.conn.upload.counters)
    (hentries : s'.conn.entries = s.conn.entries)
    (hdups : s'.conn.upload.duplicatedChunkAddr = s.conn.upload.duplicatedChunkAddr)
    (hbytes : added' + s'.conn.liveBytes = added + s.conn.liveBytes)
    (hidle : s'.conn.dataWriter = .idle → s.conn.dataWriter = .idle) :
    s'.Counts taken added' := by
  simp only [UploadState.counters, Prod.mk.injEq] at hcounters
  obtain ⟨hreceived, hunique, hduplicated⟩ := hcounters
  refine ⟨?_, hreceived.trans h.taken, ?_, fun hwriter => ?_⟩
  · rw [hunique, hduplicated, hentries, hdups]
    exact h.chunks
  · rw [hreceived, h.added, hbytes]
  · rw [hreceived]
    exact h.idle (hidle hwriter)

/-- Steps of the serving thread that leave the upload alone. -/
theorem of_upload (h : s.Counts taken added) {rest reply : List Msg}
    (hupload : c.upload = s.conn.upload) (hentries : c.entries = s.conn.entries)
    (hlive : c.live = s.conn.live) (hwriter : c.dataWriter = s.conn.dataWriter) :
    (s.serverMoved rest c reply).Counts taken added := by
  refine h.of_eq ?_ hentries ?_ ?_ hwriter.symm.trans
  · rw [Session.serverMoved, hupload]
  · rw [Session.serverMoved, hupload]
  · rw [Session.serverMoved, Conn.liveBytes, Conn.liveBytes, hlive]

/-- **The upload begins**: everything is zero, as it has been before. -/
theorem register (h : s.Counts taken added) (hdormant : s.conn.Dormant)
    (hentries : c.entries = []) (hdups : c.upload.duplicatedChunkAddr = [])
    (hlive : c.liveBytes = 0) (hwriter : c.dataWriter ≠ .idle)
    (hcounters : c.upload.counters = (0, 0, 0)) {rest reply : List Msg} :
    (s.serverMoved rest c reply).Counts taken added := by
  have hzero := h.idle hdormant.dataWriter
  have htaken := h.taken
  have hadded := h.added
  simp only [UploadState.counters, Prod.mk.injEq] at hcounters
  obtain ⟨hreceived, hunique, hduplicated⟩ := hcounters
  refine ⟨?_, ?_, ?_, fun hidle => absurd hidle hwriter⟩
  · simp only [Session.serverMoved, hunique, hduplicated, hentries, hdups, List.length_nil]
  · exact (hreceived.trans hzero.symm).trans htaken
  · simp only [Session.serverMoved, hreceived, hlive]
    omega

/-- **One `UPLOADBODY` message.** The unique chunks counted now and the duplicates counted with the
last query are the new recipe entries; the duplicates counted now are in the queue. -/
theorem body (h : s.Counts taken added) (hpc : s.conn.pc = .body) (hupl : s.Uploading env)
    (hbuffer : P.Backs i s.conn.upload.containerBuffer) {rest reply : List Msg}
    {uniq next : List Bytes} (hfits : s.conn.Fits msg uniq next)
    (hrun : StoreLoop.run env msg ⟨sv, s.conn.upload, none, 0⟩ s.conn.queries = some st) :
    (s.serverMoved rest (s.conn.answerQuery msg st) reply).Counts
      (taken + msg.header.start) added := by
  obtain ⟨st', new, hrun', hext, hnew, hdrained, hcurrent, -⟩ :=
    Conn.exists_receiveBody env sv hupl.asked hfits
  obtain rfl := Option.some.inj (hrun.symm.trans hrun')
  have hcounters := hfits.counters_run hupl.asked hrun
  simp only [UploadState.counters, Prod.mk.injEq] at hcounters
  obtain ⟨hreceived, hunique, hduplicated⟩ := hcounters
  refine ⟨?_, ?_, ?_, fun hidle => ?_⟩
  · -- every query has been answered `0` or `1`
    have hqueries := length_picks_add (by decide) hupl.asked.answer
    rw [hupl.asked.length_queries, ← hnew, ← hupl.asked.dups, ← hfits.count, ← hcurrent] at hqueries
    have hold := h.chunks
    have hentries : (s.conn.answerQuery msg st).entries = s.conn.entries ++ new :=
      Conn.entries_answerQuery hpc hext
    simp only [Session.serverMoved]
    rw [hentries, List.length_append]
    simp only [Conn.answerQuery, hunique, hduplicated, hdrained, List.nil_append]
    omega
  · simp only [Session.serverMoved, Conn.answerQuery, hreceived, h.taken]
  · have hlive := Conn.liveBytes_answerQuery hpc hupl.asked hbuffer hfits hrun
    have hold := h.added
    have hstart := hfits.start
    rw [List.length_flatten] at hstart
    simp only [Session.serverMoved, hlive]
    simp only [Conn.answerQuery, hreceived]
    omega
  · -- the writers have been started
    rcases hupl.stage with ⟨hpc', -⟩ | ⟨-, hwriting⟩
    · rw [hpc] at hpc'
      cases hpc'
    · have hdata := hwriting.data
      rw [show s.conn.dataWriter = .idle from hidle] at hdata
      exact hdata.elim

end Session.Counts

/-! ## What is outstanding -/

/-- In the loop of `receive_file` an upload is on. -/
theorem Phase.uploading_of_body (h : Phase env s) (hpc : s.conn.pc = .body) : s.Uploading env := by
  cases h with
  | accepted hcl hupl | asking hcl hupl | last hcl hupl | answered hcl hpc' hupl
  | ending hcl hpc' hupl => exact hupl
  | login hreq hpc' | order hreq hpc' | lookup hcl hpc' | reply hcl hpc' | refused hcl hpc'
  | joining hcl hpc' | quitting hcl hpc' | left hcl hpc' | closed hcl hpc' | exist hcl hpc'
  | notExist hcl hpc' | sending hpc' | sent hpc' => simp [hpc] at hpc'

/-- **What is outstanding between two messages** is in the file: a chunk has a recipe entry, or has been
asked about, or comes later. Outside of the loop nothing is outstanding. -/
structure Session.Drains (env : Env) (s : Session) : Prop where
  asked : s.conn.pc = .body →
    s.conn.entries.length + s.conn.hashList.length ≤ (fileChunks env s.client.file).length
  drained : s.conn.pc ≠ .body → s.conn.upload.duplicatedChunkAddr = []

namespace Session.Drains

/-- Steps that leave what is outstanding as it is. -/
theorem of_eq (h : s.Drains env) (hpc : s'.conn.pc = s.conn.pc)
    (hfile : s.conn.pc = .body → s'.client.file = s.client.file)
    (hentries : s'.conn.entries = s.conn.entries) (hhash : s'.conn.hashList = s.conn.hashList)
    (hdups : s'.conn.upload.duplicatedChunkAddr = s.conn.upload.duplicatedChunkAddr) :
    s'.Drains env := by
  refine ⟨fun hbody => ?_, fun hbody => ?_⟩
  · rw [hpc] at hbody
    rw [hentries, hhash, hfile hbody]
    exact h.asked hbody
  · rw [hdups]
    exact h.drained (hpc ▸ hbody)

/-- Steps outside of the loop. -/
theorem of_ne_body (h : s.Drains env) {rest reply : List Msg} (hbefore : s.conn.pc ≠ .body)
    (hafter : c.pc ≠ .body)
    (hdups : c.upload.duplicatedChunkAddr = s.conn.upload.duplicatedChunkAddr) :
    (s.serverMoved rest c reply).Drains env := by
  refine ⟨fun hbody => absurd hbody hafter, fun _ => ?_⟩
  rw [Session.serverMoved, hdups]
  exact h.drained hbefore

/-- **A step of the serving thread.** When `FILEEND` arrives every chunk has its entry, so that nothing
has been asked about. -/
theorem server (h : s.Drains env) (hphase : Phase env s) (hrogue : s.client.rogue = false)
    (hact : Session.act env sv s .server = some (sv', s')) : s'.Drains env := by
  obtain ⟨hphase', hserved⟩ := hphase.server hact
  cases hserved with
  | quiet hquiet =>
    refine h.of_ne_body (hquiet.before_ne rfl) (hquiet.after_ne rfl) ?_
    rw [hquiet.upload]
  | unique hpc | refuse hpc | accept hpc =>
    exact h.of_ne_body (by simp [hpc]) (by simp) rfl
  | register hpc hdormant =>
    refine ⟨fun _ => ?_, fun hbody => absurd rfl hbody⟩
    simp [Session.serverMoved, Conn.entries, RecipeWriter.held, hdormant.written,
      hdormant.recipeQueue, BlockQueue.empty, hdormant.recipeBuffer, hdormant.hashList]
  | @body msg rest uniq next st hpc hup hupl hfits honest hrun =>
    obtain ⟨stored, pending, batch, later, hsends⟩ := honest hrogue
    obtain ⟨st', new, hrun', hext, hnew, -⟩ := Conn.exists_receiveBody env sv hupl.asked hfits
    obtain rfl := Option.some.inj (hrun.symm.trans hrun')
    refine ⟨fun _ => ?_, fun hbody => absurd hpc hbody⟩
    simp only [Session.serverMoved]
    rw [Conn.entries_answerQuery hpc hext, List.length_append, hnew, hsends.splits.hashList,
      hsends.splits.entries, Conn.answerQuery_hashList, hfits.queriedHashes, hsends.next,
      hsends.splits.chunks]
    simp only [List.length_append, List.length_map]
    omega
  | fileEnd hpc hupl =>
    refine ⟨fun hbody => absurd hbody (by simp [Session.serverMoved, Conn.receiveFileEnd]), fun _ => ?_⟩
    -- the recipe is complete
    have hlisted : s.conn.entries.length = (fileChunks env s.client.file).length := by
      rw [← Conn.entries_receiveFileEnd hpc]
      cases hphase' with
      | joining hcl hpc' hserves hacc hwriting hup hdown honest => exact honest hrogue
      | accepted hcl hupl' | asking hcl hupl' | last hcl hupl' | answered hcl hpc' hupl'
      | ending hcl hpc' hupl' =>
        rcases hupl'.stage with ⟨hpc', -⟩ | ⟨hpc', -⟩ <;> cases hpc'
      | login hreq hpc' | order hreq hpc' | lookup hcl hpc' | reply hcl hpc' | refused hcl hpc'
      | quitting hcl hpc' | left hcl hpc' | closed hcl hpc' | exist hcl hpc' | notExist hcl hpc'
      | sending hpc' | sent hpc' => cases hpc'
    have hnil : s.conn.upload.duplicatedChunkAddr = [] := by
      have hasked := h.asked hpc
      have hhash : s.conn.hashList = [] := List.length_eq_zero_iff.mp (by omega)
      rw [← List.length_eq_zero_iff, hupl.asked.dups, Conn.queries, hhash]
      simp
    simp only [Session.serverMoved, Conn.receiveFileEnd]
    split <;> exact hnil
  | reset hpc =>
    exact h.of_ne_body (by simp [hpc]) (by simp [Conn.resetUpload]) rfl

/-- **Every action of an honest session.** -/
theorem act (h : s.Drains env) (hphase : Phase env s) (hrogue : s.client.rogue = false) {a : Act}
    (hact : Session.act env sv s a = some (sv', s')) : s'.Drains env := by
  have hkept := (hphase.act hact).2.kept
  have hfile : s.conn.pc = .body → s'.client.file = s.client.file := fun hpc =>
    hkept.file (hphase.uploading_of_body hpc).accepted.uploader
  cases a with
  | client | rogue =>
    simp only [Session.act] at hact
    split at hact
    on_goal 2 => cases hact
    obtain ⟨r, -, heq⟩ := Option.map_eq_some_iff.mp hact
    obtain ⟨rfl, rfl⟩ := Prod.mk.inj heq
    exact h.of_eq rfl hfile rfl rfl rfl
  | server => exact h.server hphase hrogue hact
  | dataWriter =>
    obtain ⟨⟨sv', c⟩, hstep, heq⟩ := Option.map_eq_some_iff.mp hact
    obtain ⟨rfl, rfl⟩ := Prod.mk.inj heq
    have halike := Conn.alike_dataWriterStep hstep
    exact h.of_eq halike.pc hfile halike.entries halike.hashList halike.dups
  | recipeWriter =>
    obtain ⟨⟨sv', c⟩, hstep, heq⟩ := Option.map_eq_some_iff.mp hact
    obtain ⟨rfl, rfl⟩ := Prod.mk.inj heq
    have halike := hphase.alike_recipeWriterStep hstep
    exact h.of_eq halike.pc hfile halike.entries halike.hashList halike.dups

end Session.Drains

/-! ## The books of a session -/

/-- The chunk bytes of the `UPLOADBODY` message that `receive_file` takes next: its `header.start`. -/
def Session.carried (s : Session) : ℕ :=
  match s.conn.pc, s.up with
  | .body, .data msg :: _ => if msg.header.dataMsgType = .UPLOADBODY then msg.header.start else 0
  | _, _ => 0

/-- The chunk bytes that an action of the session takes from a message. -/
def Session.takes (s : Session) : Act → ℕ
  | .server => s.carried
  | _ => 0

/-- What a step takes from a message. -/
def takenBy (σ : State) : Label ℕ Act Arg → ℕ
  | .act i a => ((σ.locals i).map (·.takes a)).getD 0
  | .spawn _ _ => 0

/-- **What a step enters into the books of session `i`**, if it is a step of that session: the chunk
bytes of the `UPLOADBODY` message it takes, and the bytes it adds to the container files. -/
def bookOf (i : ℕ) (σ : State) (ℓ : Label ℕ Act Arg) (τ : State) : ℕ × ℕ :=
  if ℓ.owner = i then (takenBy σ ℓ, τ.shared.containerBytes - σ.shared.containerBytes) else 0

/-- The other sessions have their own books. -/
theorem bookOf_of_ne {ℓ : Label ℕ Act Arg} (h : ℓ.owner ≠ i) (σ τ : State) : bookOf i σ ℓ τ = 0 :=
  if_neg h

/-- Joining is entered as nothing. -/
theorem bookOf_spawn {σ τ : State} (h : τ.shared.containers = σ.shared.containers) (arg : Arg) :
    bookOf i σ (.spawn i arg) τ = 0 := by
  have hbytes : τ.shared.containerBytes - σ.shared.containerBytes = 0 := by
    rw [Server.containerBytes, h]
    exact Nat.sub_self _
  have hentry : bookOf i σ (.spawn i arg) τ
      = (0, τ.shared.containerBytes - σ.shared.containerBytes) := if_pos rfl
  rw [hentry, hbytes]
  rfl

/-- An action is entered with what the session takes and adds. -/
theorem bookOf_act {σ : State} (h : σ.locals i = some s) (a : Act) (τ : State) :
    bookOf i σ (.act i a) τ
      = (s.takes a, τ.shared.containerBytes - σ.shared.containerBytes) := by
  have htaken : takenBy σ (.act i a) = s.takes a := by
    rw [takenBy, h]
    rfl
  rw [← htaken]
  exact if_pos rfl

/-- Outside of the loop of `receive_file` no `UPLOADBODY` message is taken. -/
theorem Session.carried_of_ne_body (hpc : s.conn.pc ≠ .body) : s.carried = 0 := by
  unfold Session.carried
  split
  · rename_i hbody _
    exact absurd hbody hpc
  · rfl

/-- The message after which the writers are waited for is no `UPLOADBODY`. -/
theorem Session.carried_of_join (hact : Session.act env sv s .server = some (sv', s'))
    (hpc : s.conn.pc = .body) (hjoin : s'.conn.pc = .join) : s.carried = 0 := by
  unfold Session.carried
  split
  on_goal 2 => rfl
  rename_i msg rest _ hup
  rw [if_neg]
  intro htype
  rw [Session.act_server_of_receives (by simp [Conn.receives, hpc]) hup] at hact
  obtain ⟨r, hr, heq⟩ := Option.map_eq_some_iff.mp hact
  obtain ⟨rfl, rfl⟩ := Prod.mk.inj heq
  simp only [Conn.receive, hpc, htype, reduceCtorEq, if_false, Conn.receiveBody] at hr
  obtain ⟨st, -, rfl⟩ := Option.map_eq_some_iff.mp hr
  -- after an `UPLOADBODY` the loop goes on
  exact absurd (hpc.symm.trans hjoin) (by simp)

/-- The serving thread touches no container file. -/
theorem Served.containerBytes (h : Served env sv s sv' s') :
    sv'.containerBytes = sv.containerBytes := by
  cases h with
  | quiet | unique | refuse | accept | register | fileEnd | reset => rfl
  | body hpc hup hupl hfits honest hrun =>
    obtain ⟨st', new, hrun', hext, -⟩ := Conn.exists_receiveBody env sv hupl.asked hfits
    obtain rfl := Option.some.inj (hrun.symm.trans hrun')
    rw [Server.containerBytes, hext.containers]
    rfl

namespace Session.Counts

/-- **A step of the serving thread.** -/
theorem server (h : s.Counts taken added) (hphase : Phase env s)
    (hact : Session.act env sv s .server = some (sv', s'))
    (hbuffer : P.Backs i s.conn.upload.containerBuffer) :
    s'.Counts (taken + s.carried) added := by
  cases (hphase.server hact).2 with
  | quiet hquiet =>
    rw [Session.carried_of_ne_body (hquiet.before_ne rfl)]
    refine h.of_upload hquiet.upload hquiet.entries ?_ hquiet.dataWriter
    refine Policy.live_of_eq (hquiet.before_ne rfl) (hquiet.after_ne rfl) ?_ ?_
    · rw [hquiet.dataWriter]
    · rw [hquiet.upload]
  | unique hpc | refuse hpc | accept hpc =>
    rw [Session.carried_of_ne_body (by simp [hpc])]
    exact h.of_upload rfl (by simp [Conn.entries, hpc])
      (Policy.live_of_eq (by simp [hpc]) (by simp) rfl rfl) rfl
  | register hpc hdormant =>
    rw [Session.carried_of_ne_body (by simp [hpc])]
    refine h.register hdormant ?_ ?_ ?_ ?_ rfl
    · simp [Conn.entries, RecipeWriter.held, hdormant.written, hdormant.recipeQueue,
        BlockQueue.empty, hdormant.recipeBuffer]
    · exact hdormant.dups
    · simp [Conn.liveBytes, Conn.live, DataWriter.held, hdormant.containerQueue, BlockQueue.empty,
        hdormant.blank]
    · simp
  -- the only step that takes bytes from a message
  | @body msg rest uniq next st hpc hup hupl hfits honest hrun =>
    have hcarried : s.carried = msg.header.start := by
      simp only [Session.carried, hpc, hup, hfits.type, if_true]
    rw [hcarried]
    exact h.body hpc hupl hbuffer hfits hrun
  -- the last buffers are pushed, which counts nothing new
  | fileEnd hpc hupl =>
    rw [Session.carried_of_join hact hpc rfl]
    have hentries := Conn.entries_receiveFileEnd hpc
    have hlive := Conn.liveBytes_receiveFileEnd hpc
    refine h.of_eq ?_ hentries ?_ (congrArg (added + ·) hlive) id
    · simp only [Session.serverMoved, Conn.receiveFileEnd]
      split <;> rfl
    · simp only [Session.serverMoved, Conn.receiveFileEnd]
      split <;> rfl
  -- the reset keeps what has been received, and everything live has been saved by then
  | reset hpc hacc hwriting hserves hdata hrecipe =>
    rw [Session.carried_of_ne_body (by simp [hpc])]
    have hjoined : (s.conn.resetUpload env sv).2.Joined := hwriting.resetUpload hdata hrecipe
    refine h.of_eq rfl ?_ rfl ?_ fun hidle => ?_
    · simp only [Session.serverMoved]
      rw [hjoined.entries (by simp [Conn.resetUpload]), hwriting.entries_eq_written hpc hrecipe]
      rfl
    · rw [Session.serverMoved, hwriting.liveBytes hpc hdata, hjoined.liveBytes]
    · rw [Session.serverMoved, hjoined.dataWriter] at hidle
      cases hidle

/-- **Every action of the session keeps its counters in step with its books.** -/
theorem act (h : s.Counts taken added) (hphase : Phase env s) {a : Act}
    (hact : Session.act env sv s a = some (sv', s'))
    (howns : Pool.Owns i P sv.containers s.conn.live)
    (hbuffer : P.Backs i s.conn.upload.containerBuffer) :
    s'.Counts (taken + s.takes a) (added + (sv'.containerBytes - sv.containerBytes)) := by
  cases a with
  | client | rogue =>
    simp only [Session.act] at hact
    split at hact
    on_goal 2 => cases hact
    obtain ⟨r, -, heq⟩ := Option.map_eq_some_iff.mp hact
    obtain ⟨rfl, rfl⟩ := Prod.mk.inj heq
    exact h.of_eq rfl rfl rfl (by simp [Session.clientMoved]) id
  | server =>
    have hserver := h.server hphase hact hbuffer
    rw [(hphase.server hact).2.containerBytes, Nat.sub_self, Nat.add_zero]
    exact hserver
  -- a saved container moves its bytes from the live ones to the directory
  | dataWriter =>
    obtain ⟨⟨sv', c⟩, hstep, heq⟩ := Option.map_eq_some_iff.mp hact
    obtain ⟨rfl, rfl⟩ := Prod.mk.inj heq
    have halike := Conn.alike_dataWriterStep hstep
    obtain ⟨hle, hbytes⟩ := Conn.containerBytes_dataWriterStep hstep howns
    refine h.of_eq ?_ halike.entries halike.dups ?_ ?_
    · obtain ⟨-, -, -, -, -, rfl⟩ | ⟨-, -, -, -, rfl⟩ | ⟨-, -, -, rfl⟩ :=
        Conn.dataWriterStep_cases hstep
      all_goals rfl
    · dsimp only
      omega
    · obtain ⟨-, -, -, -, -, rfl⟩ | ⟨-, -, -, -, rfl⟩ | ⟨-, -, -, rfl⟩ :=
        Conn.dataWriterStep_cases hstep
      all_goals exact fun hidle => by cases hidle
  | recipeWriter =>
    obtain ⟨⟨sv', c⟩, hstep, heq⟩ := Option.map_eq_some_iff.mp hact
    obtain ⟨rfl, rfl⟩ := Prod.mk.inj heq
    have halike := hphase.alike_recipeWriterStep hstep
    refine h.of_eq ?_ halike.entries halike.dups ?_ ?_
    all_goals
      obtain ⟨-, rfl, rfl⟩ | ⟨-, -, -, -, -, -, rfl, rfl⟩ | ⟨-, -, -, -, -, rfl, rfl⟩ |
        ⟨-, -, -, -, rfl, rfl⟩ := Conn.recipeWriterStep_cases hstep
    all_goals first
      | rfl
      | exact id
      | simp [Server.containerBytes, Conn.saveRecipe, Conn.liveBytes, Conn.live]

end Session.Counts

end DedupServer
