import DedupServer.Protocol.Progress

/-! # What an upload leaves in the connection

An upload of one connection seen by itself (`UploadStep`): messages within the buffers, the steps of its
two writers, and whatever other sessions do to the shared state in between. Until `FILEEND` the
connection remembers what it has asked (`Conn.Receiving`), after it nothing of that changes
(`Conn.Ending`), and the upload can be brought to its end (`Conn.Ending.returns`).
`Conn.Ending.reset` says what `reset_upload` leaves: a fresh upload state (`Conn.Fresh`), but for the
queue of duplicate addresses, which it does not clear. -/

namespace DedupServer

open Foundations

variable {env : Env} {sv sv' : Server} {c c' c₀ : Conn} {msg : DataMsg} {ended : Bool} {left : ℕ}

/-- The upload state as the constructor leaves it, but for the queue of duplicate addresses. -/
structure Conn.Settled (c : Conn) : Prop where
  hashList : c.hashList = []
  containerBuffer : ∃ containerID, c.upload.containerBuffer = ⟨containerID, 0, CONTAINERSIZE, []⟩
  recipeBuffer : c.upload.recipeBuffer = ⟨[]⟩
  containerQueue : c.upload.containerQueue = .empty
  recipeQueue : c.upload.recipeQueue = .empty

/-- **The upload state as the constructor leaves it.** -/
structure Conn.Fresh (c : Conn) : Prop extends c.Settled where
  dups : c.upload.duplicatedChunkAddr = []

/-- The constructor leaves a fresh upload state. -/
theorem Conn.fresh_init (env : Env) (sv : Server) (junk : Bytes) :
    (Conn.init env sv junk).2.Fresh :=
  ⟨⟨rfl, ⟨_, rfl⟩, rfl, rfl, rfl⟩, rfl⟩

/-- **One step while an upload is on**: a message within the buffers is processed, a writer goes on, or
other sessions change the shared state. -/
inductive UploadStep (env : Env) : Server × Conn → Server × Conn → Prop
  | body {sv sv' : Server} {c c' : Conn} {msg : DataMsg} {reply : List Msg} (hpc : c.pc = .body)
      (hmsg : c.InBounds msg) (h : Conn.receive env sv c (.data msg) = some (sv', c', reply)) :
      UploadStep env (sv, c) (sv', c')
  | dataWriter {sv sv' : Server} {c c' : Conn} (h : c.dataWriterStep sv = some (sv', c')) :
      UploadStep env (sv, c) (sv', c')
  | recipeWriter {sv sv' : Server} {c c' : Conn} (h : c.recipeWriterStep sv = some (sv', c')) :
      UploadStep env (sv, c) (sv', c')
  | others (sv sv' : Server) (c : Conn) : UploadStep env (sv, c) (sv', c)

/-- Any number of steps. -/
abbrev UploadRun (env : Env) : Server × Conn → Server × Conn → Prop :=
  Relation.ReflTransGen (UploadStep env)

/-! ## Until `FILEEND` -/

/-- **The serving thread is receiving an upload**: it remembers what it has asked, and `left` addresses
that were in the queue of duplicates before. -/
structure Conn.Receiving (c : Conn) (left : ℕ) : Prop where
  pc : c.pc = .body
  asked : c.Remembers left
  busy : c.Busy false

/-- **The registration begins an upload.** -/
theorem Conn.Settled.register {fileName : Bytes} {reply : List Msg} (h : c.Settled)
    (hroom : c.outData.length = CHUNKSIZE * BATCHSIZE) (hpc : c.pc = .register fileName)
    (hstep : c.proceed env sv = some (sv', c', reply)) :
    c'.Receiving c.upload.duplicatedChunkAddr.length := by
  simp only [Conn.proceed, hpc, Option.some.injEq, Prod.mk.injEq] at hstep
  obtain ⟨-, rfl, -⟩ := hstep
  have hqueries : Conn.queries c = [] := by simp [Conn.queries, h.hashList]
  refine ⟨rfl, ⟨?_, hroom, ?_, ?_, ?_⟩, ⟨?_, ?_, by simp, by simp, by simp, by simp⟩⟩
  · simp [h.hashList]
  · simp [h.hashList]
  · simp [Conn.queries, h.hashList]
  · simp [Conn.queries, h.hashList]
  · simp [h.containerQueue, BlockQueue.empty]
  · simp [h.recipeQueue, BlockQueue.empty]

/-- **A message within the buffers** leaves the thread ready for the next. -/
theorem Conn.Receiving.body {reply : List Msg} (h : c.Receiving left) (hmsg : c.InBounds msg)
    (hstep : Conn.receive env sv c (.data msg) = some (sv', c', reply)) : c'.Receiving left := by
  have htype : msg.header.dataMsgType ≠ .FILEEND := by
    rw [hmsg.type]
    decide
  obtain ⟨st, new, -, hext, -, hleft, -, hbody⟩ := h.asked.exists_receiveBody env sv msg
  simp only [Conn.receive, h.pc, htype, if_false, hbody, Option.some.injEq, Prod.mk.injEq] at hstep
  obtain ⟨-, rfl, -⟩ := hstep
  obtain ⟨hnum, hlength⟩ := hmsg.length_queriedHashes
  refine ⟨h.pc, h.asked.answerQuery hnum hlength hleft, ?_⟩
  refine ⟨hext.containerDone.trans h.busy.containerDone, hext.recipeDone.trans h.busy.recipeDone,
    h.busy.dataOn, h.busy.recipeOn, ?_, ?_⟩
  · intro hfin
    exact absurd (h.busy.data hfin).1 (by simp)
  · intro hfin
    exact absurd (h.busy.recipe hfin).1 (by simp)

/-- **Every step of an upload** keeps the thread receiving. -/
theorem Conn.Receiving.step {s s' : Server × Conn} (h : s.2.Receiving left) (hstep : UploadStep env s s') :
    s'.2.Receiving left := by
  cases hstep with
  | body hpc hmsg hreceive => exact h.body hmsg hreceive
  | dataWriter hw =>
    obtain ⟨hbusy, hsame⟩ := h.busy.dataWriter hw
    exact ⟨hsame.pc.trans h.pc, hsame.remembers h.asked, hbusy⟩
  | recipeWriter hw =>
    obtain ⟨hbusy, hsame⟩ := h.busy.recipeWriter hw
    exact ⟨hsame.pc.trans h.pc, hsame.remembers h.asked, hbusy⟩
  | others => exact h

theorem Conn.Receiving.run {s s' : Server × Conn} (h : s.2.Receiving left) (hrun : UploadRun env s s') :
    s'.2.Receiving left := by
  induction hrun with
  | refl => exact h
  | tail _ hstep ih => exact ih.step hstep

/-! ## After `FILEEND` -/

/-- **The serving thread waits for its writers**; what it had asked before is as it was in `c₀`. -/
structure Conn.Ending (c₀ c : Conn) : Prop where
  pc : c.pc = .join
  hashList : c.hashList = c₀.hashList
  dups : c.upload.duplicatedChunkAddr = c₀.upload.duplicatedChunkAddr
  busy : c.Busy true

/-- `FILEEND` does not look at what has been asked. -/
theorem Conn.Receiving.fileEnd {reply : List Msg} (h : c.Receiving left)
    (htype : msg.header.dataMsgType = .FILEEND)
    (hstep : Conn.receive env sv c (.data msg) = some (sv', c', reply)) : c.Ending c' := by
  simp only [Conn.receive, h.pc, htype, if_true, Option.some.injEq, Prod.mk.injEq] at hstep
  obtain ⟨-, rfl, -⟩ := hstep
  refine ⟨rfl, rfl, ?_, ⟨rfl, rfl, h.busy.dataOn, h.busy.recipeOn, ?_, ?_⟩⟩
  · simp only [Conn.receiveFileEnd, UploadState.insertRecipeQueue]
    split <;> rfl
  · intro hfin
    exact absurd (h.busy.data hfin).1 (by simp)
  · intro hfin
    exact absurd (h.busy.recipe hfin).1 (by simp)

/-- **Every step after `FILEEND`** is one of the writers, or of others. -/
theorem Conn.Ending.step {s s' : Server × Conn} (h : c₀.Ending s.2) (hstep : UploadStep env s s') :
    c₀.Ending s'.2 := by
  cases hstep with
  | body hpc hmsg hreceive =>
    have hjoin := h.pc
    rw [hpc] at hjoin
    cases hjoin
  | dataWriter hw =>
    obtain ⟨hbusy, hsame⟩ := h.busy.dataWriter hw
    exact ⟨hsame.pc.trans h.pc, hsame.hashList.trans h.hashList, hsame.dups.trans h.dups, hbusy⟩
  | recipeWriter hw =>
    obtain ⟨hbusy, hsame⟩ := h.busy.recipeWriter hw
    exact ⟨hsame.pc.trans h.pc, hsame.hashList.trans h.hashList, hsame.dups.trans h.dups, hbusy⟩
  | others => exact h

theorem Conn.Ending.run {s s' : Server × Conn} (h : c₀.Ending s.2) (hrun : UploadRun env s s') :
    c₀.Ending s'.2 := by
  induction hrun with
  | refl => exact h
  | tail _ hstep ih => exact ih.step hstep

/-- **`receive_file` can return**: the writers come to their end. -/
theorem Conn.Ending.returns {s : Server × Conn} (h : c₀.Ending s.2) :
    ∃ sv c r, UploadRun env s (sv, c) ∧ c.proceed env sv = some r := by
  obtain ⟨sv, c⟩ := s
  induction hn : c.writing using Nat.strong_induction_on generalizing sv c with
  | _ n ih =>
    rcases h.busy.enabled sv with ⟨⟨sv', c'⟩, hw⟩ | ⟨⟨sv', c'⟩, hw⟩ | ⟨hdata, hrecipe⟩
    · have hstep : UploadStep env (sv, c) (sv', c') := .dataWriter hw
      obtain ⟨sv₁, c₁, r, hrun, hr⟩ :=
        ih _ (hn ▸ Conn.writing_dataWriterStep hw) sv' c' (h.step hstep) rfl
      exact ⟨sv₁, c₁, r, .head hstep hrun, hr⟩
    · have hstep : UploadStep env (sv, c) (sv', c') := .recipeWriter hw
      obtain ⟨sv₁, c₁, r, hrun, hr⟩ :=
        ih _ (hn ▸ Conn.writing_recipeWriterStep hw) sv' c' (h.step hstep) rfl
      exact ⟨sv₁, c₁, r, .head hstep hrun, hr⟩
    · have hpc : c.pc = .join := h.pc
      have hfin : c.dataWriter = .finished ∧ c.recipeWriter = .finished := ⟨hdata, hrecipe⟩
      have hreset : c.proceed env sv = some ((c.resetUpload env sv).1, (c.resetUpload env sv).2, []) := by
        simp only [Conn.proceed, hpc]
        rw [if_pos hfin]
      exact ⟨sv, c, _, .refl, hreset⟩

/-- **What `reset_upload` leaves**: a fresh upload state, but for the queue of duplicate addresses. -/
theorem Conn.Ending.reset {reply : List Msg} (h : c₀.Ending c)
    (hstep : c.proceed env sv = some (sv', c', reply)) :
    sv' = { sv with drawn := sv.drawn + 1 } ∧
    c'.upload.containerBuffer = ⟨env.uuid sv.drawn, 0, CONTAINERSIZE, []⟩ ∧ c'.pc = .order ∧
    c'.dataWriter = .joined ∧ c'.recipeWriter = .joined ∧
    c'.Settled ∧ c'.upload.duplicatedChunkAddr = c₀.upload.duplicatedChunkAddr := by
  simp only [Conn.proceed, h.pc] at hstep
  split at hstep
  · rename_i hfin
    simp only [Option.some.injEq, Prod.mk.injEq] at hstep
    obtain ⟨rfl, rfl, -⟩ := hstep
    refine ⟨rfl, rfl, rfl, rfl, rfl, ⟨rfl, ⟨_, rfl⟩, rfl, ?_, ?_⟩, h.dups⟩
    · have hqueue := (h.busy.data hfin.1).2
      simp [Conn.resetUpload, BlockQueue.undone, UploadState.newContainer, UploadState.newRecipe,
        hqueue, BlockQueue.empty]
    · have hqueue := (h.busy.recipe hfin.2).2
      simp [Conn.resetUpload, BlockQueue.undone, UploadState.newContainer, UploadState.newRecipe,
        hqueue, BlockQueue.empty]
  · cases hstep

/-- Nothing is in the queue of duplicates exactly if nothing was in it before and nothing of the last
query was answered `0`. -/
theorem Conn.Remembers.dups_eq_nil_iff (h : c.Remembers left) :
    c.upload.duplicatedChunkAddr = [] ↔ left = 0 ∧ ∀ q ∈ c.queries, q.1 ≠ 0 := by
  rw [← List.length_eq_zero_iff, h.dups, Nat.add_eq_zero_iff, List.length_eq_zero_iff]
  apply and_congr_right'
  constructor
  · intro hnil q hq h0
    have hmem : q.2 ∈ picks 0 c.queries := by
      rw [picks]
      exact List.mem_map.mpr ⟨q, List.mem_filter.mpr ⟨hq, by simpa using h0⟩, rfl⟩
    rw [hnil] at hmem
    cases hmem
  · exact picks_of_forall_ne

end DedupServer
