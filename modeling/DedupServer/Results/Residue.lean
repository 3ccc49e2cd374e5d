import DedupServer.Protocol.Again
import DedupServer.Model.Script

/-! # No residue, unless the last query found a chunk

`reset_upload` clears everything that an upload has left in the connection except the queue of duplicate
addresses. An upload leaves that queue empty exactly if nothing of its last query was stored already; a
client that stops after such a query spoils the recipes of every later upload on the connection. -/

namespace DedupServer

open Foundations

variable {env : Env} {sv sv₀ sv₁ sv₂ sv₃ : Server} {c c₀ c₁ c₂ c₃ : Conn} {fileName : Bytes}
  {msg : DataMsg} {reply₁ reply₃ : List Msg}

/-- **The upload that `FILEEND` has just ended leaves no residue**: `receive_file` returns, with the upload
state of a new connection, and whatever happens on the connection in further uploads shows the same as on
a new connection to the same server, up to container ids. -/
def LeavesNoResidue (env : Env) (s : Server × Conn) : Prop :=
  (∀ t, UploadRun env s t → ∃ u r, UploadRun env t u ∧ u.2.proceed env u.1 = some r) ∧
  ∀ t sv c reply, UploadRun env s t → t.2.proceed env t.1 = some (sv, c, reply) →
    c.Fresh ∧ ∀ junk events, Option.Rel (ShowSame env t.1.drawn)
      (UploadEvent.applyAll env (sv, c) events)
      (UploadEvent.applyAll env (Conn.renewed env sv junk c.client_id) events)

/-- **What decides it** is the queue of duplicates when `FILEEND` arrives. -/
theorem Conn.Ending.residue_iff (h : c₀.Ending c) :
    LeavesNoResidue env (sv, c) ↔ c₀.upload.duplicatedChunkAddr = [] := by
  constructor
  · intro hno
    obtain ⟨u, ⟨sv', c', reply⟩, hrun, hreturn⟩ := hno.1 _ .refl
    obtain ⟨hfresh, -⟩ := hno.2 u sv' c' reply hrun hreturn
    obtain ⟨-, -, -, -, -, -, hdups⟩ := Conn.Ending.reset (h.run hrun) hreturn
    rw [← hdups]
    exact hfresh.dups
  · intro hnil
    refine ⟨fun t hrun => ?_, fun t sv' c' reply hrun hreturn => ?_⟩
    · obtain ⟨sv', c', r, hrun', hreturn⟩ := Conn.Ending.returns (h.run hrun)
      exact ⟨(sv', c'), r, hrun', hreturn⟩
    · obtain ⟨rfl, hbuffer, hpc, hdata, hrecipe, hsettled, hdups⟩ :=
        Conn.Ending.reset (h.run hrun) hreturn
      have hfresh : c'.Fresh := ⟨hsettled, hdups.trans hnil⟩
      refine ⟨hfresh, fun junk events => ?_⟩
      have hsame := (hfresh.sameUploads hpc hbuffer hdata hrecipe junk).applyAll events
      obtain ⟨hs, hs'⟩ | ⟨u, u', hs, hs', hu⟩ := none_or_some_of_rel hsame
      · rw [hs, hs']
        exact .none
      · rw [hs, hs']
        exact .some hu.shown

/-- **When an upload leaves no residue.** An upload is registered on a connection whose upload state is
that of a new one, but perhaps for the queue of duplicates; messages within the buffers follow, then
`FILEEND`. It leaves no residue exactly if the queue was empty before and nothing of the last query has
been answered `0`. -/
theorem leavesNoResidue_iff (hsettled : c₀.Settled)
    (hroom : c₀.outData.length = CHUNKSIZE * BATCHSIZE) (hpc : c₀.pc = .register fileName)
    (hregister : c₀.proceed env sv₀ = some (sv₁, c₁, reply₁))
    (hbody : UploadRun env (sv₁, c₁) (sv₂, c₂)) (htype : msg.header.dataMsgType = .FILEEND)
    (hend : Conn.receive env sv₂ c₂ (.data msg) = some (sv₃, c₃, reply₃)) :
    LeavesNoResidue env (sv₃, c₃) ↔
      c₀.upload.duplicatedChunkAddr = [] ∧ ∀ q ∈ c₂.queries, q.1 ≠ 0 := by
  have hbegun := hsettled.register hroom hpc hregister
  have hreceiving : c₂.Receiving _ := Conn.Receiving.run (s := (sv₁, c₁)) hbegun hbody
  have hending : c₂.Ending c₃ := hreceiving.fileEnd htype hend
  rw [hending.residue_iff, hreceiving.asked.dups_eq_nil_iff, List.length_eq_zero_iff]


namespace Sample

/-- A connection to the server that is about to register a file. -/
def registering (sv : Server) : Conn :=
  { (Conn.init Sample.env sv (List.replicate (CHUNKSIZE * BATCHSIZE) 0)).2 with pc := .register [65] }

/-- A message that asks for one hash. -/
def asking : DataMsg := ⟨⟨.UPLOADBODY, 0, 1, 0, sizeofDataMsg + 32⟩, List.replicate 32 7⟩

/-- The end of a file. -/
def fileEnd : DataMsg := ⟨⟨.FILEEND, 0, 0, 0, sizeofDataMsg⟩, []⟩

/-- A server that has this chunk. -/
def storing : Server :=
  Server.init.addChunk (convertArrayHashToString (List.replicate 32 7)) ⟨Sample.env.uuid 9, 0, 1⟩

end Sample

theorem Sample.inBounds_asking (hc : c.queries = []) : c.InBounds Sample.asking := by
  refine ⟨rfl, ?_, ?_, ?_, ?_⟩
  · simp [Sample.asking, CHUNKSIZE, HASHSIZE, BATCHSIZE]
  · decide
  · decide
  · simp [hc, picks]

/-- An upload that ends after a query for a chunk that is not stored. -/
theorem leavesNoResidue_iff_sample : ∃ s₃ : Server × Conn,
    s₃.2.hashList = [List.replicate 32 7] ∧ LeavesNoResidue Sample.env s₃ := by
  let c₀ := Sample.registering Server.init
  refine ⟨_, ?_, (leavesNoResidue_iff ⟨rfl, ⟨_, rfl⟩, rfl, rfl, rfl⟩ ?_
    (rfl : c₀.pc = .register [65]) (rfl : c₀.proceed Sample.env Server.init = _)
    (.single (.body rfl (Sample.inBounds_asking rfl) rfl)) (rfl : Sample.fileEnd.header.dataMsgType = _)
    rfl).mpr ⟨rfl, ?_⟩⟩
  · rfl
  · simp [c₀, Sample.registering, Conn.init]
  · rw [Conn.queries_answerQuery_queried]
    intro q hq
    obtain ⟨hash, -, rfl⟩ := List.mem_map.mp hq
    show (1 : UInt8) ≠ 0
    decide

/-- **An upload may leave a residue**: on a new connection it asks for a chunk that is stored, and ends. The
upload state that it leaves is not that of a new connection. -/
theorem leaves_residue : ∃ (sv₀ : Server) (c₀ : Conn) (s₁ s₂ s₃ : Server × Conn)
    (reply₁ reply₃ : List Msg), c₀.Fresh ∧ c₀.outData.length = CHUNKSIZE * BATCHSIZE ∧
      c₀.proceed Sample.env sv₀ = some (s₁.1, s₁.2, reply₁) ∧ UploadRun Sample.env s₁ s₂ ∧
      Conn.receive Sample.env s₂.1 s₂.2 (.data Sample.fileEnd) = some (s₃.1, s₃.2, reply₃) ∧
      ¬ LeavesNoResidue Sample.env s₃ := by
  let c₀ := Sample.registering Sample.storing
  have hfresh : c₀.Fresh := ⟨⟨rfl, ⟨_, rfl⟩, rfl, rfl, rfl⟩, rfl⟩
  have hroom : c₀.outData.length = CHUNKSIZE * BATCHSIZE := by
    simp [c₀, Sample.registering, Conn.init]
  let r₁ := (c₀.proceed Sample.env Sample.storing).get rfl
  have hregister : c₀.proceed Sample.env Sample.storing = some (r₁.1, r₁.2.1, r₁.2.2) := rfl
  have hbegun : r₁.2.1.Receiving 0 := hfresh.register hroom rfl hregister
  -- the chunk is stored: its address is put into the queue
  let r₂ := (Conn.receive Sample.env r₁.1 r₁.2.1 (.data Sample.asking)).get rfl
  let s₂ : Server × Conn := (r₂.1, r₂.2.1)
  have hstep : Conn.receive Sample.env r₁.1 r₁.2.1 (.data Sample.asking) =
      some (s₂.1, s₂.2, r₂.2.2) := rfl
  have hreceiving : s₂.2.Receiving 0 := hbegun.body (Sample.inBounds_asking rfl) hstep
  have hrun : UploadRun Sample.env (r₁.1, r₁.2.1) s₂ :=
    .single (.body rfl (Sample.inBounds_asking rfl) hstep)
  have hdups : s₂.2.upload.duplicatedChunkAddr ≠ [] := List.cons_ne_nil _ _
  have hend : Conn.receive Sample.env s₂.1 s₂.2 (.data Sample.fileEnd) =
      some (s₂.1, s₂.2.receiveFileEnd, []) := by
    simp [Conn.receive, hreceiving.pc, Sample.fileEnd]
  have hending := hreceiving.fileEnd rfl hend
  refine ⟨Sample.storing, c₀, (r₁.1, r₁.2.1), s₂,
    (s₂.1, s₂.2.receiveFileEnd), r₁.2.2, [], hfresh, hroom, hregister, hrun, hend, ?_⟩
  intro hno
  exact hdups (hending.residue_iff.mp hno)

end DedupServer
