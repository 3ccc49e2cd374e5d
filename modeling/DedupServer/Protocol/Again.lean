import DedupServer.Upload.Renamed
import DedupServer.Protocol.Residue

/-! # The next upload

A connection on which an upload has ended, and a new one, are given the same orders and messages and
their threads take the same steps (`UploadEvent`). If the old connection is fresh, both take the same way
and write the same recipe entries, up to container ids (`SameUploads.events`,
`Conn.Fresh.sameUploads`). -/

namespace DedupServer

open Foundations

variable {env : Env} {d : ℕ}

/-- **What happens on a connection** in an upload: an order or a message arrives, the serving thread goes
on, or one of the writers does. -/
inductive UploadEvent
  | order (fileName : Bytes)
  | data (msg : DataMsg)
  | proceed
  | dataWriter
  | recipeWriter

/-- The server and the connection after an event, unless it cannot happen. -/
def UploadEvent.apply (env : Env) (s : Server × Conn) : UploadEvent → Option (Server × Conn)
  | .order fileName =>
    (Conn.receive env s.1 s.2 (.control .UPLOAD fileName .NONE)).map fun r => (r.1, r.2.1)
  | .data msg => (Conn.receive env s.1 s.2 (.data msg)).map fun r => (r.1, r.2.1)
  | .proceed => (s.2.proceed env s.1).map fun r => (r.1, r.2.1)
  | .dataWriter => s.2.dataWriterStep s.1
  | .recipeWriter => s.2.recipeWriterStep s.1

/-- One event after another. -/
def UploadEvent.applyAll (env : Env) (s : Server × Conn) (events : List UploadEvent) :
    Option (Server × Conn) :=
  events.foldlM (UploadEvent.apply env) s

/-- A new connection to the server, on which the client has logged in. -/
def Conn.renewed (env : Env) (sv : Server) (junk : Bytes) (client_id : Int) : Server × Conn :=
  ((Conn.init env sv junk).1,
    { (Conn.init env sv junk).2 with client_id := client_id, pc := .order })

/-- The two container writers are at the same point. -/
inductive SameDataWriter : DataWriter → DataWriter → Prop
  | off {w : DataWriter} (h : w = .idle ∨ w = .joined) : SameDataWriter w .idle
  | joined : SameDataWriter .joined .joined
  | waiting : SameDataWriter .waiting .waiting
  | saving (tmpContainer tmpContainer' : Container) :
      SameDataWriter (.saving tmpContainer) (.saving tmpContainer')
  | finished : SameDataWriter .finished .finished

/-- The two recipe writers are at the same point and have written the same since they opened the file. -/
inductive SameRecipeWriter (env : Env) (d : ℕ) :
    RecipeWriter → List ChunkAddr → RecipeWriter → List ChunkAddr → Prop
  | off {w : RecipeWriter} (h : w = .idle ∨ w = .joined) (as bs : List ChunkAddr) :
      SameRecipeWriter env d w as .idle bs
  | opening (as bs : List ChunkAddr) : SameRecipeWriter env d .opening as .opening bs
  | waiting (pos totalChunkNum : ℕ) {as bs : List ChunkAddr}
      (h : List.Forall₂ (SameAddr env d) as bs) :
      SameRecipeWriter env d (.waiting pos totalChunkNum) as (.waiting pos totalChunkNum) bs
  | writing (pos totalChunkNum : ℕ) {r r' : RecipeEntryContainer} (hr : SameEntries env d r r')
      {as bs : List ChunkAddr} (h : List.Forall₂ (SameAddr env d) as bs) :
      SameRecipeWriter env d (.writing pos totalChunkNum r) as (.writing pos totalChunkNum r') bs
  | finished {as bs : List ChunkAddr} (h : List.Forall₂ (SameAddr env d) as bs) :
      SameRecipeWriter env d .finished as .finished bs
  | joined {as bs : List ChunkAddr} (h : List.Forall₂ (SameAddr env d) as bs) :
      SameRecipeWriter env d .joined as .joined bs

theorem SameDataWriter.finished_iff {w w' : DataWriter} (h : SameDataWriter w w') :
    w' = .finished ↔ w = .finished := by
  cases h with
  | off h => rcases h with rfl | rfl <;> simp
  | _ => simp

theorem SameRecipeWriter.finished_iff {w w' : RecipeWriter} {as bs : List ChunkAddr}
    (h : SameRecipeWriter env d w as w' bs) : w' = .finished ↔ w = .finished := by
  cases h with
  | off h => rcases h with rfl | rfl <;> simp
  | _ => simp

/-- The program points of `receive_file` and around it. -/
def ConnPc.Uploads : ConnPc → Prop
  | .exist _ | .sending _ => False
  | _ => True

/-- **Two connections upload the same**, up to container ids. -/
structure SameUploads (env : Env) (d : ℕ) (s s' : Server × Conn) : Prop where
  twins : Twins env d s.1 s.2.upload s'.1 s'.2.upload
  pc : s'.2.pc = s.2.pc
  uploads : s.2.pc.Uploads
  client_id : s'.2.client_id = s.2.client_id
  hashList : s'.2.hashList = s.2.hashList
  queries : s'.2.queries = s.2.queries
  dataWriter : SameDataWriter s.2.dataWriter s'.2.dataWriter
  recipeWriter : SameRecipeWriter env d s.2.recipeWriter s.2.written s'.2.recipeWriter s'.2.written

/-- **What the peer and the recipe file show of it**: where the connection is, what it has asked, and
the entries written since the recipe was opened. -/
def ShowSame (env : Env) (d : ℕ) (s s' : Server × Conn) : Prop :=
  s'.2.pc = s.2.pc ∧ s'.2.queries = s.2.queries ∧
    (s'.2.recipeWriter ≠ .idle → s'.2.recipeWriter ≠ .opening →
      List.Forall₂ (SameAddr env d) s.2.written s'.2.written)

namespace SameUploads

variable {s s' : Server × Conn}

/-- Both accept the order. -/
theorem order (h : SameUploads env d s s') (fileName : Bytes) :
    Option.Rel (SameUploads env d) ((UploadEvent.order fileName).apply env s)
      ((UploadEvent.order fileName).apply env s') := by
  have hpc := h.pc
  simp only [UploadEvent.apply, Conn.receive, hpc]
  cases s.2.pc with
  | order => exact .some ⟨h.twins, rfl, trivial, h.client_id, h.hashList, h.queries, h.dataWriter,
      h.recipeWriter⟩
  | _ => exact .none

/-- Both answer a query alike. -/
theorem answerQuery (h : SameUploads env d s s') (msg : DataMsg) {st st' : StoreLoop}
    (htwins : Twins env d st.server st.up st'.server st'.up) :
    SameUploads env d (st.server, s.2.answerQuery msg st) (st'.server, s'.2.answerQuery msg st') where
  twins := { htwins with dups := List.rel_append htwins.dups (htwins.storedAddrs _) }
  pc := h.pc
  uploads := h.uploads
  client_id := h.client_id
  hashList := rfl
  queries := by
    rw [Conn.queries_answerQuery_queried, Conn.queries_answerQuery_queried]
    apply List.map_congr_left
    intro hash _
    rw [htwins.queryAnswer]
  dataWriter := h.dataWriter
  recipeWriter := h.recipeWriter

/-- Both take the message. -/
theorem data (h : SameUploads env d s s') (msg : DataMsg) :
    Option.Rel (SameUploads env d) ((UploadEvent.data msg).apply env s)
      ((UploadEvent.data msg).apply env s') := by
  have hpc := h.pc
  simp only [UploadEvent.apply, Conn.receive, hpc]
  cases hbody : s.2.pc with
  | body =>
    dsimp only
    split
    · -- the end of the file
      apply Option.Rel.some
      refine ⟨?_, rfl, trivial, h.client_id, h.hashList, h.queries, h.dataWriter, h.recipeWriter⟩
      exact h.twins.fileEnd rfl rfl
    · -- a message with chunks and hashes
      have hrun : Option.Rel (fun st st' => Twins env d st.server st.up st'.server st'.up)
          (StoreLoop.run env msg ⟨s.1, s.2.upload, none, 0⟩ s.2.queries)
          (StoreLoop.run env msg ⟨s'.1, s'.2.upload, none, 0⟩ s.2.queries) := by
        apply Twins.run
        · exact h.twins
        · exact .none
        · rfl
      rw [Conn.receiveBody, Conn.receiveBody, h.queries]
      obtain ⟨hst, hst'⟩ | ⟨st, st', hst, hst', htwins⟩ := none_or_some_of_rel hrun
      · rw [hst, hst']
        exact .none
      · rw [hst, hst']
        exact .some (h.answerQuery msg htwins)
  | _ => exact .none

/-- Both serving threads go on. -/
theorem proceed (h : SameUploads env d s s') :
    Option.Rel (SameUploads env d) (UploadEvent.proceed.apply env s)
      (UploadEvent.proceed.apply env s') := by
  have hpc := h.pc
  have huploads := h.uploads
  simp only [UploadEvent.apply, Conn.proceed, hpc]
  cases hat : s.2.pc with
  | lookup fileName =>
    have hunique : s'.1.isFileUnique s'.2.client_id fileName = s.1.isFileUnique s.2.client_id fileName := by
      rw [Server.isFileUnique, Server.isFileUnique, h.twins.files, h.client_id]
    dsimp only
    rw [hunique]
    split
    · exact .some ⟨h.twins, rfl, trivial, h.client_id, h.hashList, h.queries, h.dataWriter,
        h.recipeWriter⟩
    · exact .some ⟨h.twins, rfl, trivial, h.client_id, h.hashList, h.queries, h.dataWriter,
        h.recipeWriter⟩
  | reply fileName =>
    exact .some ⟨h.twins, rfl, trivial, h.client_id, h.hashList, h.queries, h.dataWriter,
      h.recipeWriter⟩
  | register fileName =>
    apply Option.Rel.some
    -- the two recipe writers are about to open their own files, whose names differ by the login only
    refine ⟨?_, rfl, trivial, h.client_id, h.hashList, h.queries, .waiting, .opening _ _⟩
    refine { h.twins with files := ?_ }
    show s'.1.files ++ [(s'.2.client_id, fileName)] = s.1.files ++ [(s.2.client_id, fileName)]
    rw [h.twins.files, h.client_id]
  | join =>
    have hfin : s'.2.dataWriter = .finished ∧ s'.2.recipeWriter = .finished ↔
        s.2.dataWriter = .finished ∧ s.2.recipeWriter = .finished :=
      and_congr h.dataWriter.finished_iff h.recipeWriter.finished_iff
    dsimp only
    by_cases hjoin : s.2.dataWriter = .finished ∧ s.2.recipeWriter = .finished
    · rw [if_pos hjoin, if_pos (hfin.mpr hjoin)]
      apply Option.Rel.some
      refine ⟨?_, rfl, trivial, h.client_id, rfl, rfl, .joined, ?_⟩
      -- the writer of the used connection still shows what it has written, the fresh one shows nothing
      · exact h.twins.reset rfl rfl
      · have hwriter := h.recipeWriter
        rw [hjoin.2, (hfin.mpr hjoin).2] at hwriter
        cases hwriter with
        | finished hwritten => exact .joined hwritten
    · rw [if_neg hjoin, if_neg (mt hfin.mp hjoin)]
      exact .none
  | exist fileName =>
    -- between an upload's order and its end neither the download states nor the check before one occur
    rw [hat] at huploads
    exact huploads.elim
  | sending recipe =>
    rw [hat] at huploads
    exact huploads.elim
  | _ => exact .none

/-- Both container writers go on. -/
theorem dataStep (h : SameUploads env d s s') :
    Option.Rel (SameUploads env d) (UploadEvent.dataWriter.apply env s)
      (UploadEvent.dataWriter.apply env s') := by
  have hwriter := h.dataWriter
  have hlength := h.twins.containers
  simp only [UploadEvent.apply, Conn.dataWriterStep]
  generalize hw : s.2.dataWriter = w at hwriter
  generalize hw' : s'.2.dataWriter = w' at hwriter
  cases hwriter with
  | off hoff => rcases hoff with rfl | rfl <;> exact .none
  | joined => exact .none
  | finished => exact .none
  | saving =>
    apply Option.Rel.some
    exact { h with twins := { h.twins with }, dataWriter := .waiting }
  | waiting =>
    dsimp only
    cases hq : s.2.upload.containerQueue.queue with
    | nil =>
      -- both queues are empty: each writer leaves on the same flag
      rw [hq] at hlength
      rw [List.length_eq_zero_iff.mp hlength, h.twins.containerDone]
      dsimp only
      split
      · exact .some { h with dataWriter := .finished }
      · exact .none
    -- both queues have a head, and the tails are equally long
    | cons tmpContainer rest =>
      rw [hq] at hlength
      obtain ⟨tmpContainer', rest', hq'⟩ := List.exists_cons_of_length_eq_add_one hlength
      rw [hq'] at hlength ⊢
      apply Option.Rel.some
      exact { h with
        twins := { h.twins with containers := Nat.succ.inj hlength }
        dataWriter := .saving _ _ }

/-- Both recipe writers go on. -/
theorem recipeStep (h : SameUploads env d s s') :
    Option.Rel (SameUploads env d) (UploadEvent.recipeWriter.apply env s)
      (UploadEvent.recipeWriter.apply env s') := by
  have hwriter := h.recipeWriter
  have hqueues := h.twins.recipes
  simp only [UploadEvent.apply, Conn.recipeWriterStep]
  generalize hw : s.2.recipeWriter = w at hwriter
  generalize hw' : s'.2.recipeWriter = w' at hwriter
  generalize s.2.written = as at hwriter ⊢
  generalize s'.2.written = bs at hwriter ⊢
  cases hwriter with
  | off hoff => rcases hoff with rfl | rfl <;> exact .none
  | joined => exact .none
  | finished => exact .none
  | opening =>
    apply Option.Rel.some
    exact { h with twins := { h.twins with }, recipeWriter := .waiting 4 0 .nil }
  | writing pos total hr hwritten =>
    have hdata : List.length _ = List.length _ := hr.length_eq
    apply Option.Rel.some
    refine { h with twins := { h.twins with }, recipeWriter := ?_ }
    dsimp only
    -- the blocks are equally long, so both writers advance to the same position in their files
    rw [length_encodeEntries, length_encodeEntries, RecipeEntryContainer.num,
      RecipeEntryContainer.num, hdata]
    exact .waiting _ _ (List.rel_append hwritten hr)
  | waiting pos total hwritten =>
    dsimp only
    cases hq : s.2.upload.recipeQueue.queue with
    | nil =>
      rw [hq] at hqueues
      rw [List.forall₂_nil_left_iff.mp hqueues, h.twins.recipeDone]
      dsimp only
      split
      · apply Option.Rel.some
        exact { h with twins := { h.twins with }, recipeWriter := .finished hwritten }
      · exact .none
    | cons r rest =>
      rw [hq] at hqueues
      obtain ⟨r', rest', hr, hrest, hq'⟩ := List.forall₂_cons_left_iff.mp hqueues
      rw [hq']
      apply Option.Rel.some
      exact { h with
        twins := { h.twins with recipes := hrest }
        recipeWriter := .writing _ _ hr hwritten }

/-- **Every event** happens on both connections or on neither. -/
theorem apply (h : SameUploads env d s s') (event : UploadEvent) :
    Option.Rel (SameUploads env d) (event.apply env s) (event.apply env s') := by
  cases event with
  | order fileName => exact h.order fileName
  | data msg => exact h.data msg
  | proceed => exact h.proceed
  | dataWriter => exact h.dataStep
  | recipeWriter => exact h.recipeStep

/-- **Any sequence of events** does. -/
theorem applyAll (h : SameUploads env d s s') (events : List UploadEvent) :
    Option.Rel (SameUploads env d) (UploadEvent.applyAll env s events)
      (UploadEvent.applyAll env s' events) := by
  induction events generalizing s s' with
  | nil => exact .some h
  | cons event events ih =>
    simp only [UploadEvent.applyAll, List.foldlM_cons]
    obtain ⟨hs, hs'⟩ | ⟨t, t', hs, hs', ht⟩ := none_or_some_of_rel (h.apply event)
    · rw [hs, hs']
      exact .none
    · rw [hs, hs']
      exact ih ht

/-- It shows. -/
theorem shown (h : SameUploads env d s s') : ShowSame env d s s' := by
  refine ⟨h.pc, h.queries, ?_⟩
  have hwriter := h.recipeWriter
  intro hidle hopening
  generalize s.2.recipeWriter = w at hwriter
  generalize s.2.written = as at hwriter ⊢
  generalize s'.2.recipeWriter = w' at hwriter hidle hopening
  generalize s'.2.written = bs at hwriter ⊢
  cases hwriter with
  | off => exact absurd rfl hidle
  | opening => exact absurd rfl hopening
  | waiting pos total hwritten => exact hwritten
  | writing pos total hr hwritten => exact hwritten
  | finished hwritten => exact hwritten
  | joined hwritten => exact hwritten

end SameUploads

/-- **After an upload that leaves the connection fresh**, the connection and a new one upload the same. -/
theorem Conn.Fresh.sameUploads {sv : Server} {c : Conn} (h : c.Fresh) (hpc : c.pc = .order)
    (hbuffer : c.upload.containerBuffer = ⟨env.uuid sv.drawn, 0, CONTAINERSIZE, []⟩)
    (hdata : c.dataWriter = .joined) (hrecipe : c.recipeWriter = .joined) (junk : Bytes) :
    SameUploads env sv.drawn ({ sv with drawn := sv.drawn + 1 }, c)
      (Conn.renewed env { sv with drawn := sv.drawn + 1 } junk c.client_id) where
  twins :=
    { files := rfl
      -- the index is the same on both sides, so its addresses are even equal
      index := by
        intro k
        show Option.Rel _ (sv.allChunks k) (sv.allChunks k)
        cases sv.allChunks k with
        | none => exact .none
        | some a => exact .some ⟨.inl rfl, rfl, rfl⟩
      drawn := rfl
      since := Nat.le_succ _
      dups := by
        rw [h.dups]
        exact .nil
      container := by
        rw [hbuffer]
        -- the buffer of the used connection was drawn by its last reset
        exact .inr ⟨sv.drawn, le_rfl, rfl, rfl⟩
      occupied := by
        rw [hbuffer]
        rfl
      capacity := by
        rw [hbuffer]
        rfl
      containers := by
        rw [h.containerQueue]
        rfl
      containerDone := by
        rw [h.containerQueue]
        rfl
      recipeBuffer := by
        rw [h.recipeBuffer]
        exact .nil
      recipes := by
        rw [h.recipeQueue]
        exact .nil
      recipeDone := by
        rw [h.recipeQueue]
        rfl }
  pc := hpc.symm
  uploads := by
    rw [hpc]
    trivial
  client_id := rfl
  hashList := h.hashList.symm
  queries := by
    simp [Conn.queries, h.hashList, Conn.renewed, Conn.init]
  dataWriter := by
    rw [hdata]
    exact .off (.inr rfl)
  recipeWriter := by
    rw [hrecipe]
    exact .off (.inr rfl) _ _

end DedupServer
