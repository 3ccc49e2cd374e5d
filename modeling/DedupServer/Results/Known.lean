import DedupServer.Alone.Complete
import DedupServer.Store.Returned

/-! # Known data is neither sent nor stored again

When the index has an address for every chunk of a file, an upload of the file asks for no chunk and
stores none (`Session.Idle`), whatever other sessions do in the meantime: it only collects the
addresses (`known_file_not_stored`). -/

namespace DedupServer

open Foundations

variable {env : Env} {s s' : Session} {sv sv' : Server} {σ τ : State} {i : ℕ} {arg : Arg}
  {index : Bytes → Option ChunkAddr}

/-- The address is the one that `index` holds for the hash of the chunk. -/
def IndexedBy (env : Env) (index : Bytes → Option ChunkAddr) (a : ChunkAddr) (x : Bytes) : Prop :=
  index (convertArrayHashToString (env.generateHash x)) = some a

/-- **All chunks of the file are in the index.** -/
def Known (env : Env) (index : Bytes → Option ChunkAddr) (file : Bytes) : Prop :=
  ∀ x ∈ fileChunks env file, ∃ a, IndexedBy env index a x

/-- **An upload that stores nothing**: nothing was asked for in the last reply, there is no container
but an empty one, and the recipe refers to the addresses of `index`. -/
structure Session.Idle (env : Env) (index : Bytes → Option ChunkAddr) (s : Session) : Prop where
  answers : s.conn.pc = .body → ∀ b ∈ s.conn.answers, b = 0
  queue : s.conn.upload.containerQueue.queue = []
  held : s.conn.dataWriter.held = []
  blank : s.conn.upload.containerBuffer.occupied = 0
  refs : s.Accepted → s.Refs env (IndexedBy env index)

namespace Session.Idle

/-- Every query has been answered `0`. -/
theorem queries (h : s.Idle env index) (hupl : s.Uploading env) :
    ∀ q ∈ s.conn.queries, q.1 = 0 := by
  intro q hq
  rcases hupl.stage with ⟨-, hdormant⟩ | ⟨hpc, -⟩
  · simp [hdormant.queries] at hq
  · exact h.answers hpc _ (List.of_mem_zip hq).1

/-- **A message to such an upload carries no chunks.** -/
theorem uniq_eq_nil (h : s.Idle env index) (hupl : s.Uploading env) {msg : DataMsg}
    {uniq next : List Bytes} (hfits : s.conn.Fits msg uniq next) : uniq = [] := by
  have hnone : picks 1 s.conn.queries = [] :=
    picks_of_forall_ne fun q hq => by simp [h.queries hupl q hq]
  exact List.length_eq_zero_iff.mp (by rw [hfits.count, hnone, List.length_nil])

/-- A new session has nothing to store. -/
theorem connect (env : Env) (sv : Server) (arg : Arg) (index : Bytes → Option ChunkAddr) :
    (Session.connect env sv arg).2.Idle env index where
  answers := by simp [Session.connect, Conn.init]
  queue := rfl
  held := rfl
  blank := rfl
  refs := by simp [Session.Accepted, Session.connect, Conn.init]

/-- **An `UPLOADBODY` message** stores nothing and asks for nothing. -/
theorem body (h : s.Idle env index) (hpc : s.conn.pc = .body) (hupl : s.Uploading env)
    {msg : DataMsg} {rest' : List Msg} {stored pending batch rest uniq next : List Bytes}
    (hfits : s.conn.Fits msg uniq next)
    (hsends : s.Sends env stored pending batch rest uniq next)
    (hknown : Known env index s.client.file)
    (hindex : ∀ k a, index k = some a → sv.allChunks k = some a) {st : StoreLoop}
    (hrun : StoreLoop.run env msg ⟨sv, s.conn.upload, none, 0⟩ s.conn.queries = some st) :
    st.server = sv ∧ (s.serverMoved rest' (s.conn.answerQuery msg st)
      (s.conn.answerQuery msg st).bodyReply).Idle env index := by
  have hzero := h.queries hupl
  obtain ⟨hserver, hqueue, hbuffer, new, hentries, hlen, hdups⟩ :=
    StoreLoop.run_of_zero env msg s.conn.queries hzero hrun
  obtain ⟨st', -, hrun', -, -, hnil, -⟩ := Conn.exists_receiveBody env sv hupl.asked hfits
  obtain rfl := Option.some.inj (hrun.symm.trans hrun')
  dsimp only at hserver hqueue hbuffer hentries hdups
  rw [hnil, List.append_nil] at hdups
  -- the index answers for every chunk of the new query
  have hbatch : ∀ x ∈ batch, ∃ a, IndexedBy env index a x ∧
      st.server.allChunks (convertArrayHashToString (env.generateHash x)) = some a := by
    intro x hx
    have hmem : x ∈ fileChunks env s.client.file := by
      rw [hsends.splits.chunks]
      exact List.mem_append_right _ (List.mem_append_left _ hx)
    obtain ⟨a, ha⟩ := hknown x hmem
    exact ⟨a, ha, by rw [hserver]; exact hindex _ a ha⟩
  have hfirst : ∀ z ∈ (s.conn.queries.map (·.1)).zip new, z.1 = 0 := by
    intro z hz
    obtain ⟨q, hq, hz⟩ := List.mem_map.mp (List.of_mem_zip hz).1
    rw [← hz, hzero q hq]
  refine ⟨hserver, ?_, ?_, h.held, ?_, fun hacc => ?_⟩
  · intro _ b hb
    simp only [Session.serverMoved] at hb
    rw [Conn.answers_answerQuery hfits, hsends.next, List.map_map] at hb
    obtain ⟨x, hx, rfl⟩ := List.mem_map.mp hb
    obtain ⟨a, -, ha⟩ := hbatch x hx
    simp [Conn.queryAnswer, Server.isChunkStored, ha]
  · simp only [Session.serverMoved, Conn.answerQuery]
    rw [hqueue, h.queue]
  · simp only [Session.serverMoved, Conn.answerQuery]
    rw [hbuffer, h.blank]
  · refine (h.refs hacc).body hpc hupl.asked hfits hsends hentries hnil hlen ?_ ?_ ?_
    · rw [picks_of_forall_eq hfirst, List.map_snd_zip (by simp [hlen]), hdups]
    · rw [picks_of_forall_ne fun z hz => by simp [hfirst z hz], h.uniq_eq_nil hupl hfits]
      exact .nil
    · intro x hx a ha
      obtain ⟨b, hb, hb'⟩ := hbatch x hx
      rw [ha] at hb'
      rwa [← Option.some.inj hb'] at hb

/-- **Every step of the session** adds nothing to the index and saves nothing. -/
theorem moves (h : s.Idle env index) (hphase : Phase env s) (hmoves : Moves env sv s sv' s')
    (hrogue : s.client.rogue = false) (hknown : Known env index s.client.file)
    (hindex : ∀ k a, index k = some a → sv.allChunks k = some a) :
    sv'.allChunks = sv.allChunks ∧ sv'.containers = sv.containers ∧ s'.Idle env index := by
  have hkept := hmoves.kept
  cases hmoves with
  -- the client's side changes neither the index nor what the connection has received
  | client =>
    exact ⟨rfl, rfl, h.answers, h.queue, h.held, h.blank, fun (hacc : s.Accepted) =>
      (h.refs hacc).of_eq (hkept.file hacc.uploader) rfl fun hpc => ⟨hpc, rfl, rfl, rfl⟩⟩
  | server hserved =>
    cases hserved with
    | quiet hquiet =>
      refine ⟨rfl, rfl, fun hpc => absurd hpc (hquiet.after_ne rfl), ?_, ?_, ?_, fun hacc => ?_⟩
      · simpa only [Session.serverMoved, hquiet.upload] using h.queue
      · simpa only [Session.serverMoved, hquiet.dataWriter] using h.held
      · simpa only [Session.serverMoved, hquiet.upload] using h.blank
      · rw [Session.Accepted, Session.serverMoved, hquiet.uploadRep] at hacc
        exact (h.refs hacc).quiet hquiet
    | unique hpc hid hname hunique hdormant hrep =>
      exact ⟨rfl, rfl, by simp [Session.serverMoved], h.queue, h.held, h.blank,
        by simp [Session.Accepted, Session.serverMoved, hrep]⟩
    | refuse =>
      exact ⟨rfl, rfl, by simp [Session.serverMoved], h.queue, h.held, h.blank,
        by simp [Session.Accepted, Session.serverMoved]⟩
    | accept hpc hdormant =>
      exact ⟨rfl, rfl, by simp [Session.serverMoved], h.queue, h.held, h.blank, fun _ =>
        .of_dormant hdormant rfl
          (by simp [Session.serverMoved, hdormant.recipeWriter, RecipeWriter.held])
          rfl rfl rfl rfl⟩
    | register hpc hdormant =>
      exact ⟨rfl, rfl, by simp [Session.serverMoved, Conn.answers, hdormant.hashList], h.queue,
        rfl, h.blank, fun _ => .of_dormant hdormant rfl rfl rfl rfl rfl rfl⟩
    -- every answer was 0, so the batch adds no container and no key
    | body hpc hup hupl hfits honest hrun =>
      obtain ⟨stored, pending, batch, rest, hsends⟩ := honest hrogue
      obtain ⟨rfl, hidle⟩ := h.body hpc hupl hfits hsends hknown hindex hrun
      exact ⟨rfl, rfl, hidle⟩
    -- an empty container buffer is dropped at the file end
    | fileEnd hpc =>
      have hup : s.conn.receiveFileEnd.upload.containerQueue.queue
          = s.conn.upload.containerQueue.queue ∧
          s.conn.receiveFileEnd.upload.containerBuffer = s.conn.upload.containerBuffer := by
        simp [Conn.receiveFileEnd, h.blank, UploadState.insertRecipeQueue, BlockQueue.setDone]
      exact ⟨rfl, rfl, by simp [Session.serverMoved, Conn.receiveFileEnd], hup.1.trans h.queue,
        h.held, (congrArg _ hup.2).trans h.blank, fun hacc => (h.refs hacc).fileEnd hpc⟩
    | reset hpc hacc hwriting hserves hdata hrecipe =>
      have hjoined : (s.conn.resetUpload env sv).2.Joined := hwriting.resetUpload hdata hrecipe
      exact ⟨rfl, rfl, by simp [Session.serverMoved, Conn.resetUpload],
        congrArg (·.queue) hjoined.containerQueue, rfl, hjoined.blank,
        fun _ => (h.refs hacc).reset hpc hwriting hdata hrecipe⟩
  | dataWriter hstep =>
    have halike := Conn.alike_dataWriterStep hstep
    obtain ⟨C, rest, hw, hq, rfl, rfl⟩ | ⟨hw, hq, hdone, rfl, rfl⟩ | ⟨C, hw, rfl, rfl⟩ :=
      Conn.dataWriterStep_cases hstep
    -- there is no container in the queue to save
    · rw [h.queue] at hq
      cases hq
    · exact ⟨rfl, rfl, h.answers, h.queue, rfl, h.blank,
        fun (hacc : s.Accepted) => (h.refs hacc).alike halike⟩
    · have hheld := h.held
      rw [hw] at hheld
      cases hheld
  | recipeWriter hstep =>
    have halike := hphase.alike_recipeWriterStep hstep
    obtain ⟨_, rfl, rfl⟩ | ⟨_, _, _, _, _, _, rfl, rfl⟩ | ⟨_, _, _, _, _, rfl, rfl⟩ |
      ⟨_, _, _, _, rfl, rfl⟩ := Conn.recipeWriterStep_cases hstep
    all_goals exact ⟨rfl, rfl, h.answers, h.queue, h.held, h.blank,
      fun (hacc : s.Accepted) => (h.refs hacc).alike halike⟩

/-- **Messages in flight to such an upload carry no chunk bytes.** -/
theorem start_eq_zero (h : s.Idle env index) (hphase : Phase env s) {msg : DataMsg}
    (hup : .data msg ∈ s.up) (htype : msg.header.dataMsgType = .UPLOADBODY) :
    msg.header.start = 0 := by
  -- a batch within its limits carries the new chunks, and none is new
  have hcarries : ∀ {uniq next : List Bytes}, s.Uploading env → s.conn.Fits msg uniq next →
      msg.header.start = 0 := fun hupl hfits => by
    rw [hfits.start, h.uniq_eq_nil hupl hfits, List.flatten_nil, List.length_nil]
  cases hphase with
  | asking hcl hupl hup' hdown hfits =>
    rw [hup', List.mem_singleton] at hup
    obtain rfl := Msg.data.inj hup
    exact hcarries hupl hfits
  | last hcl hupl hup' hdown hfits hend =>
    simp only [hup', List.mem_cons, Msg.data.injEq, reduceCtorEq, List.not_mem_nil,
      or_false] at hup
    rcases hup with rfl | rfl
    · exact hcarries hupl hfits
    · rw [hend] at htype
      cases htype
  | ending hcl hpc hupl hup' hdown hend =>
    simp only [hup', List.mem_cons, Msg.data.injEq, reduceCtorEq, List.not_mem_nil,
      or_false] at hup
    rw [hup, hend] at htype
    cases htype
  | login hreq hpc hup' | order hreq hpc hup' =>
    rcases hreq with ⟨-, rfl⟩ | ⟨-, rfl⟩ | ⟨-, rfl⟩ <;> simp [hup'] at hup
  | lookup hcl hpc hup' | reply hcl hpc hup' | refused hcl hpc hup' | accepted hcl hupl hup'
  | answered hcl hpc hupl hup' | joining hcl hpc hserves hacc hwriting hup'
  | quitting hcl hpc hup' | left hcl hpc hup' | closed hcl hpc hup' | exist hcl hpc hup'
  | notExist hcl hpc hup' | sending hpc hup' | sent hpc hup' => simp [hup'] at hup

end Session.Idle

/-- **Such an upload stays one along every run**, whatever the other sessions do. -/
theorem State.InPhase.idle (hphase : σ.InPhase env) (hi : σ.locals i = none)
    (hrogue : arg.rogue = false) (hop : arg.op = 117)
    (hknown : Known env σ.shared.allChunks arg.file)
    (hrun : Reaches (sessions env) anyStep (σ.joined env i arg) τ) :
    ∃ s, τ.locals i = some s ∧ s.client.rogue = false ∧ s.client.file = arg.file ∧
      s.Idle env σ.shared.allChunks := by
  obtain ⟨-, -, hrogue', hfile, -⟩ := Session.connect_client env σ.shared arg
  have hphase' : (σ.joined env i arg).InPhase env := hphase.step (.spawn hi)
  refine (hrun.invariant (I := fun υ : State => υ.InPhase env ∧ σ.shared.Grows υ.shared ∧
    ∃ s, υ.locals i = some s ∧ s.Uploader ∧ s.client.rogue = false ∧ s.client.file = arg.file ∧
      s.Idle env σ.shared.allChunks) (fun υ ℓ υ' h hs _ => ?_)
    ⟨hphase', ⟨List.prefix_rfl, fun _ _ h => h, Nat.le_succ _⟩, _,
      Config.moved_locals_self _ _ _ _, (hfile hop).1, hrogue'.trans hrogue, (hfile hop).2,
      .connect env σ.shared arg _⟩).2.2.imp fun s h => ⟨h.1, h.2.2⟩
  obtain ⟨hphase, hgrows, s, hs', hupl, hrogue, hfile, hidle⟩ := h
  refine ⟨hphase.step hs, hgrows.trans (hphase.grows_step hs), ?_⟩
  by_cases howner : i = ℓ.owner
  · subst howner
    cases hs with
    | spawn hnone =>
      rw [Label.owner] at hs'
      rw [hnone] at hs'
      cases hs'
    | act hl hact =>
      obtain rfl := Option.some.inj (hl.symm.trans hs')
      have hmoves := ((hphase _ _ hl).act hact).2
      have hkept := hmoves.kept
      exact ⟨_, Config.moved_locals_self _ _ _ _, hkept.uploader.mpr hupl,
        hkept.rogue.trans hrogue, (hkept.file hupl).trans hfile,
        (hidle.moves (hphase _ _ hl) hmoves hrogue (hfile ▸ hknown) hgrows.index).2.2⟩
  · exact ⟨s, (hs.locals_of_ne howner).trans hs', hupl, hrogue, hfile, hidle⟩

/-- **Known data is never transferred or stored again.** A client starts to upload a file of which the
index knows every chunk. Then in every state of every run none of its `UPLOADBODY` messages carries
chunk bytes, its container queue is empty, no step of its own changes the index or the containers,
and its recipe, once it is written, has one entry per chunk: the address in the index. -/
theorem known_file_not_stored (hσ : Reaches (sessions env) anyStep State.init σ)
    (hi : σ.locals i = none) (hrogue : arg.rogue = false) (hop : arg.op = 117)
    (hknown : Known env σ.shared.allChunks arg.file)
    (hrun : Reaches (sessions env) anyStep (σ.joined env i arg) τ) :
    ∃ s, τ.locals i = some s ∧
      (∀ msg, .data msg ∈ s.up → msg.header.dataMsgType = .UPLOADBODY → msg.header.start = 0) ∧
      s.conn.upload.containerQueue.queue = [] ∧
      (∀ a sv' s', Session.act env τ.shared s a = some (sv', s') →
        sv'.allChunks = τ.shared.allChunks ∧ sv'.containers = τ.shared.containers) ∧
      (s.Returned → s.conn.written.map some = (fileChunks env arg.file).map fun x =>
        τ.shared.isChunkStored (convertArrayHashToString (env.generateHash x))) ∧
      (s.Returned → τ.Apart env → τ.shared.recipes.lookup (s.recipePath env) =
        some (encodeTotalChunkNum s.conn.written.length ++ encodeEntries s.conn.written)) := by
  have hphase := (State.inPhase_init env).reaches hσ
  have hphase' : (σ.joined env i arg).InPhase env := hphase.step (.spawn hi)
  have hphaseτ := hphase'.reaches hrun
  have hjoin : Step (sessions env) σ (.spawn i arg) (σ.joined env i arg) := .spawn hi
  have hgrows : σ.shared.Grows τ.shared := (hphase.grows_step hjoin).trans (hphase'.grows hrun)
  obtain ⟨s, hs, hrogue', hfile, hidle⟩ := hphase.idle hi hrogue hop hknown hrun
  have hs' := hphaseτ i s hs
  refine ⟨s, hs, fun msg => hidle.start_eq_zero hs', hidle.queue, fun a sv' s' hact => ?_,
    fun hret => ?_, fun hret hapart => ?_⟩
  -- the index has an entry for every chunk of the file, so no step of this session adds one
  · obtain ⟨hindex, hcontainers, -⟩ :=
      hidle.moves hs' (hs'.act hact).2 hrogue' (hfile ▸ hknown) hgrows.index
    exact ⟨hindex, hcontainers⟩
  -- an address listed for a chunk stays the index's answer for it, the index only grows
  · obtain ⟨hjoined, hpc, hacc, hlisted⟩ := hs'.returned hret
    have hentries := (hidle.refs hacc).listed (hlisted hrogue')
    rw [hjoined.entries hpc, hfile] at hentries
    have heq : List.Forall₂ (· = ·) (s.conn.written.map some) ((fileChunks env arg.file).map
        fun x => τ.shared.isChunkStored (convertArrayHashToString (env.generateHash x))) := by
      rw [List.forall₂_map_left_iff, List.forall₂_map_right_iff]
      exact hentries.imp fun a x h => (hgrows.index _ a h).symm
    rwa [List.forall₂_eq_eq_eq] at heq
  · obtain ⟨hjoined, -, hacc, -⟩ := hs'.returned hret
    have hreach : Reaches (sessions env) anyStep State.init τ :=
      (hσ.tail ⟨_, hjoin, trivial⟩).trans hrun
    exact (State.recipesKept_init env).reaches (State.inPhase_init env) hreach hapart i s hs hacc _
      (by rw [Conn.recipeFile, hjoined.recipeWriter])

/-- A file of one byte is uploaded twice, under different names: the second upload has stored nothing,
and its recipe is the address of the chunk. -/
theorem known_file_not_stored_sample :
    ∃ (τ : State) (s : Session) (a : ChunkAddr), τ.locals 1 = some s ∧ s.Returned ∧
      s.client.fileName = [66] ∧ s.conn.upload.containerQueue.queue = [] ∧
      τ.shared.isChunkStored (convertArrayHashToString (Sample.env.generateHash [7])) = some a ∧
      s.conn.written = [a] := by
  let key := convertArrayHashToString (Sample.env.generateHash [7])
  have hrun : (State.init.exec Sample.env (Sample.session 0 (Sample.upload 1 [65] [7])
      (Sample.sending ++ Sample.saving 1))).any (fun σ =>
        decide (σ.shared.isChunkStored key ≠ none) &&
        (σ.exec Sample.env (Sample.session 1 (Sample.upload 1 [66] [7])
          (Sample.sending ++ Sample.saving 0))).any fun τ =>
            (τ.locals 1).any (fun s => decide (s.Returned ∧ s.Closed ∧
              s.client.fileName = [66]))) = true := by
    decide +kernel
  obtain ⟨σ, hσ, hrun⟩ := (Option.any_eq_true _ _).mp hrun
  obtain ⟨hstored, hrun⟩ := (Bool.and_eq_true _ _).mp hrun
  obtain ⟨τ, hτ, hrun⟩ := (Option.any_eq_true _ _).mp hrun
  obtain ⟨t, ht, hrun⟩ := (Option.any_eq_true _ _).mp hrun
  obtain ⟨hret, hclosed, hname⟩ := of_decide_eq_true hrun
  have hcompletes := Completes.of_exec hτ ⟨t, ht, hclosed⟩
  have hknown : Known Sample.env σ.shared.allChunks (Sample.upload 1 [66] [7]).file := by
    intro x hx
    rw [show (Sample.upload 1 [66] [7]).file = [7] from rfl, Sample.fileChunks_seven, List.mem_singleton] at hx
    subst hx
    exact Option.ne_none_iff_exists'.mp (of_decide_eq_true hstored)
  obtain ⟨s, hs, -, hqueue, -, hwritten, -⟩ := known_file_not_stored
    (State.reaches_exec_of (fun _ _ _ _ => trivial) hσ) hcompletes.fresh rfl rfl hknown
    (hcompletes.run.mono fun _ _ _ _ => trivial)
  obtain rfl := Option.some.inj (ht.symm.trans hs)
  have hlist := hwritten hret
  rw [show (Sample.upload 1 [66] [7]).file = [7] from rfl, Sample.fileChunks_seven] at hlist
  obtain ⟨a, hw, ha⟩ := List.map_eq_singleton_iff.mp hlist
  exact ⟨τ, t, a, ht, hret, hname, hqueue, ha.symm, hw⟩

end DedupServer
