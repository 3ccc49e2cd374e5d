import DedupServer.Alone.Sequential
import DedupServer.Foundations.Accounting
import DedupServer.Store.Bytes

/-! # What a lone upload adds to the containers

The bytes a lone upload adds are those of the chunks recorded batch by batch
(`Foundations.recorded`): of each batch the chunks that have come neither in an earlier file nor in
an earlier batch of this one (`Session.Counted`, `Completes.counted`). -/

namespace DedupServer

open Foundations

variable {env : Env} {S : Set Bytes} {seen : List Bytes} {base i : ℕ} {s s' : Session}
  {sv sv' : Server} {done : List (List Bytes)} {P : Pool} {arg : Arg} {σ τ : State}

/-- **How far an upload has got**: the chunks of the batches in `done` have been handled, when there
were `base` bytes in the containers and the chunks in `seen` were in the index before. -/
structure Session.Counted (env : Env) (S : Set Bytes) (seen : List Bytes) (base : ℕ) (sv : Server)
    (s : Session) (done : List (List Bytes)) : Prop where
  batches : done <+: fileBatches env s.client.file
  entries : s.conn.entries.length = done.flatten.length
  bytes : sv.containerBytes + s.conn.liveBytes
    = base + ((recorded seen done).map List.length).sum
  index : ∀ x ∈ S, (sv.isChunkStored (convertArrayHashToString (env.generateHash x))).isSome ↔
    x ∈ seen ++ done.flatten
  asked : s.conn.pc = .body → s.conn.hashList = [] ∨ ∃ batch,
    done ++ [batch] <+: fileBatches env s.client.file ∧
    s.conn.hashList = batch.map env.generateHash ∧
    s.conn.answers = batch.map fun x => if x ∈ seen ++ done.flatten then 0 else 1

/-- Batches that are not empty are determined by what they contain. -/
theorem eq_of_flatten_eq {before before' : List (List Bytes)} {bs : List (List Bytes)}
    (hne : ∀ b ∈ bs, b ≠ []) (h : before <+: bs) (h' : before' <+: bs)
    (heq : before.flatten = before'.flatten) : before = before' := by
  have hkey : ∀ {xs ys : List (List Bytes)}, xs <+: ys → ys <+: bs → xs.flatten = ys.flatten →
      xs = ys := by
    intro xs ys hxs hys hflat
    obtain ⟨rest, rfl⟩ := hxs
    rw [List.flatten_append, eq_comm, List.append_right_eq_self, List.flatten_eq_nil_iff] at hflat
    cases rest with
    | nil => simp
    | cons b rest =>
      have hb := hflat b List.mem_cons_self
      exact absurd hb (hne b (hys.subset (by simp)))
  rcases List.prefix_or_prefix_of_prefix h h' with hpre | hpre
  · exact hkey hpre h' heq
  · exact (hkey hpre h heq.symm).symm

namespace Session.Counted

/-- Steps that add nothing. -/
theorem of_eq (h : s.Counted env S seen base sv done) (hfile : s'.client.file = s.client.file)
    (hbytes : sv'.containerBytes + s'.conn.liveBytes = sv.containerBytes + s.conn.liveBytes)
    (hindex : sv'.allChunks = sv.allChunks) (hentries : s'.conn.entries = s.conn.entries)
    (hasked : s'.conn.pc = .body → s'.conn.hashList = [] ∨ (s.conn.pc = .body ∧
      s'.conn.hashList = s.conn.hashList ∧ s'.conn.answers = s.conn.answers)) :
    s'.Counted env S seen base sv' done := by
  refine ⟨hfile ▸ h.batches, by rw [hentries, h.entries], by rw [hbytes, h.bytes], ?_, ?_⟩
  · intro x hx
    rw [Server.isChunkStored, hindex]
    exact h.index x hx
  · intro hpc
    rcases hasked hpc with hnil | ⟨hpc', hhash, hanswers⟩
    · exact .inl hnil
    · rw [hhash, hanswers, hfile]
      exact h.asked hpc'

/-- The connection alone moves, and keeps its containers. -/
theorem of_live (h : s.Counted env S seen base sv done) {c : Conn} {rest reply : List Msg}
    (hlive : c.live = s.conn.live) (hentries : c.entries = s.conn.entries) (hpc : c.pc ≠ .body) :
    (s.serverMoved rest c reply).Counted env S seen base sv done := by
  refine h.of_eq rfl ?_ rfl hentries fun hbody => absurd hbody hpc
  rw [Conn.liveBytes, Conn.liveBytes, Session.serverMoved, hlive]

/-- **What the next message is about**: when it arrives, the pending batch is handled. -/
theorem advance (h : s.Counted env S seen base sv done) (hpc : s.conn.pc = .body)
    {stored pending batch rest uniq next : List Bytes}
    (hsends : s.Sends env stored pending batch rest uniq next) :
    ∃ done', done' <+: fileBatches env s.client.file ∧ done'.flatten = stored ++ pending ∧
      done.flatten = stored ∧
      recorded seen done' = recorded seen done ++ pending.filter (· ∉ seen ++ stored) ∧
      s.conn.answers = pending.map fun x => if x ∈ seen ++ stored then 0 else 1 := by
  have hchunks : stored ++ (pending ++ (batch ++ rest)) = (fileBatches env s.client.file).flatten := by
    rw [flatten_fileBatches, hsends.splits.chunks, List.append_assoc]
  -- the chunks with a recipe entry are those of the batches handled
  have hdone : done.flatten = stored := by
    obtain ⟨more, hmore⟩ := h.batches
    rw [← hmore, List.flatten_append] at hchunks
    have hlen : done.flatten.length = stored.length := by
      rw [← h.entries, hsends.splits.entries]
    exact (List.append_inj hchunks.symm hlen).1
  have hlen : s.conn.hashList.length = pending.length := by
    rw [hsends.splits.hashList, List.length_map]
  rcases h.asked hpc with hnil | ⟨p, hprefix, hhash, hanswers⟩
  · -- the first message
    obtain rfl : pending = [] := by
      rw [hnil] at hlen
      exact List.length_eq_zero_iff.mp hlen.symm
    refine ⟨done, h.batches, by rw [hdone, List.append_nil], hdone, by simp, ?_⟩
    simp [Conn.answers, hnil]
  · -- a batch has been asked about
    obtain rfl : p = pending := by
      obtain ⟨more, hmore⟩ := hprefix
      rw [← hmore, List.flatten_append, List.flatten_append, hdone] at hchunks
      have htail : pending ++ (batch ++ rest) = p ++ more.flatten := by simpa using hchunks
      have hlen' : pending.length = p.length := by
        rw [← hlen, hhash, List.length_map]
      exact (List.append_inj htail hlen').1.symm
    refine ⟨done ++ [p], hprefix, by simp [hdone], hdone, ?_, ?_⟩
    · rw [recorded_concat, hdone]
      congr 1
      apply List.filter_congr
      simp
    · rw [hanswers, hdone]

/-- The chunks that were asked for are the new ones. -/
theorem uniq_eq_filter {stored pending batch rest uniq next : List Bytes}
    (hsends : s.Sends env stored pending batch rest uniq next)
    (hanswers : s.conn.answers = pending.map fun x => if x ∈ seen ++ stored then 0 else 1) :
    uniq = pending.filter (· ∉ seen ++ stored) := by
  rw [hsends.uniq, hanswers, List.zip_map_left, List.zip_eq_zipWith, List.zipWith_self, List.map_map]
  refine (picks_map_self 1 (fun x => if x ∈ seen ++ stored then (0 : UInt8) else 1) pending).trans ?_
  apply List.filter_congr
  intro x _
  by_cases hx : x ∈ seen ++ stored <;> simp [hx]

/-- **The index after a message**: the chunks pending are in it, too. -/
theorem index_run (h : s.Counted env S seen base sv done) (hupl : s.Uploading env) {msg : DataMsg}
    {stored pending batch rest uniq next : List Bytes}
    (hsends : s.Sends env stored pending batch rest uniq next) (hdone : done.flatten = stored)
    (huniq : uniq = pending.filter (· ∉ seen ++ stored)) (hcf : env.CollisionFreeOn S)
    (hpending : ∀ x ∈ pending, x ∈ S) {st : StoreLoop}
    (hrun : StoreLoop.run env msg ⟨sv, s.conn.upload, none, 0⟩ s.conn.queries = some st) {x : Bytes}
    (hx : x ∈ S) :
    (st.server.isChunkStored (convertArrayHashToString (env.generateHash x))).isSome ↔
      x ∈ seen ++ (stored ++ pending) := by
  -- only answers `1` put something into the index, and those are for the new chunks
  have hpicks : picks 1 s.conn.queries = uniq.map env.generateHash := by
    rw [hsends.uniq, ← picks_zip_map, ← hsends.splits.hashList]
    rfl
  rw [StoreLoop.isSome_run s.conn.queries hupl.asked.answer hrun, h.index x hx, hdone, hpicks, huniq]
  constructor
  · rintro (hold | ⟨hash, hhash, hkey⟩)
    · exact List.append_assoc seen stored pending ▸ List.mem_append_left _ hold
    · obtain ⟨y, hy, rfl⟩ := List.mem_map.mp hhash
      have hy' : y ∈ pending := (List.mem_filter.mp hy).1
      -- the index is keyed by the text of the hash, so equal keys are equal chunks of `S`
      have hsame := convertArrayHashToString_injective (env.length_generateHash y)
        (env.length_generateHash x) hkey
      obtain rfl := hcf (hpending y hy') hx hsame
      simp [hy']
  · intro hnew
    -- a pending chunk that is not new has been in the index before
    by_cases hold : x ∈ seen ++ stored
    · exact .inl hold
    · refine .inr ⟨_, List.mem_map_of_mem (List.mem_filter.mpr ⟨?_, by simpa using hold⟩), rfl⟩
      rw [← List.append_assoc] at hnew
      exact (List.mem_append.mp hnew).resolve_left hold

/-- **One `UPLOADBODY` message.** -/
theorem body (h : s.Counted env S seen base sv done) (hpc : s.conn.pc = .body)
    (hupl : s.Uploading env) (hbuffer : P.Backs i s.conn.upload.containerBuffer) {msg : DataMsg}
    {rest' : List Msg} {stored pending batch rest uniq next : List Bytes}
    (hfits : s.conn.Fits msg uniq next) (hsends : s.Sends env stored pending batch rest uniq next)
    (hcf : env.CollisionFreeOn S) (hS : ∀ x ∈ fileChunks env s.client.file, x ∈ S) {st : StoreLoop}
    (hrun : StoreLoop.run env msg ⟨sv, s.conn.upload, none, 0⟩ s.conn.queries = some st) :
    ∃ done', (s.serverMoved rest' (s.conn.answerQuery msg st)
      (s.conn.answerQuery msg st).bodyReply).Counted env S seen base st.server done' := by
  obtain ⟨done', hprefix, hflatten, hdone, hrecorded, hanswers⟩ := h.advance hpc hsends
  obtain ⟨st', new, hrun', hext, hlen, -⟩ := Conn.exists_receiveBody env sv hupl.asked hfits
  obtain rfl := Option.some.inj (hrun.symm.trans hrun')
  have hmem : ∀ x ∈ stored ++ pending ++ (batch ++ rest), x ∈ S := by
    rw [← hsends.splits.chunks]
    exact hS
  have huniq := uniq_eq_filter hsends hanswers
  have hindex : ∀ x ∈ S,
      (st.server.isChunkStored (convertArrayHashToString (env.generateHash x))).isSome ↔
        x ∈ seen ++ done'.flatten := by
    intro x hx
    rw [hflatten]
    exact h.index_run hupl hsends hdone huniq hcf (fun y hy => hmem y (by simp [hy])) hrun hx
  refine ⟨done', hprefix, ?_, ?_, hindex, fun _ => ?_⟩
  · -- one entry for each pending chunk
    simp only [Session.serverMoved]
    rw [Conn.entries_answerQuery hpc hext, List.length_append, hlen, hflatten, List.length_append,
      hsends.splits.entries, hsends.splits.hashList, List.length_map]
  · have hcontainers : st.server.containerBytes = sv.containerBytes := by
      rw [Server.containerBytes, hext.containers]
      rfl
    have hold := h.bytes
    simp only [Session.serverMoved]
    rw [hrecorded, ← huniq, List.map_append, List.sum_append, hcontainers,
      Conn.liveBytes_answerQuery hpc hupl.asked hbuffer hfits hrun]
    omega
  · -- the batch the message asks about
    have hhash : (s.conn.answerQuery msg st).hashList = batch.map env.generateHash := by
      rw [Conn.answerQuery_hashList, hfits.queriedHashes, hsends.next]
    simp only [Session.serverMoved]
    rcases hsends.aligned with rfl | ⟨before, after, hbatches, hbefore⟩
    · exact .inl hhash
    · obtain rfl : before = done' := by
        refine eq_of_flatten_eq (fun b hb => ne_nil_of_mem_fileBatches hb) ?_ hprefix
          (hbefore.trans hflatten.symm)
        exact ⟨_, hbatches.symm⟩
      refine .inr ⟨batch, ?_, hhash, ?_⟩
      · exact ⟨after, by rw [hbatches, List.append_assoc]; rfl⟩
      · rw [Conn.answers_answerQuery hfits, hsends.next, List.map_map]
        apply List.map_congr_left
        intro x hx
        have hx' := hindex x (hmem x (by simp [hx]))
        simp only [Function.comp_apply, Conn.queryAnswer]
        by_cases hold : x ∈ seen ++ before.flatten
        · rw [if_pos (hx'.mpr hold), if_pos hold]
        · rw [if_neg (fun h => hold (hx'.mp h)), if_neg hold]

/-- **A step of the serving thread.** -/
theorem served (h : s.Counted env S seen base sv done) (hserved : Served env sv s sv' s')
    (hbuffer : P.Backs i s.conn.upload.containerBuffer) (hrogue : s.client.rogue = false)
    (hcf : env.CollisionFreeOn S) (hS : ∀ x ∈ fileChunks env s.client.file, x ∈ S) :
    ∃ done', s'.Counted env S seen base sv' done' := by
  cases hserved with
  | quiet hquiet =>
    refine ⟨done, h.of_live ?_ hquiet.entries (hquiet.after_ne rfl)⟩
    refine Policy.live_of_eq (hquiet.before_ne rfl) (hquiet.after_ne rfl) ?_ ?_
    · rw [hquiet.dataWriter]
    · rw [hquiet.upload]
  | unique hpc =>
    exact ⟨done, h.of_live (Policy.live_of_eq (by simp [hpc]) (by simp) rfl rfl)
      (by simp [Conn.entries, hpc]) (by simp)⟩
  | refuse hpc =>
    exact ⟨done, h.of_live (Policy.live_of_eq (by simp [hpc]) (by simp) rfl rfl)
      (by simp [Conn.entries, hpc]) (by simp)⟩
  | accept hpc =>
    exact ⟨done, h.of_live (Policy.live_of_eq (by simp [hpc]) (by simp) rfl rfl)
      (by simp [Conn.entries, hpc]) (by simp)⟩
  | register hpc hdormant =>
    refine ⟨done, h.of_eq rfl ?_ rfl ?_ fun _ => .inl hdormant.hashList⟩
    · simp [Session.serverMoved, Conn.liveBytes, Conn.live, hpc, hdormant.dataWriter,
        DataWriter.held, Server.containerBytes, Server.addFile]
    · simp [Session.serverMoved, Conn.entries, hpc, hdormant.recipeWriter, RecipeWriter.held]
  | body hpc hup hupl hfits honest hrun =>
    obtain ⟨stored, pending, batch, rest, hsends⟩ := honest hrogue
    exact h.body hpc hupl hbuffer hfits hsends hcf hS hrun
  | fileEnd hpc =>
    refine ⟨done, h.of_eq rfl ?_ rfl (Conn.entries_receiveFileEnd hpc)
      (by simp [Session.serverMoved, Conn.receiveFileEnd])⟩
    rw [Session.serverMoved, Conn.liveBytes_receiveFileEnd hpc]
  | reset hpc hacc hwriting hserves hdata hrecipe =>
    have hjoined : (s.conn.resetUpload env sv).2.Joined := hwriting.resetUpload hdata hrecipe
    refine ⟨done, h.of_eq rfl ?_ rfl ?_ (by simp [Session.serverMoved, Conn.resetUpload])⟩
    · -- nothing is left in memory, before and after
      rw [Session.serverMoved, hwriting.liveBytes hpc hdata, hjoined.liveBytes]
      rfl
    · simp only [Session.serverMoved]
      rw [hjoined.entries (by simp [Conn.resetUpload]), hwriting.entries_eq_written hpc hrecipe]
      rfl

/-- **A step of the session.** -/
theorem moves (h : s.Counted env S seen base sv done) (hphase : Phase env s)
    (hmoves : Moves env sv s sv' s') (howns : Pool.Owns i P sv.containers s.conn.live)
    (hbuffer : P.Backs i s.conn.upload.containerBuffer) (hupl : s.Uploader)
    (hrogue : s.client.rogue = false) (hcf : env.CollisionFreeOn S)
    (hS : ∀ x ∈ fileChunks env s.client.file, x ∈ S) :
    ∃ done', s'.Counted env S seen base sv' done' := by
  have hkept := hmoves.kept
  cases hmoves with
  | client =>
    exact ⟨done, h.of_eq (hkept.file hupl) rfl rfl rfl fun hpc => .inr ⟨hpc, rfl, rfl⟩⟩
  | server hserved => exact h.served hserved hbuffer hrogue hcf hS
  -- the writer moves bytes from memory to the disk, and neither the queries nor the index
  | dataWriter hstep =>
    have halike := Conn.alike_dataWriterStep hstep
    have hasked : ∀ c, s.conn.Alike c → c.pc = .body → c.hashList = [] ∨ (s.conn.pc = .body ∧
        c.hashList = s.conn.hashList ∧ c.answers = s.conn.answers) := fun c ha hpc =>
      .inr ⟨ha.pc ▸ hpc, ha.hashList, Conn.answers_of_eq ha.outData ha.hashList⟩
    refine ⟨done, h.of_eq rfl ?_ ?_ halike.entries (hasked _ halike)⟩
    · exact (Conn.containerBytes_dataWriterStep hstep howns).2
    · obtain ⟨_, _, _, _, rfl, _⟩ | ⟨_, _, _, rfl, _⟩ | ⟨_, _, rfl, _⟩ :=
        Conn.dataWriterStep_cases hstep
      all_goals rfl
  | recipeWriter hstep =>
    have halike := hphase.alike_recipeWriterStep hstep
    -- the recipe writer touches neither containers nor the index
    obtain ⟨_, rfl, rfl⟩ | ⟨_, _, _, _, _, _, rfl, rfl⟩ | ⟨_, _, _, _, _, rfl, rfl⟩ |
      ⟨_, _, _, _, rfl, rfl⟩ := Conn.recipeWriterStep_cases hstep
    all_goals exact ⟨done, h.of_eq rfl rfl rfl halike.entries fun hpc => .inr ⟨hpc, rfl, rfl⟩⟩

end Session.Counted

/-! ## The whole upload -/

/-- **What a lone upload leaves**, accepted or not: the batches in `done` have been handled, and no
container is in memory. -/
theorem Completes.exists_counted (h : Completes env i arg σ τ) {hcf : env.CollisionFreeOn S}
    (hsane : σ.Sane hcf) (hrogue : arg.rogue = false) (hop : arg.op = 117)
    (hS : ∀ x ∈ fileChunks env arg.file, x ∈ S) (hbase : σ.shared.containerBytes = base)
    (hseen : ∀ x ∈ S,
      (σ.shared.isChunkStored (convertArrayHashToString (env.generateHash x))).isSome ↔ x ∈ seen)
    (hfresh : env.FreshUpTo τ.shared.drawn) :
    ∃ s done, τ.locals i = some s ∧ s.client.file = arg.file ∧ s.conn.liveBytes = 0 ∧
      s.Counted env S seen base τ.shared done ∧
      (¬ s.Accepted → s.conn.entries = []) ∧ (s.Accepted → s.Listed env) := by
  obtain ⟨s, hs, hclosed, hsphase, hkept⟩ := h.session hsane.phase
  obtain ⟨hid, hpath, hrogue', hupl, -⟩ := Session.connect_client env σ.shared arg
  have hjoin : Step (sessions env) σ (.spawn i arg) (σ.joined env i arg) := .spawn h.fresh
  have hphase' := hsane.phase.step hjoin
  have hsane' : (σ.joined env i arg).Sane hcf :=
    hsane.step hjoin (honest_spawn hrogue (fun _ => hS) i _ _)
      (hfresh.mono (hphase'.grows h.run).drawn)
  have hsolo : ∀ (υ : State) ℓ υ', soloStep i υ ℓ υ' → honest env S υ ℓ υ' := by
    rintro υ ℓ υ' ⟨a, rfl⟩ j arg' ⟨⟩
  have hrun := (hsane'.carry hsolo h.run hfresh).1
  -- the count is kept by every step of the session
  have hstep : ∀ (υ : State) ℓ υ', (∃ t, υ.locals i = some t ∧
      (Session.connect env σ.shared arg).2.Kept t ∧
      ∃ done, t.Counted env S seen base υ.shared done) → Step (sessions env) υ ℓ υ' →
      soloStep i υ ℓ υ' ∧ State.Sane hcf υ ∧ State.Sane hcf υ' →
      ∃ t, υ'.locals i = some t ∧ (Session.connect env σ.shared arg).2.Kept t ∧
        ∃ done, t.Counted env S seen base υ'.shared done := by
    rintro υ ℓ υ' ⟨t, ht, hkept, done, hcounted⟩ hstep ⟨⟨a, rfl⟩, hsaneυ, -⟩
    cases hstep with
    | act hl hact =>
      obtain rfl := Option.some.inj (ht.symm.trans hl)
      obtain ⟨P, hinv⟩ := hsaneυ.inv
      have hphase := hsaneυ.phase _ _ hl
      have hmoves := (hphase.act hact).2
      have hfile : ∀ x ∈ fileChunks env t.client.file, x ∈ S := by
        rw [hkept.file (hupl hop).1, (hupl hop).2]
        exact hS
      exact ⟨_, Config.moved_locals_self _ _ _ _, hkept.trans hmoves.kept,
        hcounted.moves hphase hmoves (hinv.loc _ _ hl).owns (hinv.loc _ _ hl).buffer
          (hkept.uploader.mpr (hupl hop).1) ((hkept.rogue.trans hrogue').trans hrogue) hcf hfile⟩
  have hfirst : (Session.connect env σ.shared arg).2.Counted env S seen base
      (σ.joined env i arg).shared [] := by
    refine ⟨List.nil_prefix, rfl, ?_, ?_, by simp [Session.connect, Conn.init]⟩
    · rw [← hbase]
      rfl
    · intro x hx
      rw [List.flatten_nil, List.append_nil]
      exact hseen x hx
  obtain ⟨t, ht, -, done, hcounted⟩ := hrun.invariant hstep
    ⟨_, Config.moved_locals_self _ _ _ _, .refl _, [], hfirst⟩
  obtain rfl := Option.some.inj (hs.symm.trans ht)
  refine ⟨s, done, hs, (hkept.file (hupl hop).1).trans (hupl hop).2, ?_, hcounted, ?_, ?_⟩
  · -- the only container in memory is empty
    rcases (hsphase.over hclosed).2 with ⟨hdormant, -⟩ | ⟨hjoined, -⟩
    · exact hdormant.liveBytes
    · exact hjoined.liveBytes
  · intro hnot
    rcases (hsphase.over hclosed).2 with ⟨hdormant, -⟩ | ⟨-, hacc, -⟩
    · simp [Conn.entries, hdormant.written, hdormant.recipeWriter, RecipeWriter.held,
        hdormant.recipeQueue, hdormant.recipeBuffer, BlockQueue.empty]
    · exact absurd hacc hnot
  · intro hacc
    rcases (hsphase.over hclosed).2 with ⟨-, hnot⟩ | ⟨-, -, hlisted⟩
    · exact absurd hacc hnot
    · exact hlisted ((hkept.rogue.trans hrogue').trans hrogue)

/-- **What an accepted upload leaves**: the bytes of the chunks recorded, and all chunks in the
index. -/
theorem Completes.counted (h : Completes env i arg σ τ) {hcf : env.CollisionFreeOn S}
    (hsane : σ.Sane hcf) (hrogue : arg.rogue = false) (hop : arg.op = 117)
    (hnew : (arg.client_id, getFileName arg.file_path) ∉ σ.shared.files)
    (hS : ∀ x ∈ fileChunks env arg.file, x ∈ S) (hbase : σ.shared.containerBytes = base)
    (hseen : ∀ x ∈ S,
      (σ.shared.isChunkStored (convertArrayHashToString (env.generateHash x))).isSome ↔ x ∈ seen)
    (hfresh : env.FreshUpTo τ.shared.drawn) :
    τ.shared.containerBytes
      = base + ((recorded seen (fileBatches env arg.file)).map List.length).sum ∧
    ∀ x ∈ S, (τ.shared.isChunkStored (convertArrayHashToString (env.generateHash x))).isSome ↔
      x ∈ seen ++ fileChunks env arg.file := by
  obtain ⟨s, done, hs, hfile, hlive, hcounted, -, hlisted⟩ :=
    h.exists_counted hsane hrogue hop hS hbase hseen hfresh
  have hall := hlisted (h.accepted hsane.phase hop hnew hs)
  -- all batches have been handled
  obtain rfl : done = fileBatches env arg.file := by
    rw [← hfile]
    apply eq_of_flatten_eq (fun b hb => ne_nil_of_mem_fileBatches hb) hcounted.batches
      List.prefix_rfl
    obtain ⟨more, hmore⟩ := hcounted.batches
    have hlen := congrArg (fun bs => bs.flatten.length) hmore
    simp only [List.flatten_append, List.length_append, flatten_fileBatches] at hlen
    rw [Session.Listed, hcounted.entries] at hall
    have hnil : more.flatten = [] := List.length_eq_zero_iff.mp (by omega)
    rw [← hmore, List.flatten_append, hnil, List.append_nil]
  have hbytes := hcounted.bytes
  rw [hlive, Nat.add_zero] at hbytes
  refine ⟨hbytes, fun x hx => ?_⟩
  rw [hcounted.index x hx, flatten_fileBatches]

/-- **What a refused upload leaves**: nothing. -/
theorem Completes.counted_refused (h : Completes env i arg σ τ) {hcf : env.CollisionFreeOn S}
    (hsane : σ.Sane hcf) (hrogue : arg.rogue = false) (hop : arg.op = 117)
    (hfile : (arg.client_id, getFileName arg.file_path) ∈ σ.shared.files)
    (hS : ∀ x ∈ fileChunks env arg.file, x ∈ S) (hbase : σ.shared.containerBytes = base)
    (hseen : ∀ x ∈ S,
      (σ.shared.isChunkStored (convertArrayHashToString (env.generateHash x))).isSome ↔ x ∈ seen)
    (hfresh : env.FreshUpTo τ.shared.drawn) :
    τ.shared.containerBytes = base ∧
    ∀ x ∈ S, (τ.shared.isChunkStored (convertArrayHashToString (env.generateHash x))).isSome ↔
      x ∈ seen := by
  obtain ⟨s, done, hs, -, hlive, hcounted, hempty, -⟩ :=
    h.exists_counted hsane hrogue hop hS hbase hseen hfresh
  obtain rfl : done = [] := by
    have hlen := hcounted.entries
    rw [hempty (h.refused hsane.phase hfile hs), List.length_nil] at hlen
    cases done with
    | nil => rfl
    | cons b done =>
      refine absurd ?_ (ne_nil_of_mem_fileBatches (hcounted.batches.subset List.mem_cons_self))
      exact List.flatten_eq_nil_iff.mp (List.length_eq_zero_iff.mp hlen.symm) b List.mem_cons_self
  have hbytes := hcounted.bytes
  rw [hlive, Nat.add_zero, recorded_nil, List.map_nil, List.sum_nil, Nat.add_zero] at hbytes
  refine ⟨hbytes, fun x hx => ?_⟩
  rw [hcounted.index x hx, List.flatten_nil, List.append_nil]

end DedupServer
