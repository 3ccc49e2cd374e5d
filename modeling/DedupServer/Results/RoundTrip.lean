import DedupServer.Alone.Sequential

/-! # Upload and download

What a client uploads while it is alone, a client can download (`RoundTrips`): always, when all
sessions before have run one at a time and to their end (`upload_download_identity`); after sessions
that have stopped somewhere, when the containers the index refers to for chunks of the file have
been saved (`upload_after_abort`); and after sessions of rogues, when moreover the extents in these
containers are the chunks (`upload_after_rogue`). -/

namespace DedupServer

open Foundations

variable {env : Env} {S X : Set Bytes} {hcf : env.CollisionFreeOn S} {i : ℕ} {arg : Arg}
  {σ τ : State} {s : Session}

/-- **The file of `arg` can be uploaded and downloaded** from the state `σ` on, with no other session
in between: the upload reaches its end, and whenever it does, so does a download under the same
client id and file name, and whenever that does, the file it has written is the file uploaded. -/
def RoundTrips (env : Env) (σ : State) (arg : Arg) : Prop :=
  ∀ i, σ.locals i = none → (∃ τ, Completes env i arg σ τ) ∧
    ∀ τ, Completes env i arg σ τ → env.FreshUpTo τ.shared.drawn →
      ∀ j arg', arg'.op = 100 → arg'.rogue = false → arg'.client_id = arg.client_id →
        getFileName arg'.file_path = getFileName arg.file_path → τ.locals j = none →
          (∃ υ, Completes env j arg' τ υ) ∧
            ∀ υ, Completes env j arg' τ υ → ∃ s, υ.locals j = some s ∧ s.client.file = arg.file

/-- **Whatever has happened before**, a file whose chunks are kept makes the round trip. -/
theorem roundTrips_of_keeps {ok : Condition} (hσ : Reaches (sessions env) ok State.init σ)
    (hrogue : arg.rogue = false) (hop : arg.op = 117)
    (hnew : (arg.client_id, getFileName arg.file_path) ∉ σ.shared.files)
    (hcf : env.CollisionFreeOn {x | x ∈ fileChunks env arg.file})
    (hkeeps : env.FreshUpTo σ.shared.drawn →
      σ.shared.Keeps env {x | x ∈ fileChunks env arg.file}) : RoundTrips env σ arg := by
  have hphase := (State.inPhase_init env).reaches hσ
  intro i hi
  refine ⟨hphase.exists_completes hi hrogue, ?_⟩
  intro τ hτ hfresh j arg' hop' hrogue' hid hname hj
  have hfresh' := hfresh.mono (hphase.grows hτ.reaches).drawn
  obtain ⟨P, hlax⟩ := State.exists_lax hσ hfresh'
  have hreg := State.registered_init.reaches (State.inPhase_init env) hσ
  have hfile := hτ.upload hphase hlax hreg hrogue hop hnew hcf (hkeeps hfresh') hfresh
  rw [← hid, ← hname] at hfile
  have hphase' := hphase.reaches hτ.reaches
  exact ⟨hphase'.exists_completes hj hrogue', fun υ hυ => hυ.downloaded hphase' hrogue' hop' hfile⟩

/-! ## One session at a time -/

/-- **Upload and download is the identity.** After any sequence of sessions that ran one at a time and
to their ends, any file can be uploaded under a name that is not registered, and a download then
writes the same bytes. -/
theorem upload_download_identity (hcf : env.CollisionFreeOn S) (hσ : Sequential env S σ)
    (hrogue : arg.rogue = false) (hop : arg.op = 117) (hknown : ∀ x ∈ fileChunks env arg.file, x ∈ S)
    (hnew : (arg.client_id, getFileName arg.file_path) ∉ σ.shared.files) :
    RoundTrips env σ arg := by
  refine roundTrips_of_keeps hσ.reaches hrogue hop hnew (hcf.mono hknown) fun hfresh => ?_
  have hsane := ((State.sane_init hcf).carry (fun _ _ _ h => h) hσ.reaches hfresh).2
  exact hsane.keeps hknown fun x _ a ha =>
    hsane.mem_containers (fun i s hi => hσ.closed hi) ha

/-- A file of three chunks, two of which are equal and one of which is on the server already. -/
theorem upload_download_identity_sample : ∃ σ : State, σ.shared.files = [(1, [65])] ∧
    σ.shared.isChunkStored (convertArrayHashToString (Sample.env.generateHash [7])) ≠ none ∧
      RoundTrips Sample.env σ (Sample.upload 1 [66] Sample.ragged) := by
  have hrun : (State.init.exec Sample.env (Sample.session 0 (Sample.upload 1 [65] [7])
      (Sample.sending ++ Sample.saving 1))).any (fun σ => ((σ.locals 0).any fun s => decide s.Closed) &&
        decide (σ.shared.files = [(1, [65])] ∧ σ.shared.isChunkStored
          (convertArrayHashToString (Sample.env.generateHash [7])) ≠ none)) = true := by
    decide +kernel
  obtain ⟨σ, hσ, hrun⟩ := (Option.any_eq_true _ _).mp hrun
  obtain ⟨hclosed, hrun⟩ := (Bool.and_eq_true _ _).mp hrun
  obtain ⟨s, hs, hclosed⟩ := (Option.any_eq_true _ _).mp hclosed
  obtain ⟨hfiles, hstored⟩ := of_decide_eq_true hrun
  have hcf : Sample.env.CollisionFreeOn {[7], Sample.block} :=
    Sample.collisionFreeOn_pair (by decide +kernel)
  have hblock : Sample.block.length = CHUNKSIZE := List.length_replicate
  have hchunks : ∀ x ∈ fileChunks Sample.env Sample.ragged, x ∈ ({[7], Sample.block} : Set Bytes) := by
    rw [Sample.ragged, fileChunks_append _ hblock, fileChunks_append _ hblock, Sample.fileChunks_seven]
    simp
  have hsequential : Sequential Sample.env {[7], Sample.block} σ :=
    .session .init (Completes.of_exec hσ ⟨s, hs, of_decide_eq_true hclosed⟩) rfl
      fun _ => Sample.mem_of_mem_fileChunks_seven (.inl rfl)
  refine ⟨σ, hfiles, hstored, upload_download_identity hcf hsequential rfl rfl hchunks ?_⟩
  rw [hfiles]
  decide

/-! ## After sessions that stopped -/

/-- **Sessions that stopped do no damage when what they have published is on disk.** After any run of
honest clients, whose sessions may have stopped anywhere, an upload makes the round trip if the
containers the index refers to for its chunks are on disk when it starts. -/
theorem upload_after_abort (hcf : env.CollisionFreeOn S)
    (hσ : Reaches (sessions env) (honest env S) State.init σ) (hrogue : arg.rogue = false)
    (hop : arg.op = 117) (hknown : ∀ x ∈ fileChunks env arg.file, x ∈ S)
    (hnew : (arg.client_id, getFileName arg.file_path) ∉ σ.shared.files)
    (hdisk : ∀ x ∈ fileChunks env arg.file, ∀ a,
      σ.shared.allChunks (convertArrayHashToString (env.generateHash x)) = some a →
        a.containerID ∈ σ.shared.containers) : RoundTrips env σ arg := by
  refine roundTrips_of_keeps hσ hrogue hop hnew (hcf.mono hknown) fun hfresh => ?_
  exact ((State.sane_init hcf).carry (fun _ _ _ h => h) hσ hfresh).2.keeps hknown hdisk

/-- One client has uploaded a file, another one has lost its connection after the server has stored its
chunk, whose container is never saved. The first chunk can be uploaded again under another name. -/
theorem upload_after_abort_sample : ∃ (σ : State) (a b : ChunkAddr),
    σ.shared.isChunkStored (convertArrayHashToString (Sample.env.generateHash [7])) = some a ∧
      a.containerID ∈ σ.shared.containers ∧
      σ.shared.isChunkStored (convertArrayHashToString (Sample.env.generateHash [8])) = some b ∧
      b.containerID ∉ σ.shared.containers ∧ (∃ s, σ.locals 1 = some s ∧ ¬ s.Closed) ∧
      RoundTrips Sample.env σ (Sample.upload 1 [67] [7]) := by
  let steps := Sample.session 0 (Sample.upload 1 [65] [7]) (Sample.sending ++ Sample.saving 1) ++
    Sample.session 1 (Sample.upload 1 [66] [8]) (Sample.sending.take 9)
  have hrun : (State.init.exec Sample.env steps).any (fun σ => decide ((1, [67]) ∉ σ.shared.files) &&
      ((σ.locals 1).any fun s => decide (¬ s.Closed)) &&
      (σ.shared.isChunkStored (convertArrayHashToString (Sample.env.generateHash [7]))).any fun a =>
        (σ.shared.isChunkStored (convertArrayHashToString (Sample.env.generateHash [8]))).any fun b =>
          decide (a.containerID ∈ σ.shared.containers ∧ b.containerID ∉ σ.shared.containers)) = true := by
    decide +kernel
  obtain ⟨σ, hexec, hrun⟩ := (Option.any_eq_true _ _).mp hrun
  simp only [Bool.and_eq_true, decide_eq_true_eq] at hrun
  obtain ⟨⟨hnew, hstopped⟩, hrun⟩ := hrun
  obtain ⟨a, ha, hrun⟩ := (Option.any_eq_true _ _).mp hrun
  obtain ⟨b, hb, hrun⟩ := (Option.any_eq_true _ _).mp hrun
  obtain ⟨s, hs, hopen⟩ := (Option.any_eq_true _ _).mp hstopped
  obtain ⟨hdisk, hmissing⟩ := of_decide_eq_true hrun
  have hcf : Sample.env.CollisionFreeOn {[7], [8]} := Sample.collisionFreeOn_pair (by decide)
  have hseven : ∀ x ∈ fileChunks Sample.env [7], x ∈ ({[7], [8]} : Set Bytes) :=
    Sample.mem_of_mem_fileChunks_seven (.inl rfl)
  have height : ∀ x ∈ fileChunks Sample.env [8], x ∈ ({[7], [8]} : Set Bytes) := by
    rw [Sample.fileChunks_eight]
    simp
  have hreach : Reaches (sessions Sample.env) (honest Sample.env {[7], [8]}) State.init σ := by
    refine State.reaches_exec_of (fun υ τ ℓ hℓ => ?_) hexec
    rcases List.mem_append.mp hℓ with hℓ | hℓ
    · exact honest_session rfl (fun _ => hseven) hℓ υ τ
    · exact honest_session rfl (fun _ => height) hℓ υ τ
  refine ⟨σ, a, b, ha, hdisk, hb, hmissing, ⟨s, hs, of_decide_eq_true hopen⟩,
    upload_after_abort hcf hreach rfl rfl hseven hnew fun x hx c hc => ?_⟩
  rw [show (Sample.upload 1 [67] [7]).file = [7] from rfl, Sample.fileChunks_seven,
    List.mem_singleton] at hx
  subst hx
  rwa [← Option.some.inj (ha.symm.trans hc)]

/-- A round trip that is computed, of the sessions `i` and `j`, gives another file. -/
def spoiled (env : Env) (σ : State) (i : ℕ) (arg : Arg) (steps : List Act) (j : ℕ) (arg' : Arg)
    (steps' : List Act) : Bool :=
  (σ.exec env (Sample.session i arg steps)).any fun τ =>
    decide (∀ k ≤ τ.shared.drawn, ∀ l ≤ τ.shared.drawn, env.uuid k = env.uuid l → k = l) &&
      (τ.locals i).any (fun t => decide t.Closed) &&
      (τ.exec env (Sample.session j arg' steps')).any fun υ => (υ.locals j).any fun t =>
        decide (t.Closed ∧ t.client.file ≠ arg.file)

/-- **Computing a round trip that goes wrong** shows that there is one. -/
theorem not_roundTrips_of_spoiled {steps steps' : List Act} {arg' : Arg} {j : ℕ}
    (h : spoiled env σ i arg steps j arg' steps' = true) (hop : arg'.op = 100)
    (hrogue : arg'.rogue = false) (hid : arg'.client_id = arg.client_id)
    (hname : getFileName arg'.file_path = getFileName arg.file_path) (hij : j ≠ i)
    (hj : σ.locals j = none) : ¬ RoundTrips env σ arg := by
  intro hround
  obtain ⟨τ, hτ, h⟩ := (Option.any_eq_true _ _).mp h
  simp only [Bool.and_eq_true, decide_eq_true_eq] at h
  obtain ⟨⟨hfresh, h⟩, h'⟩ := h
  obtain ⟨t, ht, hclosed⟩ := (Option.any_eq_true _ _).mp h
  obtain ⟨υ, hυ, h'⟩ := (Option.any_eq_true _ _).mp h'
  obtain ⟨u, hu, h'⟩ := (Option.any_eq_true _ _).mp h'
  obtain ⟨hclosed', hfile⟩ := of_decide_eq_true h'
  have hcompletes := Completes.of_exec hτ ⟨t, ht, of_decide_eq_true hclosed⟩
  have hj' : τ.locals j = none := (hcompletes.others hij).trans hj
  obtain ⟨u', hu', hfile'⟩ := ((hround i hcompletes.fresh).2 τ hcompletes
    (fun k hk l hl => hfresh k (le_of_lt hk) l (le_of_lt hl)) j arg' hop hrogue hid hname hj').2 υ
    (Completes.of_exec hυ ⟨u, hu, hclosed'⟩)
  obtain rfl := Option.some.inj (hu.symm.trans hu')
  exact hfile hfile'

/-- **An upload that stops damages a later file.** A session has published the address of a chunk and
stops before the container is saved; another upload of the chunk refers to that container for
ever. -/
theorem upload_after_abort_damaged :
    ∃ σ : State, Reaches (sessions Sample.env) (lone 0 (Sample.upload 1 [65] [7])) State.init σ ∧
      Sample.env.CollisionFreeOn {[7]} ∧ (1, [66]) ∉ σ.shared.files ∧
      ¬ RoundTrips Sample.env σ (Sample.upload 1 [66] [7]) := by
  have hrun : (State.init.exec Sample.env (Sample.session 0 (Sample.upload 1 [65] [7])
      (Sample.sending.take 9))).any (fun σ => decide ((1, [66]) ∉ σ.shared.files) &&
        spoiled Sample.env σ 1 (Sample.upload 1 [66] [7]) (Sample.sending ++ Sample.saving 0)
          2 (Sample.download 1 [66] 0) Sample.receiving) = true := by
    decide +kernel
  obtain ⟨σ, hexec, hσ⟩ := (Option.any_eq_true _ _).mp hrun
  obtain ⟨hnew, hσ⟩ := (Bool.and_eq_true _ _).mp hσ
  refine ⟨σ, State.reaches_exec_of (fun _ _ ℓ hℓ => ?_) hexec, Set.injOn_singleton _ _,
    of_decide_eq_true hnew, not_roundTrips_of_spoiled hσ rfl rfl rfl rfl (by decide) ?_⟩
  · rcases List.mem_cons.mp hℓ with rfl | hℓ
    · exact .inl rfl
    · obtain ⟨a, -, rfl⟩ := List.mem_map.mp hℓ
      exact .inr ⟨a, rfl⟩
  · exact State.locals_exec hexec fun ℓ hℓ => (Sample.owner_session hℓ).trans_ne (by decide)

/-! ## After sessions of rogues -/

/-- **What others have done before does no damage when the index keeps the chunks of the file.** The
clients before may have sent any chunk bytes and have asked about any hashes. -/
theorem upload_after_rogue (hσ : Reaches (sessions env) anyStep State.init σ)
    (hrogue : arg.rogue = false) (hop : arg.op = 117)
    (hnew : (arg.client_id, getFileName arg.file_path) ∉ σ.shared.files)
    (hcf : env.CollisionFreeOn {x | x ∈ fileChunks env arg.file})
    (hkeeps : σ.shared.Keeps env {x | x ∈ fileChunks env arg.file}) : RoundTrips env σ arg :=
  roundTrips_of_keeps hσ hrogue hop hnew hcf fun _ => hkeeps

/-- The steps of a rogue that asks about the hash of one chunk and sends another. -/
def Sample.lying : List Act :=
  [.server, .server, .server, .server, .rogue [] [Sample.env.generateHash [7]], .server, .server,
    .rogue [[8]] [], .server, .server] ++ Sample.saving 1

/-- A rogue has stored a byte under the hash of another one, and an honest client its own file: that file
can be uploaded again under another name. -/
theorem upload_after_rogue_sample : ∃ (σ : State) (a : ChunkAddr),
    σ.shared.isChunkStored (convertArrayHashToString (Sample.env.generateHash [7])) = some a ∧
      Conn.extentOnDisk σ.shared a = [8] ∧
      σ.shared.isChunkStored (convertArrayHashToString (Sample.env.generateHash [9])) ≠ none ∧
      RoundTrips Sample.env σ (Sample.upload 1 [67] [9]) := by
  let steps := Sample.session 0 { Sample.upload 1 [65] [] with rogue := true } Sample.lying ++
    Sample.session 1 (Sample.upload 1 [66] [9]) (Sample.sending ++ Sample.saving 1)
  have hrun : (State.init.exec Sample.env steps).any (fun σ => decide ((1, [67]) ∉ σ.shared.files) &&
      (σ.shared.isChunkStored (convertArrayHashToString (Sample.env.generateHash [7]))).any (fun a =>
        decide (Conn.extentOnDisk σ.shared a = [8])) &&
      (σ.shared.isChunkStored (convertArrayHashToString (Sample.env.generateHash [9]))).any fun b =>
        decide (Conn.OnDisk σ.shared b ∧ Conn.extentOnDisk σ.shared b = [9])) = true := by
    decide +kernel
  obtain ⟨σ, hexec, hrun⟩ := (Option.any_eq_true _ _).mp hrun
  simp only [Bool.and_eq_true, decide_eq_true_eq] at hrun
  obtain ⟨⟨hnew, hwrong⟩, hrun⟩ := hrun
  obtain ⟨a, ha, hwrong⟩ := (Option.any_eq_true _ _).mp hwrong
  obtain ⟨b, hb, hkept⟩ := (Option.any_eq_true _ _).mp hrun
  have hchunks : {x | x ∈ fileChunks Sample.env (Sample.upload 1 [67] [9]).file} = {[9]} := by
    rw [show fileChunks Sample.env (Sample.upload 1 [67] [9]).file = [[9]] by decide +kernel]
    ext x
    simp
  have hreach : Reaches (sessions Sample.env) anyStep State.init σ :=
    State.reaches_exec_of (fun _ _ _ _ => trivial) hexec
  refine ⟨σ, a, ha, of_decide_eq_true hwrong, by simp [hb], upload_after_rogue hreach rfl rfl hnew ?_ ?_⟩
  · rw [hchunks]
    exact Set.injOn_singleton _ _
  · rw [hchunks]
    rintro x rfl c hc
    rw [← Option.some.inj (hb.symm.trans hc)]
    exact of_decide_eq_true hkept

/-- **A rogue changes what another client gets back.** It asks about the hash of a chunk and sends
other bytes for it; the index keeps them under that hash, and an honest client that uploads the
chunk later downloads the bytes of the rogue. -/
theorem upload_after_rogue_changed :
    ∃ σ : State, Reaches (sessions Sample.env)
        (lone 0 { Sample.upload 1 [65] [] with rogue := true }) State.init σ ∧
      Sample.env.CollisionFreeOn {[7], [8]} ∧ (1, [66]) ∉ σ.shared.files ∧
      ¬ RoundTrips Sample.env σ (Sample.upload 1 [66] [7]) := by
  -- a client that sends one chunk under another chunk's hash, then an honest upload and its download
  have hrun : (State.init.exec Sample.env (Sample.session 0
      { Sample.upload 1 [65] [] with rogue := true } Sample.lying)).any (fun σ =>
        decide ((1, [66]) ∉ σ.shared.files) &&
        spoiled Sample.env σ 1 (Sample.upload 1 [66] [7]) (Sample.sending ++ Sample.saving 0)
          2 (Sample.download 1 [66] 0) Sample.receiving) = true := by
    decide +kernel
  obtain ⟨σ, hexec, hσ⟩ := (Option.any_eq_true _ _).mp hrun
  obtain ⟨hnew, hσ⟩ := (Bool.and_eq_true _ _).mp hσ
  -- the two chunks of the run have different hashes
  have hcf : Sample.env.CollisionFreeOn {[7], [8]} :=
    Sample.collisionFreeOn_pair (by decide)
  refine ⟨σ, State.reaches_exec_of (fun _ _ ℓ hℓ => ?_) hexec, hcf, of_decide_eq_true hnew,
    not_roundTrips_of_spoiled hσ rfl rfl rfl rfl (by decide) ?_⟩
  · rcases List.mem_cons.mp hℓ with rfl | hℓ
    · exact .inl rfl
    · obtain ⟨a, -, rfl⟩ := List.mem_map.mp hℓ
      exact .inr ⟨a, rfl⟩
  · exact State.locals_exec hexec fun ℓ hℓ => (Sample.owner_session hℓ).trans_ne (by decide)

end DedupServer
