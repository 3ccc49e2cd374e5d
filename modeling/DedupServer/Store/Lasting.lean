import DedupServer.Alone.Upload
import DedupServer.Store.Lives
import DedupServer.Store.Records

/-! # Files that last

A file that is complete on the server (`Server.HasFile`) is changed by nobody, if its recipe file
belongs to no other name: a session writes to containers of its own that are not on disk, and to a
recipe file only while its upload is on, which for a name that is registered cannot begin any more.
`State.Lasting` is that invariant; it survives the steps of any client and kills. -/

namespace DedupServer

open Foundations

variable {env : Env} {σ τ : State} {s s' : Session} {sv sv' : Server} {ok : Condition}
  {ℓ : Label ℕ Act Arg} {client_id : Int} {fileName file : Bytes} {i : ℕ}

/-- The name under which a session uploads or downloads. -/
def Session.key (s : Session) : Int × Bytes := (s.client.client_id, s.client.fileName)

/-- The name of the recipe file follows from the name of the file. -/
theorem Session.recipePath_eq (env : Env) (s : Session) :
    s.recipePath env = env.recipeNameHash s.key.1 s.key.2 := rfl

theorem Session.Kept.key (h : s.Kept s') : s'.key = s.key := by
  rw [Session.key, Session.key, Client.fileName, Client.fileName, h.client_id, h.file_path]

/-! ## Steps of sessions whose upload has returned -/

/-- The writers of an upload that has returned have no step. -/
theorem Phase.recipeWriterStep_of_returned (h : Phase env s) (hret : s.Returned) (sv : Server) :
    s.conn.recipeWriterStep sv = none :=
  Conn.recipeWriterStep_eq_none (.inr (h.returned hret).1.recipeWriter)

/-- **An upload that has returned stays so.** -/
theorem Moves.returned (hmoves : Moves env sv s sv' s') (h : Phase env s) (hret : s.Returned) :
    s'.Returned := by
  obtain ⟨hjoined, hpc, -⟩ := h.returned hret
  have hdormant : ¬ s.conn.Dormant := fun hd => by
    rw [Session.Returned, hd.dataWriter] at hret
    cases hret
  cases hmoves with
  | client => exact hret
  | server hserved =>
    cases hserved with
    | quiet hquiet => exact hquiet.dataWriter.trans hret
    | unique hpc hid hname hunique hd | refuse hpc hid hname hdup hd | accept hpc hd
    | register hpc hd => exact absurd hd hdormant
    -- a batch is stored while the writers are at work
    | body hpc hup hupl =>
      rcases hupl.stage with ⟨-, hd⟩ | ⟨-, hw⟩
      · exact absurd hd hdormant
      · have hdata := hw.data
        rw [show s.conn.dataWriter = .joined from hret] at hdata
        exact hdata.elim
    | fileEnd => exact hret
    | reset hpc' => exact absurd hpc' hpc
  | dataWriter hstep =>
    rw [Conn.dataWriterStep_eq_none (.inr hret)] at hstep
    cases hstep
  | recipeWriter hstep =>
    rw [h.recipeWriterStep_of_returned hret] at hstep
    cases hstep

/-- **A session writes to a recipe file only during its upload**, and to its own only. -/
theorem Moves.recipes_of_returned (hmoves : Moves env sv s sv' s') (h : Phase env s) {path : Bytes}
    (hpath : s.Accepted → s.recipePath env = path → s.Returned) :
    sv'.recipes.lookup path = sv.recipes.lookup path := by
  rcases hmoves.recipes_or with hsame | ⟨c, -, hstep⟩
  · rw [hsame]
  · refine hmoves.recipes h fun hacc heq => ?_
    rw [h.recipeWriterStep_of_returned (hpath hacc heq.symm)] at hstep
    cases hstep

/-- A session whose upload is on serves its client. -/
theorem Session.WritesRecipe.accepted (h : Phase env s) {path : Bytes} (hw : s.WritesRecipe path) :
    s.Accepted ∧ s.recipePath env = path ∧ ¬ s.Returned := by
  obtain ⟨hopen, hpath⟩ := hw
  have hidle : ¬ s.conn.Dormant := fun hdormant => by
    rw [hdormant.recipeWriter] at hopen
    cases hopen
  have hjoined : ¬ s.conn.Joined := fun hjoined => by
    rw [hjoined.recipeWriter] at hopen
    cases hopen
  obtain ⟨-, hserves, hacc⟩ := h.writing hidle hjoined
  exact ⟨hacc, hserves.path.symm.trans hpath, fun hret => hjoined (h.returned hret).1⟩

/-! ## A file that is complete -/

/-- **What makes a file complete is kept** when its recipe and the containers on disk are. -/
theorem Server.HasFile.of_kept (h : sv.HasFile env client_id fileName file)
    (hfiles : ∀ k ∈ sv.files, k ∈ sv'.files)
    (hrecipe : sv'.recipes.lookup (env.recipeNameHash client_id fileName)
      = sv.recipes.lookup (env.recipeNameHash client_id fileName))
    (hcontainers : ∀ id data, sv.containers.lookup id = some data →
      sv'.containers.lookup id = some data) : sv'.HasFile env client_id fileName file := by
  obtain ⟨hexist, as, has, hextents⟩ := h
  refine ⟨?_, as, hrecipe.trans has, ?_⟩
  · exact Server.isFileExist_iff.mpr (hfiles _ (Server.isFileExist_iff.mp hexist))
  · have hmem : List.Forall₂ (fun a x => (Conn.OnDisk sv a ∧ Conn.extentOnDisk sv a = x) ∧
        x ∈ fileChunks env file) as (fileChunks env file) := by
      rw [List.forall₂_iff_zip] at hextents ⊢
      exact ⟨hextents.1, fun hz => ⟨hextents.2 hz, (List.of_mem_zip hz).2⟩⟩
    apply hmem.imp
    rintro a x ⟨⟨hdisk, hx⟩, hchunk⟩
    -- a chunk is not empty, so its container is there
    have hin : a.containerID ∈ sv.containers :=
      Conn.mem_containers_of_extentOnDisk (hx ▸ ne_nil_of_mem_fileChunks hchunk)
    obtain ⟨data, hdata⟩ := Option.isSome_iff_exists.mp (AList.lookup_isSome.mpr hin)
    have hsame : Conn.extentOnDisk sv' a = Conn.extentOnDisk sv a := by
      rw [Conn.extentOnDisk, Conn.extentOnDisk, hcontainers _ data hdata, hdata]
    exact ⟨by rw [Conn.OnDisk, hsame]; exact hdisk, hsame.trans hx⟩

/-- A file that is on the server is registered. -/
theorem Server.HasFile.mem_files (h : sv.HasFile env client_id fileName file) :
    (client_id, fileName) ∈ sv.files := Server.isFileExist_iff.mp h.exist

/-- **`send_file` gives a file that is on the server.** -/
theorem Server.HasFile.sendFile (h : sv.HasFile env client_id fileName file) (outData : Bytes) :
    Conn.sendFile env sv client_id fileName outData = some file := by
  rw [Conn.sendFile, if_pos h.exist, h.sentBytes]

/-- The name has its recipe file for itself: whoever uploads with that recipe file uploads under that
name. -/
def ownRecipe (env : Env) (client_id : Int) (fileName : Bytes) : Condition := fun _ ℓ _ =>
  ∀ i arg, ℓ = .spawn i arg → arg.op = 117 →
    env.recipeNameHash arg.client_id (getFileName arg.file_path)
      = env.recipeNameHash client_id fileName →
    (arg.client_id, getFileName arg.file_path) = (client_id, fileName)

/-- **A file that lasts**: it is on the server, and no upload with its recipe file is on, nor can one
begin. -/
structure State.Lasting (env : Env) (client_id : Int) (fileName file : Bytes) (σ : State) :
    Prop where
  file : σ.shared.HasFile env client_id fileName file
  named : ∀ i s, σ.locals i = some s → s.Uploader →
    s.recipePath env = env.recipeNameHash client_id fileName → s.key = (client_id, fileName)
  ended : ∀ i s, σ.locals i = some s → s.Past →
    s.recipePath env = env.recipeNameHash client_id fileName → s.Returned

/-- A session that has passed the check is there to upload. -/
theorem Phase.uploader_of_past (h : Phase env s) (hpast : s.Past) : s.Uploader := by
  rcases hpast with ⟨fileName, hpc⟩ | hacc
  · cases h with
    | reply hcl => exact .inl hcl
    | accepted hcl hupl | asking hcl hupl | last hcl hupl => exact hupl.accepted.uploader
    | login hreq hpc' | order hreq hpc' | lookup hcl hpc' | refused hcl hpc' | answered hcl hpc'
    | ending hcl hpc' | joining hcl hpc' | quitting hcl hpc' | left hcl hpc' | closed hcl hpc'
    | exist hcl hpc' | notExist hcl hpc' | sending hpc' | sent hpc' =>
      rw [hpc] at hpc'
      cases hpc'
  · exact hacc.uploader

/-- A step of another session, or of one whose upload has returned, leaves the file as it is. -/
theorem State.Lasting.step (h : σ.Lasting env client_id fileName file)
    (hrunning : σ.Running (Policy.lax env)) (hs : Step (sessions env) σ ℓ τ)
    (hok : (Policy.lax env).allows σ ℓ τ) (hown : ownRecipe env client_id fileName σ ℓ τ) :
    τ.Lasting env client_id fileName file := by
  have hkept := (hrunning.step_kept hs hok).2
  have hgrows := hrunning.phase.grows_step hs
  cases hs with
  | @spawn i arg hnone =>
    obtain ⟨hid, hpath, -, -, hnot⟩ := Session.connect_client env σ.shared arg
    refine ⟨h.file.of_kept (fun k hk => hgrows.files.subset hk) rfl hkept,
      fun j t ht hupl hrec => ?_, fun j t ht hpast hrec => ?_⟩ <;> by_cases hj : j = i
    · subst hj
      obtain rfl := Option.some.inj ((Config.moved_locals_self _ _ _ _).symm.trans ht)
      have hop : arg.op = 117 := by_contra fun hop => hnot hop hupl
      have hkey : ((sessions env).spawn σ.shared arg).2.key
          = (arg.client_id, getFileName arg.file_path) := by
        rw [← hid, ← hpath]
        rfl
      rw [Session.recipePath_eq, hkey] at hrec
      exact hkey.trans (hown j arg rfl hop hrec)
    · rw [Config.moved_locals_of_ne _ hj] at ht
      exact h.named j t ht hupl hrec
    · subst hj
      obtain rfl := Option.some.inj ((Config.moved_locals_self _ _ _ _).symm.trans ht)
      rcases hpast with ⟨n, hpc⟩ | hacc
      · simp [sessions, Session.connect, Conn.init] at hpc
      · simp [sessions, Session.Accepted, Session.connect, Conn.init] at hacc
    · rw [Config.moved_locals_of_ne _ hj] at ht
      exact h.ended j t ht hpast hrec
  | @act i a l l' sh hl hact =>
    have hphase := hrunning.phase i l hl
    have hmoves := (hphase.act hact).2
    have hkept' := hmoves.kept
    have hrec : sh.recipes.lookup (env.recipeNameHash client_id fileName)
        = σ.shared.recipes.lookup (env.recipeNameHash client_id fileName) :=
      hmoves.recipes_of_returned hphase fun hacc heq => h.ended i l hl (.inr hacc) heq
    refine ⟨h.file.of_kept (fun k hk => hgrows.files.subset hk) hrec hkept,
      fun j t ht hupl heq => ?_, fun j t ht hpast heq => ?_⟩ <;> by_cases hj : j = i
    · subst hj
      obtain rfl := Option.some.inj ((Config.moved_locals_self _ _ _ _).symm.trans ht)
      rw [hkept'.key]
      exact h.named j l hl (hkept'.uploader.mp hupl) (hkept'.recipePath.symm.trans heq)
    · rw [Config.moved_locals_of_ne _ hj] at ht
      exact h.named j t ht hupl heq
    · subst hj
      obtain rfl := Option.some.inj ((Config.moved_locals_self _ _ _ _).symm.trans ht)
      have heq' : l.recipePath env = env.recipeNameHash client_id fileName :=
        hkept'.recipePath.symm.trans heq
      rcases hmoves.past hpast with hpast' | ⟨hpc, -, hnot⟩
      · exact hmoves.returned hphase (h.ended j l hl hpast' heq')
      -- the check would find the name registered
      · have hupl : l.Uploader := by
          have hpast'' := (hphase.act hact).1.uploader_of_past hpast
          exact hkept'.uploader.mp hpast''
        rw [show (l.client.client_id, l.client.fileName) = (client_id, fileName) from
          h.named j l hl hupl heq'] at hnot
        exact absurd h.file.mem_files hnot
    · rw [Config.moved_locals_of_ne _ hj] at ht
      exact h.ended j t ht hpast heq

/-- **A kill leaves the file as it is.** -/
theorem State.Lasting.restart (h : σ.Lasting env client_id fileName file)
    (hrunning : σ.Running (Policy.lax env)) (hleaves : σ.Leaves sv) :
    sv.started.Lasting env client_id fileName file := by
  -- whoever is writing a recipe file has another one
  have hrec : sv.recipes.lookup (env.recipeNameHash client_id fileName)
      = σ.shared.recipes.lookup (env.recipeNameHash client_id fileName) := by
    refine (hleaves.recipes _).resolve_right ?_
    rintro ⟨i, s, hi, hwrites⟩
    obtain ⟨hacc, hpath, hret⟩ := hwrites.accepted (hrunning.phase i s hi)
    exact hret (h.ended i s hi (.inr hacc) hpath)
  refine ⟨h.file.of_kept (fun k hk => ?_) hrec fun id data hd => hrunning.leaves_kept hleaves hd,
    ?_, ?_⟩
  · rw [Server.started_shared, hleaves.files]
    exact hk
  · intro i s hs
    cases hs
  · intro i s hs
    cases hs

/-! ## Any clients at all -/

/-- A run that trusts nobody admits everybody. -/
theorem Policy.lax_allows (hphase : σ.InPhase env) (hfresh : freshIds env σ ℓ τ) :
    (Policy.lax env).allows σ ℓ τ :=
  ⟨hfresh, Set.mem_univ _, fun i _ _ s hs =>
    ⟨hphase i s hs, fun h => h.elim, fun h => h.elim, fun _ _ _ => trivial⟩⟩

/-- **In every life of the server its containers have their owners**, whatever the clients do. -/
theorem ServerLife.running (himp : ∀ σ ℓ τ, ok σ ℓ τ → freshIds env σ ℓ τ)
    {h : List (Happening ℕ Server Session Act Arg)} (hlife : ServerLife env ok σ h τ)
    (hσ : σ.Running (Policy.lax env)) : τ.Running (Policy.lax env) :=
  hlife.invariant (fun _ _ _ hσ hs hok => hσ.step hs (Policy.lax_allows hσ.phase (himp _ _ _ hok)))
    (fun _ _ hσ hleaves => hσ.restart hleaves) hσ

/-- **A file that lasts does so in every life of the server.** -/
theorem ServerLife.lasting (himp : ∀ σ ℓ τ, ok σ ℓ τ → freshIds env σ ℓ τ ∧
      ownRecipe env client_id fileName σ ℓ τ)
    {h : List (Happening ℕ Server Session Act Arg)} (hlife : ServerLife env ok σ h τ)
    (hrunning : σ.Running (Policy.lax env)) (hσ : σ.Lasting env client_id fileName file) :
    τ.Running (Policy.lax env) ∧ τ.Lasting env client_id fileName file := by
  refine hlife.invariant
    (I := fun σ : State => σ.Running (Policy.lax env) ∧ σ.Lasting env client_id fileName file)
    (fun σ ℓ τ hσ hs hok => ?_) (fun σ sv hσ hleaves => ?_) ⟨hrunning, hσ⟩
  · have hallows := Policy.lax_allows hσ.1.phase (himp _ _ _ hok).1
    exact ⟨hσ.1.step hs hallows, hσ.2.step hσ.1 hs hallows (himp _ _ _ hok).2⟩
  · exact ⟨hσ.1.restart hleaves, hσ.2.restart hσ.1 hleaves⟩

end DedupServer
