import DedupServer.Store.Lasting

/-! # Files that are visible

A file is visible from the moment it is registered, which is before its body is received. When its
upload has returned, a download gives the file, provided that the containers of others the upload
was referred to have been saved by then (`returned_upload_downloadable`). Before, its recipe may not
even exist (`files_complete`). -/

namespace DedupServer

open Foundations

variable {env : Env} {S : Set Bytes} {hcf : env.CollisionFreeOn S} {σ τ : State}
  {ℓ : Label ℕ Act Arg} {s s' : Session} {sv sv' : Server}

/-! ## Downloads of uploads that have returned -/

/-- Runs of honest clients in which returns are settled lead to settled states. -/
theorem State.Settled.reaches (hcf : env.CollisionFreeOn S)
    (hrun : Reaches (sessions env) (fun σ ℓ τ => honest env S σ ℓ τ ∧ returnsSettled σ ℓ τ)
      State.init τ) (hfresh : env.FreshUpTo τ.shared.drawn) : τ.Sane hcf ∧ τ.Settled := by
  obtain ⟨hcarry, hsane⟩ := (State.sane_init hcf).carry (fun _ _ _ h => h.1) hrun hfresh
  refine ⟨hsane, hcarry.invariant (I := State.Settled) (fun σ ℓ τ h hs hok => ?_) ?_⟩
  · exact h.step hok.2.1 hok.2.2 hs hok.1.2
  · intro i s hi
    cases hi

/-- **A returned upload is complete on disk**: its recipe lists its chunks, and they are there. -/
theorem State.Sane.complete (h : τ.Sane hcf) (hsettled : τ.Settled)
    (hrecipes : τ.RecipesKept env) {i : ℕ} (hi : τ.locals i = some s) (hret : s.Returned) :
    τ.shared.recipes.lookup (s.recipePath env)
        = some (encodeTotalChunkNum s.conn.written.length ++ encodeEntries s.conn.written) ∧
      List.Forall₂ (fun a x => Conn.OnDisk τ.shared a ∧ Conn.extentOnDisk τ.shared a = x)
        s.conn.written (fileChunks env s.client.file) := by
  obtain ⟨P, hinv⟩ := h.inv
  obtain ⟨hjoined, hpc, hacc, hlisted⟩ := (h.phase i s hi).returned hret
  refine ⟨hrecipes i s hi hacc _ (by rw [Conn.recipeFile, hjoined.recipeWriter]), ?_⟩
  exact (hinv.loc i s hi).forall₂_extentOnDisk hinv.glob (Set.mem_univ i) hacc hjoined hpc
    (hlisted (h.honest i s hi).1) (hsettled i s hi hret)

/-- **A returned upload can be downloaded**, at any moment and whatever the other sessions are doing,
in runs of honest clients whose returns are settled: `send_file` sends exactly the file. -/
theorem returned_upload_downloadable (hcf : env.CollisionFreeOn S)
    (hrun : Reaches (sessions env) (fun σ ℓ τ => honest env S σ ℓ τ ∧ returnsSettled σ ℓ τ)
      State.init τ) (hfresh : env.FreshUpTo τ.shared.drawn) (hapart : τ.Apart env) {i : ℕ}
    (hi : τ.locals i = some s) (hret : s.Returned) (outData : Bytes) :
    Conn.sendFile env τ.shared s.client.client_id s.client.fileName outData
      = some s.client.file := by
  obtain ⟨hsane, hsettled⟩ := State.Settled.reaches hcf hrun hfresh
  have hrecipes := (State.recipesKept_init env).reaches (State.inPhase_init env) hrun hapart
  have hexist := (State.registered_init.reaches (State.inPhase_init env) hrun).isFileExist
    hsane.phase hi hret
  obtain ⟨hfile, hextents⟩ := hsane.complete hsettled hrecipes hi hret
  rw [Conn.sendFile, if_pos hexist]
  exact congrArg some (Conn.sentBytes_of_extents hfile hextents outData)

/-- `returnsSettled`, as long as there are only the sessions below `n`. -/
def State.settledBelow (n : ℕ) (σ : State) (ℓ : Label ℕ Act Arg) : Prop :=
  ∀ s ∈ σ.locals ℓ.owner, s.Returning → ∀ j < n, j ≠ ℓ.owner → ∀ u ∈ σ.locals j,
    ∀ C ∈ u.conn.live, ∀ a ∈ s.conn.answered, a.containerID ≠ C.containerID

instance (n : ℕ) (σ : State) (ℓ : Label ℕ Act Arg) : Decidable (σ.settledBelow n ℓ) :=
  inferInstanceAs (Decidable (∀ s ∈ σ.locals ℓ.owner, s.Returning → ∀ j < n, j ≠ ℓ.owner → ∀ u ∈ σ.locals j,
    ∀ C ∈ u.conn.live, ∀ a ∈ s.conn.answered, a.containerID ≠ C.containerID))

theorem State.settledBelow.returnsSettled {n : ℕ} (h : σ.settledBelow n ℓ) (hσ : σ.Within n) :
    returnsSettled σ ℓ τ := by
  rintro i s rfl hs hret j u hj hu
  refine h s hs hret j ?_ hj u hu
  by_contra hk
  rw [hσ j (not_lt.mp hk)] at hu
  cases hu

/-- Client 1 uploads a file, and while its container is in memory client 2 uploads the same bytes under
another name and is referred to that container; both return, the first one first. Client 3 has been told
`UNIQUE` and is not registered yet. -/
theorem Sample.exists_returned :
    ∃ (τ : State) (s t u : Session), Reaches (sessions Sample.env)
        (fun σ ℓ τ => honest Sample.env {[7], [8]} σ ℓ τ ∧ returnsSettled σ ℓ τ) State.init τ ∧
      Sample.env.FreshUpTo τ.shared.drawn ∧ τ.Apart Sample.env ∧ τ.Within 3 ∧ τ.locals 0 = some s ∧
      τ.locals 1 = some t ∧ τ.locals 2 = some u ∧ s.Returned ∧ s.key = (1, [65]) ∧
      s.client.file = [7] ∧ t.Returned ∧ t.key = (2, [66]) ∧ t.client.file = [7] ∧
      t.conn.answered ≠ [] ∧ u.Accepted ∧ u.conn.pc = .register [67] ∧
      u.client.fileName = [67] ∧ τ.shared.files = [(1, [65]), (2, [66])] := by
  let steps := Sample.session 0 (Sample.upload 1 [65] [7]) Sample.sending ++
    (Sample.session 1 (Sample.upload 2 [66] [7]) Sample.sending ++
      (Sample.acts 0 (Sample.saving 1) ++ (Sample.acts 1 (Sample.saving 0) ++
        Sample.session 2 (Sample.upload 3 [67] [8]) [.server, .server, .server, .server])))
  have hrun : (State.init.execChecked Sample.env (fun σ ℓ _ => decide (σ.settledBelow 3 ℓ)) steps).any
      (fun τ => decide (τ.ApartBelow Sample.env 3 ∧ τ.shared.drawn ≤ 255 ∧
        τ.shared.files = [(1, [65]), (2, [66])]) && (τ.locals 0).any fun s => (τ.locals 1).any fun t =>
          (τ.locals 2).any fun u => decide (s.Returned ∧ s.key = (1, [65]) ∧ s.client.file = [7] ∧
            t.Returned ∧ t.key = (2, [66]) ∧ t.client.file = [7] ∧ t.conn.answered ≠ [] ∧ u.Accepted ∧
            u.conn.pc = .register [67] ∧ u.client.fileName = [67])) = true := by
    decide +kernel
  obtain ⟨τ, hexec, hτ⟩ := (Option.any_eq_true _ _).mp hrun
  obtain ⟨hshared, hτ⟩ := (Bool.and_eq_true _ _).mp hτ
  obtain ⟨s, hs, hτ⟩ := (Option.any_eq_true _ _).mp hτ
  obtain ⟨t, ht, hτ⟩ := (Option.any_eq_true _ _).mp hτ
  obtain ⟨u, hu, hτ⟩ := (Option.any_eq_true _ _).mp hτ
  obtain ⟨hapart, hdrawn, hfiles⟩ := of_decide_eq_true hshared
  obtain ⟨hret, hkey, hfile, hret', hkey', hfile', hanswered, hacc, hpc, hname⟩ := of_decide_eq_true hτ
  have hchunks : ∀ x ∈ fileChunks Sample.env [7], x ∈ ({[7], [8]} : Set Bytes) :=
    Sample.mem_of_mem_fileChunks_seven (.inl rfl)
  have hchunks' : ∀ x ∈ fileChunks Sample.env [8], x ∈ ({[7], [8]} : Set Bytes) := by
    rw [Sample.fileChunks_eight]
    simp
  have hhonest : ∀ ℓ ∈ steps, ∀ σ τ, honest Sample.env {[7], [8]} σ ℓ τ := by
    intro ℓ hℓ
    refine honest_of_mem hℓ fun i arg hi => ?_
    simp only [steps, List.mem_append, Sample.spawn_mem_session, Sample.spawn_mem_acts, false_or] at hi
    rcases hi with ⟨-, rfl⟩ | ⟨-, rfl⟩ | ⟨-, rfl⟩
    · exact ⟨rfl, fun _ => hchunks⟩
    · exact ⟨rfl, fun _ => hchunks⟩
    · exact ⟨rfl, fun _ => hchunks'⟩
  have hok : ∀ σ ℓ υ, State.Within 3 σ → State.Within 3 υ → ℓ ∈ steps →
      decide (State.settledBelow 3 σ ℓ) = true →
      honest Sample.env {[7], [8]} σ ℓ υ ∧ returnsSettled σ ℓ υ :=
    fun σ ℓ υ hσ _ hℓ hcheck => ⟨hhonest ℓ hℓ σ υ, (of_decide_eq_true hcheck).returnsSettled hσ⟩
  obtain ⟨hreach, hwithin⟩ := State.reaches_checked (by decide +kernel) hok (State.within_init 3) hexec
  exact ⟨τ, s, t, u, hreach, Sample.freshUpTo hdrawn, hapart.apart hwithin, hwithin, hs, ht, hu, hret,
    hkey, hfile, hret', hkey', hfile', hanswered, hacc, hpc, hname, hfiles⟩

/-- Both files can be downloaded, the second one from the container of the first. -/
theorem returned_upload_downloadable_sample :
    ∃ (τ : State) (t : Session), τ.locals 1 = some t ∧ t.conn.answered ≠ [] ∧
      ∀ outData, Conn.sendFile Sample.env τ.shared 1 [65] outData = some [7] ∧
        Conn.sendFile Sample.env τ.shared 2 [66] outData = some [7] := by
  obtain ⟨τ, s, t, u, hreach, hfresh, hapart, -, hs, ht, -, hret, hkey, hfile, hret', hkey', hfile',
    hanswered, -⟩ := Sample.exists_returned
  obtain ⟨hid, hname⟩ := Prod.mk.inj hkey
  obtain ⟨hid', hname'⟩ := Prod.mk.inj hkey'
  have hcf : Sample.env.CollisionFreeOn {[7], [8]} := Sample.collisionFreeOn_pair (by decide)
  refine ⟨τ, t, ht, hanswered, fun outData => ?_⟩
  have hsent := returned_upload_downloadable hcf hreach hfresh hapart hs hret outData
  have hsent' := returned_upload_downloadable hcf hreach hfresh hapart ht hret' outData
  rw [hid, hname, hfile] at hsent
  rw [hid', hname', hfile'] at hsent'
  exact ⟨hsent, hsent'⟩

/-- **An upload may return too early.** The first session has published the address of a chunk and
still holds the container; the second one, whose file consists of that chunk, returns; a download of
its file sends whatever the reply buffer contains. -/
theorem returned_upload_not_downloadable :
    ∃ τ : State, Reaches (sessions Sample.env) (honest Sample.env {[7]}) State.init τ ∧
      Sample.env.CollisionFreeOn {[7]} ∧ Sample.env.FreshUpTo τ.shared.drawn ∧
      τ.Apart Sample.env ∧ ∃ s, τ.locals 1 = some s ∧ s.Returned ∧ s.client.file = [7] ∧
        Conn.sendFile Sample.env τ.shared s.client.client_id s.client.fileName [9] = some [9] := by
  -- session 1 uploads a chunk that session 0 has sent but whose container is not yet saved
  let steps := Sample.session 0 (Sample.upload 1 [65] [7]) Sample.sending ++
    Sample.session 1 (Sample.upload 1 [66] [7]) (Sample.sending ++ Sample.saving 0)
  have hrun : (State.init.exec Sample.env steps).any (fun τ =>
      decide (τ.ApartBelow Sample.env 2 ∧ τ.shared.drawn ≤ 255) && (τ.locals 1).any fun t =>
        decide (t.Returned ∧ t.client.file = [7] ∧ Conn.sendFile Sample.env τ.shared t.client.client_id
          t.client.fileName [9] = some [9])) = true := by
    decide +kernel
  obtain ⟨τ, hexec, hτ⟩ := (Option.any_eq_true _ _).mp hrun
  obtain ⟨hshared, hτ⟩ := (Bool.and_eq_true _ _).mp hτ
  obtain ⟨t, ht, hτ⟩ := (Option.any_eq_true _ _).mp hτ
  obtain ⟨hapart, hdrawn⟩ := of_decide_eq_true hshared
  obtain ⟨hret, hfile, hsent⟩ := of_decide_eq_true hτ
  have hchunks : ∀ x ∈ fileChunks Sample.env [7], x ∈ ({[7]} : Set Bytes) :=
    Sample.mem_of_mem_fileChunks_seven rfl
  have hhonest : ∀ ℓ ∈ steps, ∀ σ τ, honest Sample.env {[7]} σ ℓ τ := by
    intro ℓ hℓ
    rcases List.mem_append.mp hℓ with hℓ | hℓ
    · exact honest_session rfl (fun _ => hchunks) hℓ
    · exact honest_session rfl (fun _ => hchunks) hℓ
  have hwithin : τ.Within 2 := (State.within_init 2).exec (by decide +kernel) hexec
  exact ⟨τ, State.reaches_exec_of (fun σ υ ℓ hℓ => hhonest ℓ hℓ σ υ) hexec, Set.injOn_singleton _ _,
    Sample.freshUpTo hdrawn, hapart.apart hwithin, t, ht, hret, hfile, hsent⟩

/-! ## Completeness of what is registered -/

/-- The recipe file on disk lists every chunk of the file, and every extent it lists is there. -/
def Session.RecipeComplete (env : Env) (sv : Server) (s : Session) : Prop :=
  ∃ as, sv.recipes.lookup (s.recipePath env)
      = some (encodeTotalChunkNum as.length ++ encodeEntries as) ∧
    List.Forall₂ (fun a x => Conn.OnDisk sv a ∧ Conn.extentOnDisk sv a = x) as
      (fileChunks env s.client.file)

/-- **Only complete files are registered**: each was uploaded by some session, and the recipe of
that upload is complete. -/
def State.FilesComplete (env : Env) (σ : State) : Prop :=
  ∀ p ∈ σ.shared.files, ∃ i s, σ.locals i = some s ∧ s.Accepted ∧
    (s.client.client_id, s.client.fileName) = p ∧ s.RecipeComplete env σ.shared

/-- The upload has been accepted, and `addFile` has entered it. -/
def Session.Entered (s : Session) : Prop := s.Accepted ∧ s.conn.pc ≠ .register s.client.fileName

/-- **An upload is entered for good**, by the step that adds its row to `FILES`. -/
theorem Moves.entered (h : Moves env sv s sv' s') (hs : s.Entered) : s'.Entered := by
  obtain ⟨hacc, hpc⟩ := hs
  have hkept := h.kept
  refine ⟨hkept.accepted hacc, ?_⟩
  rw [Client.fileName, hkept.file_path, ← Client.fileName]
  cases h with
  | client => exact hpc
  | server hserved =>
    cases hserved with
    | quiet hquiet => exact hquiet.after_ne rfl
    | unique | refuse | register | fileEnd | reset =>
      simp [Session.serverMoved, Conn.receiveFileEnd, Conn.resetUpload]
    | body => simpa [Session.serverMoved, Conn.answerQuery] using hpc
    | accept _ _ hrep => simp [Session.Accepted, hrep] at hacc
  | dataWriter hstep => rwa [(Conn.alike_dataWriterStep hstep).pc]
  | recipeWriter hstep =>
    obtain ⟨_, rfl, rfl⟩ | ⟨_, _, _, _, _, _, rfl, rfl⟩ | ⟨_, _, _, _, _, rfl, rfl⟩ |
      ⟨_, _, _, _, rfl, rfl⟩ := Conn.recipeWriterStep_cases hstep
    all_goals exact hpc

/-- Whatever is registered has been entered by an upload. -/
def State.FilesKnown (σ : State) : Prop :=
  ∀ p ∈ σ.shared.files, ∃ i s, σ.locals i = some s ∧ s.Entered ∧
    (s.client.client_id, s.client.fileName) = p

/-- **Every registered file is the file of an upload that has entered it**, in every state of every run. -/
theorem State.FilesKnown.step (h : σ.FilesKnown) (hphase : σ.InPhase env)
    (hs : Step (sessions env) σ ℓ τ) : τ.FilesKnown := by
  cases hs with
  | @spawn i arg hnone =>
    intro p hp
    obtain ⟨j, s, hj, hs, rfl⟩ := h p hp
    have hne : j ≠ i := by
      rintro rfl
      rw [hnone] at hj
      cases hj
    exact ⟨j, s, (Config.moved_locals_of_ne _ hne _ _).trans hj, hs, rfl⟩
  | @act i a l l' sh hl hact =>
    have hmoves := ((hphase i l hl).act hact).2
    have hkept := hmoves.kept
    have hkey : (l'.client.client_id, l'.client.fileName) = (l.client.client_id, l.client.fileName) := by
      rw [Client.fileName, Client.fileName, hkept.client_id, hkept.file_path]
    intro p hp
    rw [Config.moved_shared] at hp
    -- the row was there, or is the one that the session has added
    have hrow : p ∈ σ.shared.files ∨ l'.Entered ∧ p = (l.client.client_id, l.client.fileName) := by
      rcases hmoves.files with heq | ⟨hacc, hpc, heq⟩ <;> rw [heq] at hp
      · exact .inl hp
      · exact (List.mem_append.mp hp).imp_right fun hp =>
          ⟨⟨hkept.accepted hacc, by simp [hpc]⟩, List.mem_singleton.mp hp⟩
    rcases hrow with hp | ⟨hentered, rfl⟩
    · obtain ⟨j, s, hj, hs, rfl⟩ := h p hp
      by_cases hji : j = i
      · subst hji
        obtain rfl := Option.some.inj (hl.symm.trans hj)
        exact ⟨j, l', Config.moved_locals_self _ _ _ _, hmoves.entered hs, hkey⟩
      · exact ⟨j, s, (Config.moved_locals_of_ne _ hji _ _).trans hj, hs, rfl⟩
    · exact ⟨i, l', Config.moved_locals_self _ _ _ _, hentered, hkey⟩

/-- A recipe file exists only where an accepted upload has opened it. -/
def State.RecipesKnown (env : Env) (σ : State) : Prop :=
  ∀ path, σ.shared.recipes.lookup path ≠ none →
    ∃ i s, σ.locals i = some s ∧ s.Accepted ∧ s.recipePath env = path ∧ s.conn.recipeFile ≠ none

/-- A recipe file stays open to its end, and is there for good. -/
theorem Moves.recipeFile_ne_none (h : Moves env sv s sv' s') (hopen : s.conn.recipeFile ≠ none) :
    s'.conn.recipeFile ≠ none := by
  cases h with
  | client => exact hopen
  | server hserved =>
    cases hserved with
    | quiet hquiet =>
      simpa only [Session.serverMoved, Conn.recipeFile, hquiet.recipeWriter, hquiet.written]
        using hopen
    | unique | refuse | accept | body | fileEnd => exact hopen
    | register hpc hd => exact absurd (by rw [Conn.recipeFile, hd.recipeWriter]) hopen
    | reset => simp [Session.serverMoved, Conn.resetUpload, Conn.recipeFile]
  | dataWriter hstep =>
    obtain ⟨_, _, _, _, rfl, rfl⟩ | ⟨_, _, _, rfl, rfl⟩ | ⟨_, _, rfl, rfl⟩ :=
      Conn.dataWriterStep_cases hstep
    all_goals exact hopen
  | recipeWriter hstep =>
    obtain ⟨_, rfl, rfl⟩ | ⟨_, _, _, _, _, _, rfl, rfl⟩ | ⟨_, _, _, _, _, rfl, rfl⟩ |
      ⟨_, _, _, _, rfl, rfl⟩ := Conn.recipeWriterStep_cases hstep
    all_goals simp [Conn.recipeFile]

/-- A session that writes to a recipe file has opened it. -/
theorem Phase.recipeFile_ne_none (h : Phase env s) {c : Conn}
    (hstep : s.conn.recipeWriterStep sv = some (sv', c)) : s.Accepted ∧ c.recipeFile ≠ none := by
  obtain ⟨hidle, hjoined⟩ := Conn.not_dormant_of_recipeWriterStep hstep
  refine ⟨(h.writing hidle hjoined).2.2, ?_⟩
  obtain ⟨_, rfl, rfl⟩ | ⟨_, _, _, _, _, _, rfl, rfl⟩ | ⟨_, _, _, _, _, rfl, rfl⟩ |
    ⟨_, _, _, _, rfl, rfl⟩ := Conn.recipeWriterStep_cases hstep
  all_goals simp [Conn.recipeFile]

/-- **Every recipe file belongs to an accepted upload that has opened it**, in every state of every
run. -/
theorem State.RecipesKnown.step (h : σ.RecipesKnown env) (hphase : σ.InPhase env)
    (hs : Step (sessions env) σ ℓ τ) : τ.RecipesKnown env := by
  intro path hpath
  cases hs with
  | @spawn i arg hnone =>
    obtain ⟨j, s, hj, hrest⟩ := h path hpath
    have hne : j ≠ i := by
      rintro rfl
      rw [hnone] at hj
      cases hj
    exact ⟨j, s, (Config.moved_locals_of_ne _ hne _ _).trans hj, hrest⟩
  | @act i a l l' sh hl hact =>
    have hmoves := ((hphase i l hl).act hact).2
    by_cases hown : l.Accepted ∧ path = l.recipePath env ∧ l'.conn.recipeFile ≠ none
    · obtain ⟨hacc, rfl, hopen⟩ := hown
      exact ⟨i, l', Config.moved_locals_self _ _ _ _, hmoves.kept.accepted hacc,
        hmoves.kept.recipePath, hopen⟩
    · -- the file was there before
      have hold : σ.shared.recipes.lookup path ≠ none := by
        by_cases hacc : l.Accepted → path ≠ l.recipePath env
        · rwa [← hmoves.recipes (hphase i l hl) hacc]
        · obtain ⟨hacc, heq⟩ := Classical.not_imp.mp hacc
          have hclosed : ¬ l'.conn.recipeFile ≠ none := fun hopen =>
            hown ⟨hacc, not_not.mp heq, hopen⟩
          cases hmoves with
          | client => exact hpath
          | server hserved =>
            cases hserved with
            | quiet | unique | refuse | accept | register | fileEnd | reset => exact hpath
            | body hpc hup hupl hfits honest hrun =>
              obtain ⟨st', new, hrun', hext, -⟩ := Conn.exists_receiveBody env σ.shared hupl.asked
                hfits
              obtain rfl := Option.some.inj (hrun.symm.trans hrun')
              rwa [Config.moved_shared, hext.recipes] at hpath
          | dataWriter hstep =>
            obtain ⟨_, _, _, _, rfl, _⟩ | ⟨_, _, _, rfl, _⟩ | ⟨_, _, rfl, _⟩ :=
              Conn.dataWriterStep_cases hstep
            all_goals exact hpath
          | recipeWriter hstep =>
            exact absurd ((hphase i l hl).recipeFile_ne_none hstep).2 hclosed
      obtain ⟨j, s, hj, hacc, hrec, hopen⟩ := h path hold
      by_cases hj' : j = i
      · subst hj'
        obtain rfl := Option.some.inj (hl.symm.trans hj)
        exact ⟨j, l', Config.moved_locals_self _ _ _ _, hmoves.kept.accepted hacc,
          hmoves.kept.recipePath.trans hrec, hmoves.recipeFile_ne_none hopen⟩
      · exact ⟨j, s, (Config.moved_locals_of_ne _ hj' _ _).trans hj, hacc, hrec, hopen⟩

/-- **What is registered is complete when no upload that has been entered is on its way**, in runs of
honest clients whose returns are settled; and it is not in any state in which a file has been registered
whose recipe is still to be opened. -/
theorem files_complete (hcf : env.CollisionFreeOn S)
    (hrun : Reaches (sessions env) (fun σ ℓ τ => honest env S σ ℓ τ ∧ returnsSettled σ ℓ τ)
      State.init τ) (hfresh : env.FreshUpTo τ.shared.drawn) (hapart : τ.Apart env) :
    ((∀ i s, τ.locals i = some s → s.Entered → s.Returned) → τ.FilesComplete env) ∧
    ((∃ i s, τ.locals i = some s ∧ s.conn.recipeWriter = .opening) → ¬ τ.FilesComplete env) := by
  obtain ⟨hsane, hsettled⟩ := State.Settled.reaches hcf hrun hfresh
  obtain ⟨-, hfiles, hknown⟩ := hrun.invariant
    (I := fun σ : State => σ.InPhase env ∧ σ.FilesKnown ∧ σ.RecipesKnown env)
    (fun σ _ _ h hs _ => ⟨h.1.step hs, h.2.1.step h.1 hs, h.2.2.step h.1 hs⟩)
    ⟨State.inPhase_init env, fun p hp => (List.not_mem_nil hp).elim, fun _ hpath =>
      absurd (AList.lookup_empty _) hpath⟩
  refine ⟨fun hdone p hp => ?_, ?_⟩
  · obtain ⟨i, s, hi, hentered, hname⟩ := hfiles p hp
    have hrecipes := (State.recipesKept_init env).reaches (State.inPhase_init env) hrun hapart
    exact ⟨i, s, hi, hentered.1, hname, _, hsane.complete hsettled hrecipes hi (hdone i s hi hentered)⟩
  · rintro ⟨i, s, hi, hopening⟩ hcomplete
    have hnot : ¬ s.conn.Dormant ∧ ¬ s.conn.Joined :=
      ⟨fun hd => by simp [hd.recipeWriter] at hopening,
        fun hj => by simp [hj.recipeWriter] at hopening⟩
    obtain ⟨hwriting, -, hacc⟩ := (hsane.phase i s hi).writing hnot.1 hnot.2
    -- the file is registered already
    have hfile : (s.client.client_id, s.client.fileName) ∈ τ.shared.files := by
      refine ((State.registered_init.reaches (State.inPhase_init env) hrun) i s hi hacc).resolve_left
        fun hpc => ?_
      rcases hwriting with ⟨hpc', -⟩ | ⟨hpc', -⟩ <;> simp [hpc] at hpc'
    obtain ⟨j, t, hj, hacc', hname, as, hrecipe, -⟩ := hcomplete _ hfile
    obtain ⟨hid, hname⟩ := Prod.mk.inj hname
    -- its recipe exists, so that somebody has opened it
    obtain ⟨k, u, hk, hacc'', hpath, hopen⟩ := hknown (t.recipePath env) (by simp [hrecipe])
    have hsame : u.recipePath env = s.recipePath env := by
      rw [hpath, Session.recipePath, Session.recipePath, hid, hname]
    by_cases hik : k = i
    · subst hik
      obtain rfl := Option.some.inj (hi.symm.trans hk)
      exact hopen (by rw [Conn.recipeFile, hopening])
    · exact hapart k i u s hik hk hi hacc'' hacc hsame

/-- Two files are registered and complete, while a third upload has been told `UNIQUE` and is not entered
yet. -/
theorem files_complete_sample :
    ∃ τ : State, τ.shared.files = [(1, [65]), (2, [66])] ∧ (∃ u, τ.locals 2 = some u ∧ u.Accepted) ∧
      τ.FilesComplete Sample.env := by
  obtain ⟨τ, s, t, u, hreach, hfresh, hapart, hwithin, hs, ht, hu, hret, -, -, hret', -, -, -, hacc, hpc,
    hname, hfiles⟩ := Sample.exists_returned
  have hcf : Sample.env.CollisionFreeOn {[7], [8]} := Sample.collisionFreeOn_pair (by decide)
  refine ⟨τ, hfiles, ⟨u, hu, hacc⟩, (files_complete hcf hreach hfresh hapart).1 fun i v hv hentered => ?_⟩
  have hlt : i < 3 := by
    by_contra hle
    rw [hwithin i (not_lt.mp hle)] at hv
    cases hv
  obtain rfl | rfl | rfl : i = 0 ∨ i = 1 ∨ i = 2 := by omega
  · rwa [← Option.some.inj (hs.symm.trans hv)]
  · rwa [← Option.some.inj (ht.symm.trans hv)]
  · -- the third upload is about to be entered
    obtain rfl := Option.some.inj (hu.symm.trans hv)
    exact absurd (hpc.trans (congrArg ConnPc.register hname.symm)) hentered.2

/-- **A file is visible before it is complete**: a session has been accepted and has registered its
file, and a second request for the same file is refused, while there is no recipe yet. -/
theorem files_not_complete :
    ∃ τ : State, Reaches (sessions Sample.env) (honest Sample.env {[7]}) State.init τ ∧
      Sample.env.CollisionFreeOn {[7]} ∧ Sample.env.FreshUpTo τ.shared.drawn ∧
      τ.Apart Sample.env ∧ τ.shared.isFileExist 1 [65] = true ∧ ¬ τ.FilesComplete Sample.env := by
  let steps := Sample.session 0 (Sample.upload 1 [65] [7])
    [.server, .server, .server, .server, .client, .server]
  have hrun : (State.init.exec Sample.env steps).any (fun τ =>
      decide (τ.ApartBelow Sample.env 1 ∧ τ.shared.isFileExist 1 [65] = true ∧
        (1, [65]) ∈ τ.shared.files ∧ τ.shared.recipes.lookup (Sample.env.recipeNameHash 1 [65]) = none ∧
        τ.shared.drawn ≤ 255)) = true := by
    decide +kernel
  obtain ⟨τ, hexec, hτ⟩ := (Option.any_eq_true _ _).mp hrun
  obtain ⟨hapart, hexist, hfile, hrecipe, hdrawn⟩ := of_decide_eq_true hτ
  have hwithin : τ.Within 1 := (State.within_init 1).exec
    (fun ℓ hℓ => (Sample.owner_session hℓ).trans_lt (by decide)) hexec
  have hchunks : ∀ x ∈ fileChunks Sample.env [7], x ∈ ({[7]} : Set Bytes) :=
    Sample.mem_of_mem_fileChunks_seven rfl
  refine ⟨τ, State.reaches_exec_of (fun σ υ _ hℓ => honest_session rfl (fun _ => hchunks) hℓ σ υ)
    hexec, Set.injOn_singleton _ _, Sample.freshUpTo hdrawn, hapart.apart hwithin, hexist,
    fun hcomplete => ?_⟩
  obtain ⟨i, s, -, -, hname, as, hlookup, -⟩ := hcomplete _ hfile
  obtain ⟨hid, hname⟩ := Prod.mk.inj hname
  rw [Session.recipePath, hid, hname, hrecipe] at hlookup
  cases hlookup

end DedupServer
