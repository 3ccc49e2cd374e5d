import DedupServer.Download.Amid

/-! # Durability

Once a file is complete on the server, it stays so: whatever clients connect, however they end, and
however often the server is killed and started again, `send_file` gives the file
(`complete_file_survives`), also to a client that downloads it while others are at work
(`complete_file_downloaded`). The one thing that can spoil the file is another name with the same
recipe file. -/

namespace DedupServer

open Foundations

variable {env : Env} {σ τ : State} {s : Session} {client_id : Int} {fileName file : Bytes}
  {h h' : List (Happening ℕ Server Session Act Arg)} {j : ℕ} {arg : Arg}

/-- Any clients may connect, but none that uploads another name with the same recipe file. -/
def keepsName (env : Env) (client_id : Int) (fileName : Bytes) : Condition := fun σ ℓ τ =>
  freshIds env σ ℓ τ ∧ ownRecipe env client_id fileName σ ℓ τ

/-- **A file that is on the server lasts when everybody has gone.** -/
theorem Server.HasFile.lasting (h : σ.shared.HasFile env client_id fileName file)
    (hphase : σ.InPhase env) (hclosed : ∀ i s, σ.locals i = some s → s.Closed)
    (hnamed : ∀ i s, σ.locals i = some s → s.Uploader →
      s.recipePath env = env.recipeNameHash client_id fileName → s.key = (client_id, fileName)) :
    σ.Lasting env client_id fileName file where
  file := h
  named := hnamed
  ended i s hi hpast _ := by
    have hcl := hclosed i s hi
    have hacc : s.Accepted := by
      refine hpast.resolve_left ?_
      rintro ⟨n, hpc⟩
      rw [hcl.2] at hpc
      cases hpc
    exact (((hphase i s hi).over hcl).2.resolve_left fun h => h.2 hacc).1.dataWriter

/-- An upload on an empty server. -/
def Sample.first : List (Label ℕ Act Arg) := session 0 (upload 1 [65] [7]) (sending ++ saving 1)

/-- After it the file lasts. -/
theorem Sample.exists_lasting :
    ∃ h σ, State.init.exec Sample.env first = some σ ∧
      ServerLife Sample.env (freshIds Sample.env) State.init h σ ∧ σ.Lasting Sample.env 1 [65] [7] := by
  have hrun : (State.init.exec Sample.env first).any
      (fun σ => decide (σ.shared.drawn ≤ 9) &&
        (σ.locals 0).any fun s => decide (s.Closed ∧ s.key = (1, [65]))) = true := by
    decide +kernel
  obtain ⟨σ, hexec, hσ⟩ := (Option.any_eq_true _ _).mp hrun
  obtain ⟨hdrawn, hany⟩ := (Bool.and_eq_true _ _).mp hσ
  obtain ⟨s, hs, hclosed⟩ := (Option.any_eq_true _ _).mp hany
  have hdrawn := of_decide_eq_true hdrawn
  have hclosed := of_decide_eq_true hclosed
  have hruns := Completes.of_exec hexec ⟨s, hs, hclosed.1⟩
  have hphase := State.inPhase_init Sample.env
  have hfresh : Sample.env.FreshUpTo σ.shared.drawn := Sample.freshUpTo (by omega)
  have hchunks : ∀ x ∈ fileChunks Sample.env [7], x ∈ ({[7]} : Set Bytes) :=
    Sample.mem_of_mem_fileChunks_seven rfl
  have hcf : Sample.env.CollisionFreeOn {x | x ∈ fileChunks Sample.env [7]} :=
    (Set.injOn_singleton _ _).mono hchunks
  have hfile : σ.shared.HasFile Sample.env 1 [65] [7] := hruns.upload hphase (Policy.inv_init _)
    State.registered_init rfl rfl List.not_mem_nil hcf (fun x hx a ha => by cases ha) hfresh
  -- nobody but the uploader has ever connected
  have honly : ∀ i t, σ.locals i = some t → t = s := by
    intro i t ht
    by_cases hi : i = 0
    · subst hi
      exact Option.some.inj (ht.symm.trans hs)
    · rw [hruns.others hi] at ht
      cases ht
  have hreach : Reaches (sessions Sample.env) (freshIds Sample.env) State.init σ :=
    (hphase.reaches_fresh hruns.reaches hfresh).mono fun _ _ _ hok => hok.2
  obtain ⟨h, hlife, -⟩ :
      ∃ h, ServerLife Sample.env (freshIds Sample.env) State.init h σ ∧ ∀ υ, .killed υ ∉ h :=
    hreach.exists_life
  refine ⟨h, σ, hexec, hlife, hfile.lasting (hphase.reaches hruns.reaches) ?_ ?_⟩
  · intro i t ht
    rw [honly i t ht]
    exact hclosed.1
  · intro i t ht _ _
    rw [honly i t ht]
    exact hclosed.2

/-- **A complete file survives everything.** After any life of the server, with any clients, a file
that is complete and whose recipe file belongs to no other name is given by `send_file` for good:
along every further life in which nobody uploads another name with that recipe file, whatever the
clients send, wherever they stop, and however often the server is killed, in the middle of writing
other files too. -/
theorem complete_file_survives (hpast : ServerLife env (freshIds env) State.init h σ)
    (hfile : σ.Lasting env client_id fileName file)
    (hlife : ServerLife env (keepsName env client_id fileName) σ h' τ) (outData : Bytes) :
    Conn.sendFile env τ.shared client_id fileName outData = some file := by
  have hrunning := ServerLife.running (fun _ _ _ h => h) hpast (State.running_init _)
  exact (ServerLife.lasting (fun _ _ _ h => h) hlife hrunning hfile).2.file.sendFile outData

/-- The server is killed after an upload. -/
theorem complete_file_survives_sample : ∃ σ : State,
    Conn.sendFile Sample.env σ.shared.restarted 1 [65] [] = some [7] := by
  obtain ⟨h, σ, -, hlife, hfile⟩ := Sample.exists_lasting
  have hkilled : ServerLife Sample.env (keepsName Sample.env 1 [65]) σ [.killed σ]
      σ.shared.restarted.started := (Life.refl σ).restart σ.leaves_restarted
  exact ⟨σ, complete_file_survives hlife hfile hkilled []⟩

/-- **A complete file is downloaded complete while others are at work.** A client that connects when
the file is complete, and reaches its end, has written exactly the file, in whatever order its steps
and those of any other clients have come in between. -/
theorem complete_file_downloaded (hpast : ServerLife env (freshIds env) State.init h σ)
    (hfile : σ.Lasting env client_id fileName file) (hnone : σ.locals j = none)
    (hop : arg.op = 100) (hrogue : arg.rogue = false) (hid : arg.client_id = client_id)
    (hname : getFileName arg.file_path = fileName)
    (hrun : Reaches (sessions env) (keepsName env client_id fileName) (σ.joined env j arg) τ)
    (hfresh : env.FreshUpTo τ.shared.drawn) (hj : τ.locals j = some s) (hclosed : s.Closed) :
    s.client.file = file := by
  have hrunning := ServerLife.running (fun _ _ _ h => h) hpast (State.running_init _)
  have hspawn : Step (sessions env) σ (.spawn j arg) (σ.joined env j arg) := .spawn hnone
  have hjoined := hrunning.phase.step hspawn
  have hallows : (Policy.lax env).allows σ (.spawn j arg) (σ.joined env j arg) :=
    Policy.lax_allows hrunning.phase (hfresh.mono (hjoined.grows hrun).drawn)
  obtain ⟨hcid, hcpath, hcrogue, -, hcnot⟩ := Session.connect_client env σ.shared arg
  have hdownload : ¬ (Session.connect env σ.shared arg).2.Uploader := hcnot (by rw [hop]; decide)
  have hown : ownRecipe env client_id fileName σ (.spawn j arg) (σ.joined env j arg) := by
    rintro i arg' heq hop'
    cases heq
    rw [hop] at hop'
    cases hop'
  have hlasting := hfile.step hrunning hspawn hallows hown
  have hstart : (Session.connect env σ.shared arg).2.Downloading (σ.joined env j arg).shared
      (env.recipeNameHash client_id fileName) file := by
    have hconnect : (Session.connect env σ.shared arg).2.client.pc = .awaitDownloadRep ∧
        (Session.connect env σ.shared arg).2.client.file = [] := by
      simp [Session.connect, Client.start, hop]
    exact .asking hconnect.1 rfl hconnect.2 (hlasting.file.sentBytes _)
  -- the file lasts along the run, and so what the session has and what is left of it are the file
  have hinv := hrun.invariant
    (I := fun υ : State => υ.Running (Policy.lax env) ∧ υ.Lasting env client_id fileName file ∧
      ∃ t, υ.locals j = some t ∧ (Session.connect env σ.shared arg).2.Kept t ∧ t.conn.Aligned ∧
        t.Downloading υ.shared (env.recipeNameHash client_id fileName) file)
    (fun υ ℓ υ' hυ hs hok => ?_)
    ⟨hrunning.step hspawn hallows, hlasting, _, Config.moved_locals_self _ _ _ _, .refl _,
      Conn.aligned_of_ne (by simp [Session.connect, Conn.init]), hstart⟩
  · obtain ⟨hrunning', -, t, ht, -, -, hdl⟩ := hinv
    obtain rfl := Option.some.inj (ht.symm.trans hj)
    have hdown := ((hrunning'.phase j t ht).over hclosed).1
    cases hdl with
    | asking hcl => simp [hclosed.1] at hcl
    | sending hpc => simp [hclosed.2] at hpc
    | sent hpc hup hasked hgot =>
      rwa [Session.got, hdown, List.flatMap_nil, List.append_nil] at hgot
  · obtain ⟨hrunning', hlasting', t, ht, hkept, halign, hdl⟩ := hυ
    have hallows' := Policy.lax_allows hrunning'.phase hok.1
    have hnext := hlasting'.step hrunning' hs hallows' hok.2
    refine ⟨hrunning'.step hs hallows', hnext, ?_⟩
    by_cases howner : j = ℓ.owner
    · cases hs with
      | spawn hnone' =>
        rw [howner, Label.owner, hnone'] at ht
        cases ht
      | act hl hact =>
        obtain rfl : j = _ := howner
        obtain rfl := Option.some.inj (ht.symm.trans hl)
        have hphase := hrunning'.phase _ _ hl
        have hkey : t.client.client_id = client_id ∧ t.client.fileName = fileName := by
          rw [Client.fileName, hkept.client_id, hkept.file_path, hcid, hcpath]
          exact ⟨hid, hname⟩
        obtain ⟨hsame, hdl'⟩ := hdl.act hphase (fun hu => hdownload (hkept.uploader.mp hu))
          (by rw [Session.recipePath, hkey.1, hkey.2])
          (by rw [hkey.1, hkey.2]; exact hlasting'.file.exist)
          ((hkept.rogue.trans hcrogue).trans hrogue) hact
        exact ⟨_, Config.moved_locals_self _ _ _ _, hkept.trans (hphase.act hact).2.kept,
          hphase.aligned_act halign hact, by rw [Config.moved_shared, hsame]; exact hdl'⟩
    · exact ⟨t, (hs.locals_of_ne howner).trans ht, hkept, halign,
        hdl.amid halign hlasting'.file hnext.file⟩

/-- The steps of a download, and in between those of a rogue that sends a byte under the hash of another
one, and of an upload that stops with its container in memory. -/
def Sample.amid : List (Label ℕ Act Arg) :=
  acts 5 (receiving.take 2) ++ (session 6 { upload 1 [66] [] with rogue := true } [.server, .server,
    .server, .server, .rogue [] [Sample.env.generateHash [9]], .server, .server] ++
    (acts 5 ((receiving.drop 2).take 4) ++ (session 7 (upload 2 [67] [8]) sending ++
      (acts 6 [.rogue [[8]] [], .server] ++ acts 5 (receiving.drop 6)))))

/-- A download amid other work. -/
theorem complete_file_downloaded_sample :
    ∃ (τ : State) (s : Session), τ.locals 5 = some s ∧ s.client.file = [7] ∧
      (∃ t, τ.locals 6 = some t ∧ t.client.rogue = true) ∧ (∃ t, τ.locals 7 = some t ∧ ¬ t.Closed) ∧
      τ.shared.files = [(1, [65]), (1, [66]), (2, [67])] := by
  obtain ⟨h, σ, hσ, hlife, hfile⟩ := Sample.exists_lasting
  have hrun : (State.init.exec Sample.env Sample.first).any (fun σ =>
      ((σ.joined Sample.env 5 (Sample.download 1 [65] 0)).execChecked Sample.env
        (fun _ _ τ => decide (τ.shared.drawn ≤ 255)) Sample.amid).any fun τ =>
        ((τ.locals 5).any fun s => decide s.Closed) && ((τ.locals 6).any fun t => t.client.rogue) &&
          ((τ.locals 7).any fun t => decide (¬ t.Closed)) && decide (τ.shared.drawn ≤ 255 ∧
            τ.shared.files = [(1, [65]), (1, [66]), (2, [67])])) = true := by
    decide +kernel
  rw [hσ, Option.any_some] at hrun
  obtain ⟨τ, hτ, hrun⟩ := (Option.any_eq_true _ _).mp hrun
  simp only [Bool.and_eq_true, decide_eq_true_eq] at hrun
  obtain ⟨⟨⟨hclosed, hrogue⟩, hstopped⟩, hdrawn, hfiles⟩ := hrun
  obtain ⟨s, hs, hclosed⟩ := (Option.any_eq_true _ _).mp hclosed
  obtain ⟨t, ht, hrogue⟩ := (Option.any_eq_true _ _).mp hrogue
  obtain ⟨u, hu, hstopped⟩ := (Option.any_eq_true _ _).mp hstopped
  have hwithin : σ.Within 8 := (State.within_init 8).exec (by decide +kernel) hσ
  have hnone : σ.locals 5 = none :=
    (State.within_init 1).exec (by decide +kernel) hσ 5 (by decide)
  have hjoined : (σ.joined Sample.env 5 (Sample.download 1 [65] 0)).Within 8 :=
    hwithin.step (.spawn hnone) (by decide)
  have hkeeps : ∀ σ ℓ τ, State.Within 8 σ → State.Within 8 τ → ℓ ∈ Sample.amid →
      decide (τ.shared.drawn ≤ 255) = true → keepsName Sample.env 1 [65] σ ℓ τ := by
    rintro σ ℓ τ - - hℓ hcheck
    refine ⟨Sample.freshUpTo (of_decide_eq_true hcheck), ?_⟩
    rintro i arg rfl - heq
    simp only [Sample.amid, List.mem_append, Sample.spawn_mem_session, Sample.spawn_mem_acts, false_or,
      or_false] at hℓ
    -- the others upload to recipe files of their own
    rcases hℓ with ⟨-, rfl⟩ | ⟨-, rfl⟩
    · exact absurd heq (by decide)
    · exact absurd heq (by decide)
  have hreach := (State.reaches_checked (by decide +kernel) hkeeps hjoined hτ).1
  exact ⟨τ, s, hs, complete_file_downloaded hlife hfile hnone rfl rfl rfl rfl hreach
    (Sample.freshUpTo hdrawn) hs (of_decide_eq_true hclosed), ⟨t, ht, hrogue⟩,
    ⟨u, hu, of_decide_eq_true hstopped⟩, hfiles⟩

end DedupServer
