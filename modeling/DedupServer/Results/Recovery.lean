import DedupServer.Results.RoundTrip
import DedupServer.Store.Calm

/-! # After a restart

A server that is started again has forgotten its index, and the containers it finds may be torn. None
of this matters to those who connect from now on: whatever has happened in the lives before, uploads
of honest clients make the round trip (`upload_after_restart`), also when many of them have uploaded at
the same time. -/

namespace DedupServer

open Foundations

variable {env : Env} {S : Set Bytes} {K : Set (Int × Bytes)} {hcf : env.CollisionFreeOn S}
  {σ τ ρ υ : State} {s : Session} {sv : Server} {i : ℕ} {arg : Arg}
  {h h' : List (Happening ℕ Server Session Act Arg)}

/-- **The states honest clients lead to after a restart.** -/
theorem ServerLife.calm (hnames : K.InjOn fun k => env.recipeNameHash k.1 k.2)
    (hpast : ServerLife env (freshIds env) State.init h ρ) (hleaves : ρ.Leaves sv)
    (hlife : ServerLife env (DedupServer.calm env S K) sv.started h' σ) : σ.Calm hcf K := by
  have hrunning := ServerLife.running (fun _ _ _ h => h) hpast (State.running_init _)
  exact hlife.invariant (fun _ _ _ hσ hs hok => hσ.step hnames hs hok)
    (fun _ _ hσ hleaves => (hσ.running.restart hleaves).calm) (hrunning.restart hleaves).calm

/-- When the others have gone, a step of one session is no look-up between two accesses of another one. -/
theorem checksSerial_of_closed {ℓ : Label ℕ Act Arg}
    (hclosed : ∀ j t, j ≠ ℓ.owner → σ.locals j = some t → t.Closed) : checksSerial σ ℓ τ := by
  rintro i s fileName rfl - - j t hj ht ⟨hpc | hpc, -⟩
  all_goals
    rw [(hclosed j t hj ht).2] at hpc
    cases hpc

/-- **An upload that runs alone is one of an honest client.** -/
theorem State.Calm.completes (h : σ.Calm hcf K)
    (hclosed : ∀ i s, σ.locals i = some s → s.Closed) (hrun : Completes env i arg σ τ)
    (hrogue : arg.rogue = false) (hknown : ∀ x ∈ fileChunks env arg.file, x ∈ S)
    (hK : (arg.client_id, getFileName arg.file_path) ∈ K) (hfresh : env.FreshUpTo τ.shared.drawn) :
    Reaches (sessions env) (DedupServer.calm env S K) σ τ := by
  have hspawn : Step (sessions env) σ (.spawn i arg) (σ.joined env i arg) := .spawn hrun.fresh
  have hjoined := h.running.phase.step hspawn
  have hstart : DedupServer.calm env S K σ (.spawn i arg) (σ.joined env i arg) := by
    refine ⟨honest_spawn hrogue (fun _ => hknown) i _ _, hfresh.mono (hjoined.grows hrun.run).drawn,
      checksSerial_of_closed fun j t _ ht => hclosed j t ht, ?_⟩
    rintro j arg' heq -
    cases heq
    exact hK
  -- the run is calm as far as it has got, and so is the step that comes next
  refine ((hjoined.reaches_fresh hrun.run hfresh).invariant (I := fun υ : State =>
    Reaches (sessions env) (DedupServer.calm env S K) σ υ ∧ ∀ k, k ≠ i → υ.locals k = σ.locals k)
    (fun υ ℓ υ' hυ hs hok => ?_)
    ⟨.single ⟨_, hspawn, hstart⟩, fun k hk => hspawn.locals_of_ne hk⟩).1
  obtain ⟨hreach, hothers⟩ := hυ
  obtain ⟨⟨a, rfl⟩, hfresh⟩ := hok
  refine ⟨hreach.tail ⟨_, hs, ?_, hfresh, checksSerial_of_closed fun j t hj ht => ?_, ?_⟩,
    fun k hk => (hs.locals_of_ne hk).trans (hothers k hk)⟩
  · rintro j arg' heq
    cases heq
  · rw [hothers j hj] at ht
    exact hclosed j t ht
  · rintro j arg' heq
    cases heq

/-- **Uploads make the round trip after a restart**, whatever has happened before it, and whatever
honest clients have done since: once all of them have gone, a file can be uploaded under a name that
is not registered, and a download gives it back. -/
theorem upload_after_restart (hcf : env.CollisionFreeOn S)
    (hnames : K.InjOn fun k => env.recipeNameHash k.1 k.2)
    (hpast : ServerLife env (freshIds env) State.init h ρ) (hleaves : ρ.Leaves sv)
    (hlife : ServerLife env (DedupServer.calm env S K) sv.started h' σ)
    (hclosed : ∀ i s, σ.locals i = some s → s.Closed) (hrogue : arg.rogue = false)
    (hop : arg.op = 117) (hknown : ∀ x ∈ fileChunks env arg.file, x ∈ S)
    (hK : (arg.client_id, getFileName arg.file_path) ∈ K)
    (hnew : (arg.client_id, getFileName arg.file_path) ∉ σ.shared.files) : RoundTrips env σ arg := by
  have hcalm : σ.Calm hcf K := ServerLife.calm hnames hpast hleaves hlife
  have hphase := hcalm.running.phase
  intro i hi
  refine ⟨hphase.exists_completes hi hrogue, ?_⟩
  intro τ hτ hfresh j arg' hop' hrogue' hid hname hj
  have hcalm' := (hcalm.completes hclosed hτ hrogue hknown hK hfresh).invariant
    (fun _ _ _ hσ hs hok => hσ.step hnames hs hok) hcalm
  have hclosed' : ∀ k t, τ.locals k = some t → t.Closed := by
    intro k t ht
    by_cases hk : k = i
    · subst hk
      obtain ⟨s, hs, hclosed⟩ := hτ.closed
      rwa [Option.some.inj (ht.symm.trans hs)]
    · rw [hτ.others hk] at ht
      exact hclosed k t ht
  -- the upload is over, and all it refers to is on disk
  obtain ⟨s, hs, -, -, hkept⟩ := hτ.session hphase
  obtain ⟨hcid, hcpath, -, hcupl, -⟩ := Session.connect_client env σ.shared arg
  have hacc := hτ.accepted hphase hop hnew hs
  obtain ⟨hret, hanswered⟩ := hcalm'.settled_of_closed hclosed' hs hacc
  have hfile := hcalm'.hasFile hs hret hanswered
  rw [hkept.key, hkept.file (hcupl hop).1, (hcupl hop).2, Session.key, Client.fileName, hcid, hcpath,
    ← hid, ← hname] at hfile
  have hphase' := hcalm'.running.phase
  exact ⟨hphase'.exists_completes hj hrogue', fun υ hυ => hυ.downloaded hphase' hrogue' hop' hfile⟩

namespace Sample

/-- A rogue that sends a byte under the hash of another one, an upload of that byte, and one whose container
is being saved. -/
def past : List (Label ℕ Act Arg) :=
  session 0 { upload 1 [66] [] with rogue := true } lying ++
    (session 1 (upload 1 [65] [7]) (sending ++ saving 0) ++
      session 2 (upload 2 [67] [8]) (sending ++ [.dataWriter]))

/-- An upload whose name is registered. -/
def refused : List Act := [.server, .server, .server, .client, .server, .client]

/-- Two uploads at the same time, and one that is refused. -/
def afterwards : List (Label ℕ Act Arg) :=
  session 0 (upload 1 [68] [8]) sending ++ (session 1 (upload 2 [69] [7]) sending ++
    (acts 1 (saving 1) ++ (acts 0 (saving 1) ++ session 2 (upload 1 [65] [7]) refused)))

/-- The names of these uploads, and one more. -/
def names : Set (Int × Bytes) := {(1, [68]), (2, [69]), (1, [65]), (1, [70])}

theorem injOn_names : names.InjOn fun k => Sample.env.recipeNameHash k.1 k.2 := by
  rintro k (rfl | rfl | rfl | rfl) k' (rfl | rfl | rfl | rfl) heq
  all_goals first | rfl | exact absurd heq (by decide)

theorem collisionFree : Sample.env.CollisionFreeOn {[7], [8]} := collisionFreeOn_pair (by decide)

/-- Few ids have been drawn. -/
def draws (_ : State) (_ : Label ℕ Act Arg) (τ : State) : Bool := decide (τ.shared.drawn ≤ 255)

/-- Few ids have been drawn, and a look-up is not between two accesses of another session below 3. -/
def orderly (σ : State) (ℓ : Label ℕ Act Arg) (τ : State) : Bool := draws σ ℓ τ && σ.serialBelow 3 ℓ

/-- Checked steps from a list of honest uploads under these names are calm. -/
theorem calm_of_orderly {σ τ : State} {steps : List (Label ℕ Act Arg)} {ℓ : Label ℕ Act Arg}
    (hσ : σ.Within 3) (hcheck : orderly σ ℓ τ = true) (hℓ : ℓ ∈ steps)
    (hspawn : ∀ i arg, .spawn i arg ∈ steps → (arg.rogue = false ∧
        (arg.op = 117 → ∀ x ∈ fileChunks Sample.env arg.file, x ∈ ({[7], [8]} : Set Bytes))) ∧
      (arg.client_id, getFileName arg.file_path) ∈ names) :
    DedupServer.calm Sample.env {[7], [8]} names σ ℓ τ := by
  obtain ⟨hdrawn, hserial⟩ := (Bool.and_eq_true _ _).mp hcheck
  exact ⟨honest_of_mem hℓ (fun i arg hi => (hspawn i arg hi).1) σ τ, freshUpTo (of_decide_eq_true hdrawn),
    State.checksSerial_of_below hσ hserial, fun i arg heq _ => (hspawn i arg (heq ▸ hℓ)).2⟩

/-- The server after the kill, and what the clients do from then on. -/
theorem exists_restarted : ∃ ρ υ : State,
    State.init.execChecked Sample.env draws past = some ρ ∧
      (ρ.tornAt 2).started.execChecked Sample.env orderly afterwards = some υ ∧
      ServerLife Sample.env (freshIds Sample.env) State.init (State.init.happenings Sample.env past) ρ ∧
      ServerLife Sample.env (DedupServer.calm Sample.env {[7], [8]} names) (ρ.tornAt 2).started
        ((ρ.tornAt 2).started.happenings Sample.env afterwards) υ ∧
      (∀ i s, υ.locals i = some s → s.Closed) ∧
      υ.shared.files = [(1, [66]), (1, [65]), (2, [67]), (1, [68]), (2, [69])] ∧
      υ.shared.containers.entries.map Sigma.snd = [[8], [7], [], [8]] := by
  have hrun : (State.init.execChecked Sample.env draws past).any (fun ρ =>
      ((ρ.tornAt 2).started.execChecked Sample.env orderly afterwards).any fun υ =>
        decide (υ.shared.files = [(1, [66]), (1, [65]), (2, [67]), (1, [68]), (2, [69])] ∧
          υ.shared.containers.entries.map Sigma.snd = [[8], [7], [], [8]] ∧
          ∀ i < 3, ∀ s ∈ υ.locals i, s.Closed)) = true := by
    decide +kernel
  obtain ⟨ρ, hρ, hrun⟩ := (Option.any_eq_true _ _).mp hrun
  obtain ⟨υ, hυ, hrun⟩ := (Option.any_eq_true _ _).mp hrun
  obtain ⟨hfiles, hcontainers, hclosed⟩ := of_decide_eq_true hrun
  have hdraws : ∀ σ ℓ τ, σ.Within 3 → τ.Within 3 → ℓ ∈ past → draws σ ℓ τ = true →
      freshIds Sample.env σ ℓ τ := fun _ _ _ _ _ _ hcheck => freshUpTo (of_decide_eq_true hcheck)
  have hpast : ServerLife Sample.env (freshIds Sample.env) State.init
      (State.init.happenings Sample.env past) ρ :=
    .of_checked (by decide +kernel) hdraws (State.within_init 3) hρ
  have hstart : (ρ.tornAt 2).started.Within 3 := fun _ _ => rfl
  have hlt : ∀ ℓ ∈ afterwards, ℓ.owner < 3 := by decide +kernel
  have hseven : ∀ x ∈ fileChunks Sample.env [7], x ∈ ({[7], [8]} : Set Bytes) :=
    mem_of_mem_fileChunks_seven (.inl rfl)
  have height : ∀ x ∈ fileChunks Sample.env [8], x ∈ ({[7], [8]} : Set Bytes) := by
    rw [fileChunks_eight]
    simp
  have hcalm : ∀ σ ℓ τ, σ.Within 3 → τ.Within 3 → ℓ ∈ afterwards → orderly σ ℓ τ = true →
      DedupServer.calm Sample.env {[7], [8]} names σ ℓ τ := by
    intro σ ℓ τ hσ _ hℓ hcheck
    refine calm_of_orderly hσ hcheck hℓ fun i arg hi => ?_
    simp only [afterwards, List.mem_append, spawn_mem_session, spawn_mem_acts, false_or] at hi
    rcases hi with ⟨-, rfl⟩ | ⟨-, rfl⟩ | ⟨-, rfl⟩
    · exact ⟨⟨rfl, fun _ => height⟩, .inl rfl⟩
    · exact ⟨⟨rfl, fun _ => hseven⟩, .inr (.inl rfl)⟩
    · exact ⟨⟨rfl, fun _ => hseven⟩, .inr (.inr (.inl rfl))⟩
  refine ⟨ρ, υ, hρ, hυ, hpast, .of_checked hlt hcalm hstart hυ, fun i s hs => ?_, hfiles, hcontainers⟩
  by_cases hi : i < 3
  · exact hclosed i hi s hs
  · have hwithin := (State.reaches_checked hlt hcalm hstart hυ).2
    rw [hwithin i (not_lt.mp hi)] at hs
    cases hs

end Sample

/-- A server that is killed after a rogue, an upload that has got the rogue's byte and one whose container
is torn; after that two clients upload at the same time, and a third one is refused. -/
theorem upload_after_restart_sample : ∃ υ : State,
    υ.shared.files = [(1, [66]), (1, [65]), (2, [67]), (1, [68]), (2, [69])] ∧
      υ.shared.containers.entries.map Sigma.snd = [[8], [7], [], [8]] ∧
      RoundTrips Sample.env υ (Sample.upload 1 [70] [7]) := by
  obtain ⟨ρ, υ, -, -, hpast, hlife, hclosed, hfiles, hcontainers⟩ := Sample.exists_restarted
  have hseven : ∀ x ∈ fileChunks Sample.env [7], x ∈ ({[7], [8]} : Set Bytes) :=
    Sample.mem_of_mem_fileChunks_seven (.inl rfl)
  have hK : ((1, [70]) : Int × Bytes) ∈ Sample.names := .inr (.inr (.inr rfl))
  refine ⟨υ, hfiles, hcontainers, upload_after_restart Sample.collisionFree Sample.injOn_names hpast
    (ρ.leaves_tornAt 2) hlife hclosed rfl rfl hseven hK ?_⟩
  rw [hfiles]
  decide

end DedupServer
