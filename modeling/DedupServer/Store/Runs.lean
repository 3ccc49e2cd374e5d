import DedupServer.Model.Script
import DedupServer.Store.Ownership

/-! # Sound stores along runs

The ownership argument applied to the runs the results are about: runs of honest clients
(`honest`), and later parts of a run in which only some sessions act (`Pool.Later`). -/

namespace DedupServer

open Foundations

variable {env : Env} {s s' : Session} {sv sv' sv'' : Server} {P P' P'' : Pool}

/-! ## What stays in the store -/

/-- **A later store**, when only the sessions in `N` have acted: addresses keep their meaning,
containers on disk stay as they are, and new ones belong to sessions in `N`. -/
structure Pool.Later (N : Set ℕ) (P : Pool) (sv : Server) (P' : Pool) (sv' : Server) : Prop where
  logs : ∀ id o l, P id = some (o, l) → ∃ l', P' id = some (o, l') ∧ l <+: l'
  disk : ∀ id data, sv.containers.lookup id = some data → sv'.containers.lookup id = some data
  saved : ∀ id data, sv'.containers.lookup id = some data →
    sv.containers.lookup id = some data ∨ ∃ i ∈ N, P'.OwnedBy i id

namespace Pool.Later

variable {N : Set ℕ}

theorem refl (N : Set ℕ) (P : Pool) (sv : Server) : Later N P sv P sv :=
  ⟨fun _ _ l h => ⟨l, h, List.prefix_rfl⟩, fun _ _ h => h, fun _ _ h => .inl h⟩

theorem trans (h : Later N P sv P' sv') (h' : Later N P' sv' P'' sv'') : Later N P sv P'' sv'' where
  logs id o l hl := by
    obtain ⟨l', hl', hpre⟩ := h.logs id o l hl
    obtain ⟨l'', hl'', hpre'⟩ := h'.logs id o l' hl'
    exact ⟨l'', hl'', hpre.trans hpre'⟩
  disk id data hd := h'.disk id data (h.disk id data hd)
  saved id data hd := by
    rcases h'.saved id data hd with hd | hd
    · rcases h.saved id data hd with hd | ⟨i, hi, l, hl⟩
      · exact .inl hd
      · obtain ⟨l', hl', -⟩ := h'.logs id i l hl
        exact .inr ⟨i, hi, l', hl'⟩
    · exact .inr hd

/-- **A container that belongs to none of the sessions in `N`** is on disk as before, or still is
not. -/
theorem lookup_eq (h : Later N P sv P' sv') {id : ContainerID} {o : ℕ} {l : Bytes}
    (hl : P id = some (o, l)) (ho : o ∉ N) :
    sv'.containers.lookup id = sv.containers.lookup id := by
  cases hd : sv.containers.lookup id with
  | some data => exact h.disk id data hd
  | none =>
    cases hd' : sv'.containers.lookup id with
    | none => rfl
    | some data =>
      rcases h.saved id data hd' with hold | ⟨i, hi, l', hl'⟩
      · rw [hd] at hold
        cases hold
      · obtain ⟨l'', hl'', -⟩ := h.logs id o l hl
        rw [hl'] at hl''
        obtain ⟨rfl, -⟩ := Prod.mk.inj (Option.some.inj hl'')
        exact absurd hi ho

end Pool.Later

theorem Pool.Extends.later {N : Set ℕ} {i : ℕ} (hi : i ∈ N) (h : Pool.Extends i P sv P' sv') :
    Pool.Later N P sv P' sv' :=
  ⟨h.grows.kept, h.kept, fun id data hd => (h.saved id data hd).imp_right fun ho => ⟨i, hi, ho⟩⟩

/-- The same policy for runs in which only the sessions in `N` act. -/
def Policy.movedBy (π : Policy env) (N : Set ℕ) : Policy env := { π with movers := N }

theorem Policy.inv_movedBy {π : Policy env} {σ : State} (h : π.ownership.Inv P σ) (N : Set ℕ) :
    (π.movedBy N).ownership.Inv P σ where
  glob := h.glob
  loc i s hs := ⟨(h.loc i s hs).owns, (h.loc i s hs).buffer, (h.loc i s hs).refs,
    (h.loc i s hs).answered⟩
  idle := h.idle

/-- **A run is one the policy allows** when its invariant `I` makes sure that the sessions that act
are admitted. -/
theorem Policy.reaches_allows (π : Policy env) {ok : Condition} {I : State → Prop}
    (hI : ∀ σ ℓ τ, I σ → Step (sessions env) σ ℓ τ → ok σ ℓ τ → I τ)
    (hmovers : ∀ σ ℓ τ, ok σ ℓ τ → ℓ.owner ∈ π.movers)
    (hadmits : ∀ σ τ i a s, I σ → ok σ (.act i a) τ → σ.locals i = some s → π.Admits i s)
    {σ τ : State} (hphase : σ.InPhase env) (h : I σ)
    (hr : Reaches (sessions env) ok σ τ) (hfresh : env.FreshUpTo τ.shared.drawn) :
    Reaches (sessions env) π.allows σ τ := by
  -- every step is taken in a state that satisfies `I` and has drawn no more ids than `τ`
  have hr₁ := hr.carry (I := fun σ : State => σ.InPhase env ∧ I σ)
    (fun σ ℓ τ h hs hok => ⟨h.1.step hs, hI σ ℓ τ h.2 hs hok⟩) ⟨hphase, h⟩
  have hr₂ := hr₁.strengthen (Q := fun σ : State => σ.shared.drawn ≤ τ.shared.drawn)
    (fun σ ℓ υ hs hok hυ => (hok.2.1.1.grows_step hs).drawn.trans hυ) le_rfl
  refine hr₂.mono fun σ ℓ υ hok => ?_
  obtain ⟨⟨hok, ⟨hphase, hIσ⟩, -⟩, hdrawn⟩ := hok
  refine ⟨hfresh.mono hdrawn, hmovers σ ℓ υ hok, ?_⟩
  rintro i a rfl s hs
  exact ⟨hphase i s hs, hadmits σ υ i a s hIσ hok hs⟩

/-! ## Honest clients -/

/-- **All clients are honest**, and the chunks of the files they upload are in `S`. -/
def honest (env : Env) (S : Set Bytes) : Condition := fun _ ℓ _ =>
  ∀ i arg, ℓ = .spawn i arg →
    arg.rogue = false ∧ (arg.op = 117 → ∀ x ∈ fileChunks env arg.file, x ∈ S)

theorem honest_spawn {S : Set Bytes} {arg : Arg} (hrogue : arg.rogue = false)
    (hknown : arg.op = 117 → ∀ x ∈ fileChunks env arg.file, x ∈ S) (i : ℕ) (σ τ : State) :
    honest env S σ (.spawn i arg) τ := by
  intro j arg' h
  cases h
  exact ⟨hrogue, hknown⟩

/-- A step from a list all of whose clients are honest. -/
theorem honest_of_mem {S : Set Bytes} {steps : List (Label ℕ Act Arg)} {ℓ : Label ℕ Act Arg}
    (hℓ : ℓ ∈ steps) (hspawn : ∀ i arg, .spawn i arg ∈ steps →
      arg.rogue = false ∧ (arg.op = 117 → ∀ x ∈ fileChunks env arg.file, x ∈ S)) (σ τ : State) :
    honest env S σ ℓ τ := by
  rintro i arg rfl
  exact hspawn i arg hℓ

theorem honest_session {S : Set Bytes} {i : ℕ} {arg : Arg} {steps : List Act}
    {ℓ : Label ℕ Act Arg} (hrogue : arg.rogue = false)
    (hknown : arg.op = 117 → ∀ x ∈ fileChunks env arg.file, x ∈ S)
    (h : ℓ ∈ Sample.session i arg steps) (σ τ : State) : honest env S σ ℓ τ := by
  refine honest_of_mem h (fun j arg' hj => ?_) σ τ
  obtain ⟨rfl, rfl⟩ := Sample.spawn_mem_session.mp hj
  exact ⟨hrogue, hknown⟩

/-- What the states of such runs have in common. -/
def State.Honest (env : Env) (S : Set Bytes) (σ : State) : Prop :=
  ∀ i s, σ.locals i = some s → s.client.rogue = false ∧
    (s.Uploader → ∀ x ∈ fileChunks env s.client.file, x ∈ S)

/-- A new session uploads only if it was started with `'u'`. -/
theorem Session.Uploader.op {arg : Arg} (h : (Session.connect env sv arg).2.Uploader) :
    arg.op = 117 ∧ (Session.connect env sv arg).2.client.file = arg.file := by
  rcases h with h | h
  · simp only [Session.connect, Client.start] at h ⊢
    split_ifs at h ⊢ with h117 h100
    · exact ⟨h117, rfl⟩
    · cases h
  · exact absurd rfl h

theorem Session.connect_rogue (env : Env) (sv : Server) (arg : Arg) :
    (Session.connect env sv arg).2.client.rogue = arg.rogue := by
  simp only [Session.connect, Client.start]
  split_ifs <;> rfl

/-- **Along honest runs all sessions are honest.** -/
theorem State.Honest.step {S : Set Bytes} {σ τ : State} {ℓ : Label ℕ Act Arg}
    (h : σ.Honest env S) (hphase : σ.InPhase env) (hs : Step (sessions env) σ ℓ τ)
    (hok : honest env S σ ℓ τ) : τ.Honest env S := by
  intro j t ht
  cases hσ : σ.locals j with
  | some s =>
    obtain ⟨s', hs', hkept⟩ := hphase.kept_step hs hσ
    obtain rfl := Option.some.inj (ht.symm.trans hs')
    obtain ⟨hrogue, hknown⟩ := h j s hσ
    refine ⟨hkept.rogue.trans hrogue, fun hu => ?_⟩
    have hu' := hkept.uploader.mp hu
    rw [hkept.file hu']
    exact hknown hu'
  | none =>
    -- the session has just joined
    cases hs with
    | @spawn i arg hnone =>
      by_cases hj : j = i
      · subst hj
        obtain rfl := Option.some.inj ((Config.moved_locals_self _ _ _ _).symm.trans ht)
        obtain ⟨hrogue, hknown⟩ := hok _ arg rfl
        refine ⟨(Session.connect_rogue env _ arg).trans hrogue, fun hu => ?_⟩
        obtain ⟨hop, hfile⟩ := Session.Uploader.op hu
        have hfile' : ((sessions env).spawn σ.shared arg).2.client.file = arg.file := hfile
        rw [hfile']
        exact hknown hop
      · rw [Config.moved_locals_of_ne _ hj, hσ] at ht
        cases ht
    | @act i a l l' sh hl hact =>
      by_cases hj : j = i
      · subst hj
        rw [hσ] at hl
        cases hl
      · rw [Config.moved_locals_of_ne _ hj, hσ] at ht
        cases ht

/-- **The policy of honest runs**: a chunk is stored under its own hash, and every recipe is
followed. -/
def Policy.honest {S : Set Bytes} (hcf : env.CollisionFreeOn S) : Policy env where
  Good h x := x ∈ S ∧ env.generateHash x = h
  movers := Set.univ
  tracked := Set.univ
  chunks := S
  good_of_mem _ hx := ⟨hx, rfl⟩
  eq_of_good _ hx _ hy := hcf hy.1 hx hy.2

/-- The empty server is sound. -/
theorem Policy.inv_init (π : Policy env) : π.ownership.Inv (fun _ => none) State.init where
  glob := by
    refine ⟨fun id data hd => ?_, fun id o l hl => ?_, fun k a hk => ?_⟩
    · simp [State.init, Server.init] at hd
    · cases hl
    · cases hk
  loc i s hs := by cases hs
  idle i _ id l hl := by cases hl

/-- **A state honest clients can reach**, with a store that is sound. -/
structure State.Sane {S : Set Bytes} (hcf : env.CollisionFreeOn S) (σ : State) : Prop where
  phase : σ.InPhase env
  honest : σ.Honest env S
  inv : ∃ P, (Policy.honest hcf).ownership.Inv P σ

theorem State.sane_init {S : Set Bytes} (hcf : env.CollisionFreeOn S) :
    State.init.Sane hcf where
  phase := State.inPhase_init env
  honest i s hs := by cases hs
  inv := ⟨_, Policy.inv_init _⟩

variable {S : Set Bytes} {hcf : env.CollisionFreeOn S} {σ τ : State} {ok : Condition}

/-- Along honest runs everybody is admitted. -/
theorem State.Honest.admits (hcf : env.CollisionFreeOn S) {i : ℕ} (h : σ.Honest env S)
    (hs : σ.locals i = some s) :
    (Policy.honest hcf).Admits i s :=
  ⟨fun _ => (h i s hs).1, fun _ hacc => (h i s hs).2 hacc.uploader,
    fun hi => absurd (Set.mem_univ i) hi⟩

theorem State.Sane.step {ℓ : Label ℕ Act Arg} (h : σ.Sane hcf) (hs : Step (sessions env) σ ℓ τ)
    (hok : DedupServer.honest env S σ ℓ τ) (hfresh : env.FreshUpTo τ.shared.drawn) :
    τ.Sane hcf := by
  obtain ⟨P, hinv⟩ := h.inv
  obtain ⟨P', -, hinv'⟩ := hinv.step hs
    ⟨hfresh, Set.mem_univ _, fun i a _ s hi => ⟨h.phase i s hi, h.honest.admits hcf hi⟩⟩
  exact ⟨h.phase.step hs, h.honest.step h.phase hs hok, P', hinv'⟩

/-- **The store is sound along every run of honest clients.** -/
theorem State.Sane.carry (h : σ.Sane hcf)
    (himp : ∀ σ ℓ τ, ok σ ℓ τ → DedupServer.honest env S σ ℓ τ)
    (hr : Reaches (sessions env) ok σ τ) (hfresh : env.FreshUpTo τ.shared.drawn) :
    Reaches (sessions env) (fun σ ℓ τ => ok σ ℓ τ ∧ State.Sane hcf σ ∧ State.Sane hcf τ) σ τ ∧
      τ.Sane hcf := by
  have hr₁ := hr.carry (I := fun σ : State => σ.InPhase env) (fun _ _ _ h hs _ => h.step hs)
    h.phase
  have hr₂ := hr₁.strengthen (Q := fun σ : State => σ.shared.drawn ≤ τ.shared.drawn)
    (fun _ _ _ hs hok hυ => (hok.2.1.grows_step hs).drawn.trans hυ) le_rfl
  have hstep : ∀ (σ : State) ℓ υ, σ.Sane hcf → Step (sessions env) σ ℓ υ →
      ((ok σ ℓ υ ∧ σ.InPhase env ∧ State.InPhase env υ) ∧
        υ.shared.drawn ≤ τ.shared.drawn) → State.Sane hcf υ :=
    fun σ ℓ υ hσ hs hok => hσ.step hs (himp _ _ _ hok.1.1) (hfresh.mono hok.2)
  refine ⟨(hr₂.carry hstep h).mono fun σ ℓ υ hok => ⟨hok.1.1.1, hok.2⟩, ?_⟩
  exact hr₂.invariant hstep h

end DedupServer
