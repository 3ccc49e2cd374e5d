import DedupServer.Model.Lifetimes
import DedupServer.Store.Runs

/-! # The store over several lives of the server

A server that is started again finds containers that no session of its own has written. The
ownership argument goes through when these belong to a name no session has (`ownershipSince`), and
there always is such a name (`State.Running`). So in every life, whatever the clients do, no session
touches what is on disk, and a kill spoils at most a container that has never been there. -/

namespace DedupServer

open Foundations

variable {env : Env} {π : Policy env} {P P' : Pool} {sv : Server} {s s' : Session} {σ τ : State}
  {ok : Condition} {ℓ : Label ℕ Act Arg} {i o : ℕ}

/-- The ids drawn on the way are different when those drawn at the end are. -/
theorem State.InPhase.reaches_fresh (hphase : σ.InPhase env) (hr : Reaches (sessions env) ok σ τ)
    (hfresh : env.FreshUpTo τ.shared.drawn) :
    Reaches (sessions env) (fun σ ℓ τ => ok σ ℓ τ ∧ freshIds env σ ℓ τ) σ τ := by
  have hr₁ := hr.carry (I := fun σ : State => σ.InPhase env) (fun _ _ _ h hs _ => h.step hs) hphase
  have hr₂ := hr₁.strengthen (Q := fun σ : State => σ.shared.drawn ≤ τ.shared.drawn)
    (fun _ _ _ hs hok hυ => (hok.2.1.grows_step hs).drawn.trans hυ) le_rfl
  exact hr₂.mono fun _ _ _ hok => ⟨hok.1.1, hfresh.mono hok.2⟩

/-- **The argument of one life.** The containers of `o` are those the server has found, and they are
all on disk. -/
def Policy.ownershipSince (π : Policy env) (o : ℕ) :
    RelyGuarantee (sessions env) (fun σ ℓ τ => π.allows σ ℓ τ ∧ ℓ.owner ≠ o) Pool :=
  π.ownership.since o (fun P sv => ∀ id l, P id = some (o, l) → sv.containers.lookup id = some l)
    fun hne hext hfound id l hl =>
      hext.kept id l (hfound id l ((hext.grows.foreign id o l hne.symm).mp hl))

/-- **Every container has an owner**, whichever of the names that no session has stands for the
former sessions. -/
def State.Owned (π : Policy env) (σ : State) : Prop :=
  ∀ o, σ.locals o = none → ∃ P, (π.ownershipSince o).Inv P σ

/-- **What is known of every state in the lives of a server.** -/
structure State.Running (π : Policy env) (σ : State) : Prop where
  phase : σ.InPhase env
  finite : {i | σ.locals i ≠ none}.Finite
  owned : σ.Owned π

/-- The containers on disk have names that have been drawn. -/
def Server.Named (env : Env) (sv : Server) : Prop :=
  ∀ id ∈ sv.containers, ∃ k < sv.drawn, id = env.uuid k

/-- There is a name that no session has. -/
theorem State.Running.exists_inv (h : σ.Running π) :
    ∃ o P, σ.locals o = none ∧ (π.ownershipSince o).Inv P σ := by
  obtain ⟨o, ho⟩ := h.finite.infinite_compl.nonempty
  have hnone : σ.locals o = none := not_not.mp ho
  obtain ⟨P, hinv⟩ := h.owned o hnone
  exact ⟨o, P, hnone, hinv⟩

/-- **A server that has just been started** finds containers of nobody. -/
theorem Server.Named.running (h : sv.Named env) (hindex : sv.allChunks = fun _ => none) :
    sv.started.Running π where
  phase i s hs := by cases hs
  finite := by simp
  owned o _ := by
    refine ⟨fun id => (sv.containers.lookup id).map (o, ·), ⟨⟨?_, ?_, ?_⟩, ?_⟩, ?_, ?_⟩
    · intro id data hd
      exact ⟨o, by rw [show sv.containers.lookup id = some data from hd]; rfl⟩
    · intro id o' l hl
      obtain ⟨data, hd, -⟩ := Option.map_eq_some_iff.mp hl
      exact h id (AList.lookup_isSome.mp (by rw [hd]; rfl))
    · intro k a hk
      rw [Server.started_shared, hindex] at hk
      cases hk
    · intro id l hl
      obtain ⟨data, hd, heq⟩ := Option.map_eq_some_iff.mp hl
      obtain rfl := (Prod.mk.inj heq).2
      exact hd
    · intro i s hs
      cases hs
    · intro i _ hne id l hl
      obtain ⟨data, -, heq⟩ := Option.map_eq_some_iff.mp hl
      exact hne (Prod.mk.inj heq).1.symm

/-- The empty server has no containers at all. -/
theorem State.running_init (π : Policy env) : State.init.Running π := by
  have hnamed : Server.init.Named env := by
    intro id hid
    cases List.not_mem_nil hid
  exact hnamed.running rfl

namespace State.Running

/-- **A step of an admitted session**: no container on disk changes. -/
theorem step_kept (h : σ.Running π) (hs : Step (sessions env) σ ℓ τ) (hok : π.allows σ ℓ τ) :
    τ.Running π ∧ ∀ id data, σ.shared.containers.lookup id = some data →
      τ.shared.containers.lookup id = some data := by
  have hnext : ∀ o, τ.locals o = none → ∃ P P', (π.ownershipSince o).Inv P' τ ∧
      Pool.Extends ℓ.owner P σ.shared P' τ.shared := by
    intro o ho
    obtain ⟨hne, hnone⟩ := hs.locals_eq_none ho
    obtain ⟨P, hinv⟩ := h.owned o hnone
    obtain ⟨P', hext, hinv'⟩ := hinv.step hs ⟨hok, hne⟩
    exact ⟨P, P', hinv', hext⟩
  have hrunning : τ.Running π :=
    ⟨h.phase.step hs, finite_joined_step hs h.finite, fun o ho => by
      obtain ⟨_, P', hinv, -⟩ := hnext o ho
      exact ⟨P', hinv⟩⟩
  obtain ⟨o, -, ho, -⟩ := hrunning.exists_inv
  obtain ⟨_, _, -, hext⟩ := hnext o ho
  exact ⟨hrunning, hext.kept⟩

theorem step (h : σ.Running π) (hs : Step (sessions env) σ ℓ τ) (hok : π.allows σ ℓ τ) :
    τ.Running π := (h.step_kept hs hok).1

/-- A container that is being saved is not on disk yet, and has a name that has been drawn. -/
theorem saves (h : σ.Running π) (hi : σ.locals i = some s) {id : ContainerID} (hsaves : s.Saves id) :
    σ.shared.containers.lookup id = none ∧ ∃ k < σ.shared.drawn, id = env.uuid k := by
  obtain ⟨o, P, -, hinv⟩ := h.exists_inv
  obtain ⟨C, hC, rfl⟩ := hsaves
  have hlive : C ∈ s.conn.live := by simp [Conn.live, hC, DataWriter.held]
  have howns := (hinv.loc i s hi).owns
  exact ⟨howns.offDisk C hlive, hinv.glob.1.drawn _ i _ (howns.backs C hlive).log⟩

/-- **A kill spoils no container that is on disk.** -/
theorem leaves_kept (h : σ.Running π) (hleaves : σ.Leaves sv) {id : ContainerID} {data : Bytes}
    (hd : σ.shared.containers.lookup id = some data) : sv.containers.lookup id = some data := by
  rcases hleaves.containers id with heq | ⟨i, s, hi, hsaves⟩
  · exact heq.trans hd
  · rw [(h.saves hi hsaves).1] at hd
    cases hd

/-- **The server can be started again** after it was killed. -/
theorem restart {π' : Policy env} (h : σ.Running π) (hleaves : σ.Leaves sv) :
    sv.started.Running π' := by
  refine Server.Named.running (fun id hid => ?_) hleaves.allChunks
  rw [hleaves.drawn]
  rcases hleaves.containers id with heq | ⟨i, s, hi, hsaves⟩
  · obtain ⟨o, P, -, hinv⟩ := h.exists_inv
    obtain ⟨data, hd⟩ := Option.isSome_iff_exists.mp (AList.lookup_isSome.mpr hid)
    obtain ⟨j, hj⟩ := hinv.glob.1.disk id data (heq.symm.trans hd)
    exact hinv.glob.1.drawn id j data hj
  · exact (h.saves hi hsaves).2

end State.Running

end DedupServer
