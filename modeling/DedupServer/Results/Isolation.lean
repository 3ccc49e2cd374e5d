import DedupServer.Alone.Complete
import DedupServer.Store.Records
import DedupServer.Store.Returned

/-! # Files are isolated from one another

The recipe file of an upload is named by the client id and the file name, one written after the
other. Two files are isolated from one another exactly when these strings differ
(`isolated_iff`); they may be the same for different files (`not_isolated`). -/

namespace DedupServer

open Foundations

variable {env : Env} {S : Set Bytes} {σ τ : State} {s : Session} {client_id₁ client_id₂ : Int}
  {fileName₁ fileName₂ : Bytes}

/-- From the state `σ` on, only sessions act that join later, and those that upload upload the given
file. -/
def newcomers (σ : State) (client_id : Int) (fileName : Bytes) : Condition := fun _ ℓ υ =>
  σ.locals ℓ.owner = none ∧ ∀ t, υ.locals ℓ.owner = some t → t.Uploader →
    t.client.client_id = client_id ∧ t.client.fileName = fileName

/-- **The first file is isolated from the second**: they have different recipe files, and once the
first one is uploaded, uploads of the second one, finished or not, change nothing in what a download
of the first one gets. -/
def Isolated (env : Env) (S : Set Bytes) (client_id₁ : Int) (fileName₁ : Bytes) (client_id₂ : Int)
    (fileName₂ : Bytes) : Prop :=
  env.recipeNameHash client_id₁ fileName₁ ≠ env.recipeNameHash client_id₂ fileName₂ ∧
  ∀ (σ τ : State) (i : ℕ) (s : Session),
    Reaches (sessions env) (honest env S) State.init σ → σ.locals i = some s → s.Returned →
    s.client.client_id = client_id₁ → s.client.fileName = fileName₁ →
    Reaches (sessions env) (fun υ ℓ υ' => honest env S υ ℓ υ' ∧
      newcomers σ client_id₂ fileName₂ υ ℓ υ') σ τ → env.FreshUpTo τ.shared.drawn →
    ∀ outData, Conn.sendFile env τ.shared client_id₁ fileName₁ outData
      = Conn.sendFile env σ.shared client_id₁ fileName₁ outData

/-- Different strings have different recipe files. -/
theorem recipeNameHash_ne (hcf : env.CollisionFreeOn
      {recipeName client_id₁ fileName₁, recipeName client_id₂ fileName₂})
    (h : recipeName client_id₁ fileName₁ ≠ recipeName client_id₂ fileName₂) :
    env.recipeNameHash client_id₁ fileName₁ ≠ env.recipeNameHash client_id₂ fileName₂ := by
  intro heq
  refine h (hcf (.inl rfl) (.inr rfl) ?_)
  exact convertArrayHashToString_injective (env.length_generateHash _) (env.length_generateHash _)
    heq

/-- **The recipe of a file is not touched** by sessions that upload another one. -/
theorem recipes_newcomers (hphase : σ.InPhase env)
    (hpath : env.recipeNameHash client_id₁ fileName₁ ≠ env.recipeNameHash client_id₂ fileName₂)
    (hr : Reaches (sessions env) (fun υ ℓ υ' => honest env S υ ℓ υ' ∧
      newcomers σ client_id₂ fileName₂ υ ℓ υ') σ τ) :
    τ.shared.recipes.lookup (env.recipeNameHash client_id₁ fileName₁)
      = σ.shared.recipes.lookup (env.recipeNameHash client_id₁ fileName₁) := by
  refine (hr.invariant (I := fun υ : State => υ.InPhase env ∧
    υ.shared.recipes.lookup (env.recipeNameHash client_id₁ fileName₁)
      = σ.shared.recipes.lookup (env.recipeNameHash client_id₁ fileName₁))
    (fun υ ℓ υ' h hs hok => ⟨h.1.step hs, ?_⟩) ⟨hphase, rfl⟩).2
  cases hs with
  | spawn hnone => exact h.2
  | @act i a l l' sh hl hact =>
    have hmoves := ((h.1 i l hl).act hact).2
    refine (hmoves.recipes (h.1 i l hl) fun hacc => ?_).trans h.2
    have hkept := hmoves.kept
    obtain ⟨hid, hname⟩ := hok.2.2 l' (Config.moved_locals_self _ _ _ _)
      (hkept.uploader.mpr hacc.uploader)
    rwa [← hkept.recipePath, Session.recipePath, hid, hname]

/-- **The extents of a recipe are as before** when only sessions have acted that joined later. -/
theorem sendFile_newcomers (hcf : env.CollisionFreeOn S)
    (hσ : Reaches (sessions env) (honest env S) State.init σ) {i : ℕ}
    (hi : σ.locals i = some s) (hret : s.Returned) (hid : s.client.client_id = client_id₁)
    (hname : s.client.fileName = fileName₁)
    (hpath : env.recipeNameHash client_id₁ fileName₁ ≠ env.recipeNameHash client_id₂ fileName₂)
    (hr : Reaches (sessions env) (fun υ ℓ υ' => honest env S υ ℓ υ' ∧
      newcomers σ client_id₂ fileName₂ υ ℓ υ') σ τ)
    (hfresh : env.FreshUpTo τ.shared.drawn) (outData : Bytes) :
    Conn.sendFile env τ.shared client_id₁ fileName₁ outData
      = Conn.sendFile env σ.shared client_id₁ fileName₁ outData := by
  have hphase := (State.inPhase_init env).reaches hσ
  have hgrows := hphase.grows hr
  have hfresh' := hfresh.mono hgrows.drawn
  -- the file is still registered, and its recipe is what it was
  have hexist : σ.shared.isFileExist client_id₁ fileName₁ = true := by
    have := (State.registered_init.reaches (State.inPhase_init env) hσ).isFileExist hphase hi hret
    rwa [hid, hname] at this
  have hexist' : τ.shared.isFileExist client_id₁ fileName₁ = true :=
    Server.isFileExist_iff.mpr (hgrows.files.subset (Server.isFileExist_iff.mp hexist))
  have hrecipe := recipes_newcomers hphase hpath hr
  rw [Conn.sendFile, Conn.sendFile, if_pos hexist, if_pos hexist']
  congr 1
  cases hfile : σ.shared.recipes.lookup (env.recipeNameHash client_id₁ fileName₁) with
  | none =>
    rw [hfile] at hrecipe
    simp [Conn.sentBytes, Conn.openRecipe, hfile, hrecipe, Conn.remaining]
  | some file =>
    rw [hfile] at hrecipe
    obtain ⟨P, hinv, hrecords⟩ := State.exists_recipes hcf hσ hfresh'
    refine Conn.sentBytes_of_records hfile hrecipe ((hrecords _ file hfile).mono fun a ha => ?_)
      outData
    -- the pool is owned by the sessions that were there before, and the newcomers move it on
    have hallows : Reaches (sessions env)
        ((Policy.honest hcf).movedBy {k | σ.locals k = none}).allows σ τ := by
      refine Policy.reaches_allows _ (I := fun υ : State => υ.InPhase env ∧ υ.Honest env S)
        (fun υ ℓ υ' h hs hok => ⟨h.1.step hs, h.2.step h.1 hs hok.1⟩)
        (fun υ ℓ υ' hok => hok.2.1) (fun υ υ' k a t h _ ht => ?_) hphase
        ⟨hphase, hσ.invariant (I := fun υ : State => υ.InPhase env ∧ υ.Honest env S)
          (fun υ ℓ υ' h hs hok => ⟨h.1.step hs, h.2.step h.1 hs hok⟩)
          ⟨State.inPhase_init env, fun i s hs => by cases hs⟩ |>.2⟩ hr hfresh
      have hadmits := h.2.admits hcf ht
      exact ⟨hadmits.honest, hadmits.known, hadmits.free⟩
    obtain ⟨P', hlater, -⟩ := (Policy.inv_movedBy hinv {k | σ.locals k = none}).reaches
      (r := Pool.Later {k | σ.locals k = none}) (Pool.Later.refl _) (fun h h' => h.trans h')
      (fun hok hguar => Pool.Extends.later hok.2.1 hguar) hallows
    rcases ha with hsize | ⟨o, l, hl⟩
    · simp [Conn.extentOnDisk, hsize]
    -- a recipe names containers of the old sessions only, and those keep their bytes
    · have ho : o ∉ {k | σ.locals k = none} := fun ho => hinv.idle o ho _ l hl
      rw [Conn.extentOnDisk, Conn.extentOnDisk, hlater.lookup_eq hl ho]

/-- **Two files are isolated from one another if and only if their client ids and names give
different strings.** -/
theorem isolated_iff (hcf : env.CollisionFreeOn S) (hnames : env.CollisionFreeOn
      {recipeName client_id₁ fileName₁, recipeName client_id₂ fileName₂}) :
    Isolated env S client_id₁ fileName₁ client_id₂ fileName₂ ↔
      recipeName client_id₁ fileName₁ ≠ recipeName client_id₂ fileName₂ := by
  constructor
  · rintro ⟨hne, -⟩ heq
    exact hne (by rw [Env.recipeNameHash, Env.recipeNameHash, heq])
  · intro hne
    have hpath := recipeNameHash_ne hnames hne
    refine ⟨hpath, ?_⟩
    intro σ τ i s hσ hi hret hid hname hr hfresh outData
    exact sendFile_newcomers hcf hσ hi hret hid hname hpath hr hfresh outData

/-- The files `A` of the clients 1 and 2 are isolated from one another. -/
theorem isolated_iff_sample : Isolated Sample.env {[7], [8]} 1 [65] 2 [65] := by
  have hcf : Sample.env.CollisionFreeOn {[7], [8]} :=
    Sample.collisionFreeOn_pair (by decide)
  have hnames : Sample.env.CollisionFreeOn {recipeName 1 [65], recipeName 2 [65]} :=
    Sample.collisionFreeOn_pair (by decide)
  exact (isolated_iff hcf hnames).mpr (by decide)

/-- **An upload replaces another user's recipe.** Client 1 has uploaded a file `1a`; client 11 then
uploads a file `a`, is accepted, and what client 1 downloads are the bytes of client 11. -/
theorem not_isolated :
    Sample.env.CollisionFreeOn {[7], [8]} ∧ ((1 : Int), ([49, 97] : Bytes)) ≠ (11, [97]) ∧
      ∃ σ τ : State, Reaches (sessions Sample.env) (honest Sample.env {[7], [8]}) State.init σ ∧
        (∃ s, σ.locals 0 = some s ∧ s.Returned ∧ s.client.client_id = 1 ∧
          s.client.fileName = [49, 97]) ∧
        Completes Sample.env 1 (Sample.upload 11 [97] [8]) σ τ ∧
        (∃ s, τ.locals 1 = some s ∧ s.Returned) ∧ Sample.env.FreshUpTo τ.shared.drawn ∧
        Conn.sendFile Sample.env σ.shared 1 [49, 97] [0] = some [7] ∧
        Conn.sendFile Sample.env τ.shared 1 [49, 97] [0] = some [8] := by
  have hcf : Sample.env.CollisionFreeOn {[7], [8]} :=
    Sample.collisionFreeOn_pair (by decide)
  -- logins 1 and 11 with the names "1a" and "a" write to one recipe file
  have hrun : (State.init.exec Sample.env (Sample.session 0 (Sample.upload 1 [49, 97] [7])
      (Sample.sending ++ Sample.saving 1))).any (fun σ =>
        (σ.locals 0).any (fun s => decide (s.Returned ∧ s.client.client_id = 1 ∧
          s.client.fileName = [49, 97])) &&
        decide (Conn.sendFile Sample.env σ.shared 1 [49, 97] [0] = some [7]) &&
        (σ.exec Sample.env (Sample.session 1 (Sample.upload 11 [97] [8])
          (Sample.sending ++ Sample.saving 1))).any fun τ =>
            (τ.locals 1).any (fun s => decide (s.Returned ∧ s.Closed)) &&
            decide (τ.shared.drawn ≤ 255 ∧
              Conn.sendFile Sample.env τ.shared 1 [49, 97] [0] = some [8])) = true := by
    decide +kernel
  obtain ⟨σ, hσ, hrun⟩ := (Option.any_eq_true _ _).mp hrun
  simp only [Bool.and_eq_true, decide_eq_true_eq] at hrun
  obtain ⟨⟨hfirst, hbefore⟩, hrun⟩ := hrun
  obtain ⟨τ, hτ, hrun⟩ := (Option.any_eq_true _ _).mp hrun
  obtain ⟨hsecond, hrun⟩ := (Bool.and_eq_true _ _).mp hrun
  obtain ⟨hdrawn, hafter⟩ := of_decide_eq_true hrun
  obtain ⟨s, hs, hfirst⟩ := (Option.any_eq_true _ _).mp hfirst
  obtain ⟨t, ht, hsecond⟩ := (Option.any_eq_true _ _).mp hsecond
  obtain ⟨hret, hclosed⟩ := of_decide_eq_true hsecond
  have hchunks : ∀ x ∈ fileChunks Sample.env [7], x ∈ ({[7], [8]} : Set Bytes) :=
    Sample.mem_of_mem_fileChunks_seven (.inl rfl)
  exact ⟨hcf, by decide, σ, τ,
    State.reaches_exec_of (fun _ _ _ hℓ => honest_session rfl (fun _ => hchunks) hℓ _ _) hσ,
    ⟨s, hs, of_decide_eq_true hfirst⟩, Completes.of_exec hτ ⟨t, ht, hclosed⟩, ⟨t, ht, hret⟩,
    Sample.freshUpTo hdrawn, hbefore, hafter⟩

end DedupServer
