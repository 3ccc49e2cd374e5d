import DedupServer.Model.Script
import DedupServer.Protocol.Frame
import Mathlib.Data.Fintype.Defs

/-! # Recipe files

A recipe file belongs to the accepted upload that writes it (`State.Apart`: no two accepted uploads
have the same recipe file). Then what the writer has written is what the file contains
(`Session.RecipeKept`), at every moment and after the upload for good. -/

namespace DedupServer

open Foundations

variable {env : Env} {s s' : Session} {sv sv' : Server}

/-- What the recipe file contains, once it is open: the count is patched at the end. -/
def Conn.recipeFile (c : Conn) : Option Bytes :=
  match c.recipeWriter with
  | .idle | .opening => none
  | .waiting _ _ | .writing _ _ _ => some (encodeTotalChunkNum 0 ++ encodeEntries c.written)
  | .finished | .joined =>
    some (encodeTotalChunkNum c.written.length ++ encodeEntries c.written)

/-- **The recipe file of the session is on disk as the session has written it.** -/
def Session.RecipeKept (env : Env) (sv : Server) (s : Session) : Prop :=
  s.Accepted → ∀ file, s.conn.recipeFile = some file →
    sv.recipes.lookup (s.recipePath env) = some file

/-- **No two accepted uploads have the same recipe file.** -/
def State.Apart (env : Env) (σ : State) : Prop :=
  ∀ i j s t, i ≠ j → σ.locals i = some s → σ.locals j = some t → s.Accepted → t.Accepted →
    s.recipePath env ≠ t.recipePath env

/-- The sessions below `n` have different recipe files. -/
def State.ApartBelow (env : Env) (n : ℕ) (σ : State) : Prop :=
  ∀ i < n, ∀ j < n, i ≠ j → ∀ s ∈ σ.locals i, ∀ t ∈ σ.locals j, s.recipePath env ≠ t.recipePath env

instance (env : Env) (n : ℕ) (σ : State) : Decidable (σ.ApartBelow env n) :=
  inferInstanceAs (Decidable (∀ i < n, ∀ j < n, i ≠ j → ∀ s ∈ σ.locals i, ∀ t ∈ σ.locals j,
    s.recipePath env ≠ t.recipePath env))

/-- When there are no others, all sessions have different recipe files. -/
theorem State.ApartBelow.ne {σ : State} {n i j : ℕ} {t : Session} (h : σ.ApartBelow env n) (hσ : σ.Within n)
    (hij : i ≠ j) (hi : σ.locals i = some s) (hj : σ.locals j = some t) :
    s.recipePath env ≠ t.recipePath env := by
  have hlt : ∀ k u, σ.locals k = some u → k < n := fun k u hu => by
    by_contra hk
    rw [hσ k (not_lt.mp hk)] at hu
    cases hu
  exact h i (hlt i s hi) j (hlt j t hj) hij s hi t hj

theorem State.ApartBelow.apart {σ : State} {n : ℕ} (h : σ.ApartBelow env n) (hσ : σ.Within n) :
    σ.Apart env :=
  fun _ _ _ _ hij hi hj _ _ => h.ne hσ hij hi hj

/-- **The recipe writer** writes to the recipe file of its session only. -/
theorem Phase.recipes_recipeWriter (h : Phase env s) {c : Conn}
    (hstep : s.conn.recipeWriterStep sv = some (sv', c)) {path : Bytes}
    (hpath : path ≠ s.recipePath env) : sv'.recipes.lookup path = sv.recipes.lookup path := by
  obtain ⟨hidle, hjoined⟩ := Conn.not_dormant_of_recipeWriterStep hstep
  have hserves := (h.writing hidle hjoined).2.1
  rw [← hserves.path] at hpath
  obtain ⟨-, rfl, -⟩ | ⟨-, -, -, -, -, -, rfl, -⟩ | ⟨-, -, -, -, -, rfl, -⟩ |
    ⟨-, -, -, -, rfl, -⟩ := Conn.recipeWriterStep_cases hstep
  · exact AList.lookup_insert_ne hpath
  · rfl
  · exact AList.lookup_insert_ne hpath
  · exact AList.lookup_insert_ne hpath

/-- **A session writes to no recipe file but its own**, and to that only when it is accepted. -/
theorem Moves.recipes (hmoves : Moves env sv s sv' s') (h : Phase env s) {path : Bytes}
    (hpath : s.Accepted → path ≠ s.recipePath env) :
    sv'.recipes.lookup path = sv.recipes.lookup path := by
  cases hmoves with
  | client => rfl
  | server hserved =>
    cases hserved with
    | quiet | unique | refuse | accept | register | fileEnd | reset => rfl
    | body hpc hup hupl hfits honest hrun =>
      obtain ⟨st', new, hrun', hext, -⟩ := Conn.exists_receiveBody env sv hupl.asked hfits
      obtain rfl := Option.some.inj (hrun.symm.trans hrun')
      rw [hext.recipes]
  | dataWriter hstep =>
    obtain ⟨-, -, -, -, rfl, -⟩ | ⟨-, -, -, rfl, -⟩ | ⟨-, -, rfl, -⟩ :=
      Conn.dataWriterStep_cases hstep
    · rfl
    · rfl
    · rfl
  | recipeWriter hstep =>
    obtain ⟨hidle, hjoined⟩ := Conn.not_dormant_of_recipeWriterStep hstep
    exact h.recipes_recipeWriter hstep (hpath (h.writing hidle hjoined).2.2)

/-- **A step of the recipe writer keeps the file as it should be.** -/
theorem Session.RecipeKept.recipeWriter (hkept : s.RecipeKept env sv) (h : Phase env s) {c : Conn}
    (hstep : s.conn.recipeWriterStep sv = some (sv', c)) :
    ({ s with conn := c } : Session).RecipeKept env sv' := by
  obtain ⟨hidle, hjoined⟩ := Conn.not_dormant_of_recipeWriterStep hstep
  obtain ⟨hwriting, hserves, hacc⟩ := h.writing hidle hjoined
  have hrecipe : ∃ fileEnd, s.conn.Writing fileEnd := by
    rcases hwriting with ⟨-, hw⟩ | ⟨-, hw⟩
    · exact ⟨_, hw⟩
    · exact ⟨_, hw⟩
  obtain ⟨fileEnd, hrecipe⟩ := hrecipe
  have hpath : ({ s with conn := c } : Session).recipePath env = s.conn.recipeNameHash :=
    hserves.path.symm
  intro _ file hfile
  rw [hpath]
  have hold := hkept hacc
  rw [← hserves.path] at hold
  have hrec := hrecipe.recipe
  obtain ⟨hw, rfl, rfl⟩ | ⟨pos, total, r, rest, hw, -, rfl, rfl⟩ | ⟨pos, total, hw, -, -, rfl, rfl⟩ |
    ⟨pos, total, r, hw, rfl, rfl⟩ := Conn.recipeWriterStep_cases hstep
  · -- the file is opened
    obtain rfl := Option.some.inj hfile
    simp [Conn.saveRecipe]
  · obtain rfl := Option.some.inj hfile
    exact hold _ (by rw [Conn.recipeFile, hw])
  · -- the count is patched
    obtain rfl := Option.some.inj hfile
    rw [hw] at hrec
    obtain ⟨-, rfl⟩ := hrec
    rw [Conn.saveRecipe, AList.lookup_insert, hold _ (by rw [Conn.recipeFile, hw]),
      Option.getD_some, writeAt_zero (by simp), encodeTotalChunkNum_u32]
  · -- the entries are appended
    obtain rfl := Option.some.inj hfile
    rw [hw] at hrec
    obtain ⟨rfl, -⟩ := hrec
    have hlen : (encodeTotalChunkNum 0 ++ encodeEntries s.conn.written).length
        = 4 + sizeofChunkAddr * s.conn.written.length := by
      rw [List.length_append, length_encodeTotalChunkNum, length_encodeEntries]
    rw [Conn.saveRecipe, AList.lookup_insert, hold _ (by rw [Conn.recipeFile, hw]),
      Option.getD_some, ← hlen, writeAt_length, List.append_assoc, encodeEntries_append]

/-- A step that leaves the recipe and its writer alone. -/
theorem Session.RecipeKept.of_eq (hkept : s.RecipeKept env sv)
    (hrecipes : sv'.recipes = sv.recipes) (hs : s.Kept s')
    (hacc : s'.Accepted → s'.conn.recipeFile ≠ none → s.Accepted)
    (hfile : s'.conn.recipeFile = none ∨ s'.conn.recipeFile = s.conn.recipeFile) :
    s'.RecipeKept env sv' := by
  intro hacc' file hf
  rcases hfile with hfile | hfile
  · rw [hfile] at hf
    cases hf
  · rw [hrecipes, hs.recipePath]
    exact hkept (hacc hacc' (by simp [hf])) file (hfile.symm.trans hf)

/-- **A session keeps its recipe file as it should be.** -/
theorem Session.RecipeKept.moves (hkept : s.RecipeKept env sv) (h : Phase env s)
    (hmoves : Moves env sv s sv' s') : s'.RecipeKept env sv' := by
  have hs := hmoves.kept
  cases hmoves with
  | client => exact hkept.of_eq rfl hs (fun hacc _ => hacc) (.inr rfl)
  | server hserved =>
    cases hserved with
    | quiet hquiet =>
      refine hkept.of_eq rfl hs (fun hacc _ => ?_) (.inr ?_)
      · rw [Session.Accepted, ← hquiet.uploadRep]
        exact hacc
      · simp only [Session.serverMoved, Conn.recipeFile, hquiet.recipeWriter, hquiet.written]
    | unique => exact hkept.of_eq rfl hs (fun hacc _ => hacc) (.inr rfl)
    | refuse hpc hid hname hdup hdormant =>
      -- the writer of a dormant connection has no file to keep
      exact hkept.of_eq rfl hs (fun _ h => absurd (by
        simp [Session.serverMoved, Conn.recipeFile, hdormant.recipeWriter]) h) (.inr rfl)
    | accept hpc hdormant =>
      exact hkept.of_eq rfl hs (fun _ h => absurd (by
        simp [Session.serverMoved, Conn.recipeFile, hdormant.recipeWriter]) h) (.inr rfl)
    | register => exact hkept.of_eq rfl hs (fun hacc _ => hacc) (.inl rfl)
    | body hpc hup hupl hfits honest hrun =>
      -- receiving a batch leaves the recipe files alone
      obtain ⟨st', new, hrun', hext, -⟩ := Conn.exists_receiveBody env sv hupl.asked hfits
      obtain rfl := Option.some.inj (hrun.symm.trans hrun')
      exact hkept.of_eq hext.recipes hs (fun hacc _ => hacc) (.inr rfl)
    | fileEnd => exact hkept.of_eq rfl hs (fun hacc _ => hacc) (.inr rfl)
    | reset hpc hacc hwriting hserves hdata hrecipe =>
      refine hkept.of_eq rfl hs (fun hacc _ => hacc) (.inr ?_)
      simp [Session.serverMoved, Conn.resetUpload, Conn.recipeFile, hrecipe]
  | dataWriter hstep =>
    -- the container writer saves containers only
    obtain ⟨_, _, _, _, rfl, rfl⟩ | ⟨_, _, _, rfl, rfl⟩ | ⟨_, _, rfl, rfl⟩ :=
      Conn.dataWriterStep_cases hstep
    all_goals exact hkept.of_eq rfl hs (fun hacc _ => hacc) (.inr rfl)
  | recipeWriter hstep => exact hkept.recipeWriter h hstep

/-! ## Runs -/

variable {σ τ : State} {ok : Condition} {ℓ : Label ℕ Act Arg}

/-- Sessions that have different recipe files now have always had. -/
theorem State.Apart.back (hphase : σ.InPhase env) (hs : Step (sessions env) σ ℓ τ)
    (h : τ.Apart env) : σ.Apart env := by
  intro i j s t hne hi hj hacc hacc'
  obtain ⟨s', hs', hkept⟩ := hphase.kept_step hs hi
  obtain ⟨t', ht', hkept'⟩ := hphase.kept_step hs hj
  rw [← hkept.recipePath, ← hkept'.recipePath]
  exact h i j s' t' hne hs' ht' (hkept.accepted hacc) (hkept'.accepted hacc')

/-- Every session's recipe file is as it should be. -/
def State.RecipesKept (env : Env) (σ : State) : Prop :=
  ∀ i s, σ.locals i = some s → s.RecipeKept env σ.shared

theorem State.RecipesKept.step (h : σ.RecipesKept env) (hphase : σ.InPhase env)
    (hs : Step (sessions env) σ ℓ τ) (hapart : τ.Apart env) : τ.RecipesKept env := by
  intro j t ht
  cases hs with
  | @spawn i arg hnone =>
    by_cases hj : j = i
    · subst hj
      obtain rfl := Option.some.inj ((Config.moved_locals_self _ _ _ _).symm.trans ht)
      exact fun hacc => absurd hacc (by simp [sessions, Session.Accepted, Session.connect, Conn.init])
    · rw [Config.moved_locals_of_ne _ hj] at ht
      exact h j t ht
  | @act i a l l' sh hl hact =>
    have hmoves := ((hphase i l hl).act hact).2
    by_cases hj : j = i
    · subst hj
      obtain rfl := Option.some.inj ((Config.moved_locals_self _ _ _ _).symm.trans ht)
      exact (h j l hl).moves (hphase j l hl) hmoves
    · -- another session writes to another file
      have ht' := ht
      rw [Config.moved_locals_of_ne _ hj] at ht'
      intro hacc file hfile
      rw [Config.moved_shared, hmoves.recipes (hphase i l hl)]
      · exact h j t ht' hacc file hfile
      · intro hacc'
        have hne := hapart j i t l' hj ht (Config.moved_locals_self _ _ _ _) hacc
          (hmoves.kept.accepted hacc')
        rwa [hmoves.kept.recipePath] at hne

/-- **Along every run that keeps the recipe files apart they are as they should be.** -/
theorem State.RecipesKept.reaches (h : σ.RecipesKept env) (hphase : σ.InPhase env)
    (hr : Reaches (sessions env) ok σ τ) (hapart : τ.Apart env) : τ.RecipesKept env := by
  have hr₁ := hr.carry (I := fun σ : State => σ.InPhase env) (fun _ _ _ h hs _ => h.step hs) hphase
  have hr₂ := hr₁.strengthen (Q := fun σ : State => σ.Apart env)
    (fun _ _ _ hs hok h => h.back hok.2.1 hs) hapart
  exact hr₂.invariant (I := fun σ : State => σ.RecipesKept env)
    (fun _ _ _ h hs hok => h.step hok.1.2.1 hs hok.2) h

theorem State.recipesKept_init (env : Env) : State.init.RecipesKept env := by
  intro i s hs
  cases hs

end DedupServer
