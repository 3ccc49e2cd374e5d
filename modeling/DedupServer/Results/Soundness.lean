import DedupServer.Store.Retrieve

/-! # The chunk index and the recipes are sound

In every state that honest clients can reach, every address in the chunk index and in a recipe can
be resolved somewhere: on disk, with a writer, in a queue, or in a buffer that is still being
filled. The places are made explicit here (`State.Stored`); in the proofs they are the pool. -/

namespace DedupServer

open Foundations

variable {env : Env} {S : Set Bytes} {hcf : env.CollisionFreeOn S} {σ τ : State} {s : Session}
  {a : ChunkAddr} {x : Bytes}

/-- The containers of a connection: with its writer, in its queue, and its current buffer. -/
def Conn.containers (c : Conn) : List Container :=
  c.dataWriter.held ++ c.upload.containerQueue.queue ++ [c.upload.containerBuffer]

/-- **The places where the bytes of a container can be**: a file on disk, or the memory of some
session. -/
def State.Stored (σ : State) (id : ContainerID) (data : Bytes) : Prop :=
  σ.shared.containers.lookup id = some data ∨
    ∃ j s C, σ.locals j = some s ∧ C ∈ s.conn.containers ∧ C.containerID = id ∧
      C.data.take C.occupied = data

/-- **The address resolves to the chunk**: its container is somewhere, and wherever it is, the
extent is there and is the chunk. -/
def State.Resolves (σ : State) (a : ChunkAddr) (x : Bytes) : Prop :=
  (∃ data, σ.Stored a.containerID data) ∧ ∀ data, σ.Stored a.containerID data →
    a.offset.toNat + a.size.toNat ≤ data.length ∧
      (data.drop a.offset.toNat).take a.size.toNat = x

/-- Whatever is stored of a container is its log. -/
theorem stored_eq_log {π : Policy env} {P : Pool} (h : π.ownership.Inv P σ) {id : ContainerID}
    {data : Bytes} (hstored : σ.Stored id data) : ∃ o, P id = some (o, data) := by
  rcases hstored with hdisk | ⟨j, s, C, hj, hC, rfl, rfl⟩
  · exact h.glob.disk id data hdisk
  · have hlocal := h.loc j s hj
    have hback : P.Backs j C := by
      rcases List.mem_append.mp hC with hC | hC
      · exact hlocal.owns.backs C (List.mem_append_left _ hC)
      · rw [List.mem_singleton.mp hC]
        exact hlocal.buffer
    exact ⟨j, by rw [hback.occupied, List.take_length, hback.log]⟩

/-- A container with bytes in it is somewhere. -/
theorem exists_stored {π : Policy env} {P : Pool} (h : π.ownership.Inv P σ) {id : ContainerID}
    {o : ℕ} {l : Bytes} (hl : P id = some (o, l)) (hne : l ≠ []) : ∃ data, σ.Stored id data := by
  cases ho : σ.locals o with
  | none => exact absurd hl (h.idle o ho id l)
  | some s =>
    rcases (h.loc o s ho).owns.located id l hl with hnil | hdisk | ⟨C, hC, hid⟩
    · exact absurd hnil hne
    · exact ⟨l, .inl hdisk⟩
    · refine ⟨_, .inr ⟨o, s, C, ho, ?_, hid, rfl⟩⟩
      rw [Conn.live] at hC
      rcases List.mem_append.mp hC with hC | hC
      · exact List.mem_append_left _ hC
      · split at hC
        · simp at hC
        · exact List.mem_append_right _ hC

/-- **What the pool holds can be resolved.** -/
theorem resolves_of_at {π : Policy env} {P : Pool} (h : π.ownership.Inv P σ) (hat : P.At a x)
    (hx : x ≠ []) : σ.Resolves a x := by
  obtain ⟨o, l, hl, hlen, hext⟩ := hat
  refine ⟨exists_stored h hl ?_, fun data hdata => ?_⟩
  · rintro rfl
    simp at hext
    exact hx hext
  · obtain ⟨o', ho'⟩ := stored_eq_log h hdata
    rw [hl] at ho'
    obtain ⟨-, rfl⟩ := Prod.mk.inj (Option.some.inj ho')
    exact ⟨hlen, hext⟩

/-- **Every entry of the chunk index resolves to a chunk with the hash of the entry.** -/
theorem State.Sane.index (h : σ.Sane hcf) {k : Bytes} (hk : σ.shared.allChunks k = some a) :
    ∃ x, k = convertArrayHashToString (env.generateHash x) ∧ x.length = a.size.toNat ∧
      σ.Resolves a x := by
  obtain ⟨P, hinv⟩ := h.inv
  obtain ⟨hash, x, -, hkey, hx, hat, -, hhash⟩ := hinv.glob.index k a hk
  exact ⟨x, by rw [hkey, hhash], hat.size, resolves_of_at hinv hat hx⟩

/-- A session that was not accepted has no recipe entry. -/
theorem Phase.entries_eq_nil (h : Phase env s) (hacc : ¬ s.Accepted) : s.conn.entries = [] := by
  have hdormant : s.conn.Dormant → s.conn.entries = [] := fun hd => by
    simp [Conn.entries, hd.written, hd.recipeWriter, RecipeWriter.held, hd.recipeQueue,
      BlockQueue.empty, hd.recipeBuffer]
  cases h with
  | accepted hcl hupl | asking hcl hupl | last hcl hupl | answered hcl hpc hupl
  | ending hcl hpc hupl => exact absurd hupl.accepted hacc
  | joining hcl hpc hserves h => exact absurd h hacc
  | quitting hcl hpc hup hdown h | left hcl hpc hup hdown h | closed hcl hpc hup hdown h =>
    exact h.elim (fun h => hdormant h.1) fun h => absurd h.2.1 hacc
  | login hreq hpc hup hdown hd | order hreq hpc hup hdown hd | lookup hcl hpc hup hdown hd
  | reply hcl hpc hup hdown hd | refused hcl hpc hup hdown hd | exist hcl hpc hup hdown hd
  | notExist hcl hpc hup hdown hd | sending hpc hup hdown htype hd | sent hpc hup hdown hend hd =>
    exact hdormant hd

/-- **Every recipe entry resolves to the chunk at its position in the file.** -/
theorem State.Sane.entries (h : σ.Sane hcf) {i : ℕ} (hi : σ.locals i = some s) {n : ℕ}
    (hn : s.conn.entries[n]? = some a) :
    ∃ x, (fileChunks env s.client.file)[n]? = some x ∧ σ.Resolves a x := by
  obtain ⟨P, hinv⟩ := h.inv
  by_cases hacc : s.Accepted
  · have hrefs := ((hinv.loc i s hi).refs (Set.mem_univ i) hacc).entries
    obtain ⟨x, hx, hsource⟩ := exists_getElem?_of_forall₂ hrefs hn
    rw [List.getElem?_take] at hx
    split at hx
    · exact ⟨x, hx, resolves_of_at hinv hsource.1
        (ne_nil_of_mem_fileChunks (List.mem_of_getElem? hx))⟩
    · cases hx
  · simp [(h.phase i s hi).entries_eq_nil hacc] at hn

/-- **Index and recipes are sound along every run of honest clients.** In every reachable state
every index entry resolves to a chunk of the recorded size with the hash of the entry; an entry
that is there never changes; and the recipe entries of every session, wherever they are on their
way to the file, resolve to the chunks of its file, position by position. While the recipe files
are kept apart, the written entries are what the file contains. -/
theorem index_and_recipes_sound (hcf : env.CollisionFreeOn S)
    (hσ : Reaches (sessions env) (honest env S) State.init σ)
    (hτ : Reaches (sessions env) (honest env S) σ τ) (hfresh : env.FreshUpTo τ.shared.drawn) :
    (∀ k a, τ.shared.allChunks k = some a →
      ∃ x, k = convertArrayHashToString (env.generateHash x) ∧ x.length = a.size.toNat ∧
        τ.Resolves a x) ∧
    (∀ k a, σ.shared.allChunks k = some a → τ.shared.allChunks k = some a) ∧
    (∀ i (s : Session), τ.locals i = some s → ∀ (n : ℕ) (a : ChunkAddr), s.conn.entries[n]? = some a →
      ∃ x, (fileChunks env s.client.file)[n]? = some x ∧ τ.Resolves a x) ∧
    (τ.Apart env → ∀ i s, τ.locals i = some s → s.Accepted →
      ∀ file, s.conn.recipeFile = some file →
        τ.shared.recipes.lookup (s.recipePath env) = some file) := by
  have hsane : τ.Sane hcf :=
    ((State.sane_init hcf).carry (fun _ _ _ h => h) (hσ.trans hτ) hfresh).2
  refine ⟨fun k a hk => hsane.index hk, ?_, fun i s hi n a hn => hsane.entries hi hn, ?_⟩
  · exact (((State.inPhase_init env).reaches hσ).grows hτ).index
  · intro hapart i s hi hacc
    exact (State.recipesKept_init env).reaches (State.inPhase_init env) (hσ.trans hτ) hapart i s hi
      hacc

/-- A state in the middle of an upload: the only container is still waiting for the writer, and the
index refers to it. -/
theorem index_and_recipes_sound_sample :
    ∃ τ : State, (∃ k, τ.shared.allChunks k ≠ none) ∧ τ.shared.containers.keys = [] ∧
      ∀ k a, τ.shared.allChunks k = some a →
        ∃ x, k = convertArrayHashToString (Sample.env.generateHash x) ∧
          x.length = a.size.toNat ∧ τ.Resolves a x := by
  let steps := Sample.session 0 (Sample.upload 1 [65] [7]) Sample.sending
  have hrun : (State.init.exec Sample.env steps).any (fun τ =>
      decide (τ.shared.allChunks (convertArrayHashToString (Sample.env.generateHash [7])) ≠ none ∧
        τ.shared.containers.keys = [] ∧ τ.shared.drawn ≤ 255)) = true := by
    decide +kernel
  obtain ⟨τ, hexec, hτ⟩ := (Option.any_eq_true _ _).mp hrun
  obtain ⟨hindex, hempty, hdrawn⟩ := of_decide_eq_true hτ
  have hchunks : ∀ x ∈ fileChunks Sample.env [7], x ∈ ({[7]} : Set Bytes) :=
    Sample.mem_of_mem_fileChunks_seven rfl
  have hreach : Reaches (sessions Sample.env) (honest Sample.env {[7]}) State.init τ :=
    State.reaches_exec_of (fun σ τ _ hℓ => honest_session rfl (fun _ => hchunks) hℓ σ τ) hexec
  exact ⟨τ, ⟨_, hindex⟩, hempty, (index_and_recipes_sound (Set.injOn_singleton _ _) .refl hreach
    (Sample.freshUpTo hdrawn)).1⟩

end DedupServer
