import DedupServer.Model.System

/-! # Runs step by step

A run may be given by its steps and computed (`State.exec`). What is computed this way is a run
(`State.reaches_exec`), so that a single behaviour of the system can be exhibited by evaluating
it. `Sample` is an environment for that: strings of at most 32 bytes are their own hashes. -/

namespace DedupServer

open Foundations

/-- One step, when it is possible. -/
def State.exec1 (env : Env) (σ : State) (ℓ : Label ℕ Act Arg) : Option State := (sessions env).exec1 σ ℓ

/-- **The state after the given steps**, when they are all possible. -/
def State.exec (env : Env) (σ : State) (steps : List (Label ℕ Act Arg)) : Option State :=
  steps.foldlM (State.exec1 env) σ

/-- A computed step is a step. -/
theorem State.step_exec1 {env : Env} {σ τ : State} {ℓ : Label ℕ Act Arg}
    (h : σ.exec1 env ℓ = some τ) : Step (sessions env) σ ℓ τ :=
  Processes.step_exec1 h

/-- **Computed steps are a run**, under any condition they can be shown to meet on the way. -/
theorem State.reaches_exec {env : Env} {ok : Condition} {I : State → Prop}
    {steps : List (Label ℕ Act Arg)} {σ τ : State}
    (hok : ∀ σ τ, ∀ ℓ ∈ steps, I σ → Step (sessions env) σ ℓ τ → ok σ ℓ τ ∧ I τ) (hσ : I σ)
    (h : σ.exec env steps = some τ) : Reaches (sessions env) ok σ τ := by
  induction steps generalizing σ with
  | nil =>
    obtain rfl := Option.some.inj h
    exact .refl
  | cons ℓ steps ih =>
    rw [State.exec, List.foldlM_cons] at h
    obtain ⟨υ, hυ, hrest⟩ := Option.bind_eq_some_iff.mp h
    have hstep := State.step_exec1 hυ
    obtain ⟨hfirst, hIυ⟩ := hok σ υ ℓ List.mem_cons_self hσ hstep
    exact .head ⟨ℓ, hstep, hfirst⟩
      (ih (fun σ τ ℓ hℓ => hok σ τ ℓ (List.mem_cons_of_mem _ hℓ)) hIυ hrest)

/-- The same for a condition on the kind of step. -/
theorem State.reaches_exec_of {env : Env} {ok : Condition} {steps : List (Label ℕ Act Arg)}
    {σ τ : State} (hok : ∀ σ τ, ∀ ℓ ∈ steps, ok σ ℓ τ) (h : σ.exec env steps = some τ) :
    Reaches (sessions env) ok σ τ :=
  State.reaches_exec (I := fun _ => True) (fun σ τ ℓ hℓ _ _ => ⟨hok σ τ ℓ hℓ, trivial⟩) trivial h

/-- The same, for a condition that is checked at every step. -/
def State.execChecked (env : Env) (check : State → Label ℕ Act Arg → State → Bool) (σ : State)
    (steps : List (Label ℕ Act Arg)) : Option State :=
  (sessions env).execChecked check σ steps

/-- Only the sessions below `n` have joined. -/
def State.Within (n : ℕ) (σ : State) : Prop := ∀ k, n ≤ k → σ.locals k = none

theorem State.within_init (n : ℕ) : State.init.Within n := fun _ _ => rfl

theorem State.Within.step {env : Env} {n : ℕ} {σ τ : State} {ℓ : Label ℕ Act Arg} (hσ : σ.Within n)
    (hs : Step (sessions env) σ ℓ τ) (howner : ℓ.owner < n) : τ.Within n := by
  intro k hk
  rw [hs.locals_of_ne (howner.trans_le hk).ne']
  exact hσ k hk

/-- **Checked steps are a run** of the sessions below `n`. -/
theorem State.reaches_checked {env : Env} {ok : Condition} {n : ℕ}
    {check : State → Label ℕ Act Arg → State → Bool} {steps : List (Label ℕ Act Arg)} {σ τ : State}
    (howner : ∀ ℓ ∈ steps, ℓ.owner < n)
    (hok : ∀ σ ℓ τ, σ.Within n → τ.Within n → ℓ ∈ steps → check σ ℓ τ = true → ok σ ℓ τ)
    (hσ : σ.Within n) (h : σ.execChecked env check steps = some τ) :
    Reaches (sessions env) ok σ τ ∧ τ.Within n := by
  refine Processes.reaches_execChecked (fun σ ℓ τ hσ hstep hℓ hcheck => ?_) hσ h
  have hwithin := hσ.step hstep (howner ℓ hℓ)
  exact ⟨hok σ ℓ τ hσ hwithin hℓ hcheck, hwithin⟩

/-- Sessions that take no step stay as they are. -/
theorem State.locals_exec {env : Env} {steps : List (Label ℕ Act Arg)} {σ τ : State}
    (h : σ.exec env steps = some τ) {k : ℕ} (hk : ∀ ℓ ∈ steps, ℓ.owner ≠ k) :
    τ.locals k = σ.locals k := by
  induction steps generalizing σ with
  | nil =>
    obtain rfl := Option.some.inj h
    rfl
  | cons ℓ steps ih =>
    rw [State.exec, List.foldlM_cons] at h
    obtain ⟨υ, hυ, hrest⟩ := Option.bind_eq_some_iff.mp h
    rw [ih hrest fun ℓ hℓ => hk ℓ (List.mem_cons_of_mem _ hℓ)]
    exact (State.step_exec1 hυ).locals_of_ne (hk ℓ List.mem_cons_self).symm

theorem State.Within.exec {env : Env} {n : ℕ} {steps : List (Label ℕ Act Arg)} {σ τ : State}
    (howner : ∀ ℓ ∈ steps, ℓ.owner < n) (hσ : σ.Within n) (h : σ.exec env steps = some τ) :
    τ.Within n := by
  intro k hk
  rw [State.locals_exec h fun ℓ hℓ => ((howner ℓ hℓ).trans_le hk).ne]
  exact hσ k hk

namespace Sample

/-- The hash of a short string is the string, filled with zeros. -/
def env : Env where
  hash data := (data ++ List.replicate HASHSIZE 0).take HASHSIZE
  hash_length data := by simp
  uuid k := ⟨[UInt8.ofNat (k % 255 + 1)], by
    rw [List.mem_singleton]
    intro h
    have h' := congrArg UInt8.toNat h
    rw [UInt8.toNat_ofNat'] at h'
    simp only [UInt8.toNat_zero] at h'
    omega, by simp⟩

/-- The first ids are all different. -/
theorem freshUpTo {n : ℕ} (hn : n ≤ 255) : env.FreshUpTo n := by
  intro k hk k' hk' h
  have h' := congrArg (fun c : ContainerID => c.chars.map UInt8.toNat) h
  simp only [env, List.map_cons, List.map_nil, List.cons.injEq, and_true,
    UInt8.toNat_ofNat'] at h'
  rw [Set.mem_Iio] at hk hk'
  omega

/-- Two strings of different hashes do not collide. -/
theorem collisionFreeOn_pair {x y : Bytes} (hne : env.generateHash x ≠ env.generateHash y) :
    env.CollisionFreeOn {x, y} := by
  apply Set.injOn_pair.mpr
  intro heq
  exact absurd heq hne

/-- The file of one byte, which most of the runs upload, is one chunk. -/
theorem fileChunks_seven : fileChunks env [7] = [[7]] := by
  decide +kernel

theorem fileChunks_eight : fileChunks env [8] = [[8]] := by
  decide +kernel

theorem mem_of_mem_fileChunks_seven {S : Set Bytes} (h : [7] ∈ S) : ∀ x ∈ fileChunks env [7], x ∈ S := by
  rw [fileChunks_seven]
  simpa using h

/-- A whole chunk. -/
def block : Bytes := List.replicate CHUNKSIZE 7

/-- A file of three chunks, of which the first two are equal and the last one is short. -/
def ragged : Bytes := block ++ (block ++ [7])

/-- A client that uploads the file. -/
def upload (client_id : Int) (file_path file : Bytes) : Arg :=
  ⟨client_id, 117, file_path, file, false, List.replicate (CHUNKSIZE * BATCHSIZE) 0, by simp⟩

/-- A client that downloads a file; the reply buffer of its connection contains `junk`. -/
def download (client_id : Int) (file_path : Bytes) (junk : UInt8) : Arg :=
  ⟨client_id, 100, file_path, [], false, List.replicate (CHUNKSIZE * BATCHSIZE) junk, by simp⟩

/-- Session `i` takes some steps. -/
def acts (i : ℕ) (steps : List Act) : List (Label ℕ Act Arg) := steps.map (.act i)

/-- Session `i` joins and takes some steps. -/
def session (i : ℕ) (arg : Arg) (steps : List Act) : List (Label ℕ Act Arg) :=
  .spawn i arg :: acts i steps

theorem owner_acts {i : ℕ} {steps : List Act} {ℓ : Label ℕ Act Arg} (h : ℓ ∈ acts i steps) :
    ℓ.owner = i := by
  obtain ⟨a, -, rfl⟩ := List.mem_map.mp h
  rfl

@[simp] theorem spawn_mem_acts {i j : ℕ} {arg : Arg} {steps : List Act} :
    .spawn i arg ∈ acts j steps ↔ False := by
  simp [acts]

@[simp] theorem spawn_mem_session {i j : ℕ} {arg arg' : Arg} {steps : List Act} :
    .spawn i arg ∈ session j arg' steps ↔ i = j ∧ arg = arg' := by
  simp [session]

theorem owner_session {i : ℕ} {arg : Arg} {steps : List Act} {ℓ : Label ℕ Act Arg}
    (h : ℓ ∈ session i arg steps) : ℓ.owner = i := by
  rcases List.mem_cons.mp h with rfl | h
  · rfl
  · exact owner_acts h

/-- The steps of an upload of one batch up to `FILEEND`: the writers have not moved yet. -/
def sending : List Act :=
  [.server, .server, .server, .server, .client, .server, .server, .client, .server, .server]

/-- The rest of it: the writers, when there are `n` containers to save, and the end. -/
def saving (n : ℕ) : List Act :=
  (List.replicate n [Act.dataWriter, .dataWriter]).flatten ++ [.dataWriter, .recipeWriter,
    .recipeWriter, .recipeWriter, .recipeWriter, .server, .server, .client]

/-- The steps of the download of a file of at most one block. -/
def receiving : List Act :=
  [.server, .server, .server, .client, .server, .client, .server, .client, .server, .client]

end Sample

end DedupServer
