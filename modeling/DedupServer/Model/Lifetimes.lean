import DedupServer.Foundations.Lifetimes
import DedupServer.Model.Script

/-! # Killing the server

The server has no orderly stop: it runs until it is killed, and may be started again. The table of
files and the two directories outlive it; `m_all_chunks` does not, since the constructor of
`DedupServer` begins with an empty map and reads neither the table nor the directories. The
sessions are gone, with their queues and buffers.

A file that was being written when the server was killed may be left with any content. For
containers this is the one that `save_container` has in its hands; for recipes it is the file of
every `write_recipe` that has not returned, since its stream keeps what it likes in its buffer. -/

namespace DedupServer

open Foundations

/-- `save_container` is writing the container. -/
def Session.Saves (s : Session) (id : ContainerID) : Prop :=
  ∃ tmpContainer, s.conn.dataWriter = .saving tmpContainer ∧ tmpContainer.containerID = id

/-- `write_recipe` has begun and has not closed its file yet. -/
def RecipeWriter.isOpen : RecipeWriter → Bool
  | .opening | .waiting _ _ | .writing _ _ _ => true
  | .idle | .finished | .joined => false

/-- `write_recipe` is at work on the recipe file. -/
def Session.WritesRecipe (s : Session) (recipeNameHash : Bytes) : Prop :=
  s.conn.recipeWriter.isOpen = true ∧ s.conn.recipeNameHash = recipeNameHash

/-- **What the server finds when it is started again** after it was killed in the state `σ`. -/
structure State.Leaves (σ : State) (sv : Server) : Prop where
  files : sv.files = σ.shared.files
  allChunks : sv.allChunks = fun _ => none
  containers : ∀ id, sv.containers.lookup id = σ.shared.containers.lookup id ∨
    ∃ i s, σ.locals i = some s ∧ s.Saves id
  recipes : ∀ path, sv.recipes.lookup path = σ.shared.recipes.lookup path ∨
    ∃ i s, σ.locals i = some s ∧ s.WritesRecipe path
  drawn : sv.drawn = σ.shared.drawn

/-- A server that has just been started, and nobody has connected yet. -/
def Server.started (sv : Server) : State := ⟨sv, fun _ => none⟩

@[simp] theorem Server.started_shared (sv : Server) : sv.started.shared = sv := rfl

@[simp] theorem Server.started_locals (sv : Server) (i : ℕ) : sv.started.locals i = none := rfl

/-- The server when it has been killed while no file was being written. -/
def Server.restarted (sv : Server) : Server := { sv with allChunks := fun _ => none }

/-- Being killed between two writes is one way to be killed. -/
theorem State.leaves_restarted (σ : State) : σ.Leaves σ.shared.restarted :=
  ⟨rfl, rfl, fun _ => .inl rfl, fun _ => .inl rfl, rfl⟩

/-- **The life of the server**, from one state to another, with all that happens in between. -/
abbrev ServerLife (env : Env) (ok : Condition) :
    State → List (Happening ℕ Server Session Act Arg) → State → Prop :=
  Life (sessions env) ok State.Leaves

/-- The ids that have been drawn are all different. -/
def freshIds (env : Env) : Condition := fun _ _ τ => env.FreshUpTo τ.shared.drawn

/-! ## Lives step by step -/

/-- The server when it has been killed while session `i` was saving a container, of which nothing has
reached the disk. -/
def State.tornAt (σ : State) (i : ℕ) : Server :=
  match (σ.locals i).map fun s : Session => s.conn.dataWriter with
  | some (.saving tmpContainer) =>
    { σ.shared.restarted with
      containers := σ.shared.containers.insert tmpContainer.containerID [] }
  | _ => σ.shared.restarted

theorem State.leaves_tornAt (σ : State) (i : ℕ) : σ.Leaves (σ.tornAt i) := by
  unfold State.tornAt
  split
  · rename_i tmpContainer hsaving
    obtain ⟨s, hs, hwriter⟩ := Option.map_eq_some_iff.mp hsaving
    refine ⟨rfl, rfl, fun id => ?_, fun _ => .inl rfl, rfl⟩
    by_cases hid : id = tmpContainer.containerID
    · exact .inr ⟨i, s, hs, tmpContainer, hwriter, hid.symm⟩
    · exact .inl (AList.lookup_insert_ne hid)
  · exact σ.leaves_restarted

/-- What happens in an execution. -/
def State.happenings (env : Env) : State → List (Label ℕ Act Arg) →
    List (Happening ℕ Server Session Act Arg)
  | _, [] => []
  | σ, ℓ :: steps =>
    match σ.exec1 env ℓ with
    | none => []
    | some τ => .step σ ℓ τ :: τ.happenings env steps

/-- **Checked steps are a life** without a kill. -/
theorem ServerLife.of_checked {env : Env} {ok : Condition} {n : ℕ}
    {check : State → Label ℕ Act Arg → State → Bool} {steps : List (Label ℕ Act Arg)} {σ τ : State}
    (howner : ∀ ℓ ∈ steps, ℓ.owner < n)
    (hok : ∀ σ ℓ τ, σ.Within n → τ.Within n → ℓ ∈ steps → check σ ℓ τ = true → ok σ ℓ τ)
    (hσ : σ.Within n) (h : σ.execChecked env check steps = some τ) :
    ServerLife env ok σ (σ.happenings env steps) τ := by
  induction steps generalizing σ with
  | nil =>
    obtain rfl := Option.some.inj h
    exact .refl σ
  | cons ℓ steps ih =>
    obtain ⟨υ, hυ, h⟩ := Option.bind_eq_some_iff.mp h
    split_ifs at h with hcheck
    have hstep := State.step_exec1 hυ
    have hwithin := hσ.step hstep (howner ℓ List.mem_cons_self)
    have hrest := ih (fun ℓ hℓ => howner ℓ (List.mem_cons_of_mem _ hℓ))
      (fun σ ℓ τ hσ hτ hℓ => hok σ ℓ τ hσ hτ (List.mem_cons_of_mem _ hℓ)) hwithin h
    have hfirst : ServerLife env ok σ [.step σ ℓ υ] υ :=
      (Life.refl σ).step hstep (hok σ ℓ υ hσ hwithin List.mem_cons_self hcheck)
    rw [State.happenings, State.exec1, hυ]
    exact hfirst.trans hrest

end DedupServer
