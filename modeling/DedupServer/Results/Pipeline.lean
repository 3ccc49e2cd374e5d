import DedupServer.Threads.Written
import DedupServer.Model.Script

/-! # The pipeline drains

Whatever the interleaving of `receive_file` with its two writers, once both have been joined the disk is as
if every container and every recipe entry had been written at once. -/

namespace DedupServer

open Foundations

variable {env : Env} {σ₀ σ : Pipeline}

/-- **After both joins** the containers written are those pushed, in their order and with the bytes they had
when they were pushed; they have different names, each of them is on disk, and every other container file is
as the other sessions left it. The recipe file is the count followed by the entries in the order they were
produced. -/
theorem pipeline_drains (hbegun : σ₀.Begun env)
    (hrun : (pipelineMachine env).Run Pipeline.uploads σ₀ σ)
    (hfresh : env.FreshUpTo σ.server.drawn) (hjoined : σ.pc = .joined) :
    σ.faulted = false ∧ σ.saved = σ.pushed ∧ (σ.pushed.map Prod.fst).Nodup ∧
      (∀ f ∈ σ.pushed, σ.server.containers.lookup f.1 = some f.2) ∧
      (∀ id ∉ σ.pushed.map Prod.fst, σ.server.containers.lookup id = σ.foreign.lookup id) ∧
      σ.server.recipes.lookup σ.recipeNameHash =
        some (encodeTotalChunkNum σ.entries.length ++ encodeEntries σ.entries) := by
  have hinv := hbegun.invariant.run hrun hfresh
  have hsaved : σ.pushed = σ.saved := hinv.pushed_of_joined hjoined
  refine ⟨hinv.memory.sound, hsaved.symm, (List.nodup_append.mp hinv.named.nodup).1, ?_,
    hinv.onDisk.foreign, hinv.recipe_of_joined hjoined⟩
  rw [hsaved]
  exact hinv.onDisk.saved

namespace Sample

/-- A step of one of the threads of the upload. -/
def Internal : PipelineAct → Bool
  | .message _ | .others _ => false
  | _ => true

/-- A message that is within the buffers, and what the threads do then. -/
theorem run_message {τ υ : Pipeline} {msg : DataMsg} {acts : List PipelineAct}
    (hok : msg.header.dataMsgType = .FILEEND ∨ msg.InBounds (picks 1 τ.queries).length)
    (hacts : ∀ a ∈ acts, Internal a = true)
    (hexec : (pipelineMachine Sample.env).exec τ (.message msg :: acts) = some υ) :
    (pipelineMachine Sample.env).Run Pipeline.uploads τ υ := by
  rw [Machine.exec_cons] at hexec
  obtain ⟨τ', hstep, hrest⟩ := Option.bind_eq_some_iff.mp hexec
  refine .head hstep hok (Machine.run_of_exec (fun s a ha t => ?_) hrest)
  have hinternal := hacts a ha
  cases a with
  | message => cases hinternal
  | others => cases hinternal
  | _ => trivial

/-- A block of zeros. -/
def zeros (size : ℕ) : Block := ⟨size, List.replicate size 0, List.length_replicate⟩

/-- An upload that has just been registered. -/
def begun : Pipeline where
  server := { Server.init with drawn := 1 }
  heap := fun p => if p = 0 then some (zeros CONTAINERSIZE) else
    if p = 1 then some (zeros recipeBufferSize) else none
  faulted := false
  pc := .receiving
  hashList := []
  answers := []
  duplicatedChunkAddr := []
  containerBuffer := ⟨Sample.env.uuid 0, 0, CONTAINERSIZE, 0⟩
  recipeBuffer := ⟨0, 1⟩
  containerQueue := .new 1000
  recipeQueue := .new 1000
  recipeNameHash := [65]
  containerThread := .popping
  recipeThread := .opening
  pushed := []
  saved := []
  entries := []
  foreign := ∅

/-- A message that asks for one hash. -/
def query : DataMsg := ⟨⟨.UPLOADBODY, 0, 1, 0, sizeofDataMsg + 32⟩, List.replicate 32 7⟩

/-- A message with a chunk of one byte. -/
def chunk : DataMsg := ⟨⟨.UPLOADBODY, 1, 0, 1, sizeofDataMsg + 1⟩, [7]⟩

/-- The end of the file. -/
def ending : DataMsg := ⟨⟨.FILEEND, 0, 0, 0, sizeofDataMsg⟩, []⟩

theorem begun_begun : begun.Begun Sample.env where
  sound := rfl
  pc := rfl
  hashList := rfl
  owned := by
    refine ⟨by decide, fun b hb => ?_⟩
    rcases List.mem_cons.mp hb with rfl | hb
    · exact ⟨zeros CONTAINERSIZE, rfl, rfl⟩
    · obtain rfl := List.mem_singleton.mp hb
      exact ⟨zeros recipeBufferSize, rfl, rfl⟩
  container := ⟨rfl, rfl⟩
  recipe := rfl
  named := ⟨0, Nat.zero_lt_one, rfl⟩
  containerQueue := rfl
  recipeQueue := rfl
  containerThread := rfl
  recipeThread := rfl
  pushed := rfl
  saved := rfl
  entries := rfl
  foreign := rfl

/-- The upload has ended. -/
def ended (σ : Pipeline) : Bool :=
  match σ.pc with
  | .joined => true
  | _ => false

theorem joined_of_ended {σ : Pipeline} (h : ended σ = true) : σ.pc = .joined := by
  unfold ended at h
  split at h
  · assumption
  · cases h

/-- The end of the upload: the serving thread first, then the writers. -/
def closing : List PipelineAct :=
  List.replicate 4 .receiver ++ List.replicate 5 .containerThread ++ List.replicate 6 .recipeThread ++
    List.replicate 2 .receiver

end Sample

/-- One chunk of one byte; the writers go on only after the end of the file. -/
theorem pipeline_drains_sample : ∃ σ : Pipeline, σ.pc = .joined ∧ σ.saved = σ.pushed ∧
    σ.pushed = [(Sample.env.uuid 0, [7])] ∧
    σ.server.recipes.lookup [65] = some (encodeTotalChunkNum 1 ++
      encodeEntries [⟨Sample.env.uuid 0, 0, 1⟩]) := by
  let M := pipelineMachine Sample.env
  have hrun : (M.exec Sample.begun (.message Sample.query :: List.replicate 2 .receiver)).any (fun τ =>
      decide ((picks 1 τ.queries).length = 1) &&
        (M.exec τ (.message Sample.chunk :: List.replicate 5 .receiver)).any fun υ =>
          (M.exec υ (.message Sample.ending :: Sample.closing)).any fun σ =>
            Sample.ended σ && decide (σ.server.drawn = 1 ∧ σ.recipeNameHash = [65] ∧
              σ.pushed = [(Sample.env.uuid 0, [7])] ∧
              σ.entries = [⟨Sample.env.uuid 0, 0, 1⟩])) = true := by
    decide +kernel
  obtain ⟨τ, hquery, hτ⟩ := (Option.any_eq_true _ _).mp hrun
  obtain ⟨hcount, hτ⟩ := (Bool.and_eq_true _ _).mp hτ
  obtain ⟨υ, hchunk, hυ⟩ := (Option.any_eq_true _ _).mp hτ
  obtain ⟨σ, hend, hσ⟩ := (Option.any_eq_true _ _).mp hυ
  obtain ⟨hended, hσ⟩ := (Bool.and_eq_true _ _).mp hσ
  obtain ⟨hdrawn, hname, hpushed, hentries⟩ := of_decide_eq_true hσ
  have hjoined : σ.pc = .joined := Sample.joined_of_ended hended
  -- each message is within the buffers
  have hfirst : M.Run Pipeline.uploads Sample.begun τ := by
    refine Sample.run_message (.inr ⟨rfl, ?_, ?_, ?_, ?_⟩) (by decide) hquery
    · decide
    · decide
    · decide
    · exact Nat.zero_le _
  have hsecond : M.Run Pipeline.uploads τ υ := by
    refine Sample.run_message (.inr ?_) (by decide) hchunk
    rw [of_decide_eq_true hcount]
    exact ⟨rfl, by decide, by decide, by decide, by decide⟩
  have hthird : M.Run Pipeline.uploads υ σ := Sample.run_message (.inl rfl) (by decide) hend
  obtain ⟨-, hsaved, -, -, -, hrecipe⟩ := pipeline_drains Sample.begun_begun
    ((hfirst.trans hsecond).trans hthird) (Sample.freshUpTo (hdrawn ▸ (by decide))) hjoined
  refine ⟨σ, hjoined, hsaved, hpushed, ?_⟩
  rw [hname, hentries] at hrecipe
  exact hrecipe

end DedupServer
