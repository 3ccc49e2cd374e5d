import DedupServer.Store.Lives
import DedupServer.Threads.Uploads

/-! # The containers of all uploads

The containers are append-only logs (`UploadPool`), each owned by the upload that has drawn its id, or by
nobody when it was on disk before. A log has a byte from the moment at which a chunk is copied, while the
container moves from the serving thread to the queue, to the writer and to disk. What an upload has in its
buffers is its logs (`Pipeline.Holding`), and what it does to the logs and to the server (`UploadGuarantee`)
leaves those of the others as they are: the argument is a rely/guarantee one (`uploadOwnership`). -/

namespace DedupServer

open Foundations

/-- The containers that have been created, each with the upload that fills it and all bytes it was given. -/
abbrev UploadPool := Logs ContainerID (Option Bytes) UInt8

variable {env : Env} {S : Set Bytes} {P P' : UploadPool} {sv sv' : Server} {i j : Bytes}

/-- The chunk `x` is one of `S` with this hash. -/
def GoodChunk (env : Env) (S : Set Bytes) (hash x : Bytes) : Prop := x ∈ S ∧ env.generateHash x = hash

/-- **The address resolves** to a chunk with this hash. -/
def UploadPool.Resolves (env : Env) (S : Set Bytes) (P : UploadPool) (hash : Bytes) (a : ChunkAddr) : Prop :=
  ∃ x ≠ [], GoodChunk env S hash x ∧ Holds P a.containerID a.offset.toNat a.size.toNat x

/-- **What upload `i` does** to the logs and to the server. -/
structure UploadGuarantee (env : Env) (i : Bytes) (P : UploadPool) (sv : Server) (P' : UploadPool)
    (sv' : Server) : Prop where
  grows : GrowsBy (some i) P P'
  drawn : sv.drawn ≤ sv'.drawn
  fresh : env.FreshUpTo sv'.drawn
  containers : ∀ id, (∀ l, P' id ≠ some (some i, l)) → sv'.containers.lookup id = sv.containers.lookup id
  recipes : ∀ path ≠ i, sv'.recipes.lookup path = sv.recipes.lookup path
  files : sv.files ⊆ sv'.files

/-- **The server agrees with the logs.** -/
structure UploadPool.Sound (env : Env) (S : Set Bytes) (P : UploadPool) (sv : Server) : Prop where
  /-- What was on disk before stays there. -/
  before : ∀ id l, P id = some (none, l) → sv.containers.lookup id = some l
  drawn : ∀ id o l, P id = some (o, l) → ∃ k < sv.drawn, id = env.uuid k
  named : sv.Named env
  index : sv.Indexed (P.Resolves env S)

/-- **What an upload has in its buffers** is its logs, and its entries stand for what was asked. -/
structure Pipeline.Holding (env : Env) (S : Set Bytes) (i : Bytes) (P : UploadPool) (σ : Pipeline)
    (asked : List Bytes) : Prop where
  invariant : σ.Invariant env
  recipeNameHash : σ.recipeNameHash = i
  logs : ∀ b ∈ σ.buffers, P b.1 = some (some i, b.2)
  located : ∀ id l, P id = some (some i, l) → l = [] ∨ (id, l) ∈ σ.buffers
  entries : σ.Matches (P.Resolves env S) (GoodChunk env S) asked

/-- Addresses go on resolving. -/
theorem UploadPool.Resolves.mono {o : Option Bytes} (hgrows : GrowsBy o P P') {hash : Bytes} {a : ChunkAddr}
    (h : P.Resolves env S hash a) : P'.Resolves env S hash a := by
  obtain ⟨x, hne, hgood, hholds⟩ := h
  exact ⟨x, hne, hgood, hholds.mono hgrows⟩

/-- The next id is the name of no container. -/
theorem UploadPool.next_eq_none {n : ℕ} (hdrawn : ∀ id o l, P id = some (o, l) → ∃ k < n, id = env.uuid k)
    (hfresh : env.FreshUpTo (n + 1)) : P (env.uuid n) = none := by
  cases hP : P (env.uuid n) with
  | none => rfl
  | some ol =>
    obtain ⟨k, hk, hid⟩ := hdrawn _ ol.1 ol.2 hP
    have hsame := hfresh (Set.mem_Iio.mpr (Nat.lt_succ_self n)) (Set.mem_Iio.mpr (by omega)) hid
    omega

namespace Pipeline

variable {σ σ' : Pipeline} {asked : List Bytes} {a : PipelineAct}

/-- The invariant of an upload when the others have moved. -/
theorem Invariant.see (h : σ.Invariant env) (hdrawn : σ.server.drawn ≤ sv'.drawn)
    (hrecipe : sv'.recipes.lookup σ.recipeNameHash = σ.server.recipes.lookup σ.recipeNameHash)
    (hcontainers : ∀ id ∈ σ.pushed.map Prod.fst,
      sv'.containers.lookup id = σ.server.containers.lookup id)
    (hfresh : env.FreshUpTo sv'.drawn) : (σ.see sv').Invariant env := by
  have hreceiving : Receiving (σ.see sv') := h.receiving.of_eq rfl rfl rfl rfl
  exact h.moves hreceiving (.others hdrawn hrecipe hcontainers) hfresh

/-- The buffers do not depend on what is shared. -/
theorem buffers_see (σ : Pipeline) (sv : Server) : (σ.see sv).buffers = σ.buffers := rfl

/-- The containers that have been pushed are among the buffers. -/
theorem Holding.owned_pushed (h : σ.Holding env S i P asked) {id : ContainerID}
    (hid : id ∈ σ.pushed.map Prod.fst) : ∃ l, P id = some (some i, l) := by
  obtain ⟨b, hb, rfl⟩ := List.mem_map.mp hid
  exact ⟨b.2, h.logs b (List.mem_append_left _ hb)⟩

/-- **An upload does not notice what another one does.** -/
theorem Holding.stable (h : (σ.see sv).Holding env S j P asked) (hne : j ≠ i)
    (hguar : UploadGuarantee env i P sv P' sv') : (σ.see sv').Holding env S j P' asked := by
  have hforeign : ∀ id l, P' id = some (some j, l) ↔ P id = some (some j, l) := fun id l =>
    hguar.grows.foreign id (some j) l (by simpa using hne)
  have hrecipe : sv'.recipes.lookup σ.recipeNameHash = sv.recipes.lookup σ.recipeNameHash :=
    hguar.recipes _ (ne_of_eq_of_ne h.recipeNameHash hne)
  refine ⟨?_, h.recipeNameHash, ?_, ?_, ?_⟩
  · refine h.invariant.see hguar.drawn hrecipe (fun id hid => ?_) hguar.fresh
    apply hguar.containers id
    intro l hl
    obtain ⟨l', hl'⟩ := h.owned_pushed hid
    rw [(hforeign id l').mpr hl'] at hl
    simp [hne] at hl
  · intro b hb
    exact (hforeign _ _).mpr (h.logs b hb)
  · intro id l hl
    exact h.located id l ((hforeign id l).mp hl)
  · exact (h.entries.mono fun _ _ hr => hr.mono hguar.grows).of_eq rfl rfl rfl rfl

/-- What it holds does not depend on the registry. -/
theorem Holding.of_eq (h : (σ.see sv).Holding env S i P asked) (hfresh : env.FreshUpTo sv'.drawn)
    (hdrawn : sv'.drawn = sv.drawn) (hcontainers : sv'.containers = sv.containers)
    (hrecipes : sv'.recipes = sv.recipes) : (σ.see sv').Holding env S i P asked := by
  refine ⟨?_, h.recipeNameHash, h.logs, h.located, h.entries.of_eq rfl rfl rfl rfl⟩
  exact h.invariant.see hdrawn.ge (by rw [hrecipes]; rfl) (fun _ _ => by rw [hcontainers]; rfl) hfresh

/-- **The logs after a step** `a`: what the step does to the buffers is done to the logs, and the address that
it hands out is that of the chunk it has appended. -/
structure Logged (env : Env) (i : Bytes) (P : UploadPool) (σ : Pipeline) (a : PipelineAct) (σ' : Pipeline)
    (P' : UploadPool) : Prop where
  grows : GrowsBy (some i) P P'
  logs : ∀ b ∈ σ'.buffers, P' b.1 = some (some i, b.2)
  located : ∀ id l, P' id = some (some i, l) → l = [] ∨ (id, l) ∈ σ'.buffers
  drawn : ∀ id o l, P' id = some (o, l) → ∃ k < σ'.server.drawn, id = env.uuid k
  handed : ∀ e ∈ σ.handedOut a, Holds P' e.1.containerID e.1.offset.toNat e.1.size.toNat e.2

section Logs

variable (h : σ.Holding env S i P asked)
  (hdrawn : ∀ id o l, P id = some (o, l) → ∃ k < σ.server.drawn, id = env.uuid k)
include h hdrawn

/-- **A container is begun** under an id that nobody has drawn before. -/
theorem Holding.opened (hnext : σ'.server.drawn = σ.server.drawn + 1) (hfresh : env.FreshUpTo σ'.server.drawn)
    (hout : σ.handedOut a = []) (hbuffers : σ'.buffers = σ.buffers ++ [(env.uuid σ.server.drawn, [])]) :
    Logged env i P σ a σ' (P.opened (env.uuid σ.server.drawn) (some i)) := by
  have hnone := UploadPool.next_eq_none hdrawn (hnext ▸ hfresh)
  refine ⟨Logs.growsBy_opened hnone, fun b hb => ?_, fun id l hl => ?_, fun id o l hl => ?_, fun e he => ?_⟩
  · rw [hbuffers] at hb
    rcases List.mem_append.mp hb with hb | hb
    · have hlog := h.logs b hb
      have hne : b.1 ≠ env.uuid σ.server.drawn := by
        intro heq
        rw [heq, hnone] at hlog
        cases hlog
      rw [Logs.opened_of_ne hne]
      exact hlog
    · obtain rfl := List.mem_singleton.mp hb
      exact Logs.opened_self
  · by_cases hid : id = env.uuid σ.server.drawn
    · subst hid
      rw [Logs.opened_self] at hl
      exact .inl (Prod.mk.inj (Option.some.inj hl)).2.symm
    · rw [Logs.opened_of_ne hid] at hl
      rw [hbuffers]
      exact (h.located id l hl).imp_right (List.mem_append_left _)
  · by_cases hid : id = env.uuid σ.server.drawn
    · exact ⟨σ.server.drawn, by omega, hid⟩
    · rw [Logs.opened_of_ne hid] at hl
      obtain ⟨k, hk, hid⟩ := hdrawn id o l hl
      exact ⟨k, by omega, hid⟩
  · rw [hout] at he
    cases he

/-- **A chunk is copied** to the end of the container being filled. -/
theorem Holding.appended (hle : σ.server.drawn ≤ σ'.server.drawn) {e : ChunkAddr × Bytes} {content : Bytes}
    (hout : σ.handedOut a = [e]) (hbuffers : σ.buffers = σ.pushed ++ [(e.1.containerID, content)])
    (hbuffers' : σ'.buffers = σ.pushed ++ [(e.1.containerID, content ++ e.2)])
    (hoffset : e.1.offset.toNat = content.length) (hsize : e.1.size.toNat = e.2.length) :
    Logged env i P σ a σ' (P.appended e.1.containerID (some i) content e.2) := by
  have hlog : P e.1.containerID = some (some i, content) := by
    apply h.logs (e.1.containerID, content)
    rw [hbuffers]
    exact List.mem_append_right _ List.mem_cons_self
  -- the container being filled is none of those that were pushed
  have hother : ∀ b ∈ σ.pushed, b.1 ≠ e.1.containerID := by
    intro b hb heq
    have hnodup := h.invariant.named.nodup
    rw [← map_fst_buffers, hbuffers, List.map_append] at hnodup
    exact (List.nodup_append.mp hnodup).2.2 _ (List.mem_map_of_mem hb) _ List.mem_cons_self heq
  have hlater : ∀ id o l, P id = some (o, l) → ∃ k < σ'.server.drawn, id = env.uuid k := by
    intro id o l hl
    obtain ⟨k, hk, hid⟩ := hdrawn id o l hl
    exact ⟨k, hk.trans_le hle, hid⟩
  refine ⟨Logs.growsBy_appended hlog, fun b hb => ?_, fun id l hl => ?_, fun id o l hl => ?_,
    fun e' he' => ?_⟩
  · rw [hbuffers'] at hb
    rcases List.mem_append.mp hb with hb | hb
    · rw [Logs.appended_of_ne (hother b hb)]
      apply h.logs b
      rw [hbuffers]
      exact List.mem_append_left _ hb
    · obtain rfl := List.mem_singleton.mp hb
      exact Logs.appended_self
  · rw [hbuffers']
    by_cases hid : id = e.1.containerID
    · subst hid
      rw [Logs.appended_self] at hl
      obtain ⟨-, rfl⟩ := Prod.mk.inj (Option.some.inj hl)
      exact .inr (List.mem_append_right _ List.mem_cons_self)
    · rw [Logs.appended_of_ne hid] at hl
      rcases h.located id l hl with hnil | hmem
      · exact .inl hnil
      · rw [hbuffers] at hmem
        rcases List.mem_append.mp hmem with hmem | hmem
        · exact .inr (List.mem_append_left _ hmem)
        · exact absurd (Prod.mk.inj (List.mem_singleton.mp hmem)).1 hid
  · by_cases hid : id = e.1.containerID
    · exact hid ▸ hlater _ _ _ hlog
    · rw [Logs.appended_of_ne hid] at hl
      exact hlater id o l hl
  · rw [hout] at he'
    obtain rfl := List.mem_singleton.mp he'
    rw [hoffset, hsize]
    exact Logs.holds_appended

/-- **Every step** keeps the logs in step with the buffers. -/
theorem Holding.exists_logged (hf : Fills σ a σ') (hm : Moves env σ σ')
    (hfresh : env.FreshUpTo σ'.server.drawn) : ∃ P', Logged env i P σ a σ' P' := by
  have hlater : ∀ id o l, P id = some (o, l) → ∃ k < σ'.server.drawn, id = env.uuid k := by
    intro id o l hl
    obtain ⟨k, hk, hid⟩ := hdrawn id o l hl
    exact ⟨k, hk.trans_le hm.drawn, hid⟩
  cases hf with
  | keep hout hcontainer hpushed hbuffers =>
    refine ⟨P, .refl _ _, ?_, ?_, hlater, ?_⟩
    · rw [hbuffers]
      exact h.logs
    · rw [hbuffers]
      exact h.located
    · rw [hout]
      exact fun e he => (by cases he)
  | drop id hout hcontainer hpushed hbuffers =>
    refine ⟨P, .refl _ _, fun b hb => ?_, fun id' l hl => ?_, hlater, ?_⟩
    · apply h.logs b
      rw [hbuffers]
      exact List.mem_append_left _ hb
    · rcases h.located id' l hl with hnil | hmem
      · exact .inl hnil
      · rw [hbuffers] at hmem
        rcases List.mem_append.mp hmem with hmem | hmem
        · exact .inr hmem
        · -- the container that is left out was empty
          obtain ⟨-, rfl⟩ := Prod.mk.inj (List.mem_singleton.mp hmem)
          exact .inl rfl
    · rw [hout]
      exact fun e he => (by cases he)
  | renew id hout hcontainer hpushed hbuffers =>
    have hnames : σ'.buffers.map Prod.fst = σ.buffers.map Prod.fst ++ [id] := by
      rw [hbuffers, List.map_append]
      rfl
    rcases hm.names with ⟨ids, hids⟩ | ⟨hids, hnext⟩
    · have hlength := congrArg List.length hids
      rw [hnames, List.length_append, List.length_append, List.length_singleton] at hlength
      omega
    · rw [hnames] at hids
      obtain rfl := List.singleton_inj.mp (List.append_cancel_left hids)
      exact ⟨_, h.opened hdrawn hnext hfresh hout hbuffers⟩
  | copy e content hout hcontainer hpushed hbuffers hbuffers' hoffset hsize =>
    exact ⟨_, h.appended hdrawn hm.drawn hout hbuffers hbuffers' hoffset hsize⟩

end Logs

/-- **A step of an upload** keeps what it has and what is shared in order, within its guarantee. -/
theorem Holding.step (hsound : P.Sound env S sv) (h : (σ.see sv).Holding env S i P asked)
    (hwelcome : (σ.see sv).Welcomes (GoodChunk env S) a) (hok : uploads (σ.see sv) a σ')
    (hstep : (pipelineMachine env).step (σ.see sv) a = some σ') (hfresh : env.FreshUpTo σ'.server.drawn) :
    ∃ P', UploadGuarantee env i P sv P' σ'.server ∧ P'.Sound env S σ'.server ∧
      (σ'.see σ'.server).Holding env S i P' (asked ++ (σ.see sv).queriedBy a) := by
  obtain ⟨hreceiving, hm⟩ := moves_of_step h.invariant.receiving h.invariant.memory hstep hok
  have hinv := h.invariant.moves hreceiving hm hfresh
  have hframe := frame_of_step hwelcome hstep
  obtain ⟨P', hlog⟩ := h.exists_logged hsound.drawn
    (fills_of_step h.invariant.receiving h.invariant.memory hstep) hm hfresh
  have hresolves : ∀ hash a, P.Resolves env S hash a → P'.Resolves env S hash a :=
    fun _ _ hr => hr.mono hlog.grows
  have hnew : ∀ e ∈ (σ.see sv).handedOut a, e.2 ≠ [] → ∀ hash, GoodChunk env S hash e.2 →
      P'.Resolves env S hash e.1 :=
    fun e he hne _ hgood => ⟨e.2, hne, hgood, hlog.handed e he⟩
  have hwhole : ∀ hash x, GoodChunk env S hash x → hash.length = HASHSIZE := by
    rintro hash x ⟨-, rfl⟩
    exact env.length_generateHash x
  -- a container file that is not the upload's own is as the others left it
  have hcontainers : ∀ id, (∀ l, P' id ≠ some (some i, l)) →
      σ'.server.containers.lookup id = sv.containers.lookup id := by
    intro id hid
    have hnot : id ∉ σ'.pushed.map Prod.fst := by
      intro hmem
      obtain ⟨b, hb, rfl⟩ := List.mem_map.mp hmem
      exact hid b.2 (hlog.logs b (List.mem_append_left _ hb))
    rw [hinv.onDisk.foreign id hnot, hframe.foreign]
    rfl
  refine ⟨P', ⟨hlog.grows, hm.drawn, hfresh, hcontainers, ?_, ?_⟩,
    ⟨fun id l hl => ?_, hlog.drawn, fun id hid => ?_, ?_⟩, ?_, ?_, hlog.logs, hlog.located, ?_⟩
  · rw [← h.recipeNameHash]
    exact hframe.recipes
  · rw [hframe.files]
    exact List.Subset.refl _
  · rw [hcontainers id fun l' hl' => (by rw [hl] at hl'; cases hl')]
    exact hsound.before id l ((hlog.grows.foreign id none l (by simp)).mp hl)
  · by_cases hown : ∃ l, P' id = some (some i, l)
    · obtain ⟨l, hl⟩ := hown
      exact hlog.drawn id _ l hl
    · rw [← AList.lookup_isSome, hcontainers id (not_exists.mp hown), AList.lookup_isSome] at hid
      obtain ⟨k, hk, hkid⟩ := hsound.named id hid
      exact ⟨k, hk.trans_le hm.drawn, hkid⟩
  · exact indexed_of_step hsound.index h.entries hresolves hwhole hnew hwelcome hstep
  · exact hinv.see le_rfl rfl (fun _ _ => rfl) hfresh
  · exact hframe.recipeNameHash.trans h.recipeNameHash
  · exact (h.entries.step h.invariant.receiving hsound.index hresolves hnew hwelcome hstep).of_eq
      rfl rfl rfl rfl

end Pipeline

/-! ## All uploads together -/

/-- Nothing has happened to the logs. -/
theorem UploadGuarantee.of_eq (hfresh : env.FreshUpTo sv'.drawn) (hdrawn : sv'.drawn = sv.drawn)
    (hcontainers : sv'.containers = sv.containers) (hrecipes : sv'.recipes = sv.recipes)
    (hfiles : sv.files ⊆ sv'.files) : UploadGuarantee env i P sv P sv' :=
  ⟨.refl _ _, hdrawn.ge, hfresh, fun _ _ => by rw [hcontainers], fun _ _ => by rw [hrecipes], hfiles⟩

/-- What only touches the registry does not matter to the logs. -/
theorem UploadPool.Sound.of_eq (h : P.Sound env S sv) (hdrawn : sv'.drawn = sv.drawn)
    (hcontainers : sv'.containers = sv.containers) (hindex : sv'.allChunks = sv.allChunks) :
    P.Sound env S sv' := by
  refine ⟨hcontainers ▸ h.before, hdrawn ▸ h.drawn, ?_, h.index.of_eq hindex⟩
  rw [Server.Named, hcontainers, hdrawn]
  exact h.named

/-- **Honest uploads**: the ids drawn so far are different, and an upload that joins goes under the name of its
recipe file, and its chunks are among `S`. -/
def honestUploads (env : Env) (S : Set Bytes) : StepCondition Bytes Server UploadThreads UploadAct UploadArg :=
  fun _ ℓ τ => env.FreshUpTo τ.shared.drawn ∧ ∀ i arg, ℓ = .spawn i arg →
    env.recipeNameHash arg.client_id (getFileName arg.file_path) = i ∧ ∀ x ∈ fileChunks env arg.file, x ∈ S

namespace UploadThreads

variable {s s' : UploadThreads}

/-- **What holds of an upload.** -/
structure Local (env : Env) (S : Set Bytes) (i : Bytes) (P : UploadPool) (sv : Server) (s : UploadThreads) :
    Prop where
  honest : s.client.rogue = false
  name : env.recipeNameHash s.client.client_id s.client.fileName = i
  chunks : ∀ x ∈ fileChunks env s.client.file, x ∈ S
  idle : s.registered = false → s.pipeline.pc = .receiving
  files : s.registered = true → (s.client.client_id, s.client.fileName) ∈ sv.files
  protocol : ∃ seen, s.Stage env seen ∧
    (s.pipeline.see sv).Holding env S i P (seen.map env.generateHash)

/-- **The others do not disturb it.** -/
theorem Local.stable (h : s.Local env S j P sv) (hne : j ≠ i) (hguar : UploadGuarantee env i P sv P' sv') :
    s.Local env S j P' sv' := by
  obtain ⟨seen, hstage, hholding⟩ := h.protocol
  exact ⟨h.honest, h.name, h.chunks, h.idle, fun hreg => hguar.files (h.files hreg), seen, hstage,
    hholding.stable hne hguar⟩

/-- **An upload joins.** -/
theorem Local.start {arg : UploadArg} (hsound : P.Sound env S sv) (hidle : ∀ id l, P id ≠ some (some i, l))
    (hfresh : env.FreshUpTo (sv.drawn + 1))
    (hname : env.recipeNameHash arg.client_id (getFileName arg.file_path) = i)
    (hchunks : ∀ x ∈ fileChunks env arg.file, x ∈ S) :
    ∃ P', UploadGuarantee env i P sv P' (start env sv arg).1 ∧ P'.Sound env S (start env sv arg).1 ∧
      (start env sv arg).2.Local env S i P' (start env sv arg).1 := by
  have hnone := UploadPool.next_eq_none hsound.drawn hfresh
  have hold : ∀ {id o l}, P.opened (env.uuid sv.drawn) (some i) id = some (o, l) →
      id = env.uuid sv.drawn ∧ o = some i ∧ l = [] ∨ P id = some (o, l) := by
    intro id o l hl
    by_cases hid : id = env.uuid sv.drawn
    · subst hid
      rw [Logs.opened_self] at hl
      obtain ⟨rfl, rfl⟩ := Prod.mk.inj (Option.some.inj hl)
      exact .inl ⟨rfl, rfl, rfl⟩
    · rw [Logs.opened_of_ne hid] at hl
      exact .inr hl
  have hbegun : Pipeline.Begun env (UploadThreads.start env sv arg).2.pipeline :=
    ⟨rfl, rfl, rfl, arg.owned, ⟨rfl, rfl⟩, rfl, ⟨sv.drawn, Nat.lt_succ_self _, rfl⟩, rfl, rfl, rfl, rfl,
      rfl, rfl, rfl, rfl⟩
  have hbuffers : (UploadThreads.start env sv arg).2.pipeline.buffers = [(env.uuid sv.drawn, [])] := by
    rw [Pipeline.buffers, hbegun.filling, hbegun.pushed, List.map_singleton, Pipeline.containerValue]
    have hread : arg.heap.read arg.containerData 0 = [] := List.take_zero
    show [] ++ [(env.uuid sv.drawn, arg.heap.read arg.containerData 0)] = _
    rw [hread]
    rfl
  have hgrows : GrowsBy (some i) P (P.opened (env.uuid sv.drawn) (some i)) := Logs.growsBy_opened hnone
  refine ⟨P.opened (env.uuid sv.drawn) (some i), ⟨hgrows, Nat.le_succ _, hfresh,
    fun _ _ => rfl, fun _ _ => rfl, List.Subset.refl _⟩, ⟨?_, ?_, fun id hid => ?_, ?_⟩, rfl, hname, hchunks,
    fun _ => rfl, fun hreg => (by cases hreg), [], .accepted rfl rfl rfl rfl rfl rfl, hbegun.invariant, hname,
    ?_, ?_, ?_⟩
  · intro id l hl
    rcases hold hl with ⟨-, ho, -⟩ | hl
    · cases ho
    · exact hsound.before id l hl
  · intro id o l hl
    rcases hold hl with ⟨hid, -⟩ | hl
    · exact ⟨sv.drawn, Nat.lt_succ_self _, hid⟩
    · obtain ⟨k, hk, hid⟩ := hsound.drawn id o l hl
      exact ⟨k, Nat.lt_succ_of_lt hk, hid⟩
  · obtain ⟨k, hk, hkid⟩ := hsound.named id hid
    exact ⟨k, Nat.lt_succ_of_lt hk, hkid⟩
  · exact (hsound.index.mono fun _ _ hr => hr.mono hgrows).of_eq rfl
  · rw [Pipeline.buffers_see, hbuffers]
    intro b hb
    obtain rfl := List.mem_singleton.mp hb
    exact Logs.opened_self
  · intro id l hl
    rcases hold hl with ⟨-, -, hnil⟩ | hl
    · exact .inl hnil
    · exact absurd hl (hidle id l)
  · exact ⟨[], rfl, .nil, .nil⟩

/-- A step of one of the threads of the connection. -/
theorem runs_eq_some {a : PipelineAct} {r : Server × UploadThreads} (h : s.runs env sv a = some r) :
    s.registered = true ∧ ∃ σ', (pipelineMachine env).step (s.pipeline.see sv) a = some σ' ∧
      r = (σ'.server, { s with pipeline := σ' }) := by
  unfold runs at h
  split at h
  · rename_i hreg
    obtain ⟨σ', hstep, rfl⟩ := Option.map_eq_some_iff.mp h
    exact ⟨hreg, σ', hstep, rfl⟩
  · cases h

/-- **A thread of the connection has moved**, and the protocol goes on from there. -/
theorem Local.moved (a : PipelineAct) (s' : UploadThreads) {seen seen' : List Bytes}
    (h : s.Local env S i P sv) (hsound : P.Sound env S sv) (hreg : s.registered = true)
    (hholding : (s.pipeline.see sv).Holding env S i P (seen.map env.generateHash))
    (hwelcome : (s.pipeline.see sv).Welcomes (GoodChunk env S) a)
    (hok : Pipeline.uploads (s.pipeline.see sv) a s'.pipeline)
    (hstep : (pipelineMachine env).step (s.pipeline.see sv) a = some s'.pipeline)
    (hfresh : env.FreshUpTo s'.pipeline.server.drawn) (hclient : s'.client = s.client)
    (hreg' : s'.registered = s.registered) (hstage : s'.Stage env seen')
    (hseen : seen'.map env.generateHash =
      seen.map env.generateHash ++ (s.pipeline.see sv).queriedBy a) :
    ∃ P', UploadGuarantee env i P sv P' s'.pipeline.server ∧ P'.Sound env S s'.pipeline.server ∧
      s'.Local env S i P' s'.pipeline.server := by
  obtain ⟨P', hguar, hsound', hholding'⟩ := hholding.step hsound hwelcome hok hstep hfresh
  rw [← hseen] at hholding'
  refine ⟨P', hguar, hsound', ?_, ?_, ?_, fun hidle => ?_, fun _ => ?_, seen', hstage, hholding'⟩
  · rw [hclient]
    exact h.honest
  · rw [hclient]
    exact h.name
  · rw [hclient]
    exact h.chunks
  · rw [hreg', hreg] at hidle
    cases hidle
  · rw [hclient]
    exact hguar.files (h.files hreg)

/-- A client that is told something is not downloading. -/
theorem Stage.not_awaitBody {seen : List Bytes} (h : s.Stage env seen) (hdown : s.down ≠ []) :
    s.client.pc ≠ .awaitBody := by
  cases h with
  | accepted hcl | replying hcl =>
    rw [hcl]
    decide
  | asking hcl hup hnil | storing hcl hup hnil | last hup hnil | lastStoring hup hnil | ending hup hnil
  | ended hup hnil => exact absurd hnil hdown

/-- **Every action of an upload** keeps what holds of it, within its guarantee. -/
theorem Local.act {act : UploadAct} {r : Server × UploadThreads} (hsound : P.Sound env S sv)
    (h : s.Local env S i P sv) (hr : s.act env sv act = some r) (hfresh : env.FreshUpTo r.1.drawn) :
    ∃ P', UploadGuarantee env i P sv P' r.1 ∧ P'.Sound env S r.1 ∧ r.2.Local env S i P' r.1 := by
  obtain ⟨seen, hstage, hholding⟩ := h.protocol
  have hgood : ∀ x ∈ fileChunks env s.client.file, GoodChunk env S (env.generateHash x) x :=
    fun x hx => ⟨h.chunks x hx, rfl⟩
  cases act with
  | client =>
    simp only [UploadThreads.act] at hr
    split at hr
    on_goal 2 => cases hr
    rename_i m rest hdown
    obtain ⟨c, hc, rfl⟩ := Option.map_eq_some_iff.mp hr
    have hsame := Client.same_react hc
    have hfile : c.1.file = s.client.file := hsame.file (hstage.not_awaitBody (by simp [hdown]))
    refine ⟨P, .of_eq hfresh rfl rfl rfl (List.Subset.refl _), hsound, hsame.rogue.trans h.honest, ?_, ?_,
      h.idle, ?_, seen, hstage.client h.honest hdown hc, hholding⟩
    · have hname := h.name
      rw [Client.fileName] at hname
      rw [Client.fileName, hsame.client_id, hsame.file_path]
      exact hname
    · rw [hfile]
      exact h.chunks
    · rw [Client.fileName, hsame.client_id, hsame.file_path]
      exact h.files
  | register =>
    simp only [UploadThreads.act] at hr
    split at hr
    · cases hr
    · rename_i hreg
      obtain rfl := Option.some.inj hr
      have hsub : sv.files ⊆ (sv.addFile s.client.client_id s.client.fileName).files :=
        List.subset_append_left _ _
      refine ⟨P, .of_eq hfresh rfl rfl rfl hsub, hsound.of_eq rfl rfl rfl, h.honest, h.name, h.chunks,
        fun hidle => (by cases hidle), fun _ => ?_, seen, hstage.of_eq rfl rfl rfl rfl .rfl rfl,
        hholding.of_eq hfresh rfl rfl rfl⟩
      exact List.mem_append_right _ List.mem_cons_self
  | message =>
    simp only [UploadThreads.act] at hr
    split at hr
    on_goal 2 => cases hr
    rename_i msg rest hup
    obtain ⟨r', hr', rfl⟩ := Option.map_eq_some_iff.mp hr
    obtain ⟨hreg, σ', hstep, rfl⟩ := runs_eq_some hr'
    obtain ⟨hwelcome, hok, hstage'⟩ := (hstage.see sv).message hgood hup hstep
    exact h.moved (.message msg) { s with pipeline := σ', up := rest } hsound hreg hholding hwelcome hok hstep
      hfresh rfl rfl hstage' (List.append_nil _).symm
  | receiver =>
    simp only [UploadThreads.act] at hr
    split at hr
    · rename_i msg hpc
      obtain ⟨r', hr', rfl⟩ := Option.map_eq_some_iff.mp hr
      obtain ⟨hreg, σ', hstep, rfl⟩ := runs_eq_some hr'
      have hanswer : (s.pipeline.see sv).answerQuery msg = σ' := by
        simpa [pipelineMachine, Pipeline.step, Pipeline.receiverStep, Pipeline.see, hpc] using hstep
      have hqueried : (s.pipeline.see sv).queriedBy .receiver = Conn.queriedHashes msg := by
        simp [Pipeline.queriedBy, Pipeline.see, hpc]
      obtain ⟨seen', hseen, hstage'⟩ := (hstage.see sv).answer hpc
      rw [← hqueried] at hseen
      rw [hanswer] at hstage'
      exact h.moved .receiver (replied { s with pipeline := σ' } msg) hsound hreg hholding trivial trivial hstep
        hfresh rfl rfl hstage' hseen
    · rename_i hnot
      obtain ⟨hreg, σ', hstep, rfl⟩ := runs_eq_some hr
      have hnone : (s.pipeline.see sv).queriedBy .receiver = [] := by
        simp only [Pipeline.queriedBy]
        split
        · rename_i msg hpc
          exact (hnot msg hpc).elim
        · rfl
      refine h.moved .receiver { s with pipeline := σ' } hsound hreg hholding trivial trivial hstep hfresh rfl
        rfl ((hstage.see sv).receiver hnot hstep) ?_
      rw [hnone, List.append_nil]
  | malloc p block =>
    obtain ⟨hreg, σ', hstep, rfl⟩ := runs_eq_some hr
    exact h.moved (.malloc p block) { s with pipeline := σ' } hsound hreg hholding trivial trivial hstep hfresh
      rfl rfl ((hstage.see sv).malloc hstep) (List.append_nil _).symm
  | containerThread =>
    obtain ⟨hreg, σ', hstep, rfl⟩ := runs_eq_some hr
    exact h.moved .containerThread { s with pipeline := σ' } hsound hreg hholding trivial trivial hstep hfresh
      rfl rfl ((hstage.see sv).writer (Pipeline.writerFrame_container hstep)) (List.append_nil _).symm
  | recipeThread =>
    obtain ⟨hreg, σ', hstep, rfl⟩ := runs_eq_some hr
    exact h.moved .recipeThread { s with pipeline := σ' } hsound hreg hholding trivial trivial hstep hfresh
      rfl rfl ((hstage.see sv).writer (Pipeline.writerFrame_recipe hstep)) (List.append_nil _).symm

/-- **When both joins have returned**, the server has answered for the whole file. -/
theorem Stage.seen_of_joined {seen : List Bytes} (h : s.Stage env seen) (hjoined : s.pipeline.pc = .joined) :
    s.pipeline.queries = [] ∧ seen = fileChunks env s.client.file := by
  have hmsg : s.pipeline.pc.msg = none := by
    rw [hjoined]
    rfl
  cases h with
  | ended hup hdown hpc hnone hqueries hseen => exact ⟨hqueries, hseen⟩
  | storing hcl hup hdown hsome | lastStoring hup hdown hsome =>
    rw [hmsg] at hsome
    cases hsome
  | accepted hcl hup hdown hpc | asking hcl hup hdown hpc | replying hcl hup hdown hpc | last hup hdown hpc
  | ending hup hdown hpc =>
    rw [hjoined] at hpc
    cases hpc

/-- **Each entry resolves** then to the chunk at its place in the file. -/
theorem Local.resolves (h : s.Local env S i P sv) (hjoined : s.pipeline.pc = .joined) :
    List.Forall₂ (P.Resolves env S) ((fileChunks env s.client.file).map env.generateHash)
      s.pipeline.entries := by
  obtain ⟨seen, hstage, hholding⟩ := h.protocol
  obtain ⟨hqueries, hseen⟩ := hstage.seen_of_joined hjoined
  have hentries := hholding.entries
  have hpc : (s.pipeline.see sv).pc = .joined := hjoined
  simp only [Pipeline.Matches, hpc] at hentries
  obtain ⟨done, hdone, hall⟩ := hentries
  have hnone : (s.pipeline.see sv).queries = [] := hqueries
  rw [hnone, List.map_nil, List.append_nil, hseen] at hdone
  exact hdone ▸ hall

/-- **Its containers are on disk** then. -/
theorem Local.saved (h : s.Local env S i P sv) (hjoined : s.pipeline.pc = .joined) {id : ContainerID}
    {l : Bytes} (hlog : P id = some (some i, l)) (hne : l ≠ []) : sv.containers.lookup id = some l := by
  obtain ⟨_, -, hholding⟩ := h.protocol
  have hpc : (s.pipeline.see sv).pc = .joined := hjoined
  have hmem := (hholding.located id l hlog).resolve_left hne
  -- no container is being filled any more
  have hbuffers : (s.pipeline.see sv).buffers = (s.pipeline.see sv).saved := by
    rw [Pipeline.buffers, Pipeline.filling, hpc, hholding.invariant.pushed_of_joined hpc]
    exact List.append_nil _
  rw [hbuffers] at hmem
  exact hholding.invariant.onDisk.saved _ hmem

end UploadThreads

/-! ## Runs -/

/-- **The rely/guarantee argument for the uploads.** -/
def uploadOwnership (env : Env) (S : Set Bytes) :
    RelyGuarantee (uploadProcesses env) (honestUploads env S) UploadPool where
  glob P sv := P.Sound env S sv
  loc i P sv s := s.Local env S i P sv
  idle i P := ∀ id l, P id ≠ some (some i, l)
  guar i P sv P' sv' := UploadGuarantee env i P sv P' sv'
  spawn_step := by
    rintro P σ τ i arg hsound hidle ⟨hfresh, harg⟩ rfl
    obtain ⟨hname, hchunks⟩ := harg i arg rfl
    exact UploadThreads.Local.start hsound hidle hfresh hname hchunks
  act_step hsound _ hlocal hact hok _ := hlocal.act hsound hact hok.1
  stable hne hguar hlocal := hlocal.stable hne hguar
  idle_stable := by
    intro P P' sv sv' i j hne hguar hidle id l hl
    exact hidle id l ((hguar.grows.foreign id (some j) l (by simpa using hne)).mp hl)

end DedupServer
