import DedupServer.Alone.Upload
import DedupServer.Results.Pipeline
import DedupServer.Threads.UploadPool

/-! # Uploads side by side give their files back

Any number of honest uploads run over one server, thread by thread. Nothing goes wrong in memory; an upload
that has ended has one entry in its recipe for each chunk, and its file can be sent as soon as nobody who has
a container of the recipe in memory is still at work (`uploads_side_by_side`). -/

namespace DedupServer

open Foundations

variable {env : Env} {S : Set Bytes} {P : UploadPool} {sv : Server} {τ : UploadsState} {i : Bytes}
  {s : UploadThreads} {a : ChunkAddr} {x : Bytes}

/-- **The server is stocked**: its containers have ids that have been drawn, and the index has addresses of
chunks of `S` only, which are on disk. -/
structure Server.Stocked (env : Env) (S : Set Bytes) (sv : Server) : Prop where
  named : sv.Named env
  index : sv.Indexed fun hash a =>
    ∃ x ≠ [], GoodChunk env S hash x ∧ Conn.OnDisk sv a ∧ Conn.extentOnDisk sv a = x

/-- An upload has a container in memory, or has had it. -/
def UploadThreads.Has (s : UploadThreads) (id : ContainerID) : Prop :=
  id ∈ s.pipeline.buffers.map Prod.fst

/-- **The file of an upload is there**: `send_file` sends it. -/
def UploadThreads.Sent (env : Env) (sv : Server) (s : UploadThreads) : Prop :=
  sv.HasFile env s.client.client_id s.client.fileName s.client.file ∧ ∀ outData,
    Conn.sentBytes sv (env.recipeNameHash s.client.client_id s.client.fileName) outData = s.client.file

/-- **The recipe of an upload is complete**: the file is registered, and the recipe has one entry for each
chunk. -/
structure UploadThreads.Recorded (env : Env) (sv : Server) (s : UploadThreads) : Prop where
  file : (s.client.client_id, s.client.fileName) ∈ sv.files
  recipe : sv.recipes.lookup (env.recipeNameHash s.client.client_id s.client.fileName) =
    some (encodeTotalChunkNum s.pipeline.entries.length ++ encodeEntries s.pipeline.entries)
  length : s.pipeline.entries.length = (fileChunks env s.client.file).length

/-! ## Before anybody has joined -/

/-- The containers that are on disk, which nobody owns. -/
def UploadPool.found (sv : Server) : UploadPool := fun id => (sv.containers.lookup id).map fun l => (none, l)

theorem UploadPool.found_eq_some {id : ContainerID} {o : Option Bytes} {l : Bytes}
    (h : UploadPool.found sv id = some (o, l)) : o = none ∧ sv.containers.lookup id = some l := by
  obtain ⟨l', hl', heq⟩ := Option.map_eq_some_iff.mp h
  obtain ⟨rfl, rfl⟩ := Prod.mk.inj heq
  exact ⟨rfl, hl'⟩

/-- **A stocked server agrees with them.** -/
theorem Server.Stocked.inv (h : sv.Stocked env S) :
    (uploadOwnership env S).Inv (UploadPool.found sv) ⟨sv, fun _ => none⟩ where
  glob := {
    before := fun id l hl => (UploadPool.found_eq_some hl).2
    drawn := fun id o l hl => by
      obtain ⟨-, hdisk⟩ := UploadPool.found_eq_some hl
      exact h.named id (AList.lookup_isSome.mp (hdisk ▸ rfl))
    named := h.named
    index := by
      refine h.index.mono ?_
      rintro hash a ⟨x, hne, hgood, hdisk, hextent⟩
      refine ⟨x, hne, hgood, ?_⟩
      obtain ⟨l, hl⟩ := Option.isSome_iff_exists.mp
        (AList.lookup_isSome.mpr (Conn.mem_containers_of_extentOnDisk (hextent ▸ hne)))
      have hslice : (l.drop a.offset.toNat).take a.size.toNat = x := by
        rw [← hextent, Conn.extentOnDisk, hl, Option.getD_some]
      refine ⟨none, l, by rw [UploadPool.found, hl, Option.map_some], ?_, hslice⟩
      -- a slice that is not empty and of full length ends in the container
      have hlength := congrArg List.length hslice
      rw [Conn.OnDisk, hextent] at hdisk
      rw [hdisk, List.length_take, List.length_drop] at hlength
      have hpos := List.length_pos_iff.mpr hne
      omega }
  loc := fun i l hi => by cases hi
  idle := fun i _ id l hl => by cases (UploadPool.found_eq_some hl).1

/-! ## In any state -/

/-- **An extent is on disk**, unless its container is with an upload that is still at work. -/
theorem onDisk_of_holds (hinv : (uploadOwnership env S).Inv P τ)
    (hends : ∀ j t, τ.locals j = some t → t.Has a.containerID → t.pipeline.pc = .joined)
    (hholds : Holds P a.containerID a.offset.toNat a.size.toNat x) (hne : x ≠ []) :
    Conn.OnDisk τ.shared a ∧ Conn.extentOnDisk τ.shared a = x := by
  obtain ⟨o, l, hlog, hlen, hx⟩ := hholds
  have hfull : l ≠ [] := by
    rintro rfl
    rw [List.drop_nil, List.take_nil] at hx
    exact hne hx.symm
  refine Conn.onDisk_of_lookup ?_ hlen hx
  cases o with
  | none => exact hinv.glob.before _ l hlog
  | some j =>
    -- the owner has joined, and has the container in its buffers
    cases hj : τ.locals j with
    | none => exact absurd hlog (hinv.idle j hj _ l)
    | some t =>
      have hlocal := hinv.loc j t hj
      obtain ⟨_, -, hholding⟩ := hlocal.protocol
      have hmem := (hholding.located _ l hlog).resolve_left hfull
      exact hlocal.saved (hends j t hj (List.mem_map_of_mem hmem)) hlog hfull

/-- **An upload that has ended** has its recipe, and its file when nobody has a container of it any more. -/
theorem UploadThreads.Local.ended (hinv : (uploadOwnership env S).Inv P τ) (hcf : env.CollisionFreeOn S)
    (hi : τ.locals i = some s) (hjoined : s.pipeline.pc = .joined) :
    s.Recorded env τ.shared ∧
      ((∀ j t, τ.locals j = some t → (∃ a ∈ s.pipeline.entries, t.Has a.containerID) →
        t.pipeline.pc = .joined) → s.Sent env τ.shared) := by
  have hlocal : s.Local env S i P τ.shared := hinv.loc i s hi
  obtain ⟨_, -, hholding⟩ := hlocal.protocol
  have hresolves := hlocal.resolves hjoined
  have hregistered : s.registered = true := by
    by_contra hnot
    have hpc := hlocal.idle (Bool.eq_false_iff.mpr hnot)
    rw [hjoined] at hpc
    cases hpc
  have hrecipe := hholding.invariant.recipe_of_joined hjoined
  have hname : (s.pipeline.see τ.shared).recipeNameHash =
      env.recipeNameHash s.client.client_id s.client.fileName :=
    hholding.recipeNameHash.trans hlocal.name.symm
  rw [hname] at hrecipe
  refine ⟨⟨hlocal.files hregistered, hrecipe, ?_⟩, fun hends => ?_⟩
  · rw [← hresolves.length_eq, List.length_map]
  · rw [List.forall₂_map_left_iff] at hresolves
    -- the chunk an entry stands for is the one of the file that has this hash
    have hextents : List.Forall₂ (fun a x => Conn.OnDisk τ.shared a ∧ Conn.extentOnDisk τ.shared a = x)
        s.pipeline.entries (fileChunks env s.client.file) := by
      have hflip := hresolves.flip
      rw [List.forall₂_iff_zip] at hflip ⊢
      refine ⟨hflip.1, fun {a x} hz => ?_⟩
      obtain ⟨y, hne, ⟨hy, hhash⟩, hholds⟩ := hflip.2 hz
      obtain ⟨ha, hx⟩ := List.of_mem_zip hz
      obtain rfl : y = x := hcf hy (hlocal.chunks x hx) hhash
      exact onDisk_of_holds hinv (fun j t hj hhas => hends j t hj ⟨a, ha, hhas⟩) hholds hne
    have hfile : τ.shared.HasFile env s.client.client_id s.client.fileName s.client.file := by
      exact ⟨Server.isFileExist_iff.mpr (hlocal.files hregistered), s.pipeline.entries, hrecipe, hextents⟩
    exact ⟨hfile, hfile.sentBytes⟩

/-- **Uploads side by side give their files back.** Let any number of honest uploads with different recipe
files run over a stocked server, in any order of the steps of their clients and threads. In every state that
can be reached nothing has gone wrong in memory; an upload whose joins have returned has its recipe, and its
file is sent as soon as no upload that is still at work has a container of the recipe. When all uploads have
ended, the server is stocked again. -/
theorem uploads_side_by_side (hcf : env.CollisionFreeOn S) (hstocked : sv.Stocked env S)
    (hrun : Reaches (uploadProcesses env) (honestUploads env S) ⟨sv, fun _ => none⟩ τ) :
    (∀ i s, τ.locals i = some s → s.pipeline.faulted = false ∧
      (s.pipeline.pc = .joined → s.Recorded env τ.shared ∧
        ((∀ j t, τ.locals j = some t → (∃ a ∈ s.pipeline.entries, t.Has a.containerID) →
          t.pipeline.pc = .joined) → s.Sent env τ.shared))) ∧
      ((∀ i s, τ.locals i = some s → s.pipeline.pc = .joined) → τ.shared.Stocked env S) := by
  obtain ⟨P, -, hinv⟩ := hstocked.inv.reaches (r := fun _ _ _ _ => True) (fun _ _ => trivial)
    (fun _ _ => trivial) (fun _ _ => trivial) hrun
  refine ⟨fun i s hi => ⟨?_, fun hjoined => UploadThreads.Local.ended hinv hcf hi hjoined⟩, fun hends => ?_⟩
  · obtain ⟨_, -, hholding⟩ := (hinv.loc i s hi).protocol
    exact hholding.invariant.memory.sound
  · refine ⟨hinv.glob.named, hinv.glob.index.mono ?_⟩
    rintro hash a ⟨x, hne, hgood, hholds⟩
    exact ⟨x, hne, hgood, onDisk_of_holds hinv (fun j t hj _ => hends j t hj) hholds hne⟩

namespace Sample

/-- Client 1 uploads a file of one byte. -/
def sevenArg (file_path : Bytes) : UploadArg := ⟨1, file_path, [7], begun.heap, 0, 1, begun_begun.owned⟩

/-- Two names of recipe files. -/
def firstUpload : Bytes := Sample.env.recipeNameHash 1 [65]

def secondUpload : Bytes := Sample.env.recipeNameHash 1 [66]

/-- A step of one of two honest uploads. -/
def checkUpload (_ : UploadsState) (ℓ : Label Bytes UploadAct UploadArg) (τ : UploadsState) : Bool :=
  decide (τ.shared.drawn ≤ 2 ∧ ℓ.owner ∈ [firstUpload, secondUpload]) &&
    match ℓ with
    | .spawn i arg =>
      decide (Sample.env.recipeNameHash arg.client_id (getFileName arg.file_path) = i ∧ arg.file = [7])
    | .act _ _ => true

/-- Only these two have joined. -/
def OnlyTwo (σ : UploadsState) : Prop := ∀ i, σ.locals i ≠ none → i ∈ [firstUpload, secondUpload]

theorem reaches_uploads {σ τ : UploadsState} {steps : List (Label Bytes UploadAct UploadArg)}
    (hσ : OnlyTwo σ) (h : (uploadProcesses Sample.env).execChecked checkUpload σ steps = some τ) :
    Reaches (uploadProcesses Sample.env) (honestUploads Sample.env {[7]}) σ τ ∧ OnlyTwo τ := by
  refine Processes.reaches_execChecked (fun σ ℓ τ hσ hstep _ hcheck => ?_) hσ h
  obtain ⟨hfirst, hlabel⟩ := (Bool.and_eq_true _ _).mp hcheck
  obtain ⟨hdrawn, howner⟩ := of_decide_eq_true hfirst
  refine ⟨⟨freshUpTo (hdrawn.trans (by decide)), ?_⟩, fun i hi => ?_⟩
  · rintro i arg rfl
    obtain ⟨hname, hfile⟩ := of_decide_eq_true hlabel
    rw [hfile]
    exact ⟨hname, mem_of_mem_fileChunks_seven (Set.mem_singleton _)⟩
  · by_cases hown : i = ℓ.owner
    · exact hown ▸ howner
    · rw [hstep.locals_of_ne hown] at hi
      exact hσ i hi

/-- An upload up to its last chunk, with the steps of its serving thread for that. -/
def upToChunks (i : Bytes) (n : ℕ) : List (Label Bytes UploadAct UploadArg) :=
  ([.client, .register, .message, .receiver, .receiver, .client, .message] ++
    List.replicate n .receiver : List UploadAct).map (.act i)

/-- Its end, with the steps of its container writer. -/
def upToJoins (i : Bytes) (n : ℕ) : List (Label Bytes UploadAct UploadArg) :=
  (.message :: List.replicate 4 .receiver ++ List.replicate n .containerThread ++
    List.replicate 6 .recipeThread ++ List.replicate 2 .receiver : List UploadAct).map (.act i)

/-- An upload has ended. -/
def joinedAt (σ : UploadsState) (i : Bytes) : Bool := (σ.locals i).any fun s => ended s.pipeline

theorem exists_of_joinedAt {σ : UploadsState} {i : Bytes} (h : joinedAt σ i = true) :
    ∃ s, σ.locals i = some s ∧ s.pipeline.pc = .joined := by
  obtain ⟨s, hs, hended⟩ := (Option.any_eq_true _ _).mp h
  exact ⟨s, hs, joined_of_ended hended⟩

end Sample

/-- The second upload refers to the container of the first one, and ends while that is in memory: its recipe is
complete then. When the first upload has ended as well, both files are sent. -/
theorem uploads_side_by_side_sample : ∃ υ τ : UploadsState,
    (∃ s, υ.locals Sample.secondUpload = some s ∧ s.pipeline.pushed = [] ∧ s.Recorded Sample.env υ.shared) ∧
      Sample.joinedAt υ Sample.firstUpload = false ∧
      (∃ s, τ.locals Sample.firstUpload = some s ∧ s.Sent Sample.env τ.shared) ∧
      (∃ s, τ.locals Sample.secondUpload = some s ∧ s.Sent Sample.env τ.shared) ∧
      τ.shared.Stocked Sample.env {[7]} := by
  have hrun : ((uploadProcesses Sample.env).execChecked Sample.checkUpload ⟨.init, fun _ => none⟩
      ([.spawn Sample.firstUpload (Sample.sevenArg [65]), .spawn Sample.secondUpload (Sample.sevenArg [66])] ++
        Sample.upToChunks Sample.firstUpload 5 ++ Sample.upToChunks Sample.secondUpload 4 ++
          Sample.upToJoins Sample.secondUpload 1)).any (fun υ =>
        (υ.locals Sample.secondUpload).any
            (fun s => Sample.ended s.pipeline && decide (s.pipeline.pushed = [])) &&
          !Sample.joinedAt υ Sample.firstUpload &&
          ((uploadProcesses Sample.env).execChecked Sample.checkUpload υ
            (Sample.upToJoins Sample.firstUpload 5)).any fun τ =>
              Sample.joinedAt τ Sample.firstUpload && Sample.joinedAt τ Sample.secondUpload) = true := by
    decide +kernel
  obtain ⟨υ, hυ, hall⟩ := (Option.any_eq_true _ _).mp hrun
  obtain ⟨hsecond, hall⟩ := (Bool.and_eq_true _ _).mp hall
  obtain ⟨hsecond, hfirst⟩ := (Bool.and_eq_true _ _).mp hsecond
  obtain ⟨s, hs, hsecond⟩ := (Option.any_eq_true _ _).mp hsecond
  obtain ⟨hended, hpushed⟩ := (Bool.and_eq_true _ _).mp hsecond
  obtain ⟨τ, hτ, hboth⟩ := (Option.any_eq_true _ _).mp hall
  obtain ⟨hfirst', hsecond'⟩ := (Bool.and_eq_true _ _).mp hboth
  obtain ⟨hreach, honly⟩ := Sample.reaches_uploads (fun _ hi => absurd rfl hi) hυ
  obtain ⟨hreach', honly'⟩ := Sample.reaches_uploads honly hτ
  have hcf : Sample.env.CollisionFreeOn {[7]} := Set.injOn_singleton _ _
  have hstocked : Server.init.Stocked Sample.env {[7]} :=
    ⟨fun id hid => (by cases hid), fun key a ha => (by cases ha)⟩
  obtain ⟨t, ht, hjoined⟩ := Sample.exists_of_joinedAt hfirst'
  obtain ⟨t', ht', hjoined'⟩ := Sample.exists_of_joinedAt hsecond'
  -- both have ended, and nobody else has joined
  have hends : ∀ j u, τ.locals j = some u → u.pipeline.pc = .joined := by
    intro j u hu
    have hj := honly' j (by simp [hu])
    rcases List.mem_cons.mp hj with rfl | hj
    · exact Option.some.inj (ht.symm.trans hu) ▸ hjoined
    · obtain rfl := List.mem_singleton.mp hj
      exact Option.some.inj (ht'.symm.trans hu) ▸ hjoined'
  have hpc := Sample.joined_of_ended hended
  obtain ⟨hin, -⟩ := uploads_side_by_side hcf hstocked hreach
  obtain ⟨hout, hafter⟩ := uploads_side_by_side hcf hstocked (hreach.trans hreach')
  exact ⟨υ, τ, ⟨s, hs, of_decide_eq_true hpushed, ((hin _ s hs).2 hpc).1⟩, Bool.not_eq_true' _ ▸ hfirst,
    ⟨t, ht, ((hout _ t ht).2 hjoined).2 fun j u hu _ => hends j u hu⟩,
    ⟨t', ht', ((hout _ t' ht').2 hjoined').2 fun j u hu _ => hends j u hu⟩, hafter hends⟩

end DedupServer
