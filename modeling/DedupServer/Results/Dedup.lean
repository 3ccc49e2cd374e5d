import DedupServer.Alone.Counted

/-! # Deduplication of chunks

After uploads that ran one at a time (`Uploads`) every chunk is stored. It is stored once, if and
only if no batch repeats a chunk that is new to the server (`dedup_exact_iff`): the answers to a
query are given before any chunk of the batch is stored. -/

namespace DedupServer

open Foundations

variable {env : Env} {S : Set Bytes} {files : List Bytes} {σ τ : State}

/-- **Honest clients have uploaded the files**, one at a time. An upload under a name that is already
registered is refused. -/
inductive Uploads (env : Env) (S : Set Bytes) : List Bytes → State → Prop
  | init : Uploads env S [] State.init
  | upload {files : List Bytes} {σ τ : State} {i : ℕ} {arg : Arg} (h : Uploads env S files σ)
      (hrun : Completes env i arg σ τ) (hrogue : arg.rogue = false) (hop : arg.op = 117)
      (hknown : ∀ x ∈ fileChunks env arg.file, x ∈ S)
      (hnew : (arg.client_id, getFileName arg.file_path) ∉ σ.shared.files) :
      Uploads env S (files ++ [arg.file]) τ
  | refused {files : List Bytes} {σ τ : State} {i : ℕ} {arg : Arg} (h : Uploads env S files σ)
      (hrun : Completes env i arg σ τ) (hrogue : arg.rogue = false) (hop : arg.op = 117)
      (hknown : ∀ x ∈ fileChunks env arg.file, x ∈ S)
      (hold : (arg.client_id, getFileName arg.file_path) ∈ σ.shared.files) :
      Uploads env S files τ

/-- The chunks of all files. -/
def allFileChunks (env : Env) (files : List Bytes) : List Bytes := files.flatMap (fileChunks env)

/-- The batches of all files. -/
def allFileBatches (env : Env) (files : List Bytes) : List (List Bytes) :=
  files.flatMap (fileBatches env)

/-- **Each chunk is stored at exactly one place**: where the index says that it is, the bytes are, and
altogether there are no more bytes than those of the distinct chunks. -/
def DedupExact (env : Env) (files : List Bytes) (sv : Server) : Prop :=
  (∀ x ∈ allFileChunks env files, ∃ a,
    sv.isChunkStored (convertArrayHashToString (env.generateHash x)) = some a ∧
      Conn.extentOnDisk sv a = x) ∧
  sv.containerBytes = ((allFileChunks env files).dedup.map List.length).sum

theorem flatten_allFileBatches (env : Env) (files : List Bytes) :
    (allFileBatches env files).flatten = allFileChunks env files := by
  induction files with
  | nil => rfl
  | cons file files ih =>
    rw [allFileBatches, List.flatMap_cons, List.flatten_append, flatten_fileBatches,
      ← allFileBatches, ih, allFileChunks, allFileChunks, List.flatMap_cons]

/-- No chunk is empty. -/
theorem length_pos_of_mem_allFileChunks {x : Bytes} (hx : x ∈ allFileChunks env files) :
    0 < x.length := by
  obtain ⟨file, -, hx⟩ := List.mem_flatMap.mp hx
  exact ((ragged_fileChunks env file).2 x hx).1

namespace Uploads

/-- Uploads are sessions that run one at a time. -/
theorem sequential (h : Uploads env S files σ) : Sequential env S σ := by
  induction h with
  | init => exact .init
  | upload h hrun hrogue hop hknown hnew ih => exact ih.session hrun hrogue fun _ => hknown
  | refused h hrun hrogue hop hknown hold ih => exact ih.session hrun hrogue fun _ => hknown

/-- **What is in the containers and in the index**: the chunks recorded batch by batch. -/
theorem counted (h : Uploads env S files σ) (hcf : env.CollisionFreeOn S)
    (hfresh : env.FreshUpTo σ.shared.drawn) :
    σ.shared.containerBytes = ((recorded [] (allFileBatches env files)).map List.length).sum ∧
    ∀ x ∈ S, (σ.shared.isChunkStored (convertArrayHashToString (env.generateHash x))).isSome ↔
      x ∈ allFileChunks env files := by
  -- no address refers to anything but its chunk, along the whole history
  have hsane : ∀ {files σ}, Uploads env S files σ → env.FreshUpTo σ.shared.drawn →
      σ.Sane hcf := fun h hfresh =>
    ((State.sane_init hcf).carry (fun _ _ _ h => h) h.sequential.reaches hfresh).2
  induction h with
  | init => exact ⟨rfl, fun x _ => by simp [State.init, Server.init, Server.isChunkStored,
      allFileChunks]⟩
  -- a new file adds what its batches record
  | @upload files σ τ i arg h hrun hrogue hop hknown hnew ih =>
    have hphase := (State.inPhase_init env).reaches h.sequential.reaches
    have hfresh' := hfresh.mono (hphase.grows hrun.reaches).drawn
    obtain ⟨hbytes, hindex⟩ := ih hfresh'
    obtain ⟨hbytes', hindex'⟩ := hrun.counted (hsane h hfresh') hrogue hop hnew hknown hbytes
      hindex hfresh
    refine ⟨?_, fun x hx => ?_⟩
    · rw [hbytes', allFileBatches, allFileBatches, List.flatMap_append, List.flatMap_singleton,
        recorded_append, List.map_append, List.sum_append, List.nil_append, ← allFileBatches,
        flatten_allFileBatches]
    · rw [hindex' x hx, allFileChunks, allFileChunks, List.flatMap_append, List.flatMap_singleton]
  -- a refused file adds nothing
  | @refused files σ τ i arg h hrun hrogue hop hknown hold ih =>
    have hphase := (State.inPhase_init env).reaches h.sequential.reaches
    have hfresh' := hfresh.mono (hphase.grows hrun.reaches).drawn
    obtain ⟨hbytes, hindex⟩ := ih hfresh'
    exact hrun.counted_refused (hsane h hfresh') hrogue hop hold hknown hbytes hindex hfresh

/-- The chunks of the files are among the known ones. -/
theorem known (h : Uploads env S files σ) : ∀ x ∈ allFileChunks env files, x ∈ S := by
  induction h with
  | init => simp [allFileChunks]
  | upload h hrun hrogue hop hknown hnew ih =>
    intro x hx
    rw [allFileChunks, List.flatMap_append, List.flatMap_singleton, List.mem_append] at hx
    exact hx.elim (ih x) (hknown x)
  | refused h hrun hrogue hop hknown hold ih => exact ih

/-- **Every chunk is stored.** -/
theorem stored (h : Uploads env S files σ) (hcf : env.CollisionFreeOn S)
    (hfresh : env.FreshUpTo σ.shared.drawn) : ∀ x ∈ allFileChunks env files, ∃ a,
      σ.shared.isChunkStored (convertArrayHashToString (env.generateHash x)) = some a ∧
        Conn.extentOnDisk σ.shared a = x := by
  intro x hx
  have hsane := ((State.sane_init hcf).carry (fun _ _ _ h => h) h.sequential.reaches hfresh).2
  obtain ⟨a, ha⟩ := Option.isSome_iff_exists.mp (((h.counted hcf hfresh).2 x (h.known x hx)).mpr hx)
  have hkeeps := hsane.keeps subset_rfl fun y _ a ha =>
    hsane.mem_containers (fun i s hi => h.sequential.closed hi) ha
  exact ⟨a, ha, (hkeeps x (h.known x hx) a ha).2⟩

end Uploads

/-- **When deduplication is exact.** After any sequence of uploads by honest clients, one at a time,
each chunk is stored at exactly one place if and only if in every batch the chunks that have come
in no earlier batch, of this file or of another, are pairwise distinct. -/
theorem dedup_exact_iff (hcf : env.CollisionFreeOn S) (h : Uploads env S files σ)
    (hfresh : env.FreshUpTo σ.shared.drawn) :
    DedupExact env files σ.shared ↔ ∀ before batch after,
      allFileBatches env files = before ++ batch :: after →
        (batch.filter (· ∉ before.flatten)).Nodup := by
  have hpos : ∀ x ∈ recorded [] (allFileBatches env files), 0 < x.length := by
    intro x hx
    have hmem : x ∈ allFileChunks env files := by
      rw [← flatten_allFileBatches]
      exact (mem_recorded.mp hx).2
    exact length_pos_of_mem_allFileChunks hmem
  -- repeated chunks count once on both sides
  have hsum : ((allFileChunks env files).dedup.map List.length).sum
      = ((recorded [] (allFileBatches env files)).dedup.map List.length).sum := by
    rw [← flatten_allFileBatches]
    exact ((dedup_recorded_perm _).map _).sum_eq.symm
  calc DedupExact env files σ.shared
      ↔ σ.shared.containerBytes = ((allFileChunks env files).dedup.map List.length).sum :=
        and_iff_right (h.stored hcf hfresh)
    _ ↔ (recorded [] (allFileBatches env files)).Nodup := by
        rw [(h.counted hcf hfresh).1, hsum]
        exact sum_dedup_eq_iff hpos
    _ ↔ _ := by
        rw [nodup_recorded_iff]
        refine forall₃_congr fun before batch after => imp_congr_right fun _ => ?_
        rw [List.nil_append]
        exact iff_of_eq (congrArg List.Nodup (List.filter_congr fun x _ => by simp))

/-- Client 1 uploads a file, client 2 uploads the same bytes under a name of its own, client 1 uploads
other bytes, and is refused with the first name: what is repeated is stored once. -/
theorem dedup_exact_iff_sample : ∃ σ : State,
    Uploads Sample.env {[7], [8]} [[7], [7], [8]] σ ∧
      ¬ (allFileChunks Sample.env [[7], [7], [8]]).Nodup ∧
      DedupExact Sample.env [[7], [7], [8]] σ.shared := by
  let refused : List Act := [.server, .server, .server, .client, .server, .client]
  have hrun : (State.init.exec Sample.env (Sample.session 0 (Sample.upload 1 [65] [7])
      (Sample.sending ++ Sample.saving 1))).any (fun σ => ((σ.locals 0).any fun s => decide s.Closed) &&
        decide ((2, [65]) ∉ σ.shared.files) &&
      (σ.exec Sample.env (Sample.session 1 (Sample.upload 2 [65] [7])
        (Sample.sending ++ Sample.saving 0))).any fun τ => ((τ.locals 1).any fun s => decide s.Closed) &&
          decide ((1, [66]) ∉ τ.shared.files) &&
      (τ.exec Sample.env (Sample.session 2 (Sample.upload 1 [66] [8])
        (Sample.sending ++ Sample.saving 1))).any fun υ => ((υ.locals 2).any fun s => decide s.Closed) &&
          decide ((1, [65]) ∈ υ.shared.files) &&
      (υ.exec Sample.env (Sample.session 3 (Sample.upload 1 [65] [8]) refused)).any fun ρ =>
        ((ρ.locals 3).any fun s => decide s.Closed) && decide (ρ.shared.drawn ≤ 255)) = true := by
    decide +kernel
  obtain ⟨σ, hσ, hrun⟩ := (Option.any_eq_true _ _).mp hrun
  simp only [Bool.and_eq_true, decide_eq_true_eq] at hrun
  obtain ⟨⟨hs, hnew⟩, hrun⟩ := hrun
  obtain ⟨τ, hτ, hrun⟩ := (Option.any_eq_true _ _).mp hrun
  simp only [Bool.and_eq_true, decide_eq_true_eq] at hrun
  obtain ⟨⟨ht, hnew'⟩, hrun⟩ := hrun
  obtain ⟨υ, hυ, hrun⟩ := (Option.any_eq_true _ _).mp hrun
  simp only [Bool.and_eq_true, decide_eq_true_eq] at hrun
  obtain ⟨⟨hu, hold⟩, hrun⟩ := hrun
  obtain ⟨ρ, hρ, hrun⟩ := (Option.any_eq_true _ _).mp hrun
  simp only [Bool.and_eq_true, decide_eq_true_eq] at hrun
  obtain ⟨hr, hdrawn⟩ := hrun
  -- each of them runs to its end before the next one joins
  have hclosed : ∀ {σ : State} {i : ℕ}, ((σ.locals i).any fun s => decide s.Closed) = true →
      ∃ s, σ.locals i = some s ∧ s.Closed := by
    intro σ i h
    obtain ⟨s, hs, hclosed⟩ := (Option.any_eq_true _ _).mp h
    exact ⟨s, hs, of_decide_eq_true hclosed⟩
  have hseven : ∀ x ∈ fileChunks Sample.env [7], x ∈ ({[7], [8]} : Set Bytes) :=
    Sample.mem_of_mem_fileChunks_seven (.inl rfl)
  have height : ∀ x ∈ fileChunks Sample.env [8], x ∈ ({[7], [8]} : Set Bytes) := by
    rw [Sample.fileChunks_eight]
    simp
  have huploads : Uploads Sample.env {[7], [8]} [[7], [7], [8]] ρ :=
    .refused (.upload (.upload (.upload .init (Completes.of_exec hσ (hclosed hs)) rfl rfl hseven
        List.not_mem_nil) (Completes.of_exec hτ (hclosed ht)) rfl rfl hseven hnew)
      (Completes.of_exec hυ (hclosed hu)) rfl rfl height hnew')
      (Completes.of_exec hρ (hclosed hr)) rfl rfl height hold
  have hbatches : allFileBatches Sample.env [[7], [7], [8]] = [[[7]], [[7]], [[8]]] := by decide +kernel
  refine ⟨ρ, huploads, ?_, (dedup_exact_iff (Sample.collisionFreeOn_pair (by decide)) huploads
    (Sample.freshUpTo hdrawn)).mpr ?_⟩
  · rw [← flatten_allFileBatches, hbatches]
    decide
  -- each batch has one chunk only
  · intro before batch after heq
    have hone : ∀ b ∈ ([[[7]], [[7]], [[8]]] : List (List Bytes)), b.Nodup := by decide
    refine (hone batch ?_).filter _
    rw [← hbatches, heq]
    exact List.mem_append_right _ List.mem_cons_self

/-- A file of two equal chunks, alone on the server, cannot be stored exactly. -/
def Sample.twice : Bytes := List.replicate (CHUNKSIZE * 2) 7

/-- The chunks of this file. -/
theorem Sample.fileChunks_twice :
    fileChunks Sample.env twice = [List.replicate CHUNKSIZE 7, List.replicate CHUNKSIZE 7] := by
  have hlength : (List.replicate CHUNKSIZE (7 : UInt8)).length = CHUNKSIZE := List.length_replicate
  have htwice : twice = List.replicate CHUNKSIZE 7 ++ (List.replicate CHUNKSIZE 7 ++ []) := by
    rw [List.append_nil, List.replicate_append_replicate]
    rfl
  rw [htwice, fileChunks_append _ hlength, fileChunks_append _ hlength, fileChunks_eq_pieces,
    pieces_nil _ (by decide)]

/-- **A chunk is stored twice.** A client uploads a file of two equal chunks to the empty server; there
are twice as many bytes in the containers as in the distinct chunks. -/
theorem dedup_not_exact : ∃ σ : State,
    Uploads Sample.env {List.replicate CHUNKSIZE 7} [Sample.twice] σ ∧
      Sample.env.FreshUpTo σ.shared.drawn ∧ σ.shared.containerBytes = CHUNKSIZE * 2 ∧
      ((allFileChunks Sample.env [Sample.twice]).dedup.map List.length).sum = CHUNKSIZE ∧
      ¬ DedupExact Sample.env [Sample.twice] σ.shared := by
  have hrun : (State.init.exec Sample.env (Sample.session 0 (Sample.upload 1 [65] Sample.twice)
      (Sample.sending ++ Sample.saving 1))).any (fun σ =>
        decide (σ.shared.drawn ≤ 255 ∧ σ.shared.containerBytes = CHUNKSIZE * 2) &&
          (σ.locals 0).any fun s => decide s.Closed) = true := by
    decide +kernel
  have hchunks : ∀ x ∈ fileChunks Sample.env Sample.twice,
      x ∈ ({List.replicate CHUNKSIZE 7} : Set Bytes) := by
    rw [Sample.fileChunks_twice]
    simp
  have hsum : ((allFileChunks Sample.env [Sample.twice]).dedup.map List.length).sum
      = CHUNKSIZE := by
    rw [allFileChunks, List.flatMap_singleton, Sample.fileChunks_twice,
      List.dedup_cons_of_mem List.mem_cons_self, (List.nodup_singleton _).dedup, List.map_singleton,
      List.sum_singleton, List.length_replicate]
  obtain ⟨σ, hσ, hrun⟩ := (Option.any_eq_true _ _).mp hrun
  obtain ⟨hcount, hrun⟩ := (Bool.and_eq_true _ _).mp hrun
  obtain ⟨s, hs, hclosed⟩ := (Option.any_eq_true _ _).mp hrun
  obtain ⟨hdrawn, hbytes⟩ := of_decide_eq_true hcount
  have hcompletes : Completes Sample.env 0 (Sample.upload 1 [65] Sample.twice) State.init σ :=
    Completes.of_exec hσ ⟨s, hs, of_decide_eq_true hclosed⟩
  refine ⟨σ, .upload .init hcompletes rfl rfl hchunks List.not_mem_nil,
    Sample.freshUpTo hdrawn, hbytes, hsum, ?_⟩
  -- twice the chunk in one batch is stored twice
  rintro ⟨-, hexact⟩
  rw [hbytes, hsum] at hexact
  exact absurd hexact (by decide)

end DedupServer
