import DedupServer.Alone.Upload
import DedupServer.Store.Counters

/-! # The counts that an upload logs

When `receive_file` returns, its counts agree with the file, with its recipe, with the messages it has
taken and with the containers it has written, whoever else is at work (`upload_accounting`). The sizes
in the recipe are another matter: the size of a duplicate is the one that was recorded when its hash
was stored, so they add up to the length of the file if everybody stores chunks under their own
hashes, and need not otherwise (`sizes_do_not_add_up`). -/

namespace DedupServer

open Foundations

variable {env : Env} {σ : State} {s : Session} {i taken added : ℕ}
  {ok : Condition}

/-- **The counts of an upload balance**, when its messages have carried `taken` chunk bytes and it has
added `added` bytes to the container files. -/
structure Session.Balanced (env : Env) (s : Session) (taken added : ℕ) : Prop where
  chunks : s.conn.upload.uniqueChunkNum + s.conn.upload.duplicatedChunkNum
    = (fileChunks env s.client.file).length
  entries : s.conn.written.length = (fileChunks env s.client.file).length
  added : s.conn.upload.receivedFileSize = added
  taken : s.conn.upload.receivedFileSize = taken

/-- The sizes in the recipe add up to the length of the file. -/
def Session.SizesAddUp (s : Session) : Prop :=
  (s.conn.written.map (·.size.toNat)).sum = s.client.file.length

instance (s : Session) : Decidable s.SizesAddUp :=
  inferInstanceAs (Decidable (_ = _))

/-! ## Along a run -/

/-- **What is known of a session** with its books: its counters agree with them, and nothing is
outstanding in the end if its client is honest. -/
def Session.KeepsBooks (env : Env) (s : Session) (book : ℕ × ℕ) : Prop :=
  s.Counts book.1 book.2 ∧ (s.client.rogue = false → s.Drains env)

/-- A new connection has counted nothing, and nothing is outstanding. -/
theorem Session.keepsBooks_connect (env : Env) (sv : Server) (arg : Arg) :
    (Session.connect env sv arg).2.KeepsBooks env 0 :=
  ⟨⟨rfl, rfl, rfl, fun _ => rfl⟩, fun _ => ⟨fun hpc => absurd hpc (by simp [Session.connect, Conn.init]),
    fun _ => rfl⟩⟩

/-- **A session keeps its books** along every run, whatever the other clients do. -/
theorem Session.keepsBooks_of_books {book : ℕ × ℕ}
    (hrun : Books (sessions env) ok (bookOf i) State.init σ book)
    (hfresh : env.FreshUpTo σ.shared.drawn) (hi : σ.locals i = some s) : s.KeepsBooks env book := by
  have hbooks := hrun.local_invariant (I := fun t book => t.KeepsBooks env book) rfl
    (fun υ ℓ υ' howner => bookOf_of_ne howner υ υ') ?_ ?_
  · rcases hbooks with ⟨hnone, -⟩ | ⟨t, ht, hkeeps⟩
    · exact absurd (hnone.symm.trans hi) (by simp)
    · obtain rfl := Option.some.inj (ht.symm.trans hi)
      exact hkeeps
  · -- the session joins
    rintro υ arg υ' - - rfl
    have hentry : bookOf i υ (.spawn i arg) (υ.moved i (Session.connect env υ.shared arg).1
        (Session.connect env υ.shared arg).2) = 0 := bookOf_spawn rfl arg
    have hconnect := Session.keepsBooks_connect env υ.shared arg
    rw [← hentry] at hconnect
    exact hconnect
  · -- the session acts
    rintro υ a υ' t sv t' book hto hfrom rfl ht hact ⟨hcounts, hdrains⟩
    have hphase := (State.inPhase_init env).reaches hto
    have hstep : Step (sessions env) υ (.act i a) (υ.moved i sv t') := .act ht hact
    have hdrawn := (hphase.grows_step hstep).drawn.trans ((hphase.step hstep).grows hfrom).drawn
    obtain ⟨P, hinv⟩ := State.exists_lax hto (hfresh.mono hdrawn)
    have hlocal := hinv.loc i t ht
    rw [bookOf_act ht]
    refine ⟨hcounts.act (hphase i t ht) hact hlocal.owns hlocal.buffer, fun hrogue => ?_⟩
    have hrogue' : t.client.rogue = false :=
      ((hphase i t ht).act hact).2.kept.rogue.symm.trans hrogue
    exact (hdrains hrogue').act (hphase i t ht) hrogue' hact

/-- **When an upload has returned its counts balance**: nothing is outstanding, and no container is in
memory. -/
theorem Session.KeepsBooks.balanced (h : s.KeepsBooks env (taken, added)) (hphase : Phase env s)
    (hret : s.Returned) (hrogue : s.client.rogue = false) : s.Balanced env taken added := by
  obtain ⟨hcounts, hdrains⟩ := h
  obtain ⟨hjoined, hpc, -, hlisted⟩ := hphase.returned hret
  have hentries := hjoined.entries hpc
  have hlength : s.conn.written.length = (fileChunks env s.client.file).length := by
    rw [← hentries]
    exact hlisted hrogue
  have hbody : s.conn.pc ≠ .body := by
    intro hbody
    rcases (hphase.uploading_of_body hbody).stage with ⟨-, hdormant⟩ | ⟨-, hwriting⟩
    · exact absurd (hdormant.dataWriter.symm.trans hret) (by simp)
    · have hdata := hwriting.data
      rw [show s.conn.dataWriter = .joined from hret] at hdata
      exact hdata
  refine ⟨?_, hlength, ?_, hcounts.taken⟩
  · rw [hcounts.chunks, hentries, (hdrains hrogue).drained hbody, hlength]
    rfl
  · rw [hcounts.added, hjoined.liveBytes, Nat.add_zero]

/-! ## The sizes in the recipe -/

/-- Entries that point to the chunks of a file have its size together. -/
theorem sum_sizes_of_forall₂ {as : List ChunkAddr} {file : Bytes}
    (h : List.Forall₂ (fun a x => x.length = a.size.toNat) as (fileChunks env file)) :
    (as.map (·.size.toNat)).sum = file.length := by
  have hsizes : as.map (·.size.toNat) = (fileChunks env file).map List.length := by
    rw [← List.forall₂_eq_eq_eq, List.forall₂_map_left_iff, List.forall₂_map_right_iff]
    exact h.imp fun a x hax => hax.symm
  rw [hsizes, ← List.length_flatten, flatten_fileChunks]

/-- **Among honest clients the sizes add up.** -/
theorem State.Sane.sizesAddUp {S : Set Bytes} {hcf : env.CollisionFreeOn S} (h : σ.Sane hcf)
    (hi : σ.locals i = some s) (hret : s.Returned) : s.SizesAddUp := by
  obtain ⟨P, hinv⟩ := h.inv
  obtain ⟨hjoined, hpc, hacc, hlisted⟩ := (h.phase i s hi).returned hret
  have hrefs := ((hinv.loc i s hi).refs (Set.mem_univ i) hacc).listed (hlisted (h.honest i s hi).1)
  rw [hjoined.entries hpc] at hrefs
  exact sum_sizes_of_forall₂ (hrefs.imp fun a x hax => hax.1.size)

/-- **The accounts of an upload.** In every run, whatever the other clients do, for every upload of an
honest client that has returned: its unique and its duplicate chunks are together as many as the file
has chunks and as the recipe has entries, and the bytes it has counted are those its `UPLOADBODY`
messages have carried and those it has added to the container files. If all clients are honest, the
sizes in its recipe add up to the length of the file. If no other accepted upload has its recipe file,
that file consists of its entries. -/
theorem upload_accounting
    (hrun : Books (sessions env) anyStep (bookOf i) State.init σ (taken, added))
    (hfresh : env.FreshUpTo σ.shared.drawn) (hi : σ.locals i = some s) (hret : s.Returned)
    (hrogue : s.client.rogue = false) :
    s.Balanced env taken added ∧
    (∀ S, env.CollisionFreeOn S → Reaches (sessions env) (honest env S) State.init σ →
      s.SizesAddUp) ∧
    (σ.Apart env → σ.shared.recipes.lookup (s.recipePath env) =
      some (encodeTotalChunkNum s.conn.written.length ++ encodeEntries s.conn.written)) := by
  have hphase := (State.inPhase_init env).reaches hrun.reaches
  have hkeeps := Session.keepsBooks_of_books hrun hfresh hi
  refine ⟨hkeeps.balanced (hphase i s hi) hret hrogue, fun S hcf hhonest => ?_, fun hapart => ?_⟩
  · have hsane := ((State.sane_init hcf).carry (fun _ _ _ h => h) hhonest hfresh).2
    exact hsane.sizesAddUp hi hret
  · obtain ⟨hjoined, -, hacc, -⟩ := (hphase i s hi).returned hret
    have hrecipe := (State.recipesKept_init env).reaches (State.inPhase_init env) hrun.reaches hapart
    exact hrecipe i s hi hacc _ (by rw [Conn.recipeFile, hjoined.recipeWriter])

/-- A file of one byte is uploaded twice, under different names: the second time its chunk is a duplicate
and nothing is received. -/
theorem upload_accounting_sample :
    ∃ (σ : State) (s : Session) (taken added : ℕ), σ.locals 1 = some s ∧
      s.conn.upload.uniqueChunkNum = 0 ∧ s.conn.upload.duplicatedChunkNum = 1 ∧
      s.Balanced Sample.env taken added ∧ s.SizesAddUp := by
  -- session 0 stores the chunk, session 1 sends the same chunk under another name
  let first := Sample.session 0 (Sample.upload 1 [65] [7]) (Sample.sending ++ Sample.saving 1)
  let second := Sample.session 1 (Sample.upload 1 [66] [7]) (Sample.sending ++ Sample.saving 0)
  have hrun : (State.init.exec Sample.env (first ++ second)).any (fun σ =>
      decide (σ.shared.drawn ≤ 255) && (σ.locals 1).any fun s => decide (s.Returned ∧
        s.client.rogue = false ∧ s.conn.upload.uniqueChunkNum = 0 ∧
        s.conn.upload.duplicatedChunkNum = 1)) = true := by
    decide +kernel
  obtain ⟨σ, hexec, hσ⟩ := (Option.any_eq_true _ _).mp hrun
  obtain ⟨hdrawn, hσ⟩ := (Bool.and_eq_true _ _).mp hσ
  obtain ⟨s, hs, hσ⟩ := (Option.any_eq_true _ _).mp hσ
  obtain ⟨hret, hrogue, hunique, hduplicated⟩ := of_decide_eq_true hσ
  have hchunks : ∀ x ∈ fileChunks Sample.env [7], x ∈ ({[7]} : Set Bytes) :=
    Sample.mem_of_mem_fileChunks_seven rfl
  have hhonest : Reaches (sessions Sample.env) (honest Sample.env {[7]}) State.init σ := by
    apply State.reaches_exec_of _ hexec
    intro υ υ' ℓ hℓ
    rcases List.mem_append.mp hℓ with hℓ | hℓ
    · exact honest_session rfl (fun _ => hchunks) hℓ υ υ'
    · exact honest_session rfl (fun _ => hchunks) hℓ υ υ'
  obtain ⟨⟨taken, added⟩, hbooks⟩ := (hhonest.mono fun _ _ _ _ => trivial).exists_books (bookOf 1)
  obtain ⟨hbalanced, hsizes, -⟩ := upload_accounting hbooks
    (Sample.freshUpTo (of_decide_eq_true hdrawn)) hs hret hrogue
  exact ⟨σ, s, taken, added, hs, hunique, hduplicated, hbalanced,
    hsizes {[7]} (Set.injOn_singleton _ _) hhonest⟩

/-- The steps of a rogue that asks about the hash of one chunk and sends a longer one. -/
def Sample.stretching : List Act :=
  [.server, .server, .server, .server, .rogue [] [Sample.env.generateHash [7]], .server, .server,
    .rogue [[8, 8]] [], .server, .server] ++ Sample.saving 1

/-- **The sizes need not add up when others are rogues.** One has sent two bytes for the hash of a chunk
of one byte; an honest client that uploads the chunk gets their address, with their size. -/
theorem sizes_do_not_add_up : Sample.env.CollisionFreeOn {[7], [8, 8]} ∧
    ¬ ∀ (σ : State) (i : ℕ) (s : Session) (taken added : ℕ),
      Books (sessions Sample.env) anyStep (bookOf i) State.init σ (taken, added) →
      Sample.env.FreshUpTo σ.shared.drawn → σ.locals i = some s → s.Returned →
      s.client.rogue = false → s.Balanced Sample.env taken added ∧ s.SizesAddUp := by
  -- a rogue client of session 0 puts two bytes under the hash of one
  let rogue := Sample.session 0 { Sample.upload 1 [65] [] with rogue := true } Sample.stretching
  let honest := Sample.session 1 (Sample.upload 1 [66] [7]) (Sample.sending ++ Sample.saving 0)
  have hrun : (State.init.exec Sample.env (rogue ++ honest)).any (fun σ =>
      decide (σ.shared.drawn ≤ 255) && (σ.locals 1).any fun s => decide (s.Returned ∧
        s.client.rogue = false ∧ ¬ s.SizesAddUp)) = true := by
    decide +kernel
  obtain ⟨σ, hexec, hσ⟩ := (Option.any_eq_true _ _).mp hrun
  obtain ⟨hdrawn, hσ⟩ := (Bool.and_eq_true _ _).mp hσ
  obtain ⟨s, hs, hσ⟩ := (Option.any_eq_true _ _).mp hσ
  obtain ⟨hret, hrogue, hsizes⟩ := of_decide_eq_true hσ
  have hreach : Reaches (sessions Sample.env) anyStep State.init σ :=
    State.reaches_exec_of (fun _ _ _ _ => trivial) hexec
  obtain ⟨⟨taken, added⟩, hbooks⟩ := hreach.exists_books (bookOf 1)
  refine ⟨?_, fun hclaim => hsizes ?_⟩
  · exact Sample.collisionFreeOn_pair (by decide)
  · exact (hclaim σ 1 s taken added hbooks (Sample.freshUpTo (of_decide_eq_true hdrawn)) hs hret
      hrogue).2

end DedupServer
