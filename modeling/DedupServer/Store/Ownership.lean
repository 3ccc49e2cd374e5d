import DedupServer.Protocol.Refs
import DedupServer.Store.StoreChunks

/-! # Every session works on its own containers

The rely/guarantee argument of the store. A session keeps the containers it has in memory apart
from everybody else's (`Policy.Local`) and promises to extend its own logs only (`Pool.Extends`);
under these promises the disk and the index stay sound along every interleaving.

Which clients are trusted is a parameter (`Policy`): the sessions that are tracked are honest and
their files consist of known chunks; for them the recipe is followed as well. -/

namespace DedupServer

open Foundations

/-- **Who is trusted with what.** `Good h x` is what is known of a chunk `x` stored under the
hash `h`; the chunks in `chunks` are the only ones stored under their hashes. -/
structure Policy (env : Env) where
  Good : Bytes → Bytes → Prop
  /-- The sessions that may act. -/
  movers : Set ℕ
  /-- The sessions whose recipes are followed. -/
  tracked : Set ℕ
  chunks : Set Bytes
  good_of_mem : ∀ x ∈ chunks, Good (env.generateHash x) x
  eq_of_good : ∀ x ∈ chunks, ∀ y, Good (env.generateHash x) y → y = x

/-- Where a recipe entry comes from: it is an address in a container of the session, or one the
index has answered. -/
def Source (i : ℕ) (P : Pool) (answered : List ChunkAddr) (a : ChunkAddr) (x : Bytes) : Prop :=
  P.At a x ∧ (P.OwnedBy i a.containerID ∨ a ∈ answered)

namespace Policy

variable {env : Env}

/-- **What a session must be like to take a step**: an honest one with known chunks, if it is
tracked; otherwise nothing may be claimed of what it stores. -/
structure Admits (π : Policy env) (i : ℕ) (s : Session) : Prop where
  honest : i ∈ π.tracked → s.client.rogue = false
  known : i ∈ π.tracked → s.Accepted → ∀ x ∈ fileChunks env s.client.file, x ∈ π.chunks
  free : i ∉ π.tracked → ∀ h x, π.Good h x

/-- The condition on the steps of a run: ids are fresh, and the session that acts is admitted. -/
def allows (π : Policy env) : Condition := fun σ ℓ τ =>
  env.FreshUpTo τ.shared.drawn ∧ ℓ.owner ∈ π.movers ∧
    ∀ i a, ℓ = .act i a → ∀ s, σ.locals i = some s → Phase env s ∧ π.Admits i s

/-- **The invariant of a session.** -/
structure Local (π : Policy env) (i : ℕ) (P : Pool) (sv : Server) (s : Session) : Prop where
  owns : Pool.Owns i P sv.containers s.conn.live
  buffer : P.Backs i s.conn.upload.containerBuffer
  refs : i ∈ π.tracked → s.Accepted → s.Refs env (Source i P s.conn.answered)
  answered : i ∈ π.tracked → s.Accepted → ∀ a ∈ s.conn.answered,
    ∃ x ∈ fileChunks env s.client.file,
      sv.allChunks (convertArrayHashToString (env.generateHash x)) = some a

/-- What one step of session `i` achieves. -/
def Advances (π : Policy env) (i : ℕ) (P : Pool) (sv sv' : Server) (s' : Session) : Prop :=
  ∃ P', Pool.Extends i P sv P' sv' ∧ P'.Sound env π.Good sv' ∧ π.Local i P' sv' s'

variable {π : Policy env} {i j : ℕ} {P P' : Pool} {sv sv' : Server} {s s' : Session}

/-- A source stays one when the store grows and more has been answered. -/
theorem source_mono {answered answered' : List ChunkAddr} (hgrows : GrowsBy j P P')
    (hsub : ∀ a ∈ answered, a ∈ answered') (a : ChunkAddr) (x : Bytes)
    (h : Source i P answered a x) : Source i P' answered' a x :=
  ⟨Holds.mono hgrows h.1, h.2.imp (Pool.Extends.ownedBy hgrows) (hsub a)⟩

/-- **A session does not notice what another one does.** -/
theorem Local.stable (h : π.Local j P sv s) (hne : j ≠ i) (hext : Pool.Extends i P sv P' sv') :
    π.Local j P' sv' s where
  owns := h.owns.stable hne hext
  buffer := h.buffer.stable hne hext.grows
  refs ht hacc := (h.refs ht hacc).mono fun a x => source_mono hext.grows (fun _ h => h) a x
  answered ht hacc a ha := by
    obtain ⟨x, hx, hindex⟩ := h.answered ht hacc a ha
    exact ⟨x, hx, hext.index _ a hindex⟩

/-- A step that moves no bytes. -/
theorem Local.still (h : π.Local i P sv s) (hsound : P.Sound env π.Good sv)
    (hcontainers : sv'.containers = sv.containers) (hindex : sv'.allChunks = sv.allChunks)
    (hdrawn : sv'.drawn = sv.drawn) (hlive : s'.conn.live = s.conn.live)
    (hbuffer : s'.conn.upload.containerBuffer = s.conn.upload.containerBuffer)
    (hrefs : i ∈ π.tracked → s'.Accepted → s'.Refs env (Source i P s'.conn.answered))
    (hanswered : s'.Accepted → s'.conn.answered = [] ∨ (s.Accepted ∧
      s'.conn.answered = s.conn.answered ∧ s'.client.file = s.client.file)) :
    π.Advances i P sv sv' s' := by
  refine ⟨P, .of_eq i P hcontainers hindex hdrawn, hsound.of_eq hcontainers hindex hdrawn,
    by rw [hcontainers, hlive]; exact h.owns, by rw [hbuffer]; exact h.buffer, hrefs,
    fun ht hacc a ha => ?_⟩
  rcases hanswered hacc with hnil | ⟨hacc', heq, hfile⟩
  · simp [hnil] at ha
  · rw [hfile, hindex]
    exact h.answered ht hacc' a (heq ▸ ha)

/-- While the buffer is being filled it is the last of the containers in memory. -/
theorem live_of_ne_join {c : Conn} (hpc : c.pc ≠ .join) :
    c.live = c.dataWriter.held ++ c.upload.containers := by
  rw [Conn.live, if_neg hpc, UploadState.containers, List.append_assoc]

/-- The containers in memory before an upload, and after it, are the buffer alone. -/
theorem live_of_eq {c c' : Conn} (hpc : c.pc ≠ .join) (hpc' : c'.pc ≠ .join)
    (hheld : c'.dataWriter.held = c.dataWriter.held)
    (hcontainers : c'.upload.containers = c.upload.containers) : c'.live = c.live := by
  rw [live_of_ne_join hpc, live_of_ne_join hpc', hheld, hcontainers]

/-- **A new session** opens a container. -/
theorem Local.connect (hsound : P.Sound env π.Good sv) (hidle : ∀ id l, P id ≠ some (i, l))
    (arg : Arg) (hfresh : env.FreshUpTo (Session.connect env sv arg).1.drawn) :
    π.Advances i P sv (Session.connect env sv arg).1 (Session.connect env sv arg).2 := by
  obtain ⟨hsound', hext⟩ :=
    hsound.opened (Session.connect env sv arg).1 hfresh rfl rfl rfl i
  have hnone : Pool.Owns i P sv.containers [] :=
    ⟨by simp, by simp, by simp, fun id l hl => absurd hl (hidle id l)⟩
  have howns := hnone.opened hsound hfresh
  have hacc : ¬ (Session.connect env sv arg).2.Accepted := by
    simp [Session.Accepted, Session.connect, Conn.init]
  exact ⟨_, hext, hsound', howns, howns.backs _ (List.mem_singleton_self _),
    fun _ h => absurd h hacc, fun _ h => absurd h hacc⟩

/-! ## The body of an upload -/

/-- The chunks of an honest message are good under the hashes they were asked for; of an untracked
one anything goes. -/
theorem Admits.good (h : π.Admits i s) (hacc : s.Accepted) {msg : DataMsg}
    {uniq next : List Bytes} (hfits : s.conn.Fits msg uniq next)
    (honest : s.client.rogue = false →
      ∃ stored pending batch rest, s.Sends env stored pending batch rest uniq next) :
    List.Forall₂ π.Good (picks 1 s.conn.queries) uniq := by
  by_cases ht : i ∈ π.tracked
  · obtain ⟨stored, pending, batch, rest, hsends⟩ := honest (h.honest ht)
    have hpicks : picks 1 s.conn.queries = uniq.map env.generateHash := by
      rw [hsends.uniq, ← picks_zip_map, ← hsends.splits.hashList]
      rfl
    have hsub : ∀ x ∈ uniq, x ∈ fileChunks env s.client.file := by
      intro x hx
      rw [hsends.uniq] at hx
      have hx := (picks_zip_sublist 1 _ _).subset hx
      rw [hsends.splits.chunks]
      exact List.mem_append_left _ (List.mem_append_right _ hx)
    rw [hpicks, List.forall₂_map_left_iff, List.forall₂_same]
    exact fun x hx => π.good_of_mem x (h.known ht hacc x (hsub x hx))
  · have hfree := h.free ht
    exact List.forall₂_iff_zip.mpr ⟨hfits.count.symm, fun _ => hfree _ _⟩

/-- **The index answers a tracked session with addresses of its chunks.** -/
theorem Admits.answers (h : π.Admits i s) (ht : i ∈ π.tracked) (hacc : s.Accepted)
    (hsound : P.Sound env π.Good sv) {x : Bytes} (hx : x ∈ fileChunks env s.client.file)
    {a : ChunkAddr}
    (ha : sv.allChunks (convertArrayHashToString (env.generateHash x)) = some a) : P.At a x := by
  obtain ⟨hash, y, hlen, hkey, -, hat, hgood⟩ := hsound.index _ a ha
  have hhash : env.generateHash x = hash :=
    convertArrayHashToString_injective (env.length_generateHash x) hlen hkey
  rw [← hhash] at hgood
  rwa [π.eq_of_good x (h.known ht hacc x hx) y hgood] at hat

/-- **One `UPLOADBODY` message.** -/
theorem Local.body (h : π.Local i P sv s) (hsound : P.Sound env π.Good sv) (hadmits : π.Admits i s)
    (hpc : s.conn.pc = .body) (hupl : s.Uploading env) {msg : DataMsg} {rest' : List Msg}
    {uniq next : List Bytes} (hfits : s.conn.Fits msg uniq next)
    (honest : s.client.rogue = false →
      ∃ stored pending batch rest, s.Sends env stored pending batch rest uniq next)
    {st : StoreLoop}
    (hrun : StoreLoop.run env msg ⟨sv, s.conn.upload, none, 0⟩ s.conn.queries = some st)
    (hfresh : env.FreshUpTo st.server.drawn) :
    π.Advances i P sv st.server (s.serverMoved rest' (s.conn.answerQuery msg st)
      (s.conn.answerQuery msg st).bodyReply) := by
  have hjoin : s.conn.pc ≠ .join := by simp [hpc]
  have hgood := hadmits.good hupl.accepted hfits honest
  -- the loop starts with the containers that the writer still has to save
  have hloop : StoreLoop.Sound env π.Good i P s.conn.dataWriter.held
      ⟨sv, s.conn.upload, none, 0⟩ := ⟨hsound, live_of_ne_join hjoin ▸ h.owns⟩
  have hlen : ∀ q ∈ s.conn.queries, q.2.length = HASHSIZE := by
    intro q hq
    refine hupl.asked.hash_length _ ?_
    rw [← hupl.asked.map_queries]
    exact List.mem_map_of_mem hq
  obtain ⟨P', new, hext, hsound', hstores⟩ := StoreLoop.run_sound s.conn.queries
    hupl.asked.answer hlen hloop hupl.asked.dups hgood
    (fun x hx => List.length_pos_iff.mp (hfits.ragged.2 x hx).1)
    (fun x hx => (hfits.ragged.2 x hx).2)
    (fun u hu => by simpa using hfits.chunkSlot hupl.asked hu) hrun hfresh
  obtain ⟨st', -, hrun', -, -, hnil, -⟩ := Conn.exists_receiveBody env sv hupl.asked hfits
  obtain rfl := Option.some.inj (hrun.symm.trans hrun')
  refine ⟨P', hext, hsound'.sound, ?_, ?_, fun ht hacc => ?_, fun ht hacc a ha => ?_⟩
  · have hlive : (s.conn.answerQuery msg st).live
        = s.conn.dataWriter.held ++ st.up.containers := by
      rw [live_of_ne_join (by simpa [Conn.answerQuery] using hjoin)]
      rfl
    simp only [Session.serverMoved]
    rw [hlive]
    exact hsound'.owns
  · refine hsound'.owns.backs _ ?_
    rw [UploadState.containers]
    simp [Session.serverMoved, Conn.answerQuery]
  -- an honest client sends the chunks its last batch asked for, so the entries refer to them
  · obtain ⟨stored, pending, batch, rest, hsends⟩ := honest (hadmits.honest ht)
    have hanswered : ∀ a ∈ s.conn.answered, a ∈ (s.conn.answerQuery msg st).answered :=
      fun a ha => List.mem_append_left _ ha
    have hrefs := (h.refs ht hacc).mono fun a x => source_mono hext.grows hanswered a x
    refine hrefs.body hpc hupl.asked hfits hsends hstores.entries hnil hstores.length
      hstores.dups ?_ ?_
    · exact hstores.stored.imp fun a x h => ⟨h.1, .inl h.2⟩
    · intro x hx a ha
      have hmem : x ∈ fileChunks env s.client.file := by
        rw [hsends.splits.chunks]
        exact List.mem_append_right _ (List.mem_append_left _ hx)
      refine ⟨hadmits.answers ht hacc hsound'.sound hmem ha, .inr ?_⟩
      refine List.mem_append_right _ (List.mem_filterMap.mpr ⟨env.generateHash x, ?_, ha⟩)
      rw [hfits.queriedHashes, hsends.next]
      exact List.mem_map_of_mem hx
  -- an address answered now was found under the hash of a chunk of the batch
  · rcases List.mem_append.mp ha with ha | ha
    · obtain ⟨x, hx, hindex⟩ := h.answered ht hacc a ha
      exact ⟨x, hx, hext.index _ a hindex⟩
    · obtain ⟨stored, pending, batch, rest, hsends⟩ := honest (hadmits.honest ht)
      obtain ⟨hash, hhash, hindex⟩ := List.mem_filterMap.mp ha
      rw [hfits.queriedHashes, hsends.next] at hhash
      obtain ⟨x, hx, rfl⟩ := List.mem_map.mp hhash
      refine ⟨x, ?_, hindex⟩
      simp only [Session.serverMoved]
      rw [hsends.splits.chunks]
      exact List.mem_append_right _ (List.mem_append_left _ hx)

/-! ## The other steps -/

/-- **A step of the serving thread.** -/
theorem Local.served (h : π.Local i P sv s) (hsound : P.Sound env π.Good sv)
    (hadmits : π.Admits i s) (hserved : Served env sv s sv' s')
    (hfresh : env.FreshUpTo sv'.drawn) : π.Advances i P sv sv' s' := by
  cases hserved with
  | quiet hquiet =>
    refine h.still hsound rfl rfl rfl
      (live_of_eq (hquiet.before_ne rfl) (hquiet.after_ne rfl)
        (by simp only [Session.serverMoved]; rw [hquiet.dataWriter])
        (by simp only [Session.serverMoved]; rw [hquiet.upload]))
      (by simp only [Session.serverMoved]; rw [hquiet.upload]) (fun ht hacc => ?_) fun hacc => ?_
    · have hacc' : s.Accepted := by
        rw [Session.Accepted, ← hquiet.uploadRep]
        exact hacc
      simp only [Session.serverMoved]
      rw [hquiet.answered]
      exact (h.refs ht hacc').quiet hquiet
    · rw [Session.Accepted, ← hquiet.uploadRep]
      exact .inr ⟨hacc, hquiet.answered, rfl⟩
  | unique hpc hid hname hunique hdormant hrep =>
    refine h.still hsound rfl rfl rfl (live_of_eq (by simp [hpc]) (by simp [Session.serverMoved])
      rfl rfl) rfl (fun _ hacc => absurd hacc ?_) fun hacc => absurd hacc ?_ <;>
    simp [Session.Accepted, Session.serverMoved, hrep]
  | refuse hpc hid hname hdup hdormant hrep hcl =>
    refine h.still hsound rfl rfl rfl (live_of_eq (by simp [hpc]) (by simp [Session.serverMoved])
      rfl rfl) rfl (fun _ hacc => absurd hacc ?_) fun hacc => absurd hacc ?_ <;>
    simp [Session.Accepted, Session.serverMoved]
  | accept hpc hdormant hrep hcl =>
    refine h.still hsound rfl rfl rfl (live_of_eq (by simp [hpc]) (by simp [Session.serverMoved])
      rfl rfl) rfl (fun _ _ => .of_dormant hdormant rfl
        (by simp [Session.serverMoved, hdormant.recipeWriter, RecipeWriter.held]) rfl rfl rfl rfl)
      fun _ => .inl hdormant.answered
  | register hpc hdormant =>
    refine h.still hsound rfl rfl rfl (live_of_eq (by simp [hpc]) (by simp [Session.serverMoved])
      (by simp [Session.serverMoved, DataWriter.held, hdormant.dataWriter]) rfl) rfl
      (fun _ _ => .of_dormant hdormant rfl rfl rfl rfl rfl rfl) fun _ => .inl rfl
  | body hpc hup hupl hfits honest hrun =>
    exact h.body hsound hadmits hpc hupl hfits honest hrun hfresh
  | fileEnd hpc hupl =>
    refine ⟨P, .refl i P sv, hsound, ?_, ?_, fun ht hacc => ?_, h.answered⟩
    · -- the buffer has been handed over, unless it is empty
      have howns := h.owns
      rw [Conn.live, if_neg (by simp [hpc])] at howns
      rw [Conn.live, if_pos (by rfl), List.append_nil]
      simp only [Session.serverMoved, Conn.receiveFileEnd]
      split
      · simpa [UploadState.insertContainerQueue, UploadState.insertRecipeQueue, BlockQueue.push,
          BlockQueue.setDone] using howns
      · rename_i hempty
        exact howns.dropped (not_not.mp hempty)
    · simp only [Session.serverMoved, Conn.receiveFileEnd]
      split <;> exact h.buffer
    · exact (h.refs ht hacc).fileEnd hpc
  | reset hpc hacc hwriting hserves hdata hrecipe =>
    obtain ⟨hsound', hext⟩ :=
      hsound.opened (s.conn.resetUpload env sv).1 hfresh rfl rfl rfl i
    have hjoined : (s.conn.resetUpload env sv).2.Joined := hwriting.resetUpload hdata hrecipe
    have hnone : s.conn.live = [] := by
      have hqueue := hwriting.data
      rw [hdata] at hqueue
      simp [Conn.live, hdata, DataWriter.held, hqueue.2, hpc]
    have howns := h.owns
    rw [hnone] at howns
    have howns' := howns.opened hsound hfresh
    have hlive : (s.conn.resetUpload env sv).2.live
        = [(s.conn.resetUpload env sv).2.upload.containerBuffer] := by
      rw [live_of_ne_join (by simp [Conn.resetUpload]), UploadState.containers,
        hjoined.containerQueue]
      rfl
    refine ⟨_, hext, hsound', ?_, howns'.backs _ (List.mem_singleton_self _), fun ht _ => ?_,
      h.answered⟩
    · simp only [Session.serverMoved]
      rw [hlive]
      exact howns'
    · have hrefs := (h.refs ht hacc).mono fun a x =>
        source_mono hext.grows (fun _ h => h) a x
      exact hrefs.reset hpc hwriting hdata hrecipe

/-- **A step of the container writer.** -/
theorem Local.dataWriter (h : π.Local i P sv s) (hsound : P.Sound env π.Good sv) {c : Conn}
    (hstep : s.conn.dataWriterStep sv = some (sv', c)) :
    π.Advances i P sv sv' { s with conn := c } := by
  have halike := Conn.alike_dataWriterStep hstep
  have hrefs : i ∈ π.tracked → ({ s with conn := c } : Session).Accepted →
      ({ s with conn := c } : Session).Refs env (Source i P c.answered) := by
    intro ht hacc
    have hacc' : s.Accepted := by
      rw [Session.Accepted, ← halike.uploadRep]
      exact hacc
    rw [halike.answered]
    exact (h.refs ht hacc').alike halike
  have hanswered : ({ s with conn := c } : Session).Accepted →
      c.answered = [] ∨ (s.Accepted ∧ c.answered = s.conn.answered ∧
        s.client.file = s.client.file) := fun hacc =>
    .inr ⟨halike.uploadRep.symm.trans hacc, halike.answered, rfl⟩
  obtain ⟨C, rest, hw, hq, rfl, rfl⟩ | ⟨hw, hq, hdone, rfl, rfl⟩ | ⟨C, hw, rfl, rfl⟩ :=
    Conn.dataWriterStep_cases hstep
  · -- the container moves from the queue to the writer
    refine h.still hsound rfl rfl rfl ?_ rfl hrefs hanswered
    simp [Conn.live, hw, hq, DataWriter.held]
  · refine h.still hsound rfl rfl rfl ?_ rfl hrefs hanswered
    simp [Conn.live, hw, DataWriter.held]
  · -- the container moves from the writer to the disk
    have hlive : s.conn.live = C :: ({ s.conn with dataWriter := .waiting } : Conn).live := by
      simp [Conn.live, hw, DataWriter.held]
    have howns := h.owns
    rw [hlive] at howns
    have hC := howns.backs C List.mem_cons_self
    obtain ⟨hsound', hext⟩ := hsound.saved hC (howns.offDisk C List.mem_cons_self)
    exact ⟨P, hext, hsound', howns.saved, h.buffer, hrefs, h.answered⟩

/-- **A step of the recipe writer.** -/
theorem Local.recipeWriter (h : π.Local i P sv s) (hsound : P.Sound env π.Good sv)
    (hphase : Phase env s) {c : Conn} (hstep : s.conn.recipeWriterStep sv = some (sv', c)) :
    π.Advances i P sv sv' { s with conn := c } := by
  have halike := hphase.alike_recipeWriterStep hstep
  have hrefs : i ∈ π.tracked → ({ s with conn := c } : Session).Accepted →
      ({ s with conn := c } : Session).Refs env (Source i P c.answered) := by
    intro ht hacc
    have hacc' : s.Accepted := by
      rw [Session.Accepted, ← halike.uploadRep]
      exact hacc
    rw [halike.answered]
    exact (h.refs ht hacc').alike halike
  have hanswered : ({ s with conn := c } : Session).Accepted →
      c.answered = [] ∨ (s.Accepted ∧ c.answered = s.conn.answered ∧
        s.client.file = s.client.file) := fun hacc =>
    .inr ⟨halike.uploadRep.symm.trans hacc, halike.answered, rfl⟩
  obtain ⟨_, rfl, rfl⟩ | ⟨_, _, _, _, _, _, rfl, rfl⟩ | ⟨_, _, _, _, _, rfl, rfl⟩ |
    ⟨_, _, _, _, rfl, rfl⟩ := Conn.recipeWriterStep_cases hstep
  all_goals exact h.still hsound rfl rfl rfl rfl rfl hrefs hanswered

/-- **Every step of an admitted session** keeps its invariant within its promise. -/
theorem Local.moves (h : π.Local i P sv s) (hsound : P.Sound env π.Good sv) (hphase : Phase env s)
    (hadmits : π.Admits i s) (hmoves : Moves env sv s sv' s') (hfresh : env.FreshUpTo sv'.drawn) :
    π.Advances i P sv sv' s' := by
  have hkept := hmoves.kept
  cases hmoves with
  | client hsame hrep hbody =>
    refine h.still hsound rfl rfl rfl rfl rfl (fun ht (hacc : s.Accepted) => ?_)
      fun (hacc : s.Accepted) => .inr ⟨hacc, rfl, hkept.file hacc.uploader⟩
    exact (h.refs ht hacc).of_eq (hkept.file hacc.uploader) rfl fun hpc => ⟨hpc, rfl, rfl, rfl⟩
  | server hserved => exact h.served hsound hadmits hserved hfresh
  | dataWriter hstep => exact h.dataWriter hsound hstep
  | recipeWriter hstep => exact h.recipeWriter hsound hphase hstep

/-! ## The system -/

/-- **The rely/guarantee argument.** -/
def ownership (π : Policy env) : RelyGuarantee (sessions env) π.allows Pool where
  glob P sv := P.Sound env π.Good sv
  loc i P sv s := π.Local i P sv s
  idle i P := ∀ id l, P id ≠ some (i, l)
  guar i P sv P' sv' := Pool.Extends i P sv P' sv'
  spawn_step hsound hidle hok hτ := by
    subst hτ
    obtain ⟨P', hext, hsound', hlocal⟩ := Local.connect hsound hidle _ hok.1
    exact ⟨P', hext, hsound', hlocal⟩
  act_step hsound hl hlocal hact hok _ := by
    obtain ⟨hphase, hadmits⟩ := hok.2.2 _ _ rfl _ hl
    obtain ⟨P', hext, hsound', hlocal'⟩ :=
      hlocal.moves hsound hphase hadmits (hphase.act hact).2 hok.1
    exact ⟨P', hext, hsound', hlocal'⟩
  stable hne hext hlocal := hlocal.stable hne hext
  idle_stable hne hext hidle id l hl := hidle id l ((hext.grows.foreign id _ l hne).mp hl)

end Policy

end DedupServer
