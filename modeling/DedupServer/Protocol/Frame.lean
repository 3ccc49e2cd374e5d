import DedupServer.Protocol.Lockstep

/-! # What every step leaves as it was

The registry and the index only grow (`Server.Grows`), and a session keeps its identity, its file
while it uploads, and the answer to its request (`Session.Kept`). Both hold of single steps and of
whole runs. -/

namespace DedupServer

open Foundations

variable {env : Env} {s s' : Session} {sv sv' : Server}

/-- **The registry, the index and the count of ids only grow.** -/
structure Server.Grows (sv sv' : Server) : Prop where
  files : sv.files <+: sv'.files
  index : ∀ k a, sv.allChunks k = some a → sv'.allChunks k = some a
  drawn : sv.drawn ≤ sv'.drawn

theorem Server.Grows.refl (sv : Server) : sv.Grows sv :=
  ⟨List.prefix_rfl, fun _ _ h => h, le_rfl⟩

theorem Server.Grows.trans {sv'' : Server} (h : sv.Grows sv') (h' : sv'.Grows sv'') :
    sv.Grows sv'' :=
  ⟨h.files.trans h'.files, fun k a hk => h'.index k a (h.index k a hk), h.drawn.trans h'.drawn⟩

/-- The session is there to upload a file: it asks for that, or has been answered. -/
def Session.Uploader (s : Session) : Prop :=
  s.client.pc = .awaitUploadRep ∨ s.conn.uploadRep ≠ none

theorem Session.Accepted.uploader (h : s.Accepted) : s.Uploader :=
  .inr (by rw [show s.conn.uploadRep = some .UNIQUE from h]; simp)

/-- **What a session keeps.** -/
structure Session.Kept (s s' : Session) : Prop where
  client_id : s'.client.client_id = s.client.client_id
  file_path : s'.client.file_path = s.client.file_path
  rogue : s'.client.rogue = s.client.rogue
  accepted : s.Accepted → s'.Accepted
  uploader : s'.Uploader ↔ s.Uploader
  file : s.Uploader → s'.client.file = s.client.file

namespace Session.Kept

theorem refl (s : Session) : s.Kept s := ⟨rfl, rfl, rfl, id, Iff.rfl, fun _ => rfl⟩

theorem trans {s'' : Session} (h : s.Kept s') (h' : s'.Kept s'') : s.Kept s'' where
  client_id := h'.client_id.trans h.client_id
  file_path := h'.file_path.trans h.file_path
  rogue := h'.rogue.trans h.rogue
  accepted hacc := h'.accepted (h.accepted hacc)
  uploader := h'.uploader.trans h.uploader
  file hu := (h'.file (h.uploader.mpr hu)).trans (h.file hu)

/-- The name of the recipe file stays. -/
theorem recipePath (h : s.Kept s') : s'.recipePath env = s.recipePath env := by
  rw [Session.recipePath, Session.recipePath, Client.fileName, Client.fileName, h.client_id,
    h.file_path]

/-- A session whose client has not moved and whose answer is the same has kept everything. -/
theorem of_eq (hclient : s'.client = s.client) (hrep : s'.conn.uploadRep = s.conn.uploadRep) :
    s.Kept s' := by
  refine ⟨by rw [hclient], by rw [hclient], by rw [hclient], ?_, ?_, fun _ => by rw [hclient]⟩
  · rw [Accepted, Accepted, hrep]
    exact id
  · rw [Uploader, Uploader, hclient, hrep]

end Session.Kept

/-- A step of the serving thread keeps what belongs to the session. -/
theorem Served.kept (h : Served env sv s sv' s') : s.Kept s' := by
  have hanswer : ∀ {c : Conn} {reply : List Msg}, s.conn.uploadRep = none →
      s.client.pc = .awaitUploadRep → s.Kept (s.serverMoved s.up c reply) := by
    intro c reply hrep hcl
    refine ⟨rfl, rfl, rfl, fun hacc => ?_, ?_, fun _ => rfl⟩
    · rw [Session.Accepted, hrep] at hacc
      cases hacc
    · exact ⟨fun _ => .inl hcl, fun _ => .inl hcl⟩
  cases h with
  | quiet hquiet => exact .of_eq rfl hquiet.uploadRep
  | unique => exact .of_eq rfl rfl
  | refuse hpc hid hname hdup hdormant hrep hcl => exact hanswer hrep hcl
  | accept hpc hdormant hrep hcl => exact hanswer hrep hcl
  | register => exact .of_eq rfl rfl
  | body => exact .of_eq rfl rfl
  | fileEnd => exact .of_eq rfl rfl
  | reset => exact .of_eq rfl rfl

/-- **A step of a session keeps what belongs to it.** -/
theorem Moves.kept (h : Moves env sv s sv' s') : s.Kept s' := by
  cases h with
  | client hsame hrep hbody =>
    refine ⟨hsame.client_id, hsame.file_path, hsame.rogue, id, ?_, fun hu => hsame.file ?_⟩
    · refine ⟨fun hu => ?_, fun hu => .inr ?_⟩
      · exact hu.elim (fun hpc => absurd hpc hsame.pc) .inr
      · exact hu.elim hrep id
    · rintro hpc
      rcases hu with hu | hu
      · rw [hpc] at hu
        cases hu
      · exact hu (hbody hpc)
  | server hserved => exact hserved.kept
  | dataWriter hstep => exact .of_eq rfl (Conn.alike_dataWriterStep hstep).uploadRep
  | recipeWriter hstep =>
    refine .of_eq rfl ?_
    obtain ⟨-, -, rfl⟩ | ⟨-, -, -, -, -, -, -, rfl⟩ | ⟨-, -, -, -, -, -, rfl⟩ |
      ⟨-, -, -, -, -, rfl⟩ := Conn.recipeWriterStep_cases hstep
    all_goals rfl

/-- A step of the serving thread loses nothing. -/
theorem Served.grows (h : Served env sv s sv' s') : sv.Grows sv' := by
  cases h with
  | quiet | unique | refuse | accept | fileEnd => exact .refl sv
  | register => exact ⟨List.prefix_append _ _, fun _ _ h => h, le_rfl⟩
  | body hpc hup hupl hfits honest hrun =>
    obtain ⟨st', new, hrun', hext, -⟩ := Conn.exists_receiveBody env sv hupl.asked hfits
    obtain rfl := Option.some.inj (hrun.symm.trans hrun')
    exact ⟨hext.files ▸ List.prefix_rfl, hext.index, hext.drawn⟩
  | reset => exact ⟨List.prefix_rfl, fun _ _ h => h, Nat.le_succ _⟩

/-- **No step loses an entry of the registry or of the index.** -/
theorem Moves.grows (h : Moves env sv s sv' s') : sv.Grows sv' := by
  cases h with
  | client => exact .refl sv
  | server hserved => exact hserved.grows
  | dataWriter hstep =>
    obtain ⟨-, -, -, -, rfl, -⟩ | ⟨-, -, -, rfl, -⟩ | ⟨-, -, rfl, -⟩ :=
      Conn.dataWriterStep_cases hstep
    · exact .refl _
    · exact .refl _
    · exact ⟨List.prefix_rfl, fun _ _ h => h, le_rfl⟩
  | recipeWriter hstep =>
    obtain ⟨-, rfl, -⟩ | ⟨-, -, -, -, -, -, rfl, -⟩ | ⟨-, -, -, -, -, rfl, -⟩ |
      ⟨-, -, -, -, rfl, -⟩ := Conn.recipeWriterStep_cases hstep
    · exact ⟨List.prefix_rfl, fun _ _ h => h, le_rfl⟩
    · exact .refl _
    · exact ⟨List.prefix_rfl, fun _ _ h => h, le_rfl⟩
    · exact ⟨List.prefix_rfl, fun _ _ h => h, le_rfl⟩

/-- A step registers the file of its session, if any, and that session is accepted and goes on to the
body. -/
theorem Moves.files (h : Moves env sv s sv' s') :
    sv'.files = sv.files ∨ (s.Accepted ∧ s'.conn.pc = .body ∧
      sv'.files = sv.files ++ [(s.client.client_id, s.client.fileName)]) := by
  cases h with
  | client => exact .inl rfl
  | server hserved =>
    cases hserved with
    | quiet | unique | refuse | accept | fileEnd | reset => exact .inl rfl
    | register hpc hd hserves hacc hname =>
      exact .inr ⟨hacc, rfl, by rw [Server.addFile, hserves.client_id, hname]⟩
    | body hpc hup hupl hfits honest hrun =>
      obtain ⟨st', new, hrun', hext, -⟩ := Conn.exists_receiveBody env sv hupl.asked hfits
      obtain rfl := Option.some.inj (hrun.symm.trans hrun')
      exact .inl hext.files
  | dataWriter hstep =>
    obtain ⟨-, -, -, -, rfl, -⟩ | ⟨-, -, -, rfl, -⟩ | ⟨-, -, rfl, -⟩ :=
      Conn.dataWriterStep_cases hstep
    all_goals exact .inl rfl
  | recipeWriter hstep =>
    obtain ⟨-, rfl, -⟩ | ⟨-, -, -, -, -, -, rfl, -⟩ | ⟨-, -, -, -, -, rfl, -⟩ |
      ⟨-, -, -, -, rfl, -⟩ := Conn.recipeWriterStep_cases hstep
    all_goals exact .inl rfl

/-- A request is answered by one step, with `DUPLICATE` only when the file is registered. -/
theorem Moves.uploadRep (h : Moves env sv s sv' s') :
    s'.conn.uploadRep = s.conn.uploadRep ∨ s'.Accepted ∨
      (s.client.client_id, s.client.fileName) ∈ sv.files := by
  cases h with
  | client => exact .inl rfl
  | server hserved =>
    cases hserved with
    | quiet hquiet => exact .inl hquiet.uploadRep
    | unique | register | body | fileEnd | reset => exact .inl rfl
    | accept => exact .inr (.inl rfl)
    | refuse hpc hid hname hdup =>
      subst hname
      rw [hid] at hdup
      exact .inr (.inr (Server.isFileUnique_eq_false_iff.mp hdup))
  | dataWriter hstep => exact .inl (Conn.alike_dataWriterStep hstep).uploadRep
  | recipeWriter hstep =>
    obtain ⟨-, -, rfl⟩ | ⟨-, -, -, -, -, -, -, rfl⟩ | ⟨-, -, -, -, -, -, rfl⟩ |
      ⟨-, -, -, -, -, rfl⟩ := Conn.recipeWriterStep_cases hstep
    all_goals exact .inl rfl

/-! ## Runs -/

variable {σ τ : State} {ok : Condition} {ℓ : Label ℕ Act Arg}

/-- A step of the system loses nothing. -/
theorem State.InPhase.grows_step (h : σ.InPhase env) (hs : Step (sessions env) σ ℓ τ) :
    σ.shared.Grows τ.shared := by
  cases hs with
  | spawn hnone => exact ⟨List.prefix_rfl, fun _ _ h => h, Nat.le_succ _⟩
  | act hl hact => exact ((h _ _ hl).act hact).2.grows

/-- **Along a run nothing is lost from the registry and the index.** -/
theorem State.InPhase.grows (h : σ.InPhase env) (hr : Reaches (sessions env) ok σ τ) :
    σ.shared.Grows τ.shared := by
  induction hr with
  | refl => exact .refl _
  | tail hfirst hlast ih =>
    obtain ⟨ℓ, hs, -⟩ := hlast
    exact ih.trans ((h.reaches hfirst).grows_step hs)

/-- A step of the system keeps what belongs to the sessions. -/
theorem State.InPhase.kept_step (h : σ.InPhase env) (hs : Step (sessions env) σ ℓ τ) {i : ℕ}
    (hi : σ.locals i = some s) : ∃ s', τ.locals i = some s' ∧ s.Kept s' := by
  by_cases howner : i = ℓ.owner
  · cases hs with
    | spawn hnone =>
      rw [Label.owner] at howner
      rw [howner, hnone] at hi
      cases hi
    | act hl hact =>
      rw [Label.owner] at howner
      subst howner
      obtain rfl := Option.some.inj (hl.symm.trans hi)
      exact ⟨_, Config.moved_locals_self _ _ _ _, ((h _ _ hl).act hact).2.kept⟩
  · exact ⟨s, (hs.locals_of_ne howner).trans hi, .refl s⟩

/-- **Along a run a session keeps what belongs to it.** -/
theorem State.InPhase.kept (h : σ.InPhase env) (hr : Reaches (sessions env) ok σ τ) {i : ℕ}
    (hi : σ.locals i = some s) : ∃ s', τ.locals i = some s' ∧ s.Kept s' := by
  induction hr with
  | refl => exact ⟨s, hi, .refl s⟩
  | tail hfirst hlast ih =>
    obtain ⟨ℓ, hs, -⟩ := hlast
    obtain ⟨s', hs', hkept⟩ := ih
    obtain ⟨s'', hs'', hkept'⟩ := (h.reaches hfirst).kept_step hs hs'
    exact ⟨s'', hs'', hkept.trans hkept'⟩

/-! ## The check for uniqueness -/

/-- The session has passed the check for uniqueness. -/
def Session.Past (s : Session) : Prop := (∃ fileName, s.conn.pc = .reply fileName) ∨ s.Accepted

/-- **A session passes the check by its look-up only.** -/
theorem Moves.past (h : Moves env sv s sv' s') (hpast : s'.Past) :
    s.Past ∨ (s.conn.pc = .lookup s.client.fileName ∧ s.conn.client_id = s.client.client_id ∧
      (s.client.client_id, s.client.fileName) ∉ sv.files) := by
  -- a step that changes neither the state nor the answer keeps the session where it was
  have hsame : s'.conn.pc = s.conn.pc → s'.conn.uploadRep = s.conn.uploadRep → s.Past :=
    fun hpc hrep => hpast.imp (fun ⟨n, hn⟩ => ⟨n, hpc ▸ hn⟩) hrep.symm.trans
  have hacc_of : (∀ n, s'.conn.pc ≠ .reply n) → s'.Accepted := fun hne =>
    hpast.resolve_left fun ⟨n, hn⟩ => hne n hn
  cases h with
  | client => exact .inl hpast
  | server hserved =>
    cases hserved with
    | quiet hquiet =>
      refine .inl (.inr ?_)
      rw [Session.Accepted, ← hquiet.uploadRep]
      exact hacc_of fun n => hquiet.after_ne rfl
    -- the one step that gets past the check, and the name is not registered there
    | unique hpc hid hname hunique =>
      subst hname
      refine .inr ⟨hpc, hid, ?_⟩
      rw [hid] at hunique
      exact Server.isFileUnique_iff.mp hunique
    | refuse =>
      have hacc := hacc_of (by simp [Session.serverMoved])
      cases hacc
    | accept hpc => exact .inl (.inl ⟨_, hpc⟩)
    | register hpc hd hserves hacc => exact .inl (.inr hacc)
    | body hpc hup hupl => exact .inl (.inr hupl.accepted)
    | fileEnd hpc hupl => exact .inl (.inr hupl.accepted)
    | reset hpc hacc => exact .inl (.inr hacc)
  | dataWriter hstep =>
    have halike := Conn.alike_dataWriterStep hstep
    exact .inl (hsame halike.pc halike.uploadRep)
  | recipeWriter hstep =>
    -- the recipe writer changes its own state and the files only
    obtain ⟨_, rfl, rfl⟩ | ⟨_, _, _, _, _, _, rfl, rfl⟩ | ⟨_, _, _, _, _, rfl, rfl⟩ |
      ⟨_, _, _, _, rfl, rfl⟩ := Conn.recipeWriterStep_cases hstep
    all_goals exact .inl hpast

end DedupServer
