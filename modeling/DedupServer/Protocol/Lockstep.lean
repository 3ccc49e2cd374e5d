import DedupServer.Protocol.ServerSteps

/-! # Every step keeps the lockstep

The writers do not disturb the phase of their session (`Phase.alike`). With the steps of the client
and of the serving thread this gives `Phase.act`, and from it `State.InPhase.reaches`: along every
run every session is in a phase. -/

namespace DedupServer

open Foundations

variable {env : Env} {s s' : Session} {sv sv' : Server}

/-! ## The writers -/

theorem Session.Uploading.alike {c : Conn} (h : s.Uploading env) (ha : s.conn.Alike c)
    (hpc : s.conn.pc = .body) : ({ s with conn := c } : Session).Uploading env where
  serves := ⟨ha.client_id.trans h.serves.client_id, ha.recipeNameHash.trans h.serves.path⟩
  accepted := ha.uploadRep.trans h.accepted
  asked := ha.asked h.asked
  stage := by
    rcases h.stage with ⟨hpc', -⟩ | ⟨-, hwriting⟩
    · rw [hpc] at hpc'
      cases hpc'
    · exact .inr ⟨ha.pc.trans hpc, ha.writing false hwriting⟩

/-- **A session whose writers have moved is in the same phase.** -/
theorem Phase.alike (h : Phase env s) {c : Conn} (ha : s.conn.Alike c)
    (hidle : ¬ s.conn.Dormant) (hjoined : ¬ s.conn.Joined) :
    Phase env { s with conn := c } := by
  -- a thread runs from the first body message on and until the reset
  have hpc_body : s.Uploading env → s.conn.pc = .body := fun hupl =>
    hupl.stage.elim (fun ⟨_, hd⟩ => absurd hd hidle) (·.1)
  have hover : ¬ s.Over env := fun h => h.elim (fun h => hidle h.1) fun h => hjoined h.1
  have hclient : ({ s with conn := c } : Session).client = s.client := rfl
  have hanswers := Conn.answers_of_eq ha.outData ha.hashList
  cases h with
  | accepted hcl hupl hup hdown hhash hentries =>
    exact .accepted hcl (hupl.alike ha (hpc_body hupl)) hup hdown (ha.hashList.trans hhash)
      (ha.entries.trans hentries)
  | asking hcl hupl hup hdown hfits hnext honest =>
    exact .asking hcl (hupl.alike ha (hpc_body hupl)) hup hdown (hfits.congr ha.queries) hnext
      fun hrogue => (honest hrogue).of_eq hclient hanswers ha.hashList ha.entries
  | answered hcl hpc hupl hup hdown hmsg honest =>
    refine .answered hcl (ha.pc.trans hpc) (hupl.alike ha hpc) hup hdown (hmsg.trans hanswers.symm)
      fun hrogue => ?_
    obtain ⟨stored, pending, rest, hsplit, hbuffer, hahead⟩ := honest hrogue
    exact ⟨stored, pending, rest, hsplit.of_eq ha.entries ha.hashList, hbuffer, hahead⟩
  | last hcl hupl hup hdown hfits hend honest =>
    exact .last hcl (hupl.alike ha (hpc_body hupl)) hup hdown (hfits.congr ha.queries) hend
      fun hrogue => (honest hrogue).of_eq hclient hanswers ha.hashList ha.entries
  | ending hcl hpc hupl hup hdown hend honest =>
    exact .ending hcl (ha.pc.trans hpc) (hupl.alike ha hpc) hup hdown hend
      fun hrogue => (congrArg List.length ha.entries).trans (honest hrogue)
  | joining hcl hpc hserves hacc hwriting hup hdown honest =>
    exact .joining hcl (ha.pc.trans hpc) ⟨ha.client_id.trans hserves.client_id,
      ha.recipeNameHash.trans hserves.path⟩ (ha.uploadRep.trans hacc) (ha.writing true hwriting)
      hup hdown fun hrogue => (congrArg List.length ha.entries).trans (honest hrogue)
  -- outside of that time no writer thread can step
  | quitting hcl hpc hup hdown h | left hcl hpc hup hdown h | closed hcl hpc hup hdown h =>
    exact absurd h hover
  | login hreq hpc hup hdown hdormant | order hreq hpc hup hdown hdormant
  | lookup hcl hpc hup hdown hdormant | reply hcl hpc hup hdown hdormant
  | refused hcl hpc hup hdown hdormant | exist hcl hpc hup hdown hdormant
  | notExist hcl hpc hup hdown hdormant | sending hpc hup hdown htype hdormant
  | sent hpc hup hdown hend hdormant => exact absurd hdormant hidle

/-- The writers run during an upload only. -/
theorem Phase.writing (h : Phase env s) (hidle : ¬ s.conn.Dormant) (hjoined : ¬ s.conn.Joined) :
    (s.conn.pc = .body ∧ s.conn.Writing false ∨ s.conn.pc = .join ∧ s.conn.Writing true) ∧
      s.Serves env ∧ s.Accepted := by
  have hstage : s.Uploading env → (s.conn.pc = .body ∧ s.conn.Writing false ∨
      s.conn.pc = .join ∧ s.conn.Writing true) ∧ s.Serves env ∧ s.Accepted :=
    fun hupl => ⟨.inl (hupl.stage.elim (fun ⟨_, hd⟩ => absurd hd hidle) id), hupl.serves,
      hupl.accepted⟩
  have hover : ¬ s.Over env := fun h => h.elim (fun h => hidle h.1) fun h => hjoined h.1
  cases h with
  | accepted hcl hupl | asking hcl hupl | last hcl hupl | answered hcl hpc hupl
  | ending hcl hpc hupl => exact hstage hupl
  | joining hcl hpc hserves hacc hwriting => exact ⟨.inr ⟨hpc, hwriting⟩, hserves, hacc⟩
  | quitting hcl hpc hup hdown h | left hcl hpc hup hdown h | closed hcl hpc hup hdown h =>
    exact absurd h hover
  | login hreq hpc hup hdown hdormant | order hreq hpc hup hdown hdormant
  | lookup hcl hpc hup hdown hdormant | reply hcl hpc hup hdown hdormant
  | refused hcl hpc hup hdown hdormant | exist hcl hpc hup hdown hdormant
  | notExist hcl hpc hup hdown hdormant | sending hpc hup hdown htype hdormant
  | sent hpc hup hdown hend hdormant => exact absurd hdormant hidle

/-- A step of the container writer shows that an upload is on. -/
theorem Conn.not_dormant_of_dataWriterStep {c c' : Conn}
    (h : c.dataWriterStep sv = some (sv', c')) : ¬ c.Dormant ∧ ¬ c.Joined :=
  ⟨fun hd => by simp [Conn.dataWriterStep_eq_none (.inl hd.dataWriter)] at h,
    fun hj => by simp [Conn.dataWriterStep_eq_none (.inr hj.dataWriter)] at h⟩

/-- So does a step of the recipe writer. -/
theorem Conn.not_dormant_of_recipeWriterStep {c c' : Conn}
    (h : c.recipeWriterStep sv = some (sv', c')) : ¬ c.Dormant ∧ ¬ c.Joined :=
  ⟨fun hd => by simp [Conn.recipeWriterStep_eq_none (.inl hd.recipeWriter)] at h,
    fun hj => by simp [Conn.recipeWriterStep_eq_none (.inr hj.recipeWriter)] at h⟩

theorem Phase.dataWriter (h : Phase env s) {c : Conn}
    (hstep : s.conn.dataWriterStep sv = some (sv', c)) : Phase env { s with conn := c } :=
  h.alike (Conn.alike_dataWriterStep hstep) (Conn.not_dormant_of_dataWriterStep hstep).1
    (Conn.not_dormant_of_dataWriterStep hstep).2

/-- The recipe writer leaves the connection alike. -/
theorem Phase.alike_recipeWriterStep (h : Phase env s) {c : Conn}
    (hstep : s.conn.recipeWriterStep sv = some (sv', c)) : s.conn.Alike c := by
  obtain ⟨hidle, hjoined⟩ := Conn.not_dormant_of_recipeWriterStep hstep
  rcases (h.writing hidle hjoined).1 with ⟨-, hwriting⟩ | ⟨-, hwriting⟩
  · exact Conn.alike_recipeWriterStep hwriting hstep
  · exact Conn.alike_recipeWriterStep hwriting hstep

theorem Phase.recipeWriter (h : Phase env s) {c : Conn}
    (hstep : s.conn.recipeWriterStep sv = some (sv', c)) : Phase env { s with conn := c } :=
  h.alike (h.alike_recipeWriterStep hstep) (Conn.not_dormant_of_recipeWriterStep hstep).1
    (Conn.not_dormant_of_recipeWriterStep hstep).2

/-! ## All steps -/

/-- **What one action of a session does**, given that the session is in a phase: the client takes
a message and leaves the server alone, or the server side moves and leaves the client alone. -/
inductive Moves (env : Env) (sv : Server) (s : Session) : Server → Session → Prop
  | client {rest : List Msg} {r : Client × List Msg} (hsame : s.client.Same r.1)
      (hrep : s.client.pc = .awaitUploadRep → s.conn.uploadRep ≠ none)
      (hbody : s.client.pc = .awaitBody → s.conn.uploadRep = none) :
      Moves env sv s sv (s.clientMoved rest r)
  | server {sv' : Server} {s' : Session} (hserved : Served env sv s sv' s') : Moves env sv s sv' s'
  | dataWriter {sv' : Server} {c : Conn} (hstep : s.conn.dataWriterStep sv = some (sv', c)) :
      Moves env sv s sv' { s with conn := c }
  | recipeWriter {sv' : Server} {c : Conn}
      (hstep : s.conn.recipeWriterStep sv = some (sv', c)) :
      Moves env sv s sv' { s with conn := c }

/-- A client that is told something about its upload has been answered. -/
theorem Phase.uploadRep_ne_none (h : Phase env s) {m : Msg} {rest : List Msg}
    (hd : s.down = m :: rest) (hpc : s.client.pc = .awaitUploadRep) :
    s.conn.uploadRep ≠ none := by
  cases h with
  | refused hcl hpc hup hdown hdormant hrep => simp [hrep]
  | accepted hcl hupl => simp [show s.conn.uploadRep = some .UNIQUE from hupl.accepted]
  | login hreq hpc' hup hdown | order hreq hpc' hup hdown | lookup hcl hpc' hup hdown
  | reply hcl hpc' hup hdown => simp [hdown] at hd
  | asking hcl | answered hcl | last hcl | ending hcl | joining hcl | quitting hcl | left hcl
  | closed hcl | exist hcl | notExist hcl => simp [hcl] at hpc
  | sending hpc' hup hdown | sent hpc' hup hdown =>
    obtain ⟨-, -, ⟨hcl, -⟩ | ⟨hcl, -⟩⟩ := hdown <;> simp [hcl] at hpc

/-- A client that downloads has no upload. -/
theorem Phase.uploadRep_eq_none (h : Phase env s) (hpc : s.client.pc = .awaitBody) :
    s.conn.uploadRep = none := by
  cases h with
  | sending hpc' hup hdown htype hdormant hrep | sent hpc' hup hdown hend hdormant hrep =>
    exact hrep
  | login hreq hpc' hup hdown hdormant hrep | order hreq hpc' hup hdown hdormant hrep =>
    exact hrep
  | asking hcl | answered hcl | last hcl | ending hcl | joining hcl | quitting hcl | left hcl
  | closed hcl | exist hcl | notExist hcl | refused hcl | accepted hcl | lookup hcl
  | reply hcl => simp [hcl] at hpc

/-- **Every action keeps the lockstep** and is one of `Moves`. -/
theorem Phase.act (h : Phase env s) {a : Act} (hact : Session.act env sv s a = some (sv', s')) :
    Phase env s' ∧ Moves env sv s sv' s' := by
  cases a with
  | client =>
    simp only [Session.act] at hact
    split at hact
    on_goal 2 => cases hact
    rename_i m rest hdown
    obtain ⟨r, hr, heq⟩ := Option.map_eq_some_iff.mp hact
    obtain ⟨rfl, rfl⟩ := Prod.mk.inj heq
    exact ⟨h.client hdown hr,
      .client (Client.same_react hr) (h.uploadRep_ne_none hdown) h.uploadRep_eq_none⟩
  -- a client that does not follow the protocol is still served by it
  | rogue chunkData hashes =>
    simp only [Session.act] at hact
    split at hact
    on_goal 2 => cases hact
    rename_i m rest hdown
    obtain ⟨r, hr, heq⟩ := Option.map_eq_some_iff.mp hact
    obtain ⟨rfl, rfl⟩ := Prod.mk.inj heq
    exact ⟨h.rogue hdown hr,
      .client (Client.same_rogueReact hr) (h.uploadRep_ne_none hdown) h.uploadRep_eq_none⟩
  | server =>
    obtain ⟨hphase, hserved⟩ := h.server hact
    exact ⟨hphase, .server hserved⟩
  | dataWriter =>
    obtain ⟨r, hr, heq⟩ := Option.map_eq_some_iff.mp hact
    obtain ⟨rfl, rfl⟩ := Prod.mk.inj heq
    exact ⟨h.dataWriter hr, .dataWriter hr⟩
  | recipeWriter =>
    obtain ⟨r, hr, heq⟩ := Option.map_eq_some_iff.mp hact
    obtain ⟨rfl, rfl⟩ := Prod.mk.inj heq
    exact ⟨h.recipeWriter hr, .recipeWriter hr⟩

/-- Every session of the state is in a phase. -/
def State.InPhase (env : Env) (σ : State) : Prop :=
  ∀ i s, σ.locals i = some s → Phase env s

/-- **Along every run every session stays in step**, whatever the others do. -/
theorem State.InPhase.step {σ τ : State} {ℓ : Label ℕ Act Arg} (h : σ.InPhase env)
    (hs : Step (sessions env) σ ℓ τ) : τ.InPhase env := by
  intro j t ht
  by_cases hj : j = ℓ.owner
  · subst hj
    cases hs with
    | spawn hnone =>
      obtain rfl := Option.some.inj ((Config.moved_locals_self _ _ _ _).symm.trans ht)
      exact Phase.connect env _ _
    | act hl hact =>
      obtain rfl := Option.some.inj ((Config.moved_locals_self _ _ _ _).symm.trans ht)
      exact ((h _ _ hl).act hact).1
  · exact h j t (hs.locals_of_ne hj ▸ ht)

theorem State.InPhase.reaches {σ τ : State} {ok : Condition} (h : σ.InPhase env)
    (hr : Reaches (sessions env) ok σ τ) : τ.InPhase env :=
  hr.invariant (fun _ _ _ h hs _ => h.step hs) h

/-- Before anyone connects there is no session. -/
theorem State.inPhase_init (env : Env) : State.init.InPhase env := by
  intro i s hs
  cases hs

end DedupServer
