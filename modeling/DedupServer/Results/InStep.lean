import DedupServer.Model.Script
import DedupServer.Protocol.Buffers

/-! # Client and server stay in lockstep

Whatever order the two sides move in, and whatever other sessions do, a session of an honest client
never blocks for good, and every message is received by the right call into a buffer that is large
enough (`Session.InStep`). Left alone it comes to its end, with nothing in flight
(`in_lockstep`). -/

namespace DedupServer

open Foundations

variable {env : Env} {s : Session} {σ : State} {i : ℕ}

/-- **The two sides of a session are in step.** -/
structure Session.InStep (env : Env) (sv : Server) (s : Session) : Prop where
  not_stuck : ¬ (s.conn.waits ≠ none ∧ s.client.waits ≠ none ∧ s.up = [] ∧ s.down = [])
  goes_on : ¬ s.Closed → ∃ a r, Session.act env sv s a = some r
  server_suits : ∀ w m rest, s.conn.waits = some w → s.up = m :: rest → m.Suits w
  client_suits : ∀ w m rest, s.client.waits = some w → s.down = m :: rest → m.Suits w
  reply : ∀ msg rest sv' s', s.conn.pc = .body → s.up = .data msg :: rest →
    Session.act env sv s .server = some (sv', s') →
      (s.client.pc = .awaitBodyRep ∧ ∃ reply, s'.down = s.down ++ [.data reply]) ∨
      (s.client.pc ≠ .awaitBodyRep ∧ s'.down = s.down)
  finished : s.Closed → s.up = [] ∧ s.down = []

/-- **Every session that can be reached is in step.** -/
theorem State.inStep (hσ : Reaches (sessions env) anyStep State.init σ)
    (hi : σ.locals i = some s) (hrogue : s.client.rogue = false) : s.InStep env σ.shared := by
  have hphase : Phase env s := (State.inPhase_init env).reaches hσ i s hi
  have hsized : s.Sized := State.sized hσ hi
  constructor
  · exact hphase.not_stuck
  · exact hphase.enabled σ.shared hrogue
  · intro w m rest
    exact hphase.suits_server hsized
  · intro w m rest
    exact hphase.suits_client hsized
  · intro msg rest sv' s' hpc hup hact
    rcases hphase.reply_iff hpc hup hact with ⟨hcl, reply, hreply, -⟩ | hnone
    · exact .inl ⟨hcl, reply, hreply⟩
    · exact .inr hnone
  · exact hphase.nothing_in_flight

/-- **Steps of one session alone come to an end.** -/
theorem State.no_infinite_run (hσ : Reaches (sessions env) anyStep State.init σ)
    (hi : σ.locals i = some s) (hrogue : s.client.rogue = false) (f : ℕ → State) (h0 : f 0 = σ) :
    ∃ n, ∀ a, ¬ Step (sessions env) (f n) (.act i a) (f (n + 1)) := by
  by_contra! hsteps
  -- what is left to do in the session decreases for ever
  have hlive : ∀ n, (f n).InPhase env ∧
      ∃ t, (f n).locals i = some t ∧ t.client.rogue = false := by
    intro n
    induction n with
    | zero =>
      rw [h0]
      exact ⟨(State.inPhase_init env).reaches hσ, s, hi, hrogue⟩
    | succ n ih =>
      obtain ⟨hphase, t, ht, hrogue⟩ := ih
      obtain ⟨a, hstep⟩ := hsteps n
      refine ⟨hphase.step hstep, ?_⟩
      obtain ⟨t', ht', hkept⟩ := hphase.kept_step hstep ht
      exact ⟨t', ht', hkept.rogue.trans hrogue⟩
  let left : ℕ → ℕ ×ₗ ℕ ×ₗ ℕ := fun n =>
    (((f n).locals i).map (·.left env (f n).shared)).getD (toLex (0, toLex (0, 0)))
  have hless : ∀ n, left (n + 1) < left n := by
    intro n
    obtain ⟨hphase, t, ht, hrogue⟩ := hlive n
    obtain ⟨a, hstep⟩ := hsteps n
    simp only [left]
    generalize f (n + 1) = τ at hstep
    cases hstep with
    | act hl hact =>
      obtain rfl := Option.some.inj (ht.symm.trans hl)
      rw [ht]
      simpa using Session.left_act (hphase i t ht) hrogue hact
  obtain ⟨n, hn⟩ := WellFounded.not_rel_apply_succ (r := (· < ·)) left
  exact hn (hless n)

/-- **A session of an honest client stays in step**, in every state of every run of all sessions. Its
own steps come to an end, and when none is left it is closed on both sides with nothing in flight. -/
theorem in_lockstep (hσ : Reaches (sessions env) anyStep State.init σ)
    (hi : σ.locals i = some s) (hrogue : s.client.rogue = false) :
    s.InStep env σ.shared ∧
      (∀ f : ℕ → State, f 0 = σ →
        ∃ n, ∀ a, ¬ Step (sessions env) (f n) (.act i a) (f (n + 1))) ∧
      ∀ τ, Reaches (sessions env) (soloStep i) σ τ →
        (∀ a υ, ¬ Step (sessions env) τ (.act i a) υ) →
          ∃ t, τ.locals i = some t ∧ t.Closed ∧ t.up = [] ∧ t.down = [] := by
  refine ⟨State.inStep hσ hi hrogue, fun f h0 => State.no_infinite_run hσ hi hrogue f h0, ?_⟩
  intro τ hτ hend
  have hphase : σ.InPhase env := (State.inPhase_init env).reaches hσ
  obtain ⟨t, ht, hkept⟩ := hphase.kept hτ hi
  have hstep : t.InStep env τ.shared :=
    State.inStep (hσ.trans (hτ.mono fun _ _ _ _ => trivial)) ht (hkept.rogue.trans hrogue)
  have hclosed : t.Closed := by
    by_contra hopen
    obtain ⟨a, ⟨sv', t'⟩, hact⟩ := hstep.goes_on hopen
    exact hend a _ (.act ht hact)
  exact ⟨t, ht, hclosed, hstep.finished hclosed⟩

/-- A client that waits for the answer to its first query, while another upload has stopped. -/
theorem in_lockstep_sample : ∃ (σ : State) (s : Session), σ.locals 0 = some s ∧
    s.conn.pc = .body ∧ s.client.pc = .awaitBodyRep ∧ (∃ t, σ.locals 1 = some t ∧ ¬ t.Closed) ∧
    s.InStep Sample.env σ.shared ∧
      (∀ f : ℕ → State, f 0 = σ →
        ∃ n, ∀ a, ¬ Step (sessions Sample.env) (f n) (.act 0 a) (f (n + 1))) ∧
      ∀ τ, Reaches (sessions Sample.env) (soloStep 0) σ τ →
        (∀ a υ, ¬ Step (sessions Sample.env) τ (.act 0 a) υ) →
          ∃ t, τ.locals 0 = some t ∧ t.Closed ∧ t.up = [] ∧ t.down = [] := by
  have hrun : (State.init.exec Sample.env (Sample.session 1 (Sample.upload 1 [66] [7])
      (Sample.sending.take 9) ++ Sample.session 0 (Sample.upload 1 [65] [8])
        (Sample.sending.take 6))).any (fun σ => ((σ.locals 0).any fun s =>
          decide (s.conn.pc = .body ∧ s.client.pc = .awaitBodyRep ∧ s.client.rogue = false)) &&
          (σ.locals 1).any fun t => decide (¬ t.Closed)) = true := by
    decide +kernel
  obtain ⟨σ, hexec, hσ⟩ := (Option.any_eq_true _ _).mp hrun
  obtain ⟨hfirst, hσ⟩ := (Bool.and_eq_true _ _).mp hσ
  obtain ⟨s, hs, hfirst⟩ := (Option.any_eq_true _ _).mp hfirst
  obtain ⟨t, ht, hopen⟩ := (Option.any_eq_true _ _).mp hσ
  obtain ⟨hpc, hcl, hrogue⟩ := of_decide_eq_true hfirst
  have hreach : Reaches (sessions Sample.env) anyStep State.init σ :=
    State.reaches_exec_of (fun _ _ _ _ => trivial) hexec
  exact ⟨σ, s, hs, hpc, hcl, ⟨t, ht, of_decide_eq_true hopen⟩, in_lockstep hreach hs hrogue⟩

end DedupServer
