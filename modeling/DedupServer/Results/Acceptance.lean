import DedupServer.Store.Checks

/-! # At most one upload of a file is accepted

`receive_file` looks a file up and registers it in two separate accesses to the database. When no
session gets to its look-up between the two accesses of another session for the same file
(`checksSerial`), at most one upload of the file is ever accepted (`at_most_one_accepted`); otherwise
both may be (`two_accepted`). -/

namespace DedupServer

open Foundations

variable {env : Env} {σ τ : State} {ℓ : Label ℕ Act Arg} {s s' t : Session} {sv sv' : Server}

/-- A request for an upload is answered `UNIQUE` or `DUPLICATE`, and no writer runs for one that is
not accepted. -/
def Session.Answered (s : Session) : Prop :=
  ¬ s.Accepted → (s.conn.uploadRep = none ∨ s.conn.uploadRep = some .DUPLICATE) ∧
    s.conn.recipeWriter = .idle

theorem Moves.answered_or (h : Moves env sv s sv' s') (hans : s.Answered) : s'.Answered := by
  cases h with
  | client => exact hans
  | server hserved =>
    cases hserved with
    | quiet hquiet =>
      intro hacc
      simp only [Session.Accepted, Session.serverMoved, hquiet.uploadRep, hquiet.recipeWriter]
        at hacc ⊢
      exact hans hacc
    | unique => exact hans
    -- the refused upload never started its recipe writer
    | refuse hpc hid hname hdup hd => exact fun _ => ⟨.inr rfl, hd.recipeWriter⟩
    | accept => exact fun hacc => absurd rfl hacc
    | register hpc hd hserves hacc => exact fun hacc' => absurd hacc hacc'
    | body hpc hup hupl => exact fun hacc' => absurd hupl.accepted hacc'
    | fileEnd hpc hupl => exact fun hacc' => absurd hupl.accepted hacc'
    | reset hpc hacc => exact fun hacc' => absurd hacc hacc'
  | dataWriter hstep =>
    obtain ⟨_, _, _, _, rfl, rfl⟩ | ⟨_, _, _, rfl, rfl⟩ | ⟨_, _, rfl, rfl⟩ :=
      Conn.dataWriterStep_cases hstep
    all_goals exact hans
  | recipeWriter hstep =>
    intro hacc
    -- before the answer the writer is idle, and an idle writer has no step
    have hidle : s.conn.recipeWriter = .idle := by
      refine (hans fun h => hacc ?_).2
      obtain ⟨_, rfl, rfl⟩ | ⟨_, _, _, _, _, _, rfl, rfl⟩ | ⟨_, _, _, _, _, rfl, rfl⟩ |
        ⟨_, _, _, _, rfl, rfl⟩ := Conn.recipeWriterStep_cases hstep
      all_goals exact h
    rw [Conn.recipeWriterStep_eq_none (.inl hidle)] at hstep
    cases hstep

/-- Every session of the state has been answered in one of these ways. -/
def State.AllAnswered (σ : State) : Prop := ∀ i s, σ.locals i = some s → s.Answered

theorem State.AllAnswered.step (h : σ.AllAnswered) (hphase : σ.InPhase env)
    (hs : Step (sessions env) σ ℓ τ) : τ.AllAnswered := by
  intro k u hk
  by_cases howner : k = ℓ.owner
  · subst howner
    cases hs with
    | spawn hnone =>
      obtain rfl := Option.some.inj ((Config.moved_locals_self _ _ _ _).symm.trans hk)
      exact fun _ => ⟨.inl rfl, rfl⟩
    | act hl hact =>
      obtain rfl := Option.some.inj ((Config.moved_locals_self _ _ _ _).symm.trans hk)
      exact ((hphase _ _ hl).act hact).2.answered_or (h _ _ hl)
  · rw [hs.locals_of_ne howner] at hk
    exact h k u hk

/-- **At most one upload of a file is accepted**, in runs in which no look-up of the file falls
between the look-up and the registration of another session. Every other request for it that has
been answered was answered `DUPLICATE`, and no recipe is written for it. -/
theorem at_most_one_accepted (hrun : Reaches (sessions env) checksSerial State.init τ) {i j : ℕ}
    (hij : i ≠ j) (hi : τ.locals i = some s) (hj : τ.locals j = some t) (hsame : s.SameFile t)
    (hacc : s.Accepted) :
    ¬ t.Accepted ∧ (t.conn.uploadRep = none ∨ t.conn.uploadRep = some .DUPLICATE) ∧
      t.conn.recipeWriter = .idle := by
  obtain ⟨-, -, hone, hanswered⟩ := hrun.invariant
    (I := fun σ : State => σ.InPhase env ∧ σ.Registered ∧ σ.OnePast ∧ σ.AllAnswered)
    (fun σ ℓ υ h hs hok => ⟨h.1.step hs, h.2.1.step h.1 hs, h.2.2.1.step h.1 h.2.1 hs hok,
      h.2.2.2.step h.1 hs⟩)
    ⟨State.inPhase_init env, State.registered_init, fun i j s t _ hi => (by cases hi),
      fun i s hi => (by cases hi)⟩
  have hnot : ¬ t.Accepted := fun hacc' => hone i j s t hij hi hj hsame (.inr hacc) (.inr hacc')
  exact ⟨hnot, hanswered j t hj hnot⟩

/-- One upload after another for the same file: the second one is refused. -/
theorem at_most_one_accepted_sample :
    ∃ (τ : State) (s t : Session), τ.locals 0 = some s ∧ τ.locals 1 = some t ∧ s.SameFile t ∧
      s.Accepted ∧ t.conn.uploadRep = some .DUPLICATE ∧ ¬ t.Accepted := by
  let first := Sample.session 0 (Sample.upload 1 [65] [7]) (Sample.sending ++ Sample.saving 1)
  let second := Sample.session 1 (Sample.upload 1 [65] [8]) [.server, .server, .server]
  have hrun : (State.init.exec Sample.env first).any (fun σ =>
      decide ((σ.locals 0).map (·.conn.pc) = some .closed) &&
        (σ.exec Sample.env second).any fun τ => (τ.locals 0).any fun s => (τ.locals 1).any fun t =>
          decide ((s.client.client_id = t.client.client_id ∧
            s.client.fileName = t.client.fileName) ∧ s.Accepted ∧
            t.conn.uploadRep = some .DUPLICATE)) = true := by
    decide +kernel
  obtain ⟨σ, hfirst, hσ⟩ := (Option.any_eq_true _ _).mp hrun
  obtain ⟨hclosed, hσ⟩ := (Bool.and_eq_true _ _).mp hσ
  obtain ⟨τ, hsecond, hτ⟩ := (Option.any_eq_true _ _).mp hσ
  obtain ⟨s, hs, hτ⟩ := (Option.any_eq_true _ _).mp hτ
  obtain ⟨t, ht, hτ⟩ := (Option.any_eq_true _ _).mp hτ
  obtain ⟨hsame, hacc, hdup⟩ := of_decide_eq_true hτ
  have honly : ∀ k, k ≠ 0 → σ.locals k = none := fun k hk =>
    State.locals_exec hfirst fun ℓ hℓ => (Sample.owner_session hℓ).trans_ne hk.symm
  -- the first session is alone
  have hreach₁ : Reaches (sessions Sample.env) checksSerial State.init σ := by
    refine State.reaches_exec (I := fun σ : State => ∀ k, k ≠ 0 → σ.locals k = none)
      (fun σ υ ℓ hℓ hI hstep => ⟨?_, fun k hk => ?_⟩) (fun _ _ => rfl) hfirst
    · rintro i u fileName rfl - - j v hj hv
      rw [Sample.owner_session hℓ] at hj
      rw [hI j hj] at hv
      cases hv
    · rw [hstep.locals_of_ne (by rw [Sample.owner_session hℓ]; exact hk)]
      exact hI k hk
  -- the second one finds the first one closed
  have hreach₂ : Reaches (sessions Sample.env) checksSerial σ τ := by
    refine State.reaches_exec (I := fun υ : State => ∀ k, k ≠ 1 → υ.locals k = σ.locals k)
      (fun υ υ' ℓ hℓ hI hstep => ⟨?_, fun k hk => ?_⟩) (fun _ _ => rfl) hsecond
    · rintro i u fileName rfl - - j v hj hv ⟨hpc, -⟩
      rw [Sample.owner_session hℓ] at hj
      rw [hI j hj] at hv
      by_cases hj0 : j = 0
      · subst hj0
        have := of_decide_eq_true hclosed
        rw [hv] at this
        rcases hpc with hpc | hpc <;> simp [hpc] at this
      · rw [honly j hj0] at hv
        cases hv
    · rw [hstep.locals_of_ne (by rw [Sample.owner_session hℓ]; exact hk)]
      exact hI k hk
  exact ⟨τ, s, t, hs, ht, hsame, hacc, hdup, (at_most_one_accepted (hreach₁.trans hreach₂)
    (by decide) hs ht hsame hacc).1⟩

/-- **Two uploads of the same file may both be accepted**: both look the file up before either
registers it. -/
theorem two_accepted :
    ∃ (τ : State) (s t : Session), Reaches (sessions Sample.env) anyStep State.init τ ∧
      τ.locals 0 = some s ∧ τ.locals 1 = some t ∧ s.SameFile t ∧ s.Accepted ∧ t.Accepted := by
  let steps := Sample.session 0 (Sample.upload 1 [65] [7]) [.server, .server, .server] ++
    Sample.session 1 (Sample.upload 1 [65] [8]) [.server, .server, .server, .server] ++
    Sample.acts 0 [.server]
  have hrun : (State.init.exec Sample.env steps).any (fun τ =>
      (τ.locals 0).any fun s => (τ.locals 1).any fun t =>
        decide ((s.client.client_id = t.client.client_id ∧
          s.client.fileName = t.client.fileName) ∧ s.Accepted ∧ t.Accepted)) = true := by
    decide +kernel
  obtain ⟨τ, hexec, hτ⟩ := (Option.any_eq_true _ _).mp hrun
  obtain ⟨s, hs, hτ⟩ := (Option.any_eq_true _ _).mp hτ
  obtain ⟨t, ht, hτ⟩ := (Option.any_eq_true _ _).mp hτ
  obtain ⟨hsame, hacc, hacc'⟩ := of_decide_eq_true hτ
  exact ⟨τ, s, t, State.reaches_exec_of (fun _ _ _ _ => trivial) hexec, hs, ht, hsame, hacc, hacc'⟩

end DedupServer
