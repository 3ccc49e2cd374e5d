import DedupServer.Model.Script
import DedupServer.Protocol.Progress
import DedupServer.Store.Recipe

/-! # A session that runs alone to its end

`Completes env i arg σ τ`: in the state `σ` the session `i` is started from `arg`, and runs to its
end in `τ` with no step of any other session in between. Such a run always exists
(`exists_completes`); this module says what is known of all of them. -/

namespace DedupServer

open Foundations

variable {env : Env} {i k : ℕ} {arg : Arg} {σ τ : State} {s : Session}

/-- The state in which session `i` has just joined. -/
def State.joined (env : Env) (σ : State) (i : ℕ) (arg : Arg) : State :=
  σ.moved i (Session.connect env σ.shared arg).1 (Session.connect env σ.shared arg).2

/-- **Session `i` joins and runs alone to its end.** -/
structure Completes (env : Env) (i : ℕ) (arg : Arg) (σ τ : State) : Prop where
  fresh : σ.locals i = none
  run : Reaches (sessions env) (soloStep i) (σ.joined env i arg) τ
  closed : ∃ s, τ.locals i = some s ∧ s.Closed

/-- Session `i` is started from `arg`, or acts; nobody else does anything. -/
def lone (i : ℕ) (arg : Arg) : Condition := fun _ ℓ _ => ℓ = .spawn i arg ∨ ∃ a, ℓ = .act i a

theorem lone.owner {ℓ : Label ℕ Act Arg} (h : lone i arg σ ℓ τ) : ℓ.owner = i := by
  rcases h with rfl | ⟨a, rfl⟩ <;> rfl

/-- What the client of a new session is like. -/
theorem Session.connect_client (env : Env) (sv : Server) (arg : Arg) :
    (Session.connect env sv arg).2.client.client_id = arg.client_id ∧
      (Session.connect env sv arg).2.client.file_path = arg.file_path ∧
      (Session.connect env sv arg).2.client.rogue = arg.rogue ∧
      (arg.op = 117 → (Session.connect env sv arg).2.Uploader ∧
        (Session.connect env sv arg).2.client.file = arg.file) ∧
      (arg.op ≠ 117 → ¬ (Session.connect env sv arg).2.Uploader) := by
  simp only [Session.connect, Client.start, Session.Uploader]
  split_ifs with h117 h100
  · simp [h117]
  · simp [h117, Conn.init]
  · simp [h117, Conn.init, Client.quit]

/-- **A session can always be run to its end.** -/
theorem State.InPhase.exists_completes (h : σ.InPhase env) (hfresh : σ.locals i = none)
    (hrogue : arg.rogue = false) : ∃ τ, Completes env i arg σ τ := by
  have hphase : (σ.joined env i arg).InPhase env := h.step (.spawn hfresh)
  have hrogue' := (Session.connect_client env σ.shared arg).2.2.1.trans hrogue
  obtain ⟨τ, t, hreach, ht, hclosed⟩ :=
    hphase.finishes (Config.moved_locals_self _ _ _ _) hrogue'
  exact ⟨τ, hfresh, hreach, t, ht, hclosed⟩

/-- A closed session has nothing in flight, and its upload, if any, is over. -/
theorem Phase.over (h : Phase env s) (hclosed : s.Closed) : s.down = [] ∧ s.Over env := by
  have hcl := hclosed.1
  cases h with
  | closed hcl' hpc hup hdown hover => exact ⟨hdown, hover⟩
  | login hreq | order hreq => rcases hreq with ⟨h, -⟩ | ⟨h, -⟩ | ⟨h, -⟩ <;> simp [h] at hcl
  | sending hpc hup hdown | sent hpc hup hdown =>
    obtain ⟨-, -, ⟨h, -⟩ | ⟨h, -⟩⟩ := hdown <;> simp [h] at hcl
  | lookup h | reply h | refused h | accepted h | asking h | answered h | last h | ending h
  | joining h | quitting h | left h | exist h | notExist h => simp [h] at hcl

/-- A computed run of one session is a run of this session to its end. -/
theorem Completes.of_exec {steps : List Act} (h : σ.exec env (Sample.session i arg steps) = some τ)
    (hclosed : ∃ s, τ.locals i = some s ∧ s.Closed) : Completes env i arg σ τ := by
  rw [State.exec, Sample.session, List.foldlM_cons] at h
  obtain ⟨υ, hυ, hrest⟩ := Option.bind_eq_some_iff.mp h
  simp only [State.exec1, Processes.exec1] at hυ
  split at hυ
  · rename_i hnone
    obtain rfl := Option.some.inj hυ
    refine ⟨hnone, State.reaches_exec_of (fun _ _ ℓ hℓ => ?_) hrest, hclosed⟩
    obtain ⟨a, -, rfl⟩ := List.mem_map.mp hℓ
    exact ⟨a, rfl⟩
  · cases hυ

namespace Completes

/-- It is a run. -/
theorem reaches (h : Completes env i arg σ τ) : Reaches (sessions env) (lone i arg) σ τ :=
  .head ⟨.spawn i arg, .spawn h.fresh, .inl rfl⟩ (h.run.mono fun _ _ _ hok => .inr hok)

/-- The other sessions have not moved. -/
theorem others (h : Completes env i arg σ τ) (hk : k ≠ i) : τ.locals k = σ.locals k := by
  refine h.reaches.invariant (I := fun υ : State => υ.locals k = σ.locals k)
    (fun υ ℓ υ' hυ hs hok => ?_) rfl
  rw [hs.locals_of_ne (by rw [hok.owner]; exact hk)]
  exact hυ

/-- **The session at its end** is the one that was started. -/
theorem session (h : Completes env i arg σ τ) (hphase : σ.InPhase env) :
    ∃ s, τ.locals i = some s ∧ s.Closed ∧ Phase env s ∧
      (Session.connect env σ.shared arg).2.Kept s := by
  obtain ⟨s, hs, hclosed⟩ := h.closed
  have hphase' : (σ.joined env i arg).InPhase env := hphase.step (.spawn h.fresh)
  obtain ⟨s', hs', hkept⟩ := hphase'.kept h.run (Config.moved_locals_self _ _ _ _)
  obtain rfl := Option.some.inj (hs.symm.trans hs')
  exact ⟨s, hs, hclosed, hphase'.reaches h.run i s hs, hkept⟩

/-- **An upload of a file that is not registered is accepted.** -/
theorem accepted (h : Completes env i arg σ τ) (hphase : σ.InPhase env) (hop : arg.op = 117)
    (hnew : (arg.client_id, getFileName arg.file_path) ∉ σ.shared.files)
    (hs : τ.locals i = some s) : s.Accepted := by
  have hphase' : (σ.joined env i arg).InPhase env := hphase.step (.spawn h.fresh)
  obtain ⟨hid, hpath, -, hupl, -⟩ := Session.connect_client env σ.shared arg
  -- the registry is as it was until the session is accepted
  have hinv := h.run.invariant
    (I := fun υ : State => υ.InPhase env ∧ ∃ t, υ.locals i = some t ∧
      (Session.connect env σ.shared arg).2.Kept t ∧
      (t.Accepted ∨ t.conn.uploadRep = none ∧ υ.shared.files = σ.shared.files))
    (fun υ ℓ υ' hυ hstep hok => ?_)
    ⟨hphase', _, Config.moved_locals_self _ _ _ _, .refl _, .inr ⟨rfl, rfl⟩⟩
  · obtain ⟨-, t, ht, hkept, hans⟩ := hinv
    obtain rfl := Option.some.inj (hs.symm.trans ht)
    obtain ⟨s', hs', hclosed⟩ := h.closed
    obtain rfl := Option.some.inj (hs.symm.trans hs')
    refine hans.resolve_right fun ⟨hnone, _⟩ => ?_
    rcases hkept.uploader.mpr (hupl hop).1 with hpc | hrep
    · rw [hclosed.1] at hpc
      cases hpc
    · exact hrep hnone
  · obtain ⟨hphase, t, ht, hkept, hans⟩ := hυ
    obtain ⟨a, rfl⟩ := hok
    cases hstep with
    | act hl hact =>
      obtain rfl := Option.some.inj (hl.symm.trans ht)
      have hmoves := ((hphase _ _ hl).act hact).2
      refine ⟨hphase.step (.act hl hact), _, Config.moved_locals_self _ _ _ _,
        hkept.trans hmoves.kept, ?_⟩
      rcases hans with hacc | ⟨hnone, hfiles⟩
      · exact .inl (hmoves.kept.accepted hacc)
      · rcases hmoves.uploadRep with hsame | hacc | hdup
        · rcases hmoves.files with hfiles' | ⟨hacc, -⟩
          · exact .inr ⟨hsame.trans hnone, hfiles'.trans hfiles⟩
          · rw [Session.Accepted, hnone] at hacc
            cases hacc
        · exact .inl hacc
        · refine absurd hdup ?_
          rw [hfiles, Client.fileName, hkept.client_id, hkept.file_path, hid, hpath]
          exact hnew

/-- **An upload of a file that is registered is refused.** -/
theorem refused (h : Completes env i arg σ τ) (hphase : σ.InPhase env)
    (hfile : (arg.client_id, getFileName arg.file_path) ∈ σ.shared.files)
    (hs : τ.locals i = some s) : ¬ s.Accepted := by
  have hphase' : (σ.joined env i arg).InPhase env := hphase.step (.spawn h.fresh)
  obtain ⟨hid, hpath, -, -, -⟩ := Session.connect_client env σ.shared arg
  -- the file stays registered, and so no look-up finds it unique
  have hstep : ∀ (υ : State) ℓ (υ' : State), (υ.InPhase env ∧ σ.shared.files ⊆ υ.shared.files ∧
      ∃ t, υ.locals i = some t ∧ (Session.connect env σ.shared arg).2.Kept t ∧ ¬ t.Past) →
      Step (sessions env) υ ℓ υ' → soloStep i υ ℓ υ' →
      υ'.InPhase env ∧ σ.shared.files ⊆ υ'.shared.files ∧
      ∃ t, υ'.locals i = some t ∧ (Session.connect env σ.shared arg).2.Kept t ∧ ¬ t.Past := by
    rintro υ ℓ υ' ⟨hphase, hfiles, t, ht, hkept, hpast⟩ hstep ⟨a, rfl⟩
    cases hstep with
    | act hl hact =>
      obtain rfl := Option.some.inj (hl.symm.trans ht)
      have hmoves := ((hphase _ _ hl).act hact).2
      refine ⟨hphase.step (.act hl hact), fun x hx => hmoves.grows.files.subset (hfiles hx), _,
        Config.moved_locals_self _ _ _ _, hkept.trans hmoves.kept, fun hpast' => ?_⟩
      rcases hmoves.past hpast' with hpast'' | ⟨-, -, hnot⟩
      · exact hpast hpast''
      · rw [Client.fileName, hkept.client_id, hkept.file_path, hid, hpath] at hnot
        exact hnot (hfiles hfile)
  obtain ⟨-, -, t, ht, -, hpast⟩ := h.run.invariant hstep ⟨hphase', fun _ hx => hx, _,
    Config.moved_locals_self _ _ _ _, .refl _, by
      rintro (⟨n, hpc⟩ | hacc)
      · simp [Session.connect, Conn.init] at hpc
      · simp [Session.Accepted, Session.connect, Conn.init] at hacc⟩
  obtain rfl := Option.some.inj (hs.symm.trans ht)
  exact fun hacc => hpast (.inr hacc)

/-- The recipe file of the session is as the session has written it. -/
theorem recipeKept (h : Completes env i arg σ τ) (hphase : σ.InPhase env)
    (hs : τ.locals i = some s) : s.RecipeKept env τ.shared := by
  have hphase' : (σ.joined env i arg).InPhase env := hphase.step (.spawn h.fresh)
  have hinv := h.run.invariant
    (I := fun υ : State => υ.InPhase env ∧ ∃ t, υ.locals i = some t ∧ t.RecipeKept env υ.shared)
    (fun υ ℓ υ' hυ hstep hok => ?_)
    ⟨hphase', _, Config.moved_locals_self _ _ _ _, fun _ _ hfile => by cases hfile⟩
  · obtain ⟨-, t, ht, hkept⟩ := hinv
    obtain rfl := Option.some.inj (hs.symm.trans ht)
    exact hkept
  · obtain ⟨hphase, t, ht, hkept⟩ := hυ
    obtain ⟨a, rfl⟩ := hok
    cases hstep with
    | act hl hact =>
      obtain rfl := Option.some.inj (hl.symm.trans ht)
      exact ⟨hphase.step (.act hl hact), _, Config.moved_locals_self _ _ _ _,
        hkept.moves (hphase _ _ hl) ((hphase _ _ hl).act hact).2⟩

end Completes

end DedupServer
