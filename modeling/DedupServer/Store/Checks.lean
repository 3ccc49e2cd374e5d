import DedupServer.Store.Returned

/-! # Checks for uniqueness one after the other

When no session gets to its look-up of a file between the two accesses of another session to the database
for the same file (`checksSerial`), at most one session passes the check for a file
(`State.OnePast.step`). -/

namespace DedupServer

open Foundations

variable {env : Env} {σ τ : State} {ℓ : Label ℕ Act Arg} {s s' t : Session}

/-- The session has looked up its file and found it unique, and not registered it yet. -/
def Session.Between (s : Session) (client_id : Int) (fileName : Bytes) : Prop :=
  (s.conn.pc = .reply fileName ∨ s.conn.pc = .register fileName) ∧ s.conn.client_id = client_id

/-- **No look-up of a file takes place between the look-up of another session that found the file
unique and its registration.** -/
def checksSerial : Condition := fun σ ℓ _ =>
  ∀ i s fileName, ℓ.owner = i → σ.locals i = some s → s.conn.pc = .lookup fileName →
    ∀ j t, j ≠ i → σ.locals j = some t → ¬ t.Between s.conn.client_id fileName

instance (s : Session) (client_id : Int) (fileName : Bytes) : Decidable (s.Between client_id fileName) :=
  inferInstanceAs (Decidable ((_ ∨ _) ∧ _))

/-- `checksSerial`, as long as there are only the sessions below `n`. -/
def State.serialBelow (n : ℕ) (σ : State) (ℓ : Label ℕ Act Arg) : Bool :=
  (σ.locals ℓ.owner).all fun s =>
    match s.conn.pc with
    | .lookup fileName =>
      decide (∀ j < n, j ≠ ℓ.owner → ∀ t ∈ σ.locals j, ¬ t.Between s.conn.client_id fileName)
    | _ => true

theorem State.checksSerial_of_below {n : ℕ} (hσ : σ.Within n) (h : σ.serialBelow n ℓ = true) :
    checksSerial σ ℓ τ := by
  rintro _ s fileName rfl hi hpc j t hj ht
  have hlt : j < n := by
    by_contra hge
    rw [hσ j (not_lt.mp hge)] at ht
    cases ht
  simp only [serialBelow, hi, Option.all_some, hpc, decide_eq_true_eq] at h
  exact h j hlt hj t ht

/-- Two sessions are about the same file. -/
def Session.SameFile (s t : Session) : Prop :=
  s.client.client_id = t.client.client_id ∧ s.client.fileName = t.client.fileName

/-- A session between its two accesses to the database is there for its own file. -/
theorem Phase.between (h : Phase env s) {fileName : Bytes}
    (hpc : s.conn.pc = .reply fileName ∨ s.conn.pc = .register fileName) :
    s.Between s.client.client_id s.client.fileName := by
  have hstage : s.Uploading env → s.Between s.client.client_id s.client.fileName := fun hupl => by
    rcases hupl.stage with ⟨hpc', -⟩ | ⟨hpc', -⟩
    · exact ⟨.inr hpc', hupl.serves.client_id⟩
    · simp [hpc'] at hpc
  cases h with
  | reply hcl hpc' hup hdown hdormant hrep hroom hserves => exact ⟨.inl hpc', hserves.client_id⟩
  | accepted hcl hupl | asking hcl hupl | last hcl hupl | answered hcl hpc' hupl
  | ending hcl hpc' hupl => exact hstage hupl
  | login hreq hpc' | order hreq hpc' | lookup hcl hpc' | refused hcl hpc' | joining hcl hpc'
  | quitting hcl hpc' | left hcl hpc' | closed hcl hpc' | exist hcl hpc' | notExist hcl hpc'
  | sending hpc' | sent hpc' => simp [hpc'] at hpc

/-- **At most one session has passed the check for a file.** -/
def State.OnePast (σ : State) : Prop :=
  ∀ i j s t, i ≠ j → σ.locals i = some s → σ.locals j = some t → s.SameFile t → s.Past → ¬ t.Past

/-- A session that has passed the check keeps others from passing it. -/
theorem State.Registered.blocks (h : σ.Registered) (hphase : σ.InPhase env) {j : ℕ}
    (hj : σ.locals j = some t) (hpast : t.Past)
    (hnot : ¬ t.Between t.client.client_id t.client.fileName) :
    (t.client.client_id, t.client.fileName) ∈ σ.shared.files := by
  rcases hpast with ⟨n, hpc⟩ | hacc
  · exact absurd ((hphase j t hj).between (.inl hpc)) hnot
  · rcases h j t hj hacc with hpc | hfile
    · exact absurd ((hphase j t hj).between (.inr hpc)) hnot
    · exact hfile

/-- **A step that is not a look-up between two accesses keeps it so.** -/
theorem State.OnePast.step (h : σ.OnePast) (hphase : σ.InPhase env) (hreg : σ.Registered)
    (hs : Step (sessions env) σ ℓ τ) (hok : checksSerial σ ℓ τ) : τ.OnePast := by
  -- the two sessions as they were, one of them being the owner of the step
  have hkey : ∀ i j s' t, i ≠ j → i = ℓ.owner → τ.locals i = some s' → τ.locals j = some t →
      s'.SameFile t → s'.Past → ¬ t.Past := by
    intro i j s' t hij howner hi hj hsame hpast hpast'
    have hjne : j ≠ ℓ.owner := fun h => hij (howner.trans h.symm)
    rw [hs.locals_of_ne hjne] at hj
    cases hs with
    | @spawn k arg hnone =>
      subst howner
      obtain rfl := Option.some.inj ((Config.moved_locals_self _ _ _ _).symm.trans hi)
      rcases hpast with ⟨n, hpc⟩ | hacc
      · simp [sessions, Session.connect, Conn.init] at hpc
      · simp [sessions, Session.Accepted, Session.connect, Conn.init] at hacc
    | @act k a l l' sh hl hact =>
      subst howner
      obtain rfl := Option.some.inj ((Config.moved_locals_self _ _ _ _).symm.trans hi)
      have hmoves := ((hphase _ l hl).act hact).2
      have hkept := hmoves.kept
      obtain ⟨hid, hname⟩ := hsame
      have hsame' : l.SameFile t := by
        refine ⟨hkept.client_id.symm.trans hid, ?_⟩
        rw [← hname, Client.fileName, Client.fileName, hkept.file_path]
      rcases hmoves.past hpast with hpast'' | ⟨hpc, hcid, hfile⟩
      · exact h _ j l t hij hl hj hsame' hpast'' hpast'
      · -- the look-up found the file unique
        have hnot := hok _ l _ rfl hl hpc j t hij.symm hj
        rw [hcid, hsame'.1, hsame'.2] at hnot
        rw [hsame'.1, hsame'.2] at hfile
        exact hfile (hreg.blocks hphase hj hpast' hnot)
  intro i j s t hij hi hj hsame hpast hpast'
  by_cases hi' : i = ℓ.owner
  · exact hkey i j s t hij hi' hi hj hsame hpast hpast'
  · by_cases hj' : j = ℓ.owner
    · exact hkey j i t s hij.symm hj' hj hi ⟨hsame.1.symm, hsame.2.symm⟩ hpast' hpast
    · rw [hs.locals_of_ne hi'] at hi
      rw [hs.locals_of_ne hj'] at hj
      exact h i j s t hij hi hj hsame hpast hpast'

end DedupServer
