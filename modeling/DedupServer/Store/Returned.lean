import DedupServer.Store.Retrieve

/-! # Uploads that have returned

What is known of an upload once `receive_file` has returned (`Session.Returned`). Its own containers
are on disk, but the containers of others it was referred to need not be: an address is published
when its bytes are copied to a buffer, and saved when the owner of the buffer gets to it. So a
download gives the file when, at the moment the upload returns, nobody else still holds such a
container in memory (`returnsSettled`), and may give anything else otherwise. -/

namespace DedupServer

open Foundations

variable {env : Env} {S : Set Bytes} {hcf : env.CollisionFreeOn S} {σ τ : State}
  {ℓ : Label ℕ Act Arg} {s s' : Session} {sv sv' : Server}

/-- `receive_file` has returned after an upload. -/
def Session.Returned (s : Session) : Prop := s.conn.dataWriter = .joined

instance (s : Session) : Decidable s.Returned :=
  inferInstanceAs (Decidable (s.conn.dataWriter = .joined))

/-- Both writers have finished, and `receive_file` is about to return. -/
def Session.Returning (s : Session) : Prop :=
  s.conn.pc = .join ∧ s.conn.dataWriter = .finished ∧ s.conn.recipeWriter = .finished

instance (s : Session) : Decidable s.Returning := inferInstanceAs (Decidable (_ ∧ _ ∧ _))

/-- **An upload has returned** when it was accepted, its writers are joined, and, if the client is
honest, its recipe has an entry for every chunk. -/
theorem Phase.returned (h : Phase env s) (hret : s.Returned) :
    s.conn.Joined ∧ s.conn.pc ≠ .join ∧ s.Accepted ∧
      (s.client.rogue = false → s.Listed env) := by
  have hdormant : ¬ s.conn.Dormant := fun hd => by
    rw [Session.Returned, hd.dataWriter] at hret
    cases hret
  have hwriting : ∀ fileEnd, ¬ s.conn.Writing fileEnd := fun fileEnd hw => by
    have hdata := hw.data
    rw [show s.conn.dataWriter = .joined from hret] at hdata
    exact hdata
  have hupl : ¬ s.Uploading env := fun hupl => by
    rcases hupl.stage with ⟨-, hd⟩ | ⟨-, hw⟩
    · exact hdormant hd
    · exact hwriting false hw
  cases h with
  | accepted hcl h | asking hcl h | last hcl h | answered hcl hpc h | ending hcl hpc h =>
    exact absurd h hupl
  | joining hcl hpc hserves hacc hw => exact absurd hw (hwriting true)
  | quitting hcl hpc hup hdown h | left hcl hpc hup hdown h | closed hcl hpc hup hdown h =>
    refine h.elim (fun h => absurd h.1 hdormant) fun h => ⟨h.1, by simp [hpc], h.2.1, h.2.2⟩
  | login hreq hpc hup hdown hd | order hreq hpc hup hdown hd | lookup hcl hpc hup hdown hd
  | reply hcl hpc hup hdown hd | refused hcl hpc hup hdown hd | exist hcl hpc hup hdown hd
  | notExist hcl hpc hup hdown hd | sending hpc hup hdown htype hd | sent hpc hup hdown hend hd =>
    exact absurd hd hdormant

/-- A session that has returned has been answered nothing since. -/
theorem Moves.answered (h : Moves env sv s sv' s') (hphase : Phase env s) (hret : s.Returned) :
    s'.conn.answered = s.conn.answered := by
  have hjoined := (hphase.returned hret).1
  have hnot : ∀ {c : Conn}, c.dataWriter = .joined → ¬ c.Dormant := fun hd hdormant => by
    -- the writers are joined, so the states in which the connection answers are behind it
    rw [hdormant.dataWriter] at hd
    cases hd
  cases h with
  | client => rfl
  | server hserved =>
    cases hserved with
    | quiet hquiet => exact hquiet.answered
    | unique hpc hid hname hunique hd | refuse hpc hid hname hdup hd | accept hpc hd | register hpc hd =>
      exact absurd hd (hnot hret)
    -- a batch is answered by a connection whose container writer still runs
    | body hpc hup hupl =>
      rcases hupl.stage with ⟨-, hd⟩ | ⟨-, hw⟩
      · exact absurd hd (hnot hret)
      · have hdata := hw.data
        rw [show s.conn.dataWriter = .joined from hret] at hdata
        exact hdata.elim
    | fileEnd hpc hupl => rfl
    | reset => rfl
  | dataWriter hstep => exact (Conn.alike_dataWriterStep hstep).answered
  | recipeWriter hstep =>
    obtain ⟨_, rfl, rfl⟩ | ⟨_, _, _, _, _, _, rfl, rfl⟩ | ⟨_, _, _, _, _, rfl, rfl⟩ |
      ⟨_, _, _, _, rfl, rfl⟩ := Conn.recipeWriterStep_cases hstep
    all_goals rfl

/-- **An upload returns** by the step that joins its writers. -/
theorem Moves.returning (h : Moves env sv s sv' s') (hnot : ¬ s.Returned) (hret : s'.Returned) :
    s.Returning ∧ s'.conn.answered = s.conn.answered := by
  have hsame : s'.conn.dataWriter ≠ s.conn.dataWriter := fun heq =>
    hnot (by rw [Session.Returned, ← heq]; exact hret)
  cases h with
  | client => exact absurd rfl hsame
  | server hserved =>
    cases hserved with
    | quiet hquiet => exact absurd hquiet.dataWriter hsame
    | unique | refuse | accept | body => exact absurd rfl hsame
    | register => cases hret
    | fileEnd => exact absurd rfl hsame
    | reset hpc hacc hwriting hserves hdata hrecipe => exact ⟨⟨hpc, hdata, hrecipe⟩, rfl⟩
  | dataWriter hstep =>
    obtain ⟨_, _, _, _, rfl, rfl⟩ | ⟨_, _, _, rfl, rfl⟩ | ⟨_, _, rfl, rfl⟩ :=
      Conn.dataWriterStep_cases hstep
    all_goals cases hret
  | recipeWriter hstep =>
    obtain ⟨_, rfl, rfl⟩ | ⟨_, _, _, _, _, _, rfl, rfl⟩ | ⟨_, _, _, _, _, rfl, rfl⟩ |
      ⟨_, _, _, _, rfl, rfl⟩ := Conn.recipeWriterStep_cases hstep
    all_goals exact absurd rfl hsame

/-- Containers stay on disk. -/
theorem Moves.containers (h : Moves env sv s sv' s') {id : ContainerID}
    (hid : id ∈ sv.containers) : id ∈ sv'.containers := by
  cases h with
  | client => exact hid
  | server hserved =>
    cases hserved with
    | quiet | unique | refuse | accept | register | fileEnd | reset => exact hid
    | body hpc hup hupl hfits honest hrun =>
      obtain ⟨st', new, hrun', hext, -⟩ := Conn.exists_receiveBody env sv hupl.asked hfits
      obtain rfl := Option.some.inj (hrun.symm.trans hrun')
      rw [hext.containers]
      exact hid
  | dataWriter hstep =>
    obtain ⟨-, -, -, -, rfl, -⟩ | ⟨-, -, -, rfl, -⟩ | ⟨-, -, rfl, -⟩ :=
      Conn.dataWriterStep_cases hstep
    · exact hid
    · exact hid
    · exact (AList.mem_insert _).mpr (.inr hid)
  | recipeWriter hstep =>
    obtain ⟨-, rfl, -⟩ | ⟨-, -, -, -, -, -, rfl, -⟩ | ⟨-, -, -, -, -, rfl, -⟩ |
      ⟨-, -, -, -, rfl, -⟩ := Conn.recipeWriterStep_cases hstep
    all_goals exact hid

/-! ## Registration -/

/-- Every accepted upload is registered, or about to be. -/
def State.Registered (σ : State) : Prop :=
  ∀ i s, σ.locals i = some s → s.Accepted →
    s.conn.pc = .register s.client.fileName ∨
      (s.client.client_id, s.client.fileName) ∈ σ.shared.files

/-- A step of a session registers its file, or keeps it registered. -/
theorem Moves.registered (h : Moves env sv s sv' s')
    (hreg : s.Accepted → s.conn.pc = .register s.client.fileName ∨
      (s.client.client_id, s.client.fileName) ∈ sv.files) (hacc : s'.Accepted) :
    s'.conn.pc = .register s'.client.fileName ∨
      (s'.client.client_id, s'.client.fileName) ∈ sv'.files := by
  have hkept := h.kept
  have hname : s'.client.fileName = s.client.fileName := by
    rw [Client.fileName, Client.fileName, hkept.file_path]
  rw [hname, hkept.client_id]
  -- a step that keeps the state, and one that leaves another state than `register`
  have hstill : s.Accepted → s'.conn.pc = s.conn.pc → s'.conn.pc = .register s.client.fileName ∨
      (s.client.client_id, s.client.fileName) ∈ sv'.files := fun hacc hpc =>
    (hreg hacc).imp (hpc.trans ·) (h.grows.files.subset ·)
  have hpast : s.Accepted → s.conn.pc ≠ .register s.client.fileName →
      s'.conn.pc = .register s.client.fileName ∨
        (s.client.client_id, s.client.fileName) ∈ sv'.files := fun hacc hpc =>
    .inr (h.grows.files.subset ((hreg hacc).resolve_left hpc))
  cases h with
  | client => exact hstill hacc rfl
  | server hserved =>
    cases hserved with
    | quiet hquiet =>
      have hacc' : s.Accepted := by
        rw [Session.Accepted, ← hquiet.uploadRep]
        exact hacc
      exact hpast hacc' (hquiet.before_ne rfl)
    -- before the answer nothing is accepted
    | unique hpc hid hfile hunique hd hrep =>
      rw [Session.Accepted, Session.serverMoved, hrep] at hacc
      cases hacc
    | refuse => cases hacc
    | accept hpc hd hrep hcl hserves hfile => exact .inl (by rw [hfile]; rfl)
    -- the step that enters the name in the registry
    | register hpc hd hserves hacc' hfile =>
      refine .inr ?_
      rw [hfile, hserves.client_id]
      exact List.mem_append_right _ (List.mem_singleton_self _)
    | body hpc hup hupl => exact hpast hacc (by simp [hpc])
    | fileEnd hpc hupl => exact hpast hacc (by simp [hpc])
    | reset hpc hacc' => exact hpast hacc' (by simp [hpc])
  | dataWriter hstep =>
    have halike := Conn.alike_dataWriterStep hstep
    exact hstill (halike.uploadRep.symm.trans hacc) halike.pc
  | recipeWriter hstep =>
    obtain ⟨_, rfl, rfl⟩ | ⟨_, _, _, _, _, _, rfl, rfl⟩ | ⟨_, _, _, _, _, rfl, rfl⟩ |
      ⟨_, _, _, _, rfl, rfl⟩ := Conn.recipeWriterStep_cases hstep
    all_goals exact hstill hacc rfl

/-- **An accepted upload is registered**, in every state of every run. -/
theorem State.Registered.step (h : σ.Registered) (hphase : σ.InPhase env)
    (hs : Step (sessions env) σ ℓ τ) : τ.Registered := by
  intro j t ht hacc
  cases hs with
  | @spawn i arg hnone =>
    by_cases hj : j = i
    · subst hj
      obtain rfl := Option.some.inj ((Config.moved_locals_self _ _ _ _).symm.trans ht)
      exact absurd hacc (by simp [sessions, Session.Accepted, Session.connect, Conn.init])
    · rw [Config.moved_locals_of_ne _ hj] at ht
      exact h j t ht hacc
  | @act i a l l' sh hl hact =>
    have hmoves := ((hphase i l hl).act hact).2
    by_cases hj : j = i
    · subst hj
      obtain rfl := Option.some.inj ((Config.moved_locals_self _ _ _ _).symm.trans ht)
      exact hmoves.registered (h j l hl) hacc
    · rw [Config.moved_locals_of_ne _ hj] at ht
      exact (h j t ht hacc).imp_right (hmoves.grows.files.subset ·)

theorem State.Registered.reaches {ok : Condition} (h : σ.Registered) (hphase : σ.InPhase env)
    (hr : Reaches (sessions env) ok σ τ) : τ.Registered :=
  (hr.invariant (I := fun σ : State => σ.InPhase env ∧ σ.Registered)
    (fun _ _ _ h hs _ => ⟨h.1.step hs, h.2.step h.1 hs⟩) ⟨hphase, h⟩).2

theorem State.registered_init : State.init.Registered := by
  intro i s hs
  cases hs

/-- So a file that has been uploaded is found. -/
theorem State.Registered.isFileExist (h : σ.Registered) (hphase : σ.InPhase env) {i : ℕ}
    (hi : σ.locals i = some s) (hret : s.Returned) :
    σ.shared.isFileExist s.client.client_id s.client.fileName = true := by
  obtain ⟨hjoined, -, hacc, -⟩ := (hphase i s hi).returned hret
  rcases h i s hi hacc with hpc | hfile
  · -- a session about to register has no writers yet
    exfalso
    have hdormant : s.conn.Dormant := by
      have hphase := hphase i s hi
      cases hphase with
      | accepted hcl h | asking hcl h | last hcl h | answered hcl hpc' h | ending hcl hpc' h =>
        rcases h.stage with ⟨-, hd⟩ | ⟨hpc', -⟩
        · exact hd
        · simp [hpc] at hpc'
      | joining hcl hpc' | quitting hcl hpc' | left hcl hpc' | closed hcl hpc'
      | login hreq hpc' | order hreq hpc' | lookup hcl hpc' | reply hcl hpc' | refused hcl hpc'
      | exist hcl hpc' | notExist hcl hpc' | sending hpc' | sent hpc' =>
        simp [hpc] at hpc'
    rw [Session.Returned, hdormant.dataWriter] at hret
    cases hret
  · exact Server.isFileExist_iff.mpr hfile

/-! ## Downloads of returned uploads -/

/-- **Whenever an upload is about to return, nobody else still holds in memory a container it has
been referred to.** -/
def returnsSettled : Condition := fun σ ℓ _ =>
  ∀ i s, ℓ.owner = i → σ.locals i = some s → s.Returning →
    ∀ j u, j ≠ i → σ.locals j = some u →
      ∀ C ∈ u.conn.live, ∀ a ∈ s.conn.answered, a.containerID ≠ C.containerID

/-- The containers a returned upload has been referred to are on disk. -/
def State.Settled (σ : State) : Prop :=
  ∀ i s, σ.locals i = some s → s.Returned →
    ∀ a ∈ s.conn.answered, a.containerID ∈ σ.shared.containers

/-- A settled return leaves nothing in memory. -/
theorem State.Sane.settled_return (h : τ.Sane hcf) {i : ℕ} (hi : τ.locals i = some s)
    (hret : s.Returned) (hothers : ∀ j u, j ≠ i → τ.locals j = some u →
      ∀ C ∈ u.conn.live, ∀ a ∈ s.conn.answered, a.containerID ≠ C.containerID)
    {a : ChunkAddr} (ha : a ∈ s.conn.answered) : a.containerID ∈ τ.shared.containers := by
  obtain ⟨P, hinv⟩ := h.inv
  obtain ⟨hjoined, hpc, hacc, -⟩ := (h.phase i s hi).returned hret
  have hlocal := hinv.loc i s hi
  obtain ⟨x, -, hindex⟩ := hlocal.answered (Set.mem_univ i) hacc a ha
  obtain ⟨hash, y, -, -, hy, hat, -⟩ := hinv.glob.index _ a hindex
  have hat' := hat
  obtain ⟨o, l, hl, hlen, hext⟩ := hat'
  by_cases ho : o = i
  · subst ho
    exact hlocal.onDisk hjoined hpc ⟨l, hl⟩ hat hy
  · cases hu : τ.locals o with
    | none => exact absurd hl (hinv.idle o hu _ l)
    | some u =>
      rcases (hinv.loc o u hu).owns.located _ l hl with hnil | hdisk | ⟨C, hC, hid⟩
      · rw [hnil] at hext
        simp at hext
        exact absurd hext.symm (Ne.symm hy)
      · exact AList.lookup_isSome.mp (by rw [hdisk]; rfl)
      · exact absurd hid.symm (hothers o u ho hu C hC a ha)

/-- **Along runs with settled returns, returned uploads are settled.** -/
theorem State.Settled.step (h : σ.Settled) (hsane : σ.Sane hcf) (hsane' : τ.Sane hcf)
    (hs : Step (sessions env) σ ℓ τ) (hok : returnsSettled σ ℓ τ) : τ.Settled := by
  intro j t ht hret
  cases hσ : σ.locals j with
  | none =>
    -- a session that has just joined has not returned
    exfalso
    cases hs with
    | @spawn i arg hnone =>
      by_cases hj : j = i
      · subst hj
        obtain rfl := Option.some.inj ((Config.moved_locals_self _ _ _ _).symm.trans ht)
        simp [sessions, Session.Returned, Session.connect, Conn.init] at hret
      · rw [Config.moved_locals_of_ne _ hj, hσ] at ht
        cases ht
    | @act i a l l' sh hl hact =>
      by_cases hj : j = i
      · subst hj
        rw [hσ] at hl
        cases hl
      · rw [Config.moved_locals_of_ne _ hj, hσ] at ht
        cases ht
  | some s =>
    by_cases hret' : s.Returned
    · -- it had returned before
      intro a ha
      cases hs with
      | @spawn i arg hnone =>
        have hj : j ≠ i := by
          rintro rfl
          rw [hσ] at hnone
          cases hnone
        rw [Config.moved_locals_of_ne _ hj, hσ] at ht
        obtain rfl := Option.some.inj ht
        exact h j s hσ hret' a ha
      | @act i b l l' sh hl hact =>
        have hmoves := ((hsane.phase i l hl).act hact).2
        refine hmoves.containers ?_
        by_cases hj : j = i
        · subst hj
          obtain rfl := Option.some.inj (hl.symm.trans hσ)
          obtain rfl := Option.some.inj ((Config.moved_locals_self _ _ _ _).symm.trans ht)
          rw [hmoves.answered (hsane.phase j l hl) hret'] at ha
          exact h j l hσ hret' a ha
        · rw [Config.moved_locals_of_ne _ hj, hσ] at ht
          obtain rfl := Option.some.inj ht
          exact h j s hσ hret' a ha
    · -- it returns in this step
      have howner : j = ℓ.owner := by
        by_contra hne
        rw [hs.locals_of_ne hne, hσ] at ht
        obtain rfl := Option.some.inj ht
        exact hret' hret
      subst howner
      have hreturning : s.Returning ∧ t.conn.answered = s.conn.answered := by
        cases hs with
        | spawn hnone =>
          exact absurd (hnone.symm.trans hσ) (by simp)
        | act hl hact =>
          obtain rfl := Option.some.inj (hl.symm.trans hσ)
          obtain rfl := Option.some.inj ((Config.moved_locals_self _ _ _ _).symm.trans ht)
          exact ((hsane.phase _ _ hl).act hact).2.returning hret' hret
      refine fun a ha => hsane'.settled_return ht hret (fun k u hk hu C hC b hb => ?_) ha
      rw [hreturning.2] at hb
      exact hok _ s rfl hσ hreturning.1 k u hk ((hs.locals_of_ne hk).symm.trans hu) C hC b hb

end DedupServer
