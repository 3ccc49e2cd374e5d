import DedupServer.Store.Checks
import DedupServer.Store.Lasting
import DedupServer.Alone.Sequential

/-! # Honest clients over several lives of the server

What is known of the states that honest clients lead to, in whichever life of the server and
whatever has happened in the lives before (`State.Calm`): what they upload is stored under its own
hashes, and their recipes are as they should be. So an upload that has returned, and whose chunks
are on disk, is complete (`State.Calm.hasFile`), and all of them are when everybody has gone
(`State.Calm.settled_of_closed`). -/

namespace DedupServer

open Foundations

variable {env : Env} {S : Set Bytes} {K : Set (Int × Bytes)} {hcf : env.CollisionFreeOn S}
  {σ τ : State} {ℓ : Label ℕ Act Arg} {s s' : Session} {sv sv' : Server} {i : ℕ}

/-- **No two uploads with one recipe file have passed the check for uniqueness** in the same life. -/
def State.OneEach (env : Env) (σ : State) : Prop :=
  ∀ i j s t, i ≠ j → σ.locals i = some s → σ.locals j = some t → s.Past → t.Past →
    s.recipePath env ≠ t.recipePath env

/-- **All clients are honest**, their chunks are in `S` and the names of their files in `K`, and nobody looks
a file up between the look-up and the registration of another one. -/
def calm (env : Env) (S : Set Bytes) (K : Set (Int × Bytes)) : Condition := fun σ ℓ τ =>
  honest env S σ ℓ τ ∧ freshIds env σ ℓ τ ∧ checksSerial σ ℓ τ ∧
    ∀ i arg, ℓ = .spawn i arg → arg.op = 117 → (arg.client_id, getFileName arg.file_path) ∈ K

/-- **What is known of the states that honest clients lead to.** -/
structure State.Calm (hcf : env.CollisionFreeOn S) (K : Set (Int × Bytes)) (σ : State) : Prop where
  running : σ.Running (Policy.honest hcf)
  honest : σ.Honest env S
  registered : σ.Registered
  recipes : σ.RecipesKept env
  oneEach : σ.OneEach env
  named : ∀ i s, σ.locals i = some s → s.Uploader → s.key ∈ K
  /-- Who has passed the check, and is not accepted yet, has a name that is not registered. -/
  checked : ∀ i s, σ.locals i = some s → s.Past → ¬ s.Accepted → s.key ∉ σ.shared.files

theorem State.OneEach.apart (h : σ.OneEach env) : σ.Apart env :=
  fun i j s t hne hi hj hacc hacc' => h i j s t hne hi hj (.inr hacc) (.inr hacc')

/-- The store of honest clients is one of any clients. -/
theorem State.Running.lax {π : Policy env} (h : σ.Running π) : σ.Running (Policy.lax env) where
  phase := h.phase
  finite := h.finite
  owned o ho := by
    obtain ⟨P, hinv⟩ := h.owned o ho
    refine ⟨P, ⟨⟨hinv.glob.1.disk, hinv.glob.1.drawn, fun k a hk => ?_⟩, hinv.glob.2⟩,
      fun i s hi => ?_, hinv.idle⟩
    · obtain ⟨hash, x, hlen, hkey, hx, hat, -⟩ := hinv.glob.1.index k a hk
      exact ⟨hash, x, hlen, hkey, hx, hat, trivial⟩
    · obtain ⟨howns, hbuffer, -, -⟩ := hinv.loc i s hi
      exact ⟨howns, hbuffer, fun hi => hi.elim, fun hi => hi.elim⟩

/-- **A server that has just been started** knows nothing that could be wrong. -/
theorem State.Running.calm (h : sv.started.Running (Policy.honest hcf)) : sv.started.Calm hcf K where
  running := h
  honest i s hs := by cases hs
  registered i s hs := by cases hs
  recipes i s hs := by cases hs
  oneEach i j s t _ hs := by cases hs
  named i s hs := by cases hs
  checked i s hs := by cases hs

namespace State.Calm

/-- A new session of an uploader has its name in `K`. -/
theorem named_step (h : σ.Calm hcf K) (hs : Step (sessions env) σ ℓ τ)
    (hok : DedupServer.calm env S K σ ℓ τ) :
    ∀ i s, τ.locals i = some s → s.Uploader → s.key ∈ K := by
  intro j t ht hupl
  cases hσ : σ.locals j with
  | some s =>
    obtain ⟨s', hs', hkept⟩ := h.running.phase.kept_step hs hσ
    obtain rfl := Option.some.inj (ht.symm.trans hs')
    rw [hkept.key]
    exact h.named j s hσ (hkept.uploader.mp hupl)
  | none =>
    cases hs with
    | @spawn i arg hnone =>
      by_cases hj : j = i
      · subst hj
        obtain rfl := Option.some.inj ((Config.moved_locals_self _ _ _ _).symm.trans ht)
        obtain ⟨hid, hpath, -, -, hnot⟩ := Session.connect_client env σ.shared arg
        have hkey : ((sessions env).spawn σ.shared arg).2.key
            = (arg.client_id, getFileName arg.file_path) := by
          rw [← hid, ← hpath]
          rfl
        rw [hkey]
        exact hok.2.2.2 j arg rfl (by_contra fun hop => hnot hop hupl)
      · rw [Config.moved_locals_of_ne _ hj, hσ] at ht
        cases ht
    | @act i a l l' sh hl hact =>
      by_cases hj : j = i
      · subst hj
        rw [hσ] at hl
        cases hl
      · rw [Config.moved_locals_of_ne _ hj, hσ] at ht
        cases ht

/-- **Nobody registers a name that another session has found unique.** -/
theorem checked_step (h : σ.Calm hcf K) (hs : Step (sessions env) σ ℓ τ) :
    ∀ i s, τ.locals i = some s → s.Past → ¬ s.Accepted → s.key ∉ τ.shared.files := by
  intro j t ht hpast hacc
  cases hs with
  | @spawn i arg hnone =>
    by_cases hj : j = i
    · subst hj
      obtain rfl := Option.some.inj ((Config.moved_locals_self _ _ _ _).symm.trans ht)
      rcases hpast with ⟨n, hpc⟩ | hacc'
      · simp [sessions, Session.connect, Conn.init] at hpc
      · exact absurd hacc' hacc
    · rw [Config.moved_locals_of_ne _ hj] at ht
      exact h.checked j t ht hpast hacc
  | @act i a l l' sh hl hact =>
    have hmoves := ((h.running.phase i l hl).act hact).2
    rw [Config.moved_shared]
    by_cases hj : j = i
    · subst hj
      obtain rfl := Option.some.inj ((Config.moved_locals_self _ _ _ _).symm.trans ht)
      have hacc' : ¬ l.Accepted := fun h => hacc (hmoves.kept.accepted h)
      have hfiles : sh.files = σ.shared.files := hmoves.files.resolve_right fun h => hacc' h.1
      rw [hmoves.kept.key, hfiles]
      rcases hmoves.past hpast with hpast' | ⟨-, -, hnot⟩
      · exact h.checked j l hl hpast' hacc'
      · exact hnot
    · rw [Config.moved_locals_of_ne _ hj] at ht
      rcases hmoves.files with hfiles | ⟨hacc', -, hfiles⟩
      · rw [hfiles]
        exact h.checked j t ht hpast hacc
      -- the name that is registered is that of an upload that has passed the check
      · rw [hfiles, List.mem_append, List.mem_singleton]
        rintro (hmem | heq)
        · exact h.checked j t ht hpast hacc hmem
        · refine h.oneEach j i t l hj ht hl hpast (.inr hacc') ?_
          rw [Session.recipePath_eq, Session.recipePath_eq, heq]
          rfl

/-- **Two sessions that have passed the check have different recipe files**, as they have different names. -/
theorem oneEach_step (h : σ.Calm hcf K) (hnames : K.InjOn fun k => env.recipeNameHash k.1 k.2)
    (hs : Step (sessions env) σ ℓ τ) (hok : DedupServer.calm env S K σ ℓ τ) : τ.OneEach env := by
  have hpast : σ.OnePast := by
    rintro i j s t hne hi hj ⟨hid, hname⟩ hs ht
    refine h.oneEach i j s t hne hi hj hs ht ?_
    rw [Session.recipePath, Session.recipePath, hid, hname]
  have hpast' := hpast.step h.running.phase h.registered hs hok.2.2.1
  have hphase := h.running.phase.step hs
  have hnamed := h.named_step hs hok
  intro i j s t hne hi hj hs ht heq
  rw [Session.recipePath_eq, Session.recipePath_eq] at heq
  have hkey := hnames (hnamed i s hi ((hphase i s hi).uploader_of_past hs))
    (hnamed j t hj ((hphase j t hj).uploader_of_past ht)) heq
  obtain ⟨hid, hname⟩ := Prod.mk.inj hkey
  exact hpast' i j s t hne hi hj ⟨hid, hname⟩ hs ht

/-- **A step of an honest client.** -/
theorem step (h : σ.Calm hcf K) (hnames : K.InjOn fun k => env.recipeNameHash k.1 k.2)
    (hs : Step (sessions env) σ ℓ τ) (hok : DedupServer.calm env S K σ ℓ τ) : τ.Calm hcf K where
  running := h.running.step hs ⟨hok.2.1, Set.mem_univ _, fun i _ _ s hi =>
    ⟨h.running.phase i s hi, h.honest.admits hcf hi⟩⟩
  honest := h.honest.step h.running.phase hs hok.1
  registered := h.registered.step h.running.phase hs
  recipes := h.recipes.step h.running.phase hs (h.oneEach_step hnames hs hok).apart
  oneEach := h.oneEach_step hnames hs hok
  named := h.named_step hs hok
  checked := h.checked_step hs

/-- **An upload that has returned is complete** when the chunks of others it refers to are on disk. -/
theorem hasFile (h : σ.Calm hcf K) (hi : σ.locals i = some s) (hret : s.Returned)
    (hanswered : ∀ a ∈ s.conn.answered, a.containerID ∈ σ.shared.containers) :
    σ.shared.HasFile env s.key.1 s.key.2 s.client.file := by
  obtain ⟨_, P, -, hinv⟩ := h.running.exists_inv
  obtain ⟨hjoined, hpc, hacc, hlisted⟩ := (h.running.phase i s hi).returned hret
  refine ⟨h.registered.isFileExist h.running.phase hi hret, s.conn.written, ?_, ?_⟩
  · exact h.recipes i s hi hacc _ (by rw [Conn.recipeFile, hjoined.recipeWriter])
  · exact (hinv.loc i s hi).forall₂_extentOnDisk hinv.glob.1 (Set.mem_univ i) hacc hjoined hpc
      (hlisted (h.honest i s hi).1) hanswered

/-- **When everybody has gone** all that the index refers to is on disk. -/
theorem mem_containers (h : σ.Calm hcf K) (hclosed : ∀ i s, σ.locals i = some s → s.Closed)
    {k : Bytes} {a : ChunkAddr} (hk : σ.shared.allChunks k = some a) :
    a.containerID ∈ σ.shared.containers := by
  obtain ⟨o, P, ho, hinv⟩ := h.running.exists_inv
  obtain ⟨hash, x, -, -, hx, hat, -⟩ := hinv.glob.1.index k a hk
  have hat' := hat
  obtain ⟨j, l, hl, -⟩ := hat'
  cases hj : σ.locals j with
  | some t =>
    exact (hinv.loc j t hj).mem_containers_of_closed (h.running.phase j t hj) (hclosed j t hj) hl
      (hat.ne_nil hx hl)
  | none =>
    -- a container of nobody has been found on disk
    by_cases hjo : j = o
    · subst hjo
      exact AList.lookup_isSome.mp (by rw [hinv.glob.2 _ l hl]; rfl)
    · exact absurd hl (hinv.idle j hj hjo _ l)

/-- So every upload that has returned refers to chunks on disk. -/
theorem settled_of_closed (h : σ.Calm hcf K) (hclosed : ∀ i s, σ.locals i = some s → s.Closed)
    (hi : σ.locals i = some s) (hacc : s.Accepted) :
    s.Returned ∧ ∀ a ∈ s.conn.answered, a.containerID ∈ σ.shared.containers := by
  obtain ⟨_, P, -, hinv⟩ := h.running.exists_inv
  refine ⟨?_, fun a ha => ?_⟩
  · have hover := ((h.running.phase i s hi).over (hclosed i s hi)).2
    exact (hover.resolve_left fun h => h.2 hacc).1.dataWriter
  · obtain ⟨x, -, hindex⟩ := (hinv.loc i s hi).answered (Set.mem_univ i) hacc a ha
    exact h.mem_containers hclosed hindex

end State.Calm

end DedupServer
