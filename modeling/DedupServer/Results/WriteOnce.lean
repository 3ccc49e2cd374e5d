import DedupServer.Foundations.WriteOnce
import DedupServer.Results.Recovery

/-! # The server as a write-once store

Seen by honest clients the server is a write-once store that may fail (`Foundations.WriteOnce`): the
keys are pairs of a client id and a file name, the values are files, a reply `UNIQUE` grants the key
and a reply `DUPLICATE` denies it, and a kill is a failure. `State.Shows` says which states of the store
a state of the server stands for, and every step is a step of the store followed by settling the
uploads that have become complete (`server_refines_write_once`).

So what the server has acknowledged it keeps (`acknowledged_uploads_kept`): an upload that was accepted,
and during which the server was not killed before everybody had gone, is given to every later
download, in this life of the server and in all others. -/

namespace DedupServer

open Foundations

variable {env : Env} {S : Set Bytes} {K : Set (Int × Bytes)} {hcf : env.CollisionFreeOn S}
  {σ τ ρ υ : State} {ℓ : Label ℕ Act Arg} {s s' : Session} {sv sv' : Server} {i : ℕ}
  {h h' : List (Happening ℕ Server Session Act Arg)} {m m' : Int × Bytes → Entry Bytes}

/-! ## Replies -/

/-- What the server has replied to session `i` on the way from `σ` to `τ`. -/
def State.answers (σ τ : State) (i : ℕ) : List (Reply (Int × Bytes) Bytes) :=
  match σ.locals i, τ.locals i with
  | some s, some t =>
    if s.conn.uploadRep = t.conn.uploadRep then []
    else if t.Accepted then [.granted s.key s.client.file]
    else [.denied s.key]
  | _, _ => []

/-- What the clients are told of a happening. -/
def replies : Happening ℕ Server Session Act Arg → List (Reply (Int × Bytes) Bytes)
  | .step σ ℓ τ => State.answers σ τ ℓ.owner
  | .killed _ => [.failed]

/-- **When a request to upload is answered.** -/
theorem Moves.replies (h : Moves env sv s sv' s') :
    s'.conn.uploadRep = s.conn.uploadRep ∨
      (s.conn.uploadRep = none ∧ sv' = sv ∧ s.Past ∧ s'.Accepted) ∨
      (s.conn.uploadRep = none ∧ sv' = sv ∧ s'.conn.uploadRep = some .DUPLICATE ∧
        s.key ∈ sv.files) := by
  cases h with
  | client => exact .inl rfl
  | server hserved =>
    cases hserved with
    | quiet hquiet => exact .inl hquiet.uploadRep
    | unique | register | body | fileEnd | reset => exact .inl rfl
    | accept hpc hd hrep => exact .inr (.inl ⟨hrep, rfl, .inl ⟨_, hpc⟩, rfl⟩)
    | refuse hpc hid hname hdup hd hrep =>
      subst hname
      rw [hid] at hdup
      exact .inr (.inr ⟨hrep, rfl, rfl, Server.isFileUnique_eq_false_iff.mp hdup⟩)
  | dataWriter hstep => exact .inl (Conn.alike_dataWriterStep hstep).uploadRep
  | recipeWriter hstep =>
    obtain ⟨-, -, rfl⟩ | ⟨-, -, -, -, -, -, -, rfl⟩ | ⟨-, -, -, -, -, -, rfl⟩ |
      ⟨-, -, -, -, -, rfl⟩ := Conn.recipeWriterStep_cases hstep
    all_goals exact .inl rfl

/-! ## What a state of the server stands for -/

/-- The upload has returned, and the chunks of others it refers to are on disk. -/
def Session.Settled (sv : Server) (s : Session) : Prop :=
  s.Returned ∧ ∀ a ∈ s.conn.answered, a.containerID ∈ sv.containers

/-- **The state of the store that a state of the server stands for.** -/
structure State.Shows (env : Env) (K : Set (Int × Bytes)) (σ : State)
    (m : Int × Bytes → Entry Bytes) : Prop where
  free : ∀ k, m k = .free →
    k ∉ σ.shared.files ∧ ∀ i s, σ.locals i = some s → s.Accepted → s.key ≠ k
  pending : ∀ k v, m k = .pending v →
    ∃ i s, σ.locals i = some s ∧ s.Accepted ∧ s.key = k ∧ s.client.file = v
  stored : ∀ k v, m k = .stored v → k ∈ K ∧ σ.Lasting env k.1 k.2 v
  lost : ∀ k, m k = .lost →
    k ∈ σ.shared.files ∧ ∀ i s, σ.locals i = some s → s.Accepted → s.key ≠ k

/-- What is pending is an upload that is not settled yet. -/
def State.Owes (σ : State) (m : Int × Bytes → Entry Bytes) : Prop :=
  ∀ k v, m k = .pending v → ∀ i s, σ.locals i = some s → s.Accepted → s.key = k →
    ¬ s.Settled σ.shared

/-- An upload that is settled gives a file that lasts. -/
theorem State.Calm.lasting (h : σ.Calm hcf K) (hnames : K.InjOn fun k => env.recipeNameHash k.1 k.2)
    (hi : σ.locals i = some s) (hsettled : s.Settled σ.shared) :
    s.key ∈ K ∧ σ.Lasting env s.key.1 s.key.2 s.client.file := by
  have hphase := h.running.phase
  obtain ⟨-, -, hacc, -⟩ := (hphase i s hi).returned hsettled.1
  have hK := h.named i s hi hacc.uploader
  refine ⟨hK, h.hasFile hi hsettled.1 hsettled.2, fun j t hj hupl heq => ?_,
    fun j t hj hpast heq => ?_⟩
  · exact hnames (h.named j t hj hupl) hK heq
  · by_cases hne : j = i
    · subst hne
      rw [Option.some.inj (hj.symm.trans hi)]
      exact hsettled.1
    · exact absurd heq (h.oneEach j i t s hne hj hi hpast (.inr hacc))

/-- **Settling the uploads that have become complete.** -/
theorem State.Shows.settle (h : σ.Shows env K m) (hcalm : σ.Calm hcf K)
    (hnames : K.InjOn fun k => env.recipeNameHash k.1 k.2) :
    ∃ m', WriteOnce.Step m [] m' ∧ σ.Shows env K m' ∧ σ.Owes m' := by
  let done : Int × Bytes → Prop := fun k =>
    ∃ i s, σ.locals i = some s ∧ s.Accepted ∧ s.key = k ∧ s.Settled σ.shared
  refine ⟨_, WriteOnce.Step.settled m done, ⟨fun k hk => ?_, fun k v hk => ?_, fun k v hk => ?_,
    fun k hk => ?_⟩, fun k v hk i s hi hacc hkey hsettled => ?_⟩
  · exact h.free k (WriteOnce.settled_eq_free.mp hk)
  · exact h.pending k v (WriteOnce.settled_eq_pending.mp hk).1
  · rcases WriteOnce.settled_eq_stored.mp hk with hk | ⟨hk, i, s, hi, hacc, hkey, hsettled⟩
    · exact h.stored k v hk
    · -- the upload that is pending is the one that is settled, since there is one only
      obtain ⟨j, t, hj, hacc', hkey', hfile⟩ := h.pending k v hk
      have hij : i = j := by
        by_contra hne
        refine hcalm.oneEach i j s t hne hi hj (.inr hacc) (.inr hacc') ?_
        rw [Session.recipePath_eq, Session.recipePath_eq, hkey, hkey']
      subst hij
      obtain rfl := Option.some.inj (hi.symm.trans hj)
      subst hkey hfile
      exact hcalm.lasting hnames hi hsettled
  · exact h.lost k (WriteOnce.settled_eq_lost.mp hk)
  · exact (WriteOnce.settled_eq_pending.mp hk).2 ⟨i, s, hi, hacc, hkey, hsettled⟩

/-! ## One happening -/

/-- The replies of a step in which a session has joined. -/
theorem State.answers_of_none (hnone : σ.locals i = none) (τ : State) :
    State.answers σ τ i = [] := by
  rw [State.answers, hnone]

/-- **What a step keeps**: who is pending stays so, and what is stored lasts. -/
theorem State.Shows.keep (h : σ.Shows env K m) (hcalm : σ.Calm hcf K)
    (hnames : K.InjOn fun k => env.recipeNameHash k.1 k.2) (hs : Step (sessions env) σ ℓ τ)
    (hok : DedupServer.calm env S K σ ℓ τ) (k : Int × Bytes) (v : Bytes) :
    (m k = .pending v → ∃ i s, τ.locals i = some s ∧ s.Accepted ∧ s.key = k ∧ s.client.file = v) ∧
      (m k = .stored v → k ∈ K ∧ τ.Lasting env k.1 k.2 v) := by
  have hphase := hcalm.running.phase
  refine ⟨fun hk => ?_, fun hk => ?_⟩
  · obtain ⟨i, s, hi, hacc, rfl, rfl⟩ := h.pending k v hk
    obtain ⟨s', hs', hkept⟩ := hphase.kept_step hs hi
    exact ⟨i, s', hs', hkept.accepted hacc, hkept.key, hkept.file hacc.uploader⟩
  · obtain ⟨hK, hlasting⟩ := h.stored k v hk
    refine ⟨hK, hlasting.step hcalm.running.lax hs (Policy.lax_allows hphase hok.2.1) ?_⟩
    exact fun i _ hℓ hop heq => hnames (hok.2.2.2 i _ hℓ hop) hK heq

/-- **A key that no upload has been granted** stays so, unless the session that moves is granted it. -/
theorem State.Calm.untaken (hcalm : σ.Calm hcf K) (hs : Step (sessions env) σ ℓ τ) {k : Int × Bytes}
    (hk : ∀ i s, σ.locals i = some s → s.Accepted → s.key ≠ k)
    (hold : ∀ t, τ.locals ℓ.owner = some t → t.Accepted → t.key = k →
      ∃ s, σ.locals ℓ.owner = some s ∧ s.Accepted) :
    (∀ i s, τ.locals i = some s → s.Accepted → s.key ≠ k) ∧
      (k ∉ σ.shared.files → k ∉ τ.shared.files) := by
  have hphase := hcalm.running.phase
  refine ⟨fun i t ht hacc hkey => ?_, fun hnot => ?_⟩
  · by_cases howner : i = ℓ.owner
    · subst howner
      obtain ⟨s, hσ, hacc'⟩ := hold t ht hacc hkey
      obtain ⟨s', hs', hkept⟩ := hphase.kept_step hs hσ
      obtain rfl := Option.some.inj (ht.symm.trans hs')
      exact hk _ s hσ hacc' (hkept.key.symm.trans hkey)
    · rw [hs.locals_of_ne howner] at ht
      exact hk i t ht hacc hkey
  · cases hs with
    | spawn => exact hnot
    | @act i a l l' sh hl hact =>
      rw [Config.moved_shared]
      rcases ((hphase i l hl).act hact).2.files with hfiles | ⟨hacc, -, hfiles⟩
      · rwa [hfiles]
      · rw [hfiles, List.mem_append, List.mem_singleton]
        rintro (hmem | rfl)
        · exact hnot hmem
        · exact hk i l hl hacc rfl

/-- A step without a reply is none of the store. -/
theorem State.Shows.quiet (h : σ.Shows env K m) (hcalm : σ.Calm hcf K)
    (hnames : K.InjOn fun k => env.recipeNameHash k.1 k.2) (hs : Step (sessions env) σ ℓ τ)
    (hok : DedupServer.calm env S K σ ℓ τ)
    (hold : ∀ t, τ.locals ℓ.owner = some t → t.Accepted →
      ∃ s, σ.locals ℓ.owner = some s ∧ s.Accepted) : τ.Shows env K m where
  free k hk := by
    obtain ⟨hnot, huntaken⟩ := h.free k hk
    have := hcalm.untaken hs huntaken fun t ht hacc _ => hold t ht hacc
    exact ⟨this.2 hnot, this.1⟩
  pending k v hk := (h.keep hcalm hnames hs hok k v).1 hk
  stored k v hk := (h.keep hcalm hnames hs hok k v).2 hk
  lost k hk := by
    obtain ⟨hmem, huntaken⟩ := h.lost k hk
    exact ⟨(hcalm.running.phase.grows_step hs).files.subset hmem,
      (hcalm.untaken hs huntaken fun t ht hacc _ => hold t ht hacc).1⟩

/-- **A session that has passed the check has a free key.** -/
theorem State.Shows.free_of_past (h : σ.Shows env K m) (hcalm : σ.Calm hcf K)
    (hi : σ.locals i = some s) (hpast : s.Past) (hacc : ¬ s.Accepted) : m s.key = .free := by
  cases hk : m s.key with
  | free => rfl
  | pending v =>
    obtain ⟨j, t, hj, hacc', hkey, -⟩ := h.pending _ v hk
    have hne : j ≠ i := by
      rintro rfl
      obtain rfl := Option.some.inj (hj.symm.trans hi)
      exact hacc hacc'
    refine absurd ?_ (hcalm.oneEach j i t s hne hj hi (.inr hacc') hpast)
    rw [Session.recipePath_eq, Session.recipePath_eq, hkey]
  | stored v =>
    have hret := (h.stored _ v hk).2.ended i s hi hpast rfl
    exact absurd ((hcalm.running.phase i s hi).returned hret).2.2.1 hacc
  | lost => exact absurd (h.lost _ hk).1 (hcalm.checked i s hi hpast hacc)

/-- **A grant.** -/
theorem State.Shows.grant (h : σ.Shows env K m) (hcalm : σ.Calm hcf K)
    (hnames : K.InjOn fun k => env.recipeNameHash k.1 k.2) (hs : Step (sessions env) σ ℓ τ)
    (hok : DedupServer.calm env S K σ ℓ τ) (hτ : τ.locals ℓ.owner = some s') (hkept : s.Kept s')
    (hacc : s'.Accepted) (hupl : s.Uploader) :
    τ.Shows env K (Function.update m s.key (.pending s.client.file)) := by
  have hold : ∀ k, k ≠ s.key → ∀ t, τ.locals ℓ.owner = some t → t.Accepted → t.key = k →
      ∃ s, σ.locals ℓ.owner = some s ∧ s.Accepted := by
    intro k hne t ht _ hkey
    obtain rfl := Option.some.inj (ht.symm.trans hτ)
    exact absurd (hkey.symm.trans hkept.key) hne
  refine ⟨fun k hk => ?_, fun k v hk => ?_, fun k v hk => ?_, fun k hk => ?_⟩ <;>
    by_cases hne : k = s.key
  · subst hne
    rw [Function.update_self] at hk
    cases hk
  · rw [Function.update_of_ne hne] at hk
    obtain ⟨hnot, huntaken⟩ := h.free k hk
    have := hcalm.untaken hs huntaken (hold k hne)
    exact ⟨this.2 hnot, this.1⟩
  · subst hne
    rw [Function.update_self] at hk
    obtain rfl := Entry.pending.inj hk
    exact ⟨_, s', hτ, hacc, hkept.key, hkept.file hupl⟩
  · rw [Function.update_of_ne hne] at hk
    exact (h.keep hcalm hnames hs hok k v).1 hk
  · subst hne
    rw [Function.update_self] at hk
    cases hk
  · rw [Function.update_of_ne hne] at hk
    exact (h.keep hcalm hnames hs hok k v).2 hk
  · subst hne
    rw [Function.update_self] at hk
    cases hk
  · rw [Function.update_of_ne hne] at hk
    obtain ⟨hmem, huntaken⟩ := h.lost k hk
    exact ⟨(hcalm.running.phase.grows_step hs).files.subset hmem,
      (hcalm.untaken hs huntaken (hold k hne)).1⟩

/-- **A step of the server is a step of the store**, or none. -/
theorem State.Shows.step (h : σ.Shows env K m) (hcalm : σ.Calm hcf K)
    (hnames : K.InjOn fun k => env.recipeNameHash k.1 k.2) (hs : Step (sessions env) σ ℓ τ)
    (hok : DedupServer.calm env S K σ ℓ τ) :
    ∃ m', WriteOnce.Run m (State.answers σ τ ℓ.owner) m' ∧ τ.Shows env K m' := by
  have hs' := hs
  cases hs with
  | @spawn i arg hnone =>
    rw [Label.owner, State.answers_of_none hnone]
    refine ⟨m, .refl, h.quiet hcalm hnames hs' hok fun t ht hacc => ?_⟩
    obtain rfl := Option.some.inj ((Config.moved_locals_self _ _ _ _).symm.trans ht)
    exact absurd hacc (by simp [sessions, Session.Accepted, Session.connect, Conn.init])
  | @act i a l l' sh hl hact =>
    have hphase := hcalm.running.phase i l hl
    have hmoves := (hphase.act hact).2
    have hτ := Config.moved_locals_self σ i sh l'
    have hreplies : State.answers σ (σ.moved i sh l') i
        = if l.conn.uploadRep = l'.conn.uploadRep then []
          else if l'.Accepted then [.granted l.key l.client.file] else [.denied l.key] := by
      rw [State.answers, hl, hτ]
    rw [Label.owner, hreplies]
    rcases hmoves.replies with hsame | ⟨hnone, -, hpast, hacc⟩ | ⟨hnone, -, hdup, hmem⟩
    · rw [if_pos hsame.symm]
      refine ⟨m, .refl, h.quiet hcalm hnames hs' hok fun t ht hacc => ?_⟩
      obtain rfl := Option.some.inj (hτ.symm.trans ht)
      exact ⟨l, hl, hsame.symm.trans hacc⟩
    · have hnacc : ¬ l.Accepted := by simp [Session.Accepted, hnone]
      have hfree := h.free_of_past hcalm hl hpast hnacc
      rw [if_neg (by rw [hnone, show l'.conn.uploadRep = _ from hacc]; simp), if_pos hacc]
      exact ⟨_, WriteOnce.Run.refl.tail (.grant _ hfree),
        h.grant hcalm hnames hs' hok hτ hmoves.kept hacc (hphase.uploader_of_past hpast)⟩
    · have hnacc : ¬ l'.Accepted := by simp [Session.Accepted, hdup]
      rw [if_neg (by rw [hnone, hdup]; simp), if_neg hnacc]
      refine ⟨m, WriteOnce.Run.refl.tail (.deny fun hfree => (h.free _ hfree).1 hmem),
        h.quiet hcalm hnames hs' hok fun t ht hacc => ?_⟩
      obtain rfl := Option.some.inj (hτ.symm.trans ht)
      exact absurd hacc hnacc

/-- **A kill is a failure of the store.** -/
theorem State.Shows.restart (h : σ.Shows env K m) (hcalm : σ.Calm hcf K) (hleaves : σ.Leaves sv) :
    ∃ m', WriteOnce.Step m [.failed] m' ∧ sv.started.Shows env K m' := by
  refine ⟨_, WriteOnce.Step.afterFailure m (· ∈ σ.shared.files), fun k hk => ?_, fun k v hk => ?_,
    fun k v hk => ?_, fun k hk => ?_⟩
  · rw [Server.started_shared, hleaves.files]
    refine ⟨?_, fun i s hs => by cases hs⟩
    rcases WriteOnce.afterFailure_eq_free hk with hk | ⟨-, hnot⟩
    · exact (h.free k hk).1
    · exact hnot
  · exact absurd hk WriteOnce.afterFailure_eq_pending
  · obtain ⟨hK, hlasting⟩ := h.stored k v (WriteOnce.afterFailure_eq_stored.mp hk)
    exact ⟨hK, hlasting.restart hcalm.running.lax hleaves⟩
  · rw [Server.started_shared, hleaves.files]
    refine ⟨?_, fun i s hs => by cases hs⟩
    rcases WriteOnce.afterFailure_eq_lost hk with hk | ⟨-, hmem⟩
    · exact (h.lost k hk).1
    · exact hmem

/-! ## Whole lives -/

/-- What a server that is started stands for: the names that are registered are taken. -/
def Server.taken (sv : Server) (k : Int × Bytes) : Entry Bytes :=
  if sv.isFileExist k.1 k.2 then .lost else .free

theorem Server.shows_taken (env : Env) (K : Set (Int × Bytes)) (sv : Server) :
    sv.started.Shows env K sv.taken := by
  refine ⟨fun k hk => ⟨?_, fun i s hs => by cases hs⟩, fun k v hk => ?_, fun k v hk => ?_,
    fun k hk => ⟨?_, fun i s hs => by cases hs⟩⟩ <;> unfold Server.taken at hk <;>
    split_ifs at hk with hmem
  · exact fun h => hmem (Server.isFileExist_iff.mpr h)
  · exact Server.isFileExist_iff.mp hmem

/-- **Along the lives of the server** the store goes on as the server does. -/
theorem State.Shows.life (hnames : K.InjOn fun k => env.recipeNameHash k.1 k.2)
    (hlife : ServerLife env (DedupServer.calm env S K) σ h τ) (hcalm : σ.Calm hcf K)
    (hshows : σ.Shows env K m) (howes : σ.Owes m) :
    τ.Calm hcf K ∧ ∃ m', WriteOnce.Run m (h.flatMap replies) m' ∧ τ.Shows env K m' ∧ τ.Owes m' := by
  induction hlife with
  | refl => exact ⟨hcalm, m, .refl, hshows, howes⟩
  | @step τ υ h ℓ _ hs hok ih =>
    obtain ⟨hcalm, m, hrun, hshows, -⟩ := ih
    have hcalm' := hcalm.step hnames hs hok
    obtain ⟨m₁, hrun₁, hshows₁⟩ := hshows.step hcalm hnames hs hok
    obtain ⟨m₂, hstep₂, hshows₂, howes⟩ := hshows₁.settle hcalm' hnames
    have hall := (hrun.trans hrun₁).tail hstep₂
    rw [List.append_nil] at hall
    refine ⟨hcalm', m₂, ?_, hshows₂, howes⟩
    rwa [List.flatMap_append, List.flatMap_cons, List.flatMap_nil, List.append_nil]
  | @restart τ h sv _ hleaves ih =>
    obtain ⟨hcalm, m, hrun, hshows, -⟩ := ih
    obtain ⟨m₁, hstep₁, hshows₁⟩ := hshows.restart hcalm hleaves
    refine ⟨(hcalm.running.restart hleaves).calm, m₁, ?_, hshows₁, fun k v _ i s hs => by cases hs⟩
    rw [List.flatMap_append, List.flatMap_cons, List.flatMap_nil, List.append_nil]
    exact hrun.tail hstep₁

/-- Nothing is pending on a server that has just been started. -/
theorem Server.owes_taken (sv : Server) : sv.started.Owes sv.taken :=
  fun _ _ _ _ _ hs => by cases hs

/-- A client that asks for a name which was granted in the life before. -/
def Sample.again : List (Label ℕ Act Arg) := session 0 (upload 1 [68] [7]) refused

/-- What the clients are told in the life after the kill, and after another kill. -/
theorem Sample.exists_lives : ∃ (ρ υ σ : State) (h₁ h₂ : List (Happening ℕ Server Session Act Arg)),
    ServerLife Sample.env (freshIds Sample.env) State.init (State.init.happenings Sample.env past) ρ ∧
      (ρ.tornAt 2).files = [(1, [66]), (1, [65]), (2, [67])] ∧
      ServerLife Sample.env (DedupServer.calm Sample.env {[7], [8]} names) (ρ.tornAt 2).started h₁ υ ∧
      (∀ i s, υ.locals i = some s → s.Closed) ∧
      h₁.flatMap replies =
        [.granted (1, [68]) [8], .granted (2, [69]) [7], .denied (1, [65])] ∧
      ServerLife Sample.env (DedupServer.calm Sample.env {[7], [8]} names) υ h₂ σ ∧
      h₂.flatMap replies = [.failed, .denied (1, [68])] := by
  obtain ⟨ρ, υ, hρ, hυ, hpast, hlife, hclosed, -, -⟩ := exists_restarted
  have hrun : (State.init.execChecked Sample.env draws past).any (fun ρ =>
      decide ((ρ.tornAt 2).files = [(1, [66]), (1, [65]), (2, [67])] ∧
        ((ρ.tornAt 2).started.happenings Sample.env afterwards).flatMap replies
          = [.granted (1, [68]) [8], .granted (2, [69]) [7], .denied (1, [65])]) &&
      ((ρ.tornAt 2).started.execChecked Sample.env orderly afterwards).any fun υ =>
        decide ((υ.shared.restarted.started.happenings Sample.env again).flatMap replies
          = [.denied (1, [68])]) &&
        (υ.shared.restarted.started.execChecked Sample.env orderly again).isSome) = true := by
    decide +kernel
  rw [hρ, Option.any_some, hυ, Option.any_some] at hrun
  simp only [Bool.and_eq_true, decide_eq_true_eq] at hrun
  obtain ⟨⟨hfiles, hfirst⟩, hsecond, hsome⟩ := hrun
  obtain ⟨σ, hσ⟩ := Option.isSome_iff_exists.mp hsome
  have hseven : ∀ x ∈ fileChunks Sample.env [7], x ∈ ({[7], [8]} : Set Bytes) :=
    mem_of_mem_fileChunks_seven (.inl rfl)
  have hcalm : ∀ σ ℓ τ, σ.Within 3 → τ.Within 3 → ℓ ∈ again → orderly σ ℓ τ = true →
      DedupServer.calm Sample.env {[7], [8]} names σ ℓ τ := by
    intro σ ℓ τ hσ _ hℓ hcheck
    refine calm_of_orderly hσ hcheck hℓ fun i arg hi => ?_
    obtain ⟨rfl, rfl⟩ := spawn_mem_session.mp hi
    exact ⟨⟨rfl, fun _ => hseven⟩, .inl rfl⟩
  have hagain : ServerLife Sample.env (DedupServer.calm Sample.env {[7], [8]} names)
      υ.shared.restarted.started (υ.shared.restarted.started.happenings Sample.env again) σ :=
    .of_checked (by decide +kernel) hcalm (fun _ _ => rfl) hσ
  have hkilled : ServerLife Sample.env (DedupServer.calm Sample.env {[7], [8]} names) υ [.killed υ]
      υ.shared.restarted.started := (Life.refl υ).restart υ.leaves_restarted
  refine ⟨ρ, υ, σ, _, _, hpast, hfiles, hlife, hclosed, hfirst, hkilled.trans hagain, ?_⟩
  rw [List.flatMap_append, hsecond]
  rfl

/-- **The server refines a write-once store.** Whatever has happened before the server was started
last: in all that honest clients do from then on, in however many lives, the replies to uploads are
those of a write-once store that fails whenever the server is killed. In the state it is in at the
end, what is stored are files that last, and what is pending are uploads that are not settled. -/
theorem server_refines_write_once (hcf : env.CollisionFreeOn S)
    (hnames : K.InjOn fun k => env.recipeNameHash k.1 k.2)
    (hpast : ServerLife env (freshIds env) State.init h ρ) (hleaves : ρ.Leaves sv)
    (hlife : ServerLife env (DedupServer.calm env S K) sv.started h' σ) :
    ∃ m, WriteOnce.Run sv.taken (h'.flatMap replies) m ∧ σ.Shows env K m ∧ σ.Owes m := by
  have hrunning := ServerLife.running (fun _ _ _ h => h) hpast (State.running_init _)
  have hstart : sv.started.Calm hcf K := (hrunning.restart hleaves).calm
  exact (State.Shows.life hnames hlife hstart (sv.shows_taken env K) sv.owes_taken).2

/-- Two uploads that are granted and one that is denied, after a kill that has torn a container. -/
theorem server_refines_write_once_sample : ∃ (sv : Server) (σ : State)
    (m : Int × Bytes → Entry Bytes), sv.files = [(1, [66]), (1, [65]), (2, [67])] ∧
      WriteOnce.Run sv.taken [.granted (1, [68]) [8], .granted (2, [69]) [7], .denied (1, [65])] m ∧
      σ.Shows Sample.env Sample.names m ∧ σ.Owes m := by
  obtain ⟨ρ, υ, -, h₁, -, hpast, hfiles, hlife, -, hreplies, -⟩ := Sample.exists_lives
  obtain ⟨m, hrun, hshows, howes⟩ := server_refines_write_once Sample.collisionFree Sample.injOn_names
    hpast (ρ.leaves_tornAt 2) hlife
  rw [hreplies] at hrun
  exact ⟨_, υ, m, hfiles, hrun, hshows, howes⟩

/-- **What has been acknowledged is kept.** An upload that was accepted, and after which the server was
not killed until everybody had gone, is kept for good: in every later state of this life and of all
others `send_file` gives the file, and nobody is granted the name again. -/
theorem acknowledged_uploads_kept (hcf : env.CollisionFreeOn S)
    (hnames : K.InjOn fun k => env.recipeNameHash k.1 k.2)
    (hpast : ServerLife env (freshIds env) State.init h ρ) (hleaves : ρ.Leaves sv)
    {h₁ h₂ : List (Happening ℕ Server Session Act Arg)}
    (hlife : ServerLife env (DedupServer.calm env S K) sv.started h₁ υ)
    (hclosed : ∀ i s, υ.locals i = some s → s.Closed) {k : Int × Bytes} {v : Bytes}
    {before after : List (Reply (Int × Bytes) Bytes)}
    (hgranted : h₁.flatMap replies = before ++ .granted k v :: after) (hok : Reply.failed ∉ after)
    (hlife' : ServerLife env (DedupServer.calm env S K) υ h₂ σ) :
    (∀ outData, Conn.sendFile env σ.shared k.1 k.2 outData = some v) ∧
      ∀ w, Reply.granted k w ∉ h₂.flatMap replies := by
  have hrunning := ServerLife.running (fun _ _ _ h => h) hpast (State.running_init _)
  have hstart : sv.started.Calm hcf K := (hrunning.restart hleaves).calm
  obtain ⟨hcalm, m, hrun, hshows, howes⟩ :=
    State.Shows.life hnames hlife hstart (sv.shows_taken env K) sv.owes_taken
  have hcut : h₁.flatMap replies = (before ++ [.granted k v]) ++ after := by
    rw [hgranted, List.append_assoc, List.singleton_append]
  obtain ⟨m₀, hfirst, hrest⟩ := hrun.cut hcut
  -- the grant is in force, and with everybody gone it is settled
  have hstored : m k = .stored v := by
    have hforce : m k = .pending v ∨ m k = .stored v := by
      rcases hfirst.granted rfl with hm₀ | hm₀
      · exact (hrest.pending hm₀ hok).1
      · exact .inr (hrest.stored hm₀).1
    refine hforce.resolve_left fun hpending => ?_
    obtain ⟨i, s, hi, hacc, hkey, -⟩ := hshows.pending k v hpending
    exact howes k v hpending i s hi hacc hkey (hcalm.settled_of_closed hclosed hi hacc)
  obtain ⟨-, m', hrun', hshows', -⟩ := State.Shows.life hnames hlife' hcalm hshows howes
  obtain ⟨hstored', hnot⟩ := hrun'.stored hstored
  exact ⟨fun outData => (hshows'.stored k v hstored').2.file.sendFile outData, hnot⟩

/-- An upload that is granted while another one is at work, everybody gone, another kill, and a client that
asks for the name again. -/
theorem acknowledged_uploads_kept_sample : ∃ (σ : State)
    (h₂ : List (Happening ℕ Server Session Act Arg)),
    h₂.flatMap replies = [.failed, .denied (1, [68])] ∧
      (∀ outData, Conn.sendFile Sample.env σ.shared 1 [68] outData = some [8]) ∧
      ∀ w, Reply.granted (1, [68]) w ∉ h₂.flatMap replies := by
  obtain ⟨ρ, υ, σ, h₁, h₂, hpast, -, hlife, hclosed, hreplies, hlife', hreplies'⟩ := Sample.exists_lives
  have hgranted : h₁.flatMap replies =
      [] ++ .granted (1, [68]) [8] :: [.granted (2, [69]) [7], .denied (1, [65])] := hreplies
  exact ⟨σ, h₂, hreplies', acknowledged_uploads_kept Sample.collisionFree Sample.injOn_names hpast
    (ρ.leaves_tornAt 2) hlife hclosed hgranted (by decide) hlife'⟩

/-- **What the replies mean.** A name is refused only if it was registered when the server was started,
or has been granted since; and it is granted a second time only if the server was killed in
between. -/
theorem replies_justified (hcf : env.CollisionFreeOn S)
    (hnames : K.InjOn fun k => env.recipeNameHash k.1 k.2)
    (hpast : ServerLife env (freshIds env) State.init h ρ) (hleaves : ρ.Leaves sv)
    (hlife : ServerLife env (DedupServer.calm env S K) sv.started h' σ) (k : Int × Bytes) :
    (∀ before after, h'.flatMap replies = before ++ .denied k :: after →
      k ∈ sv.files ∨ ∃ v, Reply.granted k v ∈ before) ∧
    ∀ v w before between after,
      h'.flatMap replies = before ++ .granted k v :: (between ++ .granted k w :: after) →
        Reply.failed ∈ between := by
  have hrunning := ServerLife.running (fun _ _ _ h => h) hpast (State.running_init _)
  have hstart : sv.started.Calm hcf K := (hrunning.restart hleaves).calm
  obtain ⟨-, m, hrun, -⟩ :=
    State.Shows.life hnames hlife hstart (sv.shows_taken env K) sv.owes_taken
  refine ⟨fun before after hreplies => ?_, fun v w before between after hreplies =>
    hrun.failed_between hreplies⟩
  by_cases hmem : k ∈ sv.files
  · exact .inl hmem
  · exact .inr (hrun.granted_before (if_neg fun h => hmem (Server.isFileExist_iff.mp h)) hreplies)

/-- One name is denied because it was registered before, and another one because it was granted in the life
before. -/
theorem replies_justified_sample : ∃ (sv : Server) (h : List (Happening ℕ Server Session Act Arg)),
    sv.files = [(1, [66]), (1, [65]), (2, [67])] ∧ h.flatMap replies =
      [.granted (1, [68]) [8], .granted (2, [69]) [7], .denied (1, [65]), .failed, .denied (1, [68])] ∧
      (∀ before after, h.flatMap replies = before ++ .denied (1, [65]) :: after →
        (1, [65]) ∈ sv.files ∨ ∃ v, Reply.granted (1, [65]) v ∈ before) ∧
      ∀ before after, h.flatMap replies = before ++ .denied (1, [68]) :: after →
        (1, [68]) ∈ sv.files ∨ ∃ v, Reply.granted (1, [68]) v ∈ before := by
  obtain ⟨ρ, υ, σ, h₁, h₂, hpast, hfiles, hlife, -, hreplies, hlife', hreplies'⟩ := Sample.exists_lives
  have hjustified := replies_justified Sample.collisionFree Sample.injOn_names hpast
    (ρ.leaves_tornAt 2) (hlife.trans hlife')
  refine ⟨_, h₁ ++ h₂, hfiles, ?_, (hjustified (1, [65])).1, (hjustified (1, [68])).1⟩
  rw [List.flatMap_append, hreplies, hreplies']
  rfl

end DedupServer
