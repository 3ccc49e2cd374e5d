import DedupServer.Store.Runs
import DedupServer.Threads.Service
import Mathlib.Data.Set.Card

/-! # What the server with its workers does

However many workers there are, and however long the request queue is, the server does what the sessions
do, and it serves as many clients at a time as it has workers (`service_refines_sessions`). As long as
there are fewer clients that stall than workers, everybody else is served to the end
(`everybody_served`); when there are as many, nobody else is served at all (`stalled_clients_block`). -/

namespace DedupServer

open Foundations Service

variable {env : Env} {n queueSize : ℕ} {σ τ : Service n} {a : ServiceAct n} {s : Session} {i : ℕ}
  {D : Finset ℕ}

/-! ## The sessions -/

/-- All clients that are accepted are of a kind. -/
def acceptsOnly (P : Arg → Prop) : Machine.Condition (Service n) (ServiceAct n) := fun _ a _ =>
  ∀ sockfd arg, a = .accept sockfd arg → P arg

/-- All clients that join are of a kind. -/
def joinsOnly (P : Arg → Prop) : Condition := fun _ ℓ _ => ∀ i arg, ℓ = .spawn i arg → P arg

/-- The sessions that the server has not closed. -/
def Service.openSessions (σ : Service n) : Set ℕ :=
  {i | ∃ s, σ.state.locals i = some s ∧ s.conn.pc ≠ .closed}

/-- The sessions that the server has begun to serve and has not closed. -/
def Service.activeSessions (σ : Service n) : Set ℕ :=
  {i | ∃ s, σ.state.locals i = some s ∧ s.conn.pc ≠ .login ∧ s.conn.pc ≠ .closed}

/-- **A session that is active** is served by a worker. -/
theorem Service.Paired.exists_worker (h : σ.Paired env queueSize) (hi : σ.state.locals i = some s)
    (hlogin : s.conn.pc ≠ .login) (hopen : s.conn.pc ≠ .closed) :
    ∃ w conn, σ.loop.workers w = .running conn ∧ conn.object = i := by
  obtain ⟨conn, hconn, rfl⟩ := h.exists_conn i s hi hopen
  rcases EventLoop.mem_unclosed.mp hconn with hwaiting | ⟨w, hw⟩
  · exact absurd (h.waiting conn hwaiting s hi) hlogin
  · exact ⟨w, conn, hw, rfl⟩

/-- The object that a worker serves. -/
def Serving.object? : Serving → Option ℕ
  | .running conn => some conn.object
  | _ => none

/-- There are no more active sessions than workers. -/
theorem Service.Paired.ncard_active (h : σ.Paired env queueSize) : σ.activeSessions.ncard ≤ n := by
  have hsub : σ.activeSessions ⊆ (fun w => ((σ.loop.workers w).object?).getD 0) '' Set.univ := by
    rintro i ⟨s, hi, hlogin, hopen⟩
    obtain ⟨w, conn, hw, rfl⟩ := h.exists_worker hi hlogin hopen
    exact ⟨w, trivial, by simp [hw, Serving.object?]⟩
  calc σ.activeSessions.ncard
      ≤ ((fun w => ((σ.loop.workers w).object?).getD 0) '' Set.univ).ncard :=
        Set.ncard_le_ncard hsub (Set.toFinite _)
    _ ≤ (Set.univ : Set (Fin n)).ncard := Set.ncard_image_le
    _ = n := by simp [Set.ncard_univ]

/-- No more descriptors are open than there are places in the queue and workers, and one. -/
theorem EventLoop.card_unclosed (loop : EventLoop n) (h : loop.requests.Good) :
    loop.unclosed.card ≤ n + loop.requests.size + 1 := by
  have hworkers : (∑ w, (loop.workers w).unclosed).card ≤ n := by
    rw [Multiset.card_sum]
    calc ∑ w, (loop.workers w).unclosed.card
        ≤ ∑ _w : Fin n, 1 := Finset.sum_le_sum fun w _ => by cases loop.workers w <;> simp
      _ = n := by simp
  have happ : loop.appending.toList.length ≤ 1 := by cases loop.appending <;> simp
  have hqueue := h.bounded
  rw [unclosed, Multiset.card_add, Multiset.card_add, Multiset.coe_card, Multiset.coe_card]
  omega

/-- There are no more sessions that are not closed. -/
theorem Service.Paired.ncard_open (h : σ.Paired env queueSize) :
    σ.openSessions.ncard ≤ n + queueSize + 1 := by
  classical
  have hsub : σ.openSessions ⊆ (σ.loop.unclosed.toFinset.image ClientPtr.object : Finset ℕ) := by
    rintro i ⟨s, hi, hopen⟩
    obtain ⟨conn, hconn, rfl⟩ := h.exists_conn i s hi hopen
    exact Finset.mem_coe.mpr (Finset.mem_image_of_mem _ (Multiset.mem_toFinset.mpr hconn))
  have hcard := σ.loop.card_unclosed h.queue.1
  rw [h.queue.2] at hcard
  calc σ.openSessions.ncard
      ≤ (σ.loop.unclosed.toFinset.image ClientPtr.object : Finset ℕ).card := by
        rw [← Set.ncard_coe_finset]
        exact Set.ncard_le_ncard hsub (Finset.finite_toSet _)
    _ ≤ σ.loop.unclosed.toFinset.card := Finset.card_image_le
    _ ≤ σ.loop.unclosed.card := Multiset.toFinset_card_le _
    _ ≤ n + queueSize + 1 := hcard

/-- The number of the next object is that of no session. -/
theorem Service.Paired.none_created (h : σ.Paired env queueSize) :
    σ.state.locals σ.loop.created = none := by
  by_contra hne
  exact lt_irrefl _ ((h.joined _).mp hne)

/-- **The server does what the sessions do.** Every run of the server, with any number of workers and a
queue of any size, is a run of the sessions in which the same clients join. All the time it serves at most
as many sessions as it has workers, and has not closed at most as many as there are workers and places
in the queue, and one that it is about to put there. -/
theorem service_refines_sessions (P : Arg → Prop)
    (h : (serviceMachine env n).Run (acceptsOnly P) (init queueSize) σ) :
    Reaches (sessions env) (joinsOnly P) State.init σ.state ∧ σ.activeSessions.ncard ≤ n ∧
      σ.openSessions.ncard ≤ n + queueSize + 1 := by
  have hpaired := (paired_init env queueSize).run h
  refine ⟨?_, hpaired.ncard_active, hpaired.ncard_open⟩
  have hstart : Reaches (sessions env) (joinsOnly P) State.init State.init := .refl
  refine (h.invariant (I := fun υ : Service n => υ.Paired env queueSize ∧
    Reaches (sessions env) (joinsOnly P) State.init υ.state) (fun υ a υ' hυ hstep hok => ?_)
    ⟨paired_init env queueSize, hstart⟩).2
  have hmoves := moves_of_step hstep
  refine ⟨hυ.1.step hmoves, ?_⟩
  -- a step of the server is one of the sessions, or none
  rcases sim_step hυ.1.none_created hmoves with heq | ⟨ℓ, hs, hspawn⟩
  · rw [heq]
    exact hυ.2
  · refine hυ.2.tail ⟨ℓ, hs, fun i arg heq => ?_⟩
    obtain ⟨sockfd, ha⟩ := hspawn i arg heq
    exact hok sockfd arg ha

/-- Two clients are accepted by a server with one worker: the first one is served, the second one waits. -/
theorem service_refines_sessions_sample : ∃ σ : Service 1, 0 ∈ σ.activeSessions ∧ 1 ∈ σ.openSessions ∧
    Reaches (sessions Sample.env) (joinsOnly (·.rogue = false)) State.init σ.state ∧
      σ.activeSessions.ncard ≤ 1 ∧ σ.openSessions.ncard ≤ 22 := by
  have hexec : ((serviceMachine Sample.env 1).exec (init 20) [.accept 5 (Sample.upload 1 [65] [7]), .fetch 0,
      .accept 6 (Sample.upload 2 [66] [8]), .serve 0]).any (fun σ =>
        ((σ.state.locals 0).any fun s => decide (s.conn.pc ≠ .login ∧ s.conn.pc ≠ .closed)) &&
          (σ.state.locals 1).any fun s => decide (s.conn.pc ≠ .closed)) = true := by
    decide +kernel
  obtain ⟨σ, hσ, hany⟩ := (Option.any_eq_true _ _).mp hexec
  obtain ⟨hactive, hopen⟩ := (Bool.and_eq_true _ _).mp hany
  obtain ⟨s, hs, hactive⟩ := (Option.any_eq_true _ _).mp hactive
  obtain ⟨t, ht, hopen⟩ := (Option.any_eq_true _ _).mp hopen
  have hrun : (serviceMachine Sample.env 1).Run (acceptsOnly (·.rogue = false)) (init 20) σ := by
    refine Machine.run_of_exec (fun _ a ha _ sockfd arg heq => ?_) hσ
    subst heq
    simp only [List.mem_cons, List.not_mem_nil, or_false, reduceCtorEq, false_or,
      ServiceAct.accept.injEq] at ha
    rcases ha with ⟨-, rfl⟩ | ⟨-, rfl⟩ <;> rfl
  exact ⟨σ, ⟨s, hs, of_decide_eq_true hactive⟩, ⟨t, ht, of_decide_eq_true hopen⟩,
    service_refines_sessions _ hrun⟩

/-! ## Everybody is served -/

/-- All clients are honest, and no hang-up deletes an object that waits or is served. -/
def orderly : Machine.Condition (Service n) (ServiceAct n) := fun σ a τ =>
  acceptsOnly (·.rogue = false) σ a τ ∧ keepsOpen σ a τ

/-- The step needs no new client and no hang-up. -/
def ServiceAct.Inner : ServiceAct n → Prop
  | .accept _ _ | .hangUp _ => False
  | _ => True

/-- The clients of the sessions `D` do nothing. -/
def stall (D : Finset ℕ) : Machine.Condition (Service n) (ServiceAct n) := fun _ a _ =>
  ∀ i ∈ D, ∀ b, a = .session i b → b = .dataWriter ∨ b = .recipeWriter

/-- **What is known of the server while all clients are honest.** -/
structure Service.Sound (env : Env) (queueSize : ℕ) (σ : Service n) : Prop where
  paired : σ.Paired env queueSize
  honest : σ.state.Honest env Set.univ

theorem Service.sound_init (env : Env) (queueSize : ℕ) :
    Sound env queueSize (init queueSize : Service n) :=
  ⟨paired_init env queueSize, fun i s hs => by cases hs⟩

theorem Service.Sound.step (h : σ.Sound env queueSize) (hmoves : σ.Moves env a τ)
    (hok : acceptsOnly (·.rogue = false) σ a τ) : τ.Sound env queueSize := by
  refine ⟨h.paired.step hmoves, ?_⟩
  rcases sim_step h.paired.none_created hmoves with heq | ⟨ℓ, hs, hspawn⟩
  · rw [heq]
    exact h.honest
  · refine h.honest.step h.paired.phase hs fun i arg heq => ?_
    obtain ⟨sockfd, ha⟩ := hspawn i arg heq
    exact ⟨hok sockfd arg ha, fun _ _ _ => trivial⟩

/-- Sessions of honest clients are live. -/
theorem Service.Sound.live (h : σ.Sound env queueSize) (hi : σ.state.locals i = some s) : s.Live env :=
  ⟨h.paired.phase i s hi, (h.honest i s hi).1⟩

/-- Finitely many sessions have joined. -/
theorem Service.Paired.finite (h : σ.Paired env queueSize) : {i | σ.state.locals i ≠ none}.Finite :=
  (Set.finite_lt_nat σ.loop.created).subset fun i hi => (h.joined i).mp hi

/-- **Some worker does not serve a session of `D`**, when these are fewer than the workers. -/
theorem Service.Paired.exists_free (h : σ.Paired env queueSize) (hD : D.card < n) :
    ∃ w, ∀ conn, σ.loop.workers w = .running conn → conn.object ∉ D := by
  by_contra! hall
  choose conn hw hmem using hall
  have hinj : Set.InjOn (fun w => (conn w).object) (Finset.univ : Finset (Fin n)) :=
    fun w _ w' _ heq => h.worker_unique (hw w) (hw w') heq
  have hle := Finset.card_le_card_of_injOn _ (fun w _ => hmem w) hinj
  rw [Finset.card_univ, Fintype.card_fin] at hle
  omega

/-- **A step of a session** changes the state. -/
theorem Service.Sound.ne_of_act (h : σ.Sound env queueSize) (hi : σ.state.locals i = some s) {b : Act}
    {r : Server × Session} (hact : Session.act env σ.state.shared s b = some r)
    (hτ : τ.state = σ.state.moved i r.1 r.2) : τ ≠ σ := by
  rintro rfl
  have hlt := (sessionRanking env).measure_lt h.paired.finite hi (h.live hi) hact
  rw [← hτ] at hlt
  exact lt_irrefl _ hlt

/-- A connection that is closed does nothing more. -/
theorem Session.act_server_closed {sv : Server} (hpc : s.conn.pc = .closed) :
    Session.act env sv s .server = none := by
  simp [Session.act, Conn.receives, Conn.proceed, hpc]

/-- **A session that is not closed goes on**, if the server has closed it or a worker serves it. -/
theorem Service.Sound.goes_on (h : σ.Sound env queueSize) (hi : σ.state.locals i = some s)
    (hD : i ∉ D) (hclosed : ¬ s.Closed)
    (hserved : s.conn.pc ≠ .closed → ∃ w conn, σ.loop.workers w = .running conn ∧
      conn ∉ σ.loop.deleted ∧ conn.object = i) :
    ∃ a τ, σ.step env a = some τ ∧ τ ≠ σ ∧ a.Inner ∧ stall D σ a τ := by
  obtain ⟨b, r, hact⟩ := (h.live hi).1.enabled σ.state.shared (h.live hi).2 hclosed
  have hserved' : b = .server → ∃ w conn, σ.loop.workers w = .running conn ∧
      conn ∉ σ.loop.deleted ∧ conn.object = i := by
    rintro rfl
    refine hserved fun hpc => ?_
    rw [Session.act_server_closed hpc] at hact
    cases hact
  obtain ⟨a, τ, hstep, hτ, ha⟩ := exists_step hi hact hserved'
  refine ⟨a, τ, hstep, h.ne_of_act hi hact hτ, ?_, ?_⟩
  · rcases ha with rfl | ⟨w, rfl⟩ <;> trivial
  · rintro j hj b' rfl
    rcases ha with ha | ⟨w, ha⟩
    · cases ha
      exact absurd hj hD
    · cases ha

/-- A step of the event loop, the queue or a worker that changes something. -/
theorem Service.loop_goes_on {b : LoopAct n} {loop : EventLoop n} (hb : loopAct a = some b)
    (hinner : a.Inner) (hstep : σ.loop.step b = some loop) (hne : loop ≠ σ.loop) :
    ∃ a τ, σ.step env a = some τ ∧ τ ≠ σ ∧ a.Inner ∧ stall D σ a τ := by
  refine ⟨a, ⟨loop, σ.state⟩, ?_, fun heq => hne (congrArg Service.loop heq), hinner, ?_⟩
  · cases a with
    | append | fetch | leave =>
      obtain rfl := Option.some.inj hb
      simp [Service.step, hstep]
    | hangUp => exact hinner.elim
    | accept | serve | session => cases hb
  · rintro j - b' rfl
    cases hb

/-- **While a session outside `D` is not closed** the server can go on without the clients of `D`, if
these are fewer than the workers. -/
theorem Service.Sound.progress (h : σ.Sound env queueSize) (hdel : σ.Undeleted) (hn : D.card < n)
    (hsize : 0 < queueSize) (hi : σ.state.locals i = some s) (hD : i ∉ D) (hclosed : ¬ s.Closed) :
    ∃ a τ, σ.step env a = some τ ∧ τ ≠ σ ∧ a.Inner ∧ stall D σ a τ := by
  -- nobody who is served has been deleted
  have hlive : ∀ {w conn}, σ.loop.workers w = .running conn → conn ∉ σ.loop.deleted :=
    fun {w conn} hw => hdel.unclosed conn (EventLoop.mem_unclosed.mpr (.inr ⟨w, hw⟩))
  by_cases hserved : s.conn.pc ≠ .closed → ∃ w conn, σ.loop.workers w = .running conn ∧ conn.object = i
  · refine h.goes_on hi hD hclosed fun hopen => ?_
    obtain ⟨w, conn, hw, hobj⟩ := hserved hopen
    exact ⟨w, conn, hw, hlive hw, hobj⟩
  push Not at hserved
  obtain ⟨hopen, hnobody⟩ := hserved
  -- the session waits, and one worker at least serves nobody in `D`
  obtain ⟨w, hw⟩ := h.paired.exists_free hn
  have hworkers : ∀ {loop : EventLoop n}, loop.workers w ≠ σ.loop.workers w → loop ≠ σ.loop := by
    rintro loop hne rfl
    exact hne rfl
  cases hserving : σ.loop.workers w with
  | running conn =>
    have hconn := EventLoop.mem_unclosed.mpr (.inr ⟨w, hserving⟩)
    obtain ⟨t, ht, hopen'⟩ := h.paired.unclosed conn hconn
    exact h.goes_on ht (hw conn hserving) (fun hcl => hopen' hcl.2)
      fun _ => ⟨w, conn, hserving, hlive hserving, rfl⟩
  | closing conn =>
    have hleave : σ.loop.step (.leave w)
        = some { σ.loop with workers := Function.update σ.loop.workers w .idle } := by
      simp [EventLoop.step, hserving]
    exact loop_goes_on (a := .leave w) rfl trivial hleave (hworkers (by simp [hserving]))
  | idle =>
    cases hqueue : σ.loop.requests.queue with
    | cons conn rest =>
      obtain ⟨q, hpop⟩ : ∃ q, σ.loop.requests.pop = .got conn q := by
        simp [BlockQueueState.pop, hqueue]
      have hfetch : σ.loop.step (.fetch w) = some { σ.loop with
          requests := q
          workers := Function.update σ.loop.workers w (.running conn) } := by
        simp [EventLoop.step, hserving, hpop]
      exact loop_goes_on (a := .fetch w) rfl trivial hfetch (hworkers (by simp [hserving]))
    | nil =>
      -- nobody is in the queue, so the object is about to be put there
      obtain ⟨conn, hconn, rfl⟩ := h.paired.exists_conn i s hi hopen
      have happ : σ.loop.appending = some conn := by
        rcases EventLoop.mem_unclosed.mp hconn with hwaiting | ⟨w', hw'⟩
        · rw [EventLoop.waiting, hqueue, List.nil_append] at hwaiting
          simpa using hwaiting
        · exact absurd rfl (hnobody w' conn hw')
      obtain ⟨q, hpush⟩ : ∃ q, σ.loop.requests.push conn = some q := by
        have hroom : (0 : ℕ) ≠ σ.loop.requests.size := by
          rw [h.paired.queue.2]
          exact hsize.ne
        simp [BlockQueueState.push, hqueue, hroom]
      have happend : σ.loop.step .append
          = some { σ.loop with requests := q, appending := none } := by
        simp [EventLoop.step, happ, EventLoop.appendRequest, hpush]
      refine loop_goes_on (a := .append) rfl trivial happend fun heq => ?_
      have hsame := congrArg EventLoop.appending heq
      rw [happ] at hsame
      cases hsame

/-! ## It comes to rest -/

/-- What a worker has yet to do apart from serving. -/
def Serving.weight : Serving → ℕ
  | .idle => 0
  | _ => 1

@[simp] theorem Serving.weight_idle : idle.weight = 0 := rfl

@[simp] theorem Serving.weight_running (conn : ClientPtr) : (running conn).weight = 1 := rfl

@[simp] theorem Serving.weight_closing (conn : ClientPtr) : (closing conn).weight = 1 := rfl

/-- What the event loop and the workers have yet to do, without new clients. -/
noncomputable def EventLoop.weight (loop : EventLoop n) : ℕ :=
  3 * loop.appending.toList.length + 2 * loop.requests.queue.length + ∑ w, (loop.workers w).weight +
    {fd | loop.watched fd = true}.ncard

/-- The descriptors that are watched are open, and so they are finite in number. -/
theorem EventLoop.Owned.finite_watched {loop : EventLoop n} (h : loop.Owned) :
    {fd | loop.watched fd = true}.Finite := by
  classical
  refine (loop.unclosed.toFinset.image ClientPtr.sockfd).finite_toSet.subset fun fd hfd => ?_
  obtain ⟨conn, hconn⟩ := Option.ne_none_iff_exists'.mp (h.watched fd hfd)
  obtain ⟨hmem, rfl⟩ := (h.opened fd conn).mp hconn
  exact Finset.mem_coe.mpr (Finset.mem_image_of_mem _ (Multiset.mem_toFinset.mpr hmem))

/-- **What the event loop, the queue and the workers do by themselves** comes to an end. -/
theorem EventLoop.weight_step {loop loop' : EventLoop n} {b : LoopAct n} (h : loop.Owned)
    (hb : loopAct a = some b) (hstep : loop.step b = some loop') :
    loop' = loop ∨ loop'.weight < loop.weight := by
  have hworkers : ∀ w (new : Serving), ∑ v, (Function.update loop.workers w new v).weight +
      (loop.workers w).weight = ∑ v, (loop.workers v).weight + new.weight :=
    fun w new => sum_update_add Serving.weight loop.workers w new
  cases moves_of_step hstep with
  | accept | serve | quit => cases a <;> simp [loopAct] at hb
  | fetchNone => exact .inl rfl
  | @append conn happ =>
    unfold appendRequest
    split
    · exact .inl (by rw [← happ])
    · rename_i q hpush
      right
      simp only [weight, happ, (BlockQueueState.push_eq_some hpush).1, Option.toList_some,
        Option.toList_none, List.length_append, List.length_singleton, List.length_nil]
      omega
  | @hangUp eventfd hwatched =>
    right
    have hset : {fd | Function.update loop.watched eventfd false fd = true}
        = {fd | loop.watched fd = true} \ {eventfd} := by
      ext fd
      by_cases hfd : fd = eventfd <;> simp [hfd]
    have hmem : eventfd ∈ {fd | loop.watched fd = true} := hwatched
    have hless := Set.ncard_sdiff_singleton_lt_of_mem hmem h.finite_watched
    simp only [weight, hset]
    omega
  | @fetch w conn q hi hpop =>
    right
    have hsum := hworkers w (.running conn)
    rw [hi, Serving.weight_idle, Serving.weight_running] at hsum
    simp only [weight, (BlockQueueState.pop_eq_got hpop).1, List.length_cons]
    omega
  | @leave w conn hi =>
    right
    have hsum := hworkers w .idle
    rw [hi, Serving.weight_idle, Serving.weight_closing] at hsum
    simp only [weight]
    omega

/-- What the server has yet to do, without new clients. -/
noncomputable def Service.measure (env : Env) (σ : Service n) : Lex (Fin 4 → ℕ) ×ₗ ℕ :=
  toLex ((sessionRanking env).measure σ.state, σ.loop.weight)

/-- **Every step leaves less to do**, unless a client is accepted or nothing changes. -/
theorem Service.Sound.measure_lt (h : σ.Sound env queueSize) (hmoves : σ.Moves env a τ)
    (haccept : ∀ sockfd arg, a ≠ .accept sockfd arg) (hne : τ ≠ σ) : τ.measure env < σ.measure env := by
  rw [measure, measure, Prod.Lex.toLex_lt_toLex]
  cases hmoves with
  | accept arg => exact absurd rfl (haccept _ arg)
  | loop hb _ hstep =>
    rcases EventLoop.weight_step h.paired.owned hb hstep with rfl | hlt
    · exact absurd rfl hne
    · exact .inr ⟨rfl, hlt⟩
  | serve _ _ hs hact | quit _ _ hs hact =>
    exact .inl ((sessionRanking env).measure_lt (a := .server) h.paired.finite hs (h.live hs) hact)
  | @session i b _ _ _ hs hact =>
    exact .inl ((sessionRanking env).measure_lt (a := b) h.paired.finite hs (h.live hs) hact)

/-- **Everybody is served**, whatever order the threads and the clients move in. When all clients are
honest, no hang-up deletes an object that waits or is served, and fewer clients stall than there are
workers, then as long as a session of another client is not closed on both sides something can happen that
changes the state and needs neither a new client nor a hang-up nor one of those that stall. And it does not
go on for ever: in an endless run there are always more clients that are accepted, or steps that change
nothing. -/
theorem everybody_served (hsize : 0 < queueSize)
    (h : (serviceMachine env n).Run orderly (init queueSize) σ) :
    (∀ D : Finset ℕ, D.card < n → ∀ i s, σ.state.locals i = some s → i ∉ D → ¬ s.Closed →
      ∃ a τ, σ.step env a = some τ ∧ τ ≠ σ ∧ a.Inner ∧ stall D σ a τ) ∧
    ∀ (f : ℕ → Service n) (act : ℕ → ServiceAct n), f 0 = σ →
      (∀ m, (f m).step env (act m) = some (f (m + 1)) ∧
        acceptsOnly (·.rogue = false) (f m) (act m) (f (m + 1))) →
      ∀ N, ∃ m ≥ N, (∃ sockfd arg, act m = .accept sockfd arg) ∨ f (m + 1) = f m := by
  obtain ⟨hsound, hdel⟩ := h.invariant (I := fun υ : Service n => υ.Sound env queueSize ∧ υ.Undeleted)
    (fun _ _ _ hυ hstep hok => ⟨hυ.1.step (moves_of_step hstep) hok.1,
      hυ.2.step hυ.1.paired (moves_of_step hstep) hok.2⟩)
    ⟨sound_init env queueSize, undeleted_init queueSize⟩
  refine ⟨fun D hD i s hi hout hclosed => hsound.progress hdel hD hsize hi hout hclosed, ?_⟩
  intro f act h0 hsteps N
  have hall : ∀ m, (f m).Sound env queueSize := by
    intro m
    induction m with
    | zero => rwa [h0]
    | succ m ih => exact ih.step (moves_of_step (hsteps m).1) (hsteps m).2
  obtain ⟨m, hm, hquiet⟩ := exists_ge_not_of_lt (fun m => (f m).measure env)
    (P := fun m => (∀ sockfd arg, act m ≠ .accept sockfd arg) ∧ f (m + 1) ≠ f m)
    (fun m hP => (hall m).measure_lt (moves_of_step (hsteps m).1) hP.1 hP.2) N
  refine ⟨m, hm, ?_⟩
  by_contra! hnot
  exact hquiet hnot

/-- Two workers. The first client has gone and left its entry to the second one, which got the same
descriptor, stalls in its upload and hangs up; the third client is served all the same. -/
theorem everybody_served_sample : ∃ σ : Service 2,
    (∃ s, σ.state.locals 1 = some s ∧ s.conn.receives = true ∧ s.up = []) ∧ σ.loop.deleted ≠ [] ∧
      (∃ a τ, σ.step Sample.env a = some τ ∧ τ ≠ σ ∧ a.Inner ∧ stall {1} σ a τ) ∧
      ∀ (f : ℕ → Service 2) (act : ℕ → ServiceAct 2), f 0 = σ →
        (∀ m, (f m).step Sample.env (act m) = some (f (m + 1)) ∧
          acceptsOnly (·.rogue = false) (f m) (act m) (f (m + 1))) →
        ∀ N, ∃ m ≥ N, (∃ sockfd arg, act m = .accept sockfd arg) ∨ f (m + 1) = f m := by
  let first : List (ServiceAct 2) := [.accept 5 (Sample.download 1 [65] 0), .fetch 0, .serve 0, .serve 0,
    .serve 0, .session 0 .client, .serve 0, .session 0 .client, .leave 0]
  let second : List (ServiceAct 2) := [.accept 5 (Sample.upload 1 [66] [7]), .fetch 0, .serve 0, .serve 0,
    .serve 0, .serve 0, .serve 0, .accept 6 (Sample.upload 2 [67] [8])]
  have hexec : ((serviceMachine Sample.env 2).exec (init 20) (first ++ second)).any (fun σ =>
      decide (σ.loop.clients 5 = some ⟨0, 5⟩ ∧ (⟨0, 5⟩ : ClientPtr) ∉ σ.loop.unclosed) &&
        (((serviceMachine Sample.env 2).step σ (.hangUp 5)).any fun τ => decide (τ.loop.deleted ≠ []) &&
          ((τ.state.locals 1).any fun s => s.conn.receives && decide (s.up = [])) &&
          (τ.state.locals 2).any fun s => decide (¬ s.Closed))) = true := by
    decide +kernel
  obtain ⟨υ, hυ, hany⟩ := (Option.any_eq_true _ _).mp hexec
  simp only [Bool.and_eq_true, decide_eq_true_eq] at hany
  obtain ⟨⟨hentry, hopen⟩, hany⟩ := hany
  obtain ⟨σ, hσ, hany⟩ := (Option.any_eq_true _ _).mp hany
  simp only [Bool.and_eq_true, decide_eq_true_eq] at hany
  obtain ⟨⟨hdeleted, hstalls⟩, hwaits⟩ := hany
  obtain ⟨s, hs, hstalls⟩ := (Option.any_eq_true _ _).mp hstalls
  obtain ⟨t, ht, hclosed⟩ := (Option.any_eq_true _ _).mp hwaits
  simp only [Bool.and_eq_true, decide_eq_true_eq] at hstalls hclosed
  -- the only hang-up finds the entry of the first client
  have hfirst : (serviceMachine Sample.env 2).Run orderly (init 20) υ := by
    refine Machine.run_of_exec (fun _ a ha _ => ⟨fun sockfd arg heq => ?_, fun fd conn heq => ?_⟩) hυ
    all_goals
      subst heq
      simp only [first, second, List.cons_append, List.nil_append, List.mem_cons, List.not_mem_nil,
        or_false, reduceCtorEq, false_or, ServiceAct.accept.injEq] at ha
    rcases ha with ⟨-, rfl⟩ | ⟨-, rfl⟩ | ⟨-, rfl⟩ <;> rfl
  have hrun : (serviceMachine Sample.env 2).Run orderly (init 20) σ := by
    refine hfirst.tail hσ ⟨fun sockfd arg heq => (by cases heq), fun fd conn heq hconn => ?_⟩
    cases heq
    rwa [← Option.some.inj (hentry.symm.trans hconn)]
  have hserved := everybody_served (by decide) hrun
  exact ⟨σ, ⟨s, hs, hstalls⟩, hdeleted, hserved.1 {1} (by decide) 2 t ht (by decide) hclosed, hserved.2⟩

/-! ## Clients that stall -/

/-- The worker serves a session of `D` that waits for its client. -/
def Service.Stuck (D : Finset ℕ) (σ : Service n) (w : Fin n) : Prop :=
  ∃ conn s, σ.loop.workers w = .running conn ∧ σ.state.locals conn.object = some s ∧
    conn.object ∈ D ∧ s.conn.receives = true ∧ s.up = []

/-- A writer leaves the messages where they are. -/
theorem Session.up_of_writer {sv sv' : Server} {s' : Session} {b : Act}
    (hb : b = .dataWriter ∨ b = .recipeWriter) (h : Session.act env sv s b = some (sv', s')) :
    s'.up = s.up := by
  rcases hb with rfl | rfl <;>
  · obtain ⟨r, -, heq⟩ := Option.map_eq_some_iff.mp h
    obtain ⟨rfl, rfl⟩ := Prod.mk.inj heq
    rfl

/-- A session that is stuck cannot be served. -/
theorem Service.Stuck.act_eq_none {w : Fin n} (h : σ.Stuck D w) {conn : ClientPtr}
    (hw : σ.loop.workers w = .running conn) (hs : σ.state.locals conn.object = some s) :
    Session.act env σ.state.shared s .server = none := by
  obtain ⟨conn', s', hw', hs', -, hrec, hup⟩ := h
  obtain rfl := Serving.running.inj (hw.symm.trans hw')
  obtain rfl := Option.some.inj (hs.symm.trans hs')
  simp [Session.act, hrec, hup]

/-- The event loop takes nobody on and closes nothing while all workers are stuck. -/
theorem Service.loop_of_stuck (hstuck : ∀ w, σ.Stuck D w) {b : LoopAct n} {loop : EventLoop n}
    (hb : loopAct a = some b) (hstep : σ.loop.step b = some loop) :
    (∀ w, loop.workers w = σ.loop.workers w) ∧ loop.created = σ.loop.created ∧
      loop.unclosed.card = σ.loop.unclosed.card := by
  cases EventLoop.moves_of_step hstep with
  | accept | serve | quit => cases a <;> simp [loopAct] at hb
  | @append conn happ =>
    obtain ⟨-, -, -, hworkers, hcreated, -⟩ := EventLoop.appendRequest_eq σ.loop conn
    refine ⟨congrFun hworkers, hcreated, ?_⟩
    rw [EventLoop.unclosed_appendRequest, EventLoop.unclosed, happ]
    simp only [Multiset.card_cons, Multiset.card_add, Option.toList_some, Multiset.coe_card,
      List.length_singleton]
    omega
  | hangUp | fetchNone => exact ⟨fun w => rfl, rfl, rfl⟩
  | @fetch w _ _ hi | @leave w _ hi =>
    obtain ⟨conn, _, hw, -⟩ := hstuck w
    rw [hi] at hw
    cases hw

/-- **When all workers are stuck** they stay so, no serving thread moves, and no descriptor is closed. -/
theorem Service.stuck_step (h : σ.Paired env queueSize) (hstuck : ∀ w, σ.Stuck D w)
    (hmoves : σ.Moves env a τ) (hok : stall D σ a τ) :
    (∀ w, τ.Stuck D w) ∧
      (∀ i t, τ.state.locals i = some t → (σ.state.locals i = none ∧ t.conn.pc = .login) ∨
        ∃ s, σ.state.locals i = some s ∧ t.conn.pc = s.conn.pc) ∧
      σ.loop.created ≤ τ.loop.created ∧
      τ.loop.created + σ.loop.unclosed.card = σ.loop.created + τ.loop.unclosed.card := by
  cases hmoves with
  | @accept sockfd arg happ hfree =>
    obtain ⟨-, -, -, hworkers, hcreated, -⟩ := EventLoop.acceptClient_eq σ.loop sockfd
    have hother : ∀ j, j ≠ σ.loop.created →
        (σ.state.joined env σ.loop.created arg).locals j = σ.state.locals j :=
      fun j hj => Config.moved_locals_of_ne _ hj _ _
    refine ⟨fun w => ?_, fun i t ht => ?_, (Nat.le_succ _).trans hcreated.ge, ?_⟩
    · obtain ⟨conn, s, hw, hs, hrest⟩ := hstuck w
      have hne : conn.object ≠ σ.loop.created := by
        intro heq
        rw [heq, h.none_created] at hs
        cases hs
      exact ⟨conn, s, (congrFun hworkers w).trans hw, (hother _ hne).trans hs, hrest⟩
    · by_cases hi : i = σ.loop.created
      · subst hi
        obtain rfl := Option.some.inj (ht.symm.trans (Config.moved_locals_self _ _ _ _))
        exact .inl ⟨h.none_created, by simp [Session.connect, Conn.init]⟩
      · exact .inr ⟨t, (hother i hi).symm.trans ht, rfl⟩
    · rw [hcreated, EventLoop.unclosed_acceptClient happ, Multiset.card_cons]
      omega
  | @loop a b loop hb _ hstep =>
    obtain ⟨hworkers, hcreated, hcard⟩ := Service.loop_of_stuck hstuck hb hstep
    refine ⟨fun w => ?_, fun i t ht => .inr ⟨t, ht, rfl⟩, hcreated.ge, by rw [hcreated, hcard]⟩
    obtain ⟨conn, s, hw, hrest⟩ := hstuck w
    exact ⟨conn, s, (hworkers w).trans hw, hrest⟩
  | serve hw _ hs hact | quit hw _ hs hact =>
    rw [(hstuck _).act_eq_none hw hs] at hact
    cases hact
  | @session i b s s' sv hs hact hne =>
    have hother : ∀ j, j ≠ i → (σ.state.moved i sv s').locals j = σ.state.locals j :=
      fun j hj => Config.moved_locals_of_ne _ hj _ _
    have hpc := pc_of_act hne hact
    refine ⟨fun w => ?_, fun j t ht => .inr ?_, le_rfl, rfl⟩
    · obtain ⟨conn, t, hw, ht, hD, hrec, hup⟩ := hstuck w
      by_cases hi : conn.object = i
      · -- its client does nothing, so it is a writer that moves
        obtain rfl := Option.some.inj (ht.symm.trans (hi ▸ hs))
        refine ⟨conn, s', hw, by rw [hi]; exact Config.moved_locals_self _ _ _ _, hD, ?_, ?_⟩
        · simpa [Conn.receives, hpc] using hrec
        · exact (Session.up_of_writer (hok i (hi ▸ hD) b rfl) hact).trans hup
      · exact ⟨conn, t, hw, (hother _ hi).trans ht, hD, hrec, hup⟩
    · by_cases hj : j = i
      · subst hj
        obtain rfl := Option.some.inj (ht.symm.trans (Config.moved_locals_self _ _ _ _))
        exact ⟨s, hs, hpc⟩
      · exact ⟨t, (hother j hj).symm.trans ht, rfl⟩

/-- **As many clients that stall as there are workers** hang the server. When every worker serves a client
that it waits for, and these clients do nothing, then for good: every worker goes on waiting, no serving
thread moves, whoever has not been served is not served, and not more clients are accepted than there are
places in the queue, and one. -/
theorem stalled_clients_block (ok : Machine.Condition (Service n) (ServiceAct n))
    (h : (serviceMachine env n).Run ok (init queueSize) σ) (hstuck : ∀ w, σ.Stuck D w)
    (hrun : (serviceMachine env n).Run (stall D) σ τ) :
    (∀ w, τ.Stuck D w) ∧ (∀ i t, τ.state.locals i = some t → (σ.state.locals i = none ∧ t.conn.pc = .login) ∨
      ∃ s, σ.state.locals i = some s ∧ t.conn.pc = s.conn.pc) ∧
    τ.loop.created ≤ σ.loop.created + queueSize + 1 := by
  have hpaired := (paired_init env queueSize).run h
  have hinv := hrun.invariant (I := fun υ : Service n => υ.Paired env queueSize ∧ (∀ w, υ.Stuck D w) ∧
    (∀ i t, υ.state.locals i = some t → (σ.state.locals i = none ∧ t.conn.pc = .login) ∨
      ∃ s, σ.state.locals i = some s ∧ t.conn.pc = s.conn.pc) ∧
    σ.loop.created ≤ υ.loop.created ∧
    υ.loop.created + σ.loop.unclosed.card = σ.loop.created + υ.loop.unclosed.card)
    (fun υ a υ' hυ hstep hok => ?_) ⟨hpaired, hstuck, fun i t ht => .inr ⟨t, ht, rfl⟩, le_rfl, rfl⟩
  · obtain ⟨hpaired', hstuck', hpcs, -, hcount⟩ := hinv
    refine ⟨hstuck', hpcs, ?_⟩
    have hcard := τ.loop.card_unclosed hpaired'.queue.1
    rw [hpaired'.queue.2] at hcard
    -- the workers alone have as many objects as they are
    have hbusy : n ≤ σ.loop.unclosed.card := by
      have hsum : ∑ _w : Fin n, 1 ≤ (∑ w, (σ.loop.workers w).unclosed).card := by
        rw [Multiset.card_sum]
        refine Finset.sum_le_sum fun w _ => ?_
        obtain ⟨conn, s, hw, -⟩ := hstuck w
        simp [hw]
      rw [EventLoop.unclosed, Multiset.card_add]
      simp only [Finset.sum_const, Finset.card_univ, Fintype.card_fin, smul_eq_mul, mul_one] at hsum
      omega
    omega
  · obtain ⟨hpaired', hstuck', hpcs, hle, hcount⟩ := hυ
    have hmoves := moves_of_step hstep
    obtain ⟨hstuck'', hpcs', hle', hcount'⟩ := stuck_step hpaired' hstuck' hmoves hok
    refine ⟨hpaired'.step hmoves, hstuck'', fun i t ht => ?_, hle.trans hle', by omega⟩
    rcases hpcs' i t ht with ⟨hnone, hlogin⟩ | ⟨s, hs, hpc⟩
    · -- who joins later had not joined before
      refine .inl ⟨?_, hlogin⟩
      by_contra hne
      exact (hpaired'.joined i).mpr (((hpaired.joined i).mp hne).trans_le hle) hnone
    · rw [hpc]
      exact hpcs i s hs

/-- A client that stalls in the middle of its upload is served by the only worker, and another one is
accepted. -/
theorem stalled_clients_block_sample : ∃ (τ : Service 1) (t : Session),
    (∀ w, τ.Stuck {0} w) ∧ τ.state.locals 1 = some t ∧ t.conn.pc = .login := by
  have hexec : ((serviceMachine Sample.env 1).exec (init 20) [.accept 5 (Sample.upload 1 [65] [7]),
      .fetch 0, .serve 0, .serve 0, .serve 0, .serve 0, .serve 0]).any (fun σ =>
        decide (σ.state.locals 1 = none) && (((serviceMachine Sample.env 1).exec σ
          [.accept 6 (Sample.upload 2 [66] [8])]).any fun τ => (τ.state.locals 1).isSome) &&
        (match σ.loop.workers 0 with
          | .running conn => decide (conn.object = 0) && (σ.state.locals 0).any fun s =>
              s.conn.receives && decide (s.up = [])
          | _ => false)) = true := by
    decide +kernel
  obtain ⟨σ, hσ, hany⟩ := (Option.any_eq_true _ _).mp hexec
  simp only [Bool.and_eq_true, decide_eq_true_eq] at hany
  obtain ⟨⟨hnone, hnext⟩, hserved⟩ := hany
  obtain ⟨τ, hτ, hjoined⟩ := (Option.any_eq_true _ _).mp hnext
  obtain ⟨t, ht⟩ := Option.isSome_iff_exists.mp hjoined
  have hrun : (serviceMachine Sample.env 1).Run Machine.anyAction _ σ :=
    Machine.run_of_exec (fun _ _ _ _ => trivial) hσ
  have hrest : (serviceMachine Sample.env 1).Run (stall {0}) σ τ := by
    refine Machine.run_of_exec (fun υ a ha τ i hi b heq => ?_) hτ
    obtain rfl := List.mem_singleton.mp ha
    cases heq
  have hstuck : ∀ w, σ.Stuck {0} w := by
    intro w
    obtain rfl : w = 0 := Subsingleton.elim _ _
    split at hserved
    · rename_i conn hw
      simp only [Bool.and_eq_true, decide_eq_true_eq] at hserved
      obtain ⟨hobj, hs⟩ := hserved
      obtain ⟨s, hs, hwaits⟩ := (Option.any_eq_true _ _).mp hs
      simp only [Bool.and_eq_true, decide_eq_true_eq] at hwaits
      exact ⟨conn, s, hw, hobj ▸ hs, by simp [hobj], hwaits⟩
    · cases hserved
  obtain ⟨hstill, hpcs, -⟩ := stalled_clients_block _ hrun hstuck hrest
  refine ⟨τ, t, hstill, ht, ?_⟩
  rcases hpcs 1 t ht with ⟨-, hlogin⟩ | ⟨s, hs, -⟩
  · exact hlogin
  · rw [hnone] at hs
    cases hs

end DedupServer
