import DedupServer.Alone.Complete
import DedupServer.Protocol.Rest
import DedupServer.Threads.EventLoop

/-! # The server with its workers

The whole server: the event loop with its request queue and its workers (`EventLoop`), and the sessions
that they serve. A client that is accepted is a session from then on, and its `ClientConn` goes through
the queue; the thread of `ClientConn::run` moves only when a worker has taken it up. The clients move
whenever they have a message, and so do the writer threads of an upload.

Every step of the server is a step of the sessions or none (`Service.sim_step`), and `Service.Paired` says
which sessions wait in the queue, which ones are served, and that the others are over. A hang-up may delete
an object that still waits in the queue (`Service.Undeleted` excludes it), and then nobody can serve it. -/

namespace DedupServer

open Foundations

/-- The server: the event loop, and the sessions, each named by the number of its object. -/
structure Service (n : ℕ) where
  loop : EventLoop n
  state : State

/-- The steps. The event loop accepts a client, a blocked `append` goes on, an `EPOLLRDHUP` is handled;
worker `w` has the lock in `pop`, goes on in `ClientConn::run`, or returns from it; the client or a writer
thread of a session goes on. -/
inductive ServiceAct (n : ℕ)
  | accept (sockfd : ℕ) (arg : Arg)
  | append
  | hangUp (eventfd : ℕ)
  | fetch (w : Fin n)
  | serve (w : Fin n)
  | leave (w : Fin n)
  | session (i : ℕ) (a : Act)

/-- The object whose `run` a worker is in, up to `close(m_sockfd)`. -/
def Serving.conn? : Serving → Option ClientPtr
  | .running conn => some conn
  | _ => none

/-- A worker is in `run` of the object that `m_clients` names for the descriptor, and may use it: past
`close(m_sockfd)` it does not any more. -/
def EventLoop.InRun {n : ℕ} (σ : EventLoop n) (eventfd : ℕ) : Prop :=
  ∃ w, (σ.workers w).conn?.isSome = true ∧ (σ.workers w).conn? = σ.clients eventfd

instance {n : ℕ} (σ : EventLoop n) (eventfd : ℕ) : Decidable (σ.InRun eventfd) :=
  inferInstanceAs (Decidable (∃ _, _))

namespace Service

variable {n : ℕ}

/-- The server when `run` begins. -/
def init (queueSize : ℕ) : Service n := ⟨.init queueSize, .init⟩

/-- Worker `w`, which serves `conn`, has moved on in `run`: it has handled `QUIT`, or anything else. -/
def served (σ : Service n) (w : Fin n) (conn : ClientPtr) (r : Server × Session) : Option (Service n) :=
  (σ.loop.step (if r.2.conn.pc = .closed then .quit w else .serve w)).map fun loop =>
    ⟨loop, σ.state.moved conn.object r.1 r.2⟩

/-- One step. There is none where the process would use an object that has been deleted: a hang-up does not
delete one while a worker is in its `run`, and a worker does not go into the `run` of one that is deleted. -/
def step (env : Env) (σ : Service n) : ServiceAct n → Option (Service n)
  | .accept sockfd arg =>
    (σ.loop.step (.accept sockfd)).map fun loop => ⟨loop, σ.state.joined env σ.loop.created arg⟩
  | .append => (σ.loop.step .append).map fun loop => ⟨loop, σ.state⟩
  | .hangUp eventfd =>
    if σ.loop.InRun eventfd then none
    else (σ.loop.step (.hangUp eventfd)).map fun loop => ⟨loop, σ.state⟩
  | .fetch w => (σ.loop.step (.fetch w)).map fun loop => ⟨loop, σ.state⟩
  | .serve w =>
    match σ.loop.workers w with
    | .running conn =>
      if conn ∈ σ.loop.deleted then none
      else (σ.state.locals conn.object).bind fun s =>
        (Session.act env σ.state.shared s .server).bind (σ.served w conn)
    | _ => none
  | .leave w => (σ.loop.step (.leave w)).map fun loop => ⟨loop, σ.state⟩
  -- the serving thread runs on a worker
  | .session _ .server => none
  | .session i a =>
    (σ.state.locals i).bind fun s =>
      (Session.act env σ.state.shared s a).map fun r => ⟨σ.loop, σ.state.moved i r.1 r.2⟩

end Service

/-- **The server** with `n` workers. -/
def serviceMachine (env : Env) (n : ℕ) : Machine (Service n) (ServiceAct n) where
  step := Service.step env

namespace Service

variable {env : Env} {n : ℕ} {σ τ : Service n} {a : ServiceAct n} {s : Session} {conn : ClientPtr}

/-! ## One step -/

/-- A step of the event loop, its queue or its workers that no session takes part in. -/
def loopAct : ServiceAct n → Option (LoopAct n)
  | .append => some .append
  | .hangUp eventfd => some (.hangUp eventfd)
  | .fetch w => some (.fetch w)
  | .leave w => some (.leave w)
  | _ => none

/-- **What a step can do.** -/
inductive Moves (env : Env) (σ : Service n) : ServiceAct n → Service n → Prop
  | accept {sockfd : ℕ} (arg : Arg) (happ : σ.loop.appending = none)
      (hfree : σ.loop.opened sockfd = none) :
      Moves env σ (.accept sockfd arg)
        ⟨σ.loop.acceptClient sockfd, σ.state.joined env σ.loop.created arg⟩
  | loop {a : ServiceAct n} {b : LoopAct n} {loop : EventLoop n} (hb : loopAct a = some b)
      (hrun : ∀ eventfd, a = .hangUp eventfd → ¬ σ.loop.InRun eventfd)
      (hstep : σ.loop.step b = some loop) : Moves env σ a ⟨loop, σ.state⟩
  | serve {w : Fin n} {conn : ClientPtr} {s s' : Session} {sv : Server}
      (hw : σ.loop.workers w = .running conn) (hlive : conn ∉ σ.loop.deleted)
      (hs : σ.state.locals conn.object = some s)
      (hact : Session.act env σ.state.shared s .server = some (sv, s')) (hpc : s'.conn.pc ≠ .closed) :
      Moves env σ (.serve w) ⟨σ.loop, σ.state.moved conn.object sv s'⟩
  | quit {w : Fin n} {conn : ClientPtr} {s s' : Session} {sv : Server} {loop : EventLoop n}
      (hw : σ.loop.workers w = .running conn) (hlive : conn ∉ σ.loop.deleted)
      (hs : σ.state.locals conn.object = some s)
      (hact : Session.act env σ.state.shared s .server = some (sv, s')) (hpc : s'.conn.pc = .closed)
      (hstep : σ.loop.step (.quit w) = some loop) :
      Moves env σ (.serve w) ⟨loop, σ.state.moved conn.object sv s'⟩
  | session {i : ℕ} {a : Act} {s s' : Session} {sv : Server} (hs : σ.state.locals i = some s)
      (hact : Session.act env σ.state.shared s a = some (sv, s')) (hne : a ≠ .server) :
      Moves env σ (.session i a) ⟨σ.loop, σ.state.moved i sv s'⟩

/-- **Every step** is one of these. -/
theorem moves_of_step (h : σ.step env a = some τ) : σ.Moves env a τ := by
  cases a with
  | accept sockfd arg =>
    obtain ⟨loop, hloop, rfl⟩ := Option.map_eq_some_iff.mp h
    cases EventLoop.moves_of_step hloop with
    | accept happ hfree => exact .accept arg happ hfree
  | append | fetch | leave =>
    obtain ⟨loop, hloop, rfl⟩ := Option.map_eq_some_iff.mp h
    exact .loop rfl (fun fd hfd => by cases hfd) hloop
  | hangUp eventfd =>
    simp only [step] at h
    split_ifs at h with hrun
    obtain ⟨loop, hloop, rfl⟩ := Option.map_eq_some_iff.mp h
    refine .loop rfl (fun fd hfd => ?_) hloop
    cases hfd
    exact hrun
  | serve w =>
    simp only [step] at h
    split at h
    on_goal 2 => cases h
    rename_i conn hw
    split_ifs at h with hlive
    obtain ⟨s, hs, h⟩ := Option.bind_eq_some_iff.mp h
    obtain ⟨⟨sv, s'⟩, hact, h⟩ := Option.bind_eq_some_iff.mp h
    obtain ⟨loop, hloop, rfl⟩ := Option.map_eq_some_iff.mp h
    split_ifs at hloop with hpc
    · exact .quit hw hlive hs hact hpc hloop
    · -- the loop is as it was
      simp only [EventLoop.step, hw, Option.some.injEq] at hloop
      subst hloop
      exact .serve hw hlive hs hact hpc
  | session i b =>
    have hmoved : b ≠ .server → σ.Moves env (.session i b) τ := by
      intro hne
      have h' : ((σ.state.locals i).bind fun s => (Session.act env σ.state.shared s b).map fun r =>
          (⟨σ.loop, σ.state.moved i r.1 r.2⟩ : Service n)) = some τ := by
        cases b <;> first | exact h | exact absurd rfl hne
      obtain ⟨s, hs, h'⟩ := Option.bind_eq_some_iff.mp h'
      obtain ⟨⟨sv, s'⟩, hact, rfl⟩ := Option.map_eq_some_iff.mp h'
      exact .session hs hact hne
    refine hmoved ?_
    rintro rfl
    cases h

/-- A session takes a step, with its serving thread on a worker. -/
theorem exists_step {b : Act} {i : ℕ} {r : Server × Session} (hs : σ.state.locals i = some s)
    (hact : Session.act env σ.state.shared s b = some r)
    (hserved : b = .server → ∃ w conn, σ.loop.workers w = .running conn ∧ conn ∉ σ.loop.deleted ∧
      conn.object = i) :
    ∃ a τ, σ.step env a = some τ ∧ τ.state = σ.state.moved i r.1 r.2 ∧
      (a = .session i b ∨ ∃ w, a = .serve w) := by
  by_cases hb : b = .server
  · obtain ⟨w, conn, hw, hlive, rfl⟩ := hserved hb
    subst hb
    have hloop : ∃ loop, σ.loop.step (if r.2.conn.pc = .closed then .quit w else .serve w) = some loop := by
      split_ifs <;> simp [EventLoop.step, hw]
    obtain ⟨loop, hloop⟩ := hloop
    refine ⟨.serve w, ⟨loop, σ.state.moved conn.object r.1 r.2⟩, ?_, rfl, .inr ⟨w, rfl⟩⟩
    simp only [step, hw, if_neg hlive, hs, Option.bind_some, hact, served, hloop, Option.map_some]
  · refine ⟨.session i b, ⟨σ.loop, σ.state.moved i r.1 r.2⟩, ?_, rfl, .inl rfl⟩
    cases b <;> first | exact absurd rfl hb | simp [step, hs, hact]

/-- **Every step is one of the sessions, or none of them takes part.** -/
theorem sim_step (hnone : σ.state.locals σ.loop.created = none) (h : σ.Moves env a τ) :
    τ.state = σ.state ∨ ∃ ℓ, Step (sessions env) σ.state ℓ τ.state ∧
      ∀ i arg, ℓ = .spawn i arg → ∃ sockfd, a = .accept sockfd arg := by
  cases h with
  | @accept sockfd arg =>
    refine .inr ⟨.spawn σ.loop.created arg, .spawn hnone, fun i arg' heq => ⟨sockfd, ?_⟩⟩
    cases heq
    rfl
  | loop => exact .inl rfl
  | serve _ _ hs hact | quit _ _ hs hact =>
    exact .inr ⟨.act _ .server, .act hs hact, fun i arg heq => by cases heq⟩
  | @session i b _ _ _ hs hact =>
    exact .inr ⟨.act i b, .act hs hact, fun i arg heq => by cases heq⟩

end Service

/-! ## Who waits, and who is served -/

namespace EventLoop

variable {n : ℕ} {σ τ : EventLoop n} {b : LoopAct n} {conn : ClientPtr}

/-- The objects that no worker has taken up: queued, or about to be. -/
def waiting (σ : EventLoop n) : List ClientPtr := σ.requests.queue ++ σ.appending.toList

/-- An object whose descriptor is open waits, or a worker serves it. -/
theorem mem_unclosed :
    conn ∈ σ.unclosed ↔ conn ∈ σ.waiting ∨ ∃ w, σ.workers w = .running conn := by
  rw [unclosed, Multiset.mem_add, Multiset.coe_add, Multiset.mem_coe, Multiset.mem_sum]
  refine or_congr_right (exists_congr fun w => ?_)
  cases hserving : σ.workers w <;> simp [eq_comm]

/-- A request that goes on to be appended waits, and the others wait as before. -/
theorem mem_waiting_appendRequest {c : ClientPtr} :
    c ∈ (σ.appendRequest conn).waiting ↔ c ∈ σ.requests.queue ∨ c = conn := by
  unfold appendRequest
  split
  · simp [waiting]
  · rename_i q hpush
    simp [waiting, (BlockQueueState.push_eq_some hpush).1]

/-- A step without sessions leaves open what is open, and lets nobody wait who did not. -/
theorem unclosed_step {a : ServiceAct n} (hb : Service.loopAct a = some b) (h : σ.step b = some τ) :
    (∀ c, c ∈ τ.unclosed ↔ c ∈ σ.unclosed) ∧ (∀ c ∈ τ.waiting, c ∈ σ.waiting) ∧
      τ.created = σ.created := by
  cases moves_of_step h with
  | accept | serve | quit => cases a <;> simp [Service.loopAct] at hb
  | @append conn happ =>
    obtain ⟨-, -, -, hworkers, hcreated, -⟩ := appendRequest_eq σ conn
    have hwaiting : ∀ c, c ∈ (σ.appendRequest conn).waiting ↔ c ∈ σ.waiting := by
      intro c
      rw [mem_waiting_appendRequest, waiting, happ, Option.toList_some, List.mem_append,
        List.mem_singleton]
    refine ⟨fun c => ?_, fun c => (hwaiting c).mp, hcreated⟩
    rw [mem_unclosed, mem_unclosed, hwaiting, hworkers]
  | hangUp => exact ⟨fun c => Iff.rfl, fun c hc => hc, rfl⟩
  | @fetch i conn q hi hpop =>
    have hqueue := (BlockQueueState.pop_eq_got hpop).1
    refine ⟨fun c => ?_, fun c hc => ?_, rfl⟩
    · -- the worker has been idle, and now serves the first in the queue
      rw [mem_unclosed, mem_unclosed, waiting, waiting, hqueue]
      constructor
      · rintro (hc | ⟨w, hw⟩)
        · exact .inl (List.mem_cons_of_mem _ hc)
        · dsimp only at hw
          by_cases hwi : w = i
          · subst hwi
            rw [Function.update_self] at hw
            cases hw
            exact .inl List.mem_cons_self
          · rw [Function.update_of_ne hwi] at hw
            exact .inr ⟨w, hw⟩
      · rintro (hc | ⟨w, hw⟩)
        · rcases List.mem_cons.mp hc with rfl | hc
          · exact .inr ⟨i, Function.update_self _ _ _⟩
          · exact .inl hc
        · have hwi : w ≠ i := by
            rintro rfl
            rw [hi] at hw
            cases hw
          exact .inr ⟨w, (Function.update_of_ne hwi _ _).trans hw⟩
    · rw [waiting, hqueue]
      exact List.mem_cons_of_mem _ hc
  | fetchNone => exact ⟨fun c => Iff.rfl, fun c hc => hc, rfl⟩
  | @leave i conn hi =>
    refine ⟨fun c => ?_, fun c hc => hc, rfl⟩
    rw [mem_unclosed, mem_unclosed]
    refine or_congr_right (exists_congr fun w => ?_)
    by_cases hwi : w = i
    · subst hwi
      simp [hi]
    · simp [hwi]

/-- An object is not served while it waits. -/
theorem Owned.notMem_waiting (h : σ.Owned) {w : Fin n} (hw : σ.workers w = .running conn) :
    conn ∉ σ.waiting := by
  intro hmem
  have honce := h.once
  rw [unclosed, Multiset.coe_add, Multiset.nodup_add] at honce
  refine Multiset.disjoint_left.mp honce.2.2 (Multiset.mem_coe.mpr hmem) ?_
  exact Multiset.mem_sum.mpr ⟨w, Finset.mem_univ w, by simp [hw]⟩

/-- A worker that handles `QUIT` closes its descriptor, and no other. -/
theorem Owned.mem_unclosed_quit {w : Fin n} (h : σ.Owned) (hw : σ.workers w = .running conn)
    (hstep : σ.step (.quit w) = some τ) (c : ClientPtr) :
    c ∈ τ.unclosed ↔ c ∈ σ.unclosed ∧ c ≠ conn := by
  have hτ := h.step hstep
  cases moves_of_step hstep with
  | @quit _ conn' hi =>
    obtain rfl : conn' = conn := by
      rw [hi] at hw
      exact Serving.running.inj hw
    have hopened := h.opened conn'.sockfd conn'
    have hconn := hopened.mpr ⟨mem_unclosed.mpr (.inr ⟨w, hi⟩), rfl⟩
    have hc := (hτ.opened c.sockfd c).symm
    have hc' := (h.opened c.sockfd c).symm
    simp only [and_true] at hc hc'
    rw [hc, hc']
    by_cases hfd : c.sockfd = conn'.sockfd
    · rw [hfd, Function.update_self, hconn, Option.some.injEq]
      refine iff_of_false (fun hnone => by cases hnone) fun hc => ?_
      exact hc.2 hc.1.symm
    · rw [Function.update_of_ne hfd]
      exact (and_iff_left fun heq => hfd (congrArg ClientPtr.sockfd heq)).symm

end EventLoop

namespace Service

variable {env : Env} {n queueSize : ℕ} {σ τ : Service n} {a : ServiceAct n} {s : Session} {conn : ClientPtr}

/-- **What every step keeps**: the sessions that have not been closed by the server are those of the open
descriptors, and whoever waits has not been served. -/
structure Paired (env : Env) (queueSize : ℕ) (σ : Service n) : Prop where
  owned : σ.loop.Owned
  queue : σ.loop.requests.Good ∧ σ.loop.requests.size = queueSize
  phase : σ.state.InPhase env
  joined : ∀ i, σ.state.locals i ≠ none ↔ i < σ.loop.created
  unclosed : ∀ conn ∈ σ.loop.unclosed,
    ∃ s, σ.state.locals conn.object = some s ∧ s.conn.pc ≠ .closed
  exists_conn : ∀ i s, σ.state.locals i = some s → s.conn.pc ≠ .closed →
    ∃ conn ∈ σ.loop.unclosed, conn.object = i
  apart : ∀ conn ∈ σ.loop.unclosed, ∀ conn' ∈ σ.loop.unclosed,
    conn.object = conn'.object → conn = conn'
  waiting : ∀ conn ∈ σ.loop.waiting, ∀ s, σ.state.locals conn.object = some s → s.conn.pc = .login

theorem paired_init (env : Env) (queueSize : ℕ) :
    Paired env queueSize (init queueSize : Service n) where
  owned := EventLoop.owned_init queueSize
  queue := ⟨BlockQueueState.good_new queueSize, rfl⟩
  phase := State.inPhase_init env
  joined i := by simp [init, State.init, EventLoop.init]
  unclosed conn hconn := by simp [init, EventLoop.init, EventLoop.unclosed, BlockQueueState.new] at hconn
  exists_conn i s hs := by cases hs
  apart conn hconn := by simp [init, EventLoop.init, EventLoop.unclosed, BlockQueueState.new] at hconn
  waiting conn hconn := by simp [init, EventLoop.init, EventLoop.waiting, BlockQueueState.new] at hconn

/-- The queue stays within its size. -/
theorem queue_step {loop loop' : EventLoop n} {b : LoopAct n}
    (h : loop.requests.Good ∧ loop.requests.size = queueSize) (hstep : loop.step b = some loop') :
    loop'.requests.Good ∧ loop'.requests.size = queueSize := by
  have happend : ∀ (l : EventLoop n) c, l.requests.Good ∧ l.requests.size = queueSize →
      (l.appendRequest c).requests.Good ∧ (l.appendRequest c).requests.size = queueSize := by
    intro l c hl
    unfold EventLoop.appendRequest
    split
    · exact hl
    · rename_i q hpush
      exact ⟨hl.1.push hpush, (BlockQueueState.push_eq_some hpush).2.1.trans hl.2⟩
  cases EventLoop.moves_of_step hstep with
  | accept => exact happend (loop.enterClient _) _ h
  | append => exact happend loop _ h
  | fetch hi hpop => exact ⟨h.1.pop hpop, (BlockQueueState.pop_eq_got hpop).2.1.trans h.2⟩
  | hangUp | fetchNone | serve | quit | leave => exact h

/-- The clients and the writers leave the serving thread where it is. -/
theorem pc_of_act {sv sv' : Server} {s' : Session} {b : Act} (hb : b ≠ .server)
    (h : Session.act env sv s b = some (sv', s')) : s'.conn.pc = s.conn.pc := by
  cases b with
  | server => exact absurd rfl hb
  | client | rogue =>
    simp only [Session.act] at h
    split at h
    on_goal 2 => cases h
    obtain ⟨r, -, heq⟩ := Option.map_eq_some_iff.mp h
    obtain ⟨rfl, rfl⟩ := Prod.mk.inj heq
    rfl
  | dataWriter =>
    obtain ⟨r, hr, heq⟩ := Option.map_eq_some_iff.mp h
    obtain ⟨rfl, rfl⟩ := Prod.mk.inj heq
    exact (Conn.alike_dataWriterStep hr).pc
  | recipeWriter =>
    obtain ⟨⟨sv₁, c⟩, hr, heq⟩ := Option.map_eq_some_iff.mp h
    obtain ⟨rfl, rfl⟩ := Prod.mk.inj heq
    obtain ⟨-, -, rfl⟩ | ⟨-, -, -, -, -, -, -, rfl⟩ | ⟨-, -, -, -, -, -, rfl⟩ |
      ⟨-, -, -, -, -, rfl⟩ := Conn.recipeWriterStep_cases hr
    all_goals rfl

/-- **A session has moved**, and with it the event loop. -/
theorem Paired.moved (h : σ.Paired env queueSize) {i : ℕ} {b : Act} {sv : Server} {s' : Session}
    {loop : EventLoop n} (hs : σ.state.locals i = some s)
    (hact : Session.act env σ.state.shared s b = some (sv, s')) (hopen : s.conn.pc ≠ .closed ∨ b ≠ .server)
    (howned : loop.Owned) (hqueue : loop.requests.Good ∧ loop.requests.size = queueSize)
    (hcreated : loop.created = σ.loop.created)
    (hwaiting : ∀ c ∈ loop.waiting, c ∈ σ.loop.waiting ∧ (c.object = i → b ≠ .server))
    (hunclosed : ∀ c, c ∈ loop.unclosed ↔
      c ∈ σ.loop.unclosed ∧ (c.object = i → s'.conn.pc ≠ .closed)) :
    Paired env queueSize ⟨loop, σ.state.moved i sv s'⟩ := by
  have hstep : Step (sessions env) σ.state (.act i b) (σ.state.moved i sv s') := .act hs hact
  have hself := Config.moved_locals_self σ.state i sv s'
  have hother : ∀ j, j ≠ i → (σ.state.moved i sv s').locals j = σ.state.locals j :=
    fun j hj => Config.moved_locals_of_ne _ hj _ _
  refine ⟨howned, hqueue, h.phase.step hstep, fun j => ?_, fun c hc => ?_, fun j t ht hpc => ?_,
    fun c hc c' hc' => h.apart c ((hunclosed c).mp hc).1 c' ((hunclosed c').mp hc').1,
    fun c hc t ht => ?_⟩
  · rw [hcreated, ← h.joined]
    by_cases hj : j = i
    · subst hj
      simp [hs]
    · rw [hother j hj]
  · obtain ⟨hmem, hpc⟩ := (hunclosed c).mp hc
    by_cases hi : c.object = i
    · exact ⟨s', by rw [hi, hself], hpc hi⟩
    · rw [hother _ hi]
      exact h.unclosed c hmem
  · by_cases hj : j = i
    · subst hj
      obtain rfl := Option.some.inj (ht.symm.trans hself)
      have hpc' : s.conn.pc ≠ .closed := hopen.elim id fun hb => by rwa [pc_of_act hb hact] at hpc
      obtain ⟨c, hc, hobj⟩ := h.exists_conn j s hs hpc'
      exact ⟨c, (hunclosed c).mpr ⟨hc, fun _ => hpc⟩, hobj⟩
    · rw [hother j hj] at ht
      obtain ⟨c, hc, hobj⟩ := h.exists_conn j t ht hpc
      exact ⟨c, (hunclosed c).mpr ⟨hc, fun hi => absurd (hobj.symm.trans hi) hj⟩, hobj⟩
  · obtain ⟨hmem, hb⟩ := hwaiting c hc
    by_cases hi : c.object = i
    · subst hi
      obtain rfl := Option.some.inj (ht.symm.trans hself)
      rw [pc_of_act (hb rfl) hact]
      exact h.waiting c hmem s hs
    · rw [hother _ hi] at ht
      exact h.waiting c hmem t ht

/-- **A client is accepted.** -/
theorem Paired.accept (h : σ.Paired env queueSize) {sockfd : ℕ} (arg : Arg)
    (happ : σ.loop.appending = none) (hfree : σ.loop.opened sockfd = none) :
    Paired env queueSize ⟨σ.loop.acceptClient sockfd, σ.state.joined env σ.loop.created arg⟩ := by
  have hloop : σ.loop.step (.accept sockfd) = some (σ.loop.acceptClient sockfd) := by
    simp [EventLoop.step, happ, hfree]
  have hnone : σ.state.locals σ.loop.created = none := by
    by_contra hne
    exact lt_irrefl _ ((h.joined _).mp hne)
  have hself := Config.moved_locals_self σ.state σ.loop.created
    (Session.connect env σ.state.shared arg).1 (Session.connect env σ.state.shared arg).2
  have hother : ∀ j, j ≠ σ.loop.created →
      (σ.state.joined env σ.loop.created arg).locals j = σ.state.locals j :=
    fun j hj => Config.moved_locals_of_ne _ hj _ _
  have hlogin : (Session.connect env σ.state.shared arg).2.conn.pc = .login := by
    simp [Session.connect, Conn.init]
  -- the sessions of open descriptors have joined before
  have hold : ∀ c ∈ σ.loop.unclosed, c.object ≠ σ.loop.created := by
    intro c hc heq
    obtain ⟨t, ht, -⟩ := h.unclosed c hc
    rw [heq, hnone] at ht
    cases ht
  have hmem : ∀ c, c ∈ (σ.loop.acceptClient sockfd).unclosed ↔
      c = ⟨σ.loop.created, sockfd⟩ ∨ c ∈ σ.loop.unclosed := by
    intro c
    rw [EventLoop.unclosed_acceptClient happ, Multiset.mem_cons]
  refine ⟨h.owned.accept happ hfree, queue_step h.queue hloop, h.phase.step (.spawn hnone),
    fun j => ?_, fun c hc => ?_, fun j t ht hpc => ?_, fun c hc c' hc' heq => ?_, fun c hc t ht => ?_⟩
  · rw [(EventLoop.acceptClient_eq σ.loop sockfd).2.2.2.2.1]
    by_cases hj : j = σ.loop.created
    · subst hj
      simp [State.joined]
    · rw [hother j hj, h.joined]
      omega
  · rcases (hmem c).mp hc with rfl | hc
    · refine ⟨_, hself, fun hpc => ?_⟩
      rw [hlogin] at hpc
      cases hpc
    · rw [hother _ (hold c hc)]
      exact h.unclosed c hc
  · by_cases hj : j = σ.loop.created
    · exact ⟨_, (hmem _).mpr (.inl rfl), hj.symm⟩
    · rw [hother j hj] at ht
      obtain ⟨c, hc, hobj⟩ := h.exists_conn j t ht hpc
      exact ⟨c, (hmem c).mpr (.inr hc), hobj⟩
  · rcases (hmem c).mp hc with rfl | hc <;> rcases (hmem c').mp hc' with rfl | hc'
    · rfl
    · exact absurd heq.symm (hold c' hc')
    · exact absurd heq (hold c hc)
    · exact h.apart c hc c' hc' heq
  · rcases EventLoop.mem_waiting_appendRequest.mp hc with hc | rfl
    · have hwaiting : c ∈ σ.loop.waiting := List.mem_append_left _ hc
      rw [hother _ (hold c (EventLoop.mem_unclosed.mpr (.inl hwaiting)))] at ht
      exact h.waiting c hwaiting t ht
    · obtain rfl := Option.some.inj (ht.symm.trans hself)
      exact hlogin

/-- **Every step keeps the sessions and the descriptors together.** -/
theorem Paired.step (h : σ.Paired env queueSize) (hmoves : σ.Moves env a τ) : τ.Paired env queueSize := by
  cases hmoves with
  | accept arg happ hfree => exact h.accept arg happ hfree
  | @loop a b loop hb _ hstep =>
    obtain ⟨hunclosed, hwaiting, hcreated⟩ := EventLoop.unclosed_step hb hstep
    refine ⟨h.owned.step hstep, queue_step h.queue hstep, h.phase, fun j => ?_,
      fun c hc => h.unclosed c ((hunclosed c).mp hc), fun j t ht hpc => ?_,
      fun c hc c' hc' => h.apart c ((hunclosed c).mp hc) c' ((hunclosed c').mp hc'),
      fun c hc => h.waiting c (hwaiting c hc)⟩
    · rw [hcreated]
      exact h.joined j
    · obtain ⟨c, hc, hobj⟩ := h.exists_conn j t ht hpc
      exact ⟨c, (hunclosed c).mpr hc, hobj⟩
  | @serve w conn s s' sv hw _ hs hact hpc =>
    have hconn := EventLoop.mem_unclosed.mpr (.inr ⟨w, hw⟩)
    obtain ⟨t, ht, hopen⟩ := h.unclosed conn hconn
    obtain rfl := Option.some.inj (hs.symm.trans ht)
    refine h.moved hs hact (.inl hopen) h.owned h.queue rfl (fun c hc => ⟨hc, fun hobj => ?_⟩)
      fun c => (and_iff_left fun _ => hpc).symm
    -- who is served does not wait
    obtain rfl := h.apart c (EventLoop.mem_unclosed.mpr (.inl hc)) conn hconn hobj
    exact absurd hc (h.owned.notMem_waiting hw)
  | @quit w conn s s' sv loop hw _ hs hact hpc hstep =>
    have hconn := EventLoop.mem_unclosed.mpr (.inr ⟨w, hw⟩)
    obtain ⟨t, ht, hopen⟩ := h.unclosed conn hconn
    obtain rfl := Option.some.inj (hs.symm.trans ht)
    have hquit : loop.waiting = σ.loop.waiting ∧ loop.created = σ.loop.created := by
      cases EventLoop.moves_of_step hstep
      exact ⟨rfl, rfl⟩
    refine h.moved hs hact (.inl hopen) (h.owned.step hstep) (queue_step h.queue hstep) hquit.2
      (fun c hc => ?_) fun c => ?_
    · rw [hquit.1] at hc
      refine ⟨hc, fun hobj => ?_⟩
      obtain rfl := h.apart c (EventLoop.mem_unclosed.mpr (.inl hc)) conn hconn hobj
      exact absurd hc (h.owned.notMem_waiting hw)
    · rw [h.owned.mem_unclosed_quit hw hstep]
      refine and_congr_right fun hc => ⟨fun hne hobj => ?_, fun himp heq => ?_⟩
      · exact absurd (h.apart c hc conn hconn hobj) hne
      · subst heq
        exact himp rfl hpc
  | @session i b s s' sv hs hact hne =>
    refine h.moved hs hact (.inr hne) h.owned h.queue rfl (fun c hc => ⟨hc, fun _ => hne⟩) fun c => ?_
    refine (and_iff_left_of_imp fun hc hobj => ?_).symm
    obtain ⟨t, ht, hopen⟩ := h.unclosed c hc
    rw [hobj, hs] at ht
    obtain rfl := Option.some.inj ht
    rwa [pc_of_act hne hact]

/-- **Along every run** the sessions and the descriptors stay together. -/
theorem Paired.run {ok : Machine.Condition (Service n) (ServiceAct n)} (h : σ.Paired env queueSize)
    (hrun : (serviceMachine env n).Run ok σ τ) : τ.Paired env queueSize :=
  hrun.invariant (fun _ _ _ hσ hstep _ => hσ.step (moves_of_step hstep)) h

/-- **No object has been deleted** that waits or is served. -/
structure Undeleted (σ : Service n) : Prop where
  created : ∀ conn ∈ σ.loop.deleted, conn.object < σ.loop.created
  unclosed : ∀ conn ∈ σ.loop.unclosed, conn ∉ σ.loop.deleted

theorem undeleted_init (queueSize : ℕ) : (init queueSize : Service n).Undeleted where
  created conn hconn := by cases hconn
  unclosed conn _ hconn := by cases hconn

/-- A hang-up deletes no object whose descriptor is open: it finds the entry that another connection has
left. -/
def keepsOpen : Machine.Condition (Service n) (ServiceAct n) := fun σ a _ =>
  ∀ eventfd conn, a = .hangUp eventfd → σ.loop.clients eventfd = some conn → conn ∉ σ.loop.unclosed

/-- **Every step of that kind** deletes no object that waits or is served. -/
theorem Undeleted.step (h : σ.Undeleted) (hpaired : σ.Paired env queueSize) (hmoves : σ.Moves env a τ)
    (hok : keepsOpen σ a τ) : τ.Undeleted := by
  cases hmoves with
  | @accept sockfd arg happ =>
    obtain ⟨-, -, -, -, hcreated, hdeleted, -⟩ := EventLoop.acceptClient_eq σ.loop sockfd
    refine ⟨fun c hc => ?_, fun c hc hdel => ?_⟩
    · rw [hdeleted] at hc
      rw [hcreated]
      exact Nat.lt_succ_of_lt (h.created c hc)
    · rw [hdeleted] at hdel
      rw [EventLoop.unclosed_acceptClient happ] at hc
      rcases Multiset.mem_cons.mp hc with rfl | hc
      · exact lt_irrefl _ (h.created _ hdel)
      · exact h.unclosed c hc hdel
  | @loop a b loop hb hrun hstep =>
    obtain ⟨hunclosed, -, hcreated⟩ := EventLoop.unclosed_step hb hstep
    -- what has been deleted is closed
    have hdeleted : ∀ c ∈ loop.deleted, c ∈ σ.loop.deleted ∨
        c ∉ σ.loop.unclosed ∧ c.object < σ.loop.created := by
      cases EventLoop.moves_of_step hstep with
      | accept | serve | quit => cases a <;> simp [loopAct] at hb
      | append =>
        intro c hc
        rw [(EventLoop.appendRequest_eq σ.loop _).2.2.2.2.2.1] at hc
        exact .inl hc
      | fetch | fetchNone | leave => exact fun c hc => .inl hc
      | @hangUp eventfd =>
        intro c hc
        have ha : a = .hangUp eventfd := by cases a <;> simp_all [loopAct]
        rcases List.mem_append.mp hc with hc | hc
        · exact .inl hc
        · have hentry : σ.loop.clients eventfd = some c := Option.mem_toList.mp hc
          exact .inr ⟨hok eventfd c ha hentry, (hpaired.owned.clients eventfd c hentry).2⟩
    refine ⟨fun c hc => ?_, fun c hc hdel => ?_⟩
    · rw [hcreated]
      exact (hdeleted c hc).elim (h.created c) fun hclosed => hclosed.2
    · rw [hunclosed] at hc
      exact (hdeleted c hdel).elim (h.unclosed c hc) fun hclosed => hclosed.1 hc
  | serve | session => exact ⟨h.created, h.unclosed⟩
  | @quit w conn s s' sv loop hw _ hs hact hpc hstep =>
    have hmem := hpaired.owned.mem_unclosed_quit hw hstep
    have hsame : loop.deleted = σ.loop.deleted ∧ loop.created = σ.loop.created := by
      cases EventLoop.moves_of_step hstep
      exact ⟨rfl, rfl⟩
    refine ⟨fun c hc => ?_, fun c hc => ?_⟩
    · rw [hsame.1] at hc
      rw [hsame.2]
      exact h.created c hc
    · rw [hsame.1]
      exact h.unclosed c ((hmem c).mp hc).1

/-- Two workers serve two objects. -/
theorem Paired.worker_unique (h : σ.Paired env queueSize) {w w' : Fin n} {conn' : ClientPtr}
    (hw : σ.loop.workers w = .running conn) (hw' : σ.loop.workers w' = .running conn')
    (hobj : conn.object = conn'.object) : w = w' := by
  obtain rfl := h.apart conn (EventLoop.mem_unclosed.mpr (.inr ⟨w, hw⟩)) conn'
    (EventLoop.mem_unclosed.mpr (.inr ⟨w', hw'⟩)) hobj
  by_contra hne
  have honce := h.owned.once
  rw [EventLoop.unclosed, ← Finset.add_sum_erase _ _ (Finset.mem_univ w), hw] at honce
  -- the object would be there twice
  have hmem : conn ∈ ∑ v ∈ Finset.univ.erase w, (σ.loop.workers v).unclosed :=
    Multiset.mem_sum.mpr ⟨w', Finset.mem_erase.mpr ⟨Ne.symm hne, Finset.mem_univ w'⟩, by simp [hw']⟩
  have hboth := (Multiset.nodup_add.mp (Multiset.nodup_add.mp honce).2.1).2.2
  exact Multiset.disjoint_left.mp hboth (Multiset.mem_singleton_self conn) hmem

end Service

end DedupServer
