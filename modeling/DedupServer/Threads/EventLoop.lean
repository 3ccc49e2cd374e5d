import DedupServer.Foundations.Slots
import DedupServer.Threads.BlockQueue
import Mathlib.Algebra.BigOperators.Fin
import Mathlib.Algebra.Order.BigOperators.Group.Multiset

/-! # The event loop, the request queue and the workers

`DedupServer::run` accepts clients, enters them into `m_clients`, watches their descriptors for
`EPOLLRDHUP` and appends them to the thread pool; a worker of the pool runs `ClientConn::run`, which
closes the descriptor when it handles `QUIT`, and returns. On `EPOLLRDHUP` the event loop deletes the
object that `m_clients` names. Descriptor numbers are given out again once they are closed.

`EventLoop.Owned` is what every step keeps: which objects `run` has not closed yet, and that these are
the open descriptors. -/

namespace DedupServer

open Foundations

/-- A `ClientConn*`: which object, and its `m_sockfd`. -/
structure ClientPtr where
  object : ℕ
  sockfd : ℕ
  deriving DecidableEq, Repr

/-- What a worker of the pool does: it waits for a request, it is in `ClientConn::run`, or there but past
`close(m_sockfd)`. -/
inductive Serving
  | idle
  | running (conn : ClientPtr)
  | closing (conn : ClientPtr)

/-- The object whose descriptor the worker has yet to close. -/
def Serving.unclosed : Serving → Multiset ClientPtr
  | running conn => {conn}
  | _ => 0

@[simp] theorem Serving.unclosed_idle : idle.unclosed = 0 := rfl

@[simp] theorem Serving.unclosed_running (conn : ClientPtr) : (running conn).unclosed = {conn} := rfl

@[simp] theorem Serving.unclosed_closing (conn : ClientPtr) : (closing conn).unclosed = 0 := rfl

/-- The server: `m_clients`, the open client descriptors with the object that the `accept` which returned
them has created, the descriptors that epoll watches, the request queue, the object that the event loop
is trying to append, the workers, how many objects have been created, and those deleted. -/
structure EventLoop (n : ℕ) where
  clients : ℕ → Option ClientPtr
  opened : ℕ → Option ClientPtr
  watched : ℕ → Bool
  requests : BlockQueueState ClientPtr
  appending : Option ClientPtr
  workers : Fin n → Serving
  created : ℕ
  deleted : List ClientPtr

/-- The steps. Of the event loop: a client is accepted, a blocked `append` goes on, an `EPOLLRDHUP` is
handled. Of worker `i`: it has the lock in `pop`, it handles a message other than `QUIT`, it handles
`QUIT`, it returns from `run`. -/
inductive LoopAct (n : ℕ)
  | accept (sockfd : ℕ)
  | append
  | hangUp (eventfd : ℕ)
  | fetch (i : Fin n)
  | serve (i : Fin n)
  | quit (i : Fin n)
  | leave (i : Fin n)

namespace EventLoop

variable {n : ℕ}

/-- The server when `run` begins. -/
def init (queueSize : ℕ) : EventLoop n :=
  ⟨fun _ => none, fun _ => none, fun _ => false, .new queueSize, none, fun _ => .idle, 0, []⟩

/-- `append` of `conn` to the thread pool, by the event loop: it may have to wait. -/
def appendRequest (σ : EventLoop n) (conn : ClientPtr) : EventLoop n :=
  match σ.requests.push conn with
  | none => { σ with appending := some conn }
  | some q => { σ with requests := q, appending := none }

/-- `m_clients.insert`: an entry that exists is kept. -/
def insertClient (clients : ℕ → Option ClientPtr) (conn : ClientPtr) : ℕ → Option ClientPtr :=
  Function.update clients conn.sockfd ((clients conn.sockfd).or (some conn))

/-- A client has been accepted with descriptor `sockfd`: its object is created and entered, and its
descriptor watched. -/
def enterClient (σ : EventLoop n) (sockfd : ℕ) : EventLoop n := { σ with
  clients := insertClient σ.clients ⟨σ.created, sockfd⟩
  opened := Function.update σ.opened sockfd (some ⟨σ.created, sockfd⟩)
  watched := Function.update σ.watched sockfd true
  created := σ.created + 1 }

/-- The branch of the listening socket. -/
def acceptClient (σ : EventLoop n) (sockfd : ℕ) : EventLoop n :=
  (σ.enterClient sockfd).appendRequest ⟨σ.created, sockfd⟩

/-- One step. The kernel returns a descriptor number that is not open, and delivers an event of a
descriptor while it is open and watched: an event that `epoll_wait` has fetched before the descriptor was
closed, and that is handled after it, is left out. A blocked `append` blocks the event loop. A worker whose
object has been deleted is taken to go on as if it had not. -/
def step (σ : EventLoop n) : LoopAct n → Option (EventLoop n)
  | .accept sockfd =>
    if σ.appending = none ∧ σ.opened sockfd = none then some (σ.acceptClient sockfd) else none
  | .append =>
    match σ.appending with
    | none => none
    | some conn => some (σ.appendRequest conn)
  | .hangUp eventfd =>
    if σ.appending = none ∧ σ.watched eventfd = true then
      some { σ with
        watched := Function.update σ.watched eventfd false
        clients := Function.update σ.clients eventfd none
        deleted := σ.deleted ++ (σ.clients eventfd).toList }
    else none
  | .fetch i =>
    match σ.workers i with
    | .idle =>
      match σ.requests.pop with
      | .got conn q => some { σ with
          requests := q
          workers := Function.update σ.workers i (.running conn) }
      | _ => some σ
    | _ => none
  | .serve i =>
    match σ.workers i with
    | .running _ => some σ
    | _ => none
  | .quit i =>
    match σ.workers i with
    | .running conn => some { σ with
        opened := Function.update σ.opened conn.sockfd none
        watched := Function.update σ.watched conn.sockfd false
        workers := Function.update σ.workers i (.closing conn) }
    | _ => none
  | .leave i =>
    match σ.workers i with
    | .closing _ => some { σ with workers := Function.update σ.workers i .idle }
    | _ => none

/-- The objects whose descriptor has not been closed: about to be queued, queued, or in `run`. -/
def unclosed (σ : EventLoop n) : Multiset ClientPtr :=
  (σ.requests.queue : Multiset ClientPtr) + (σ.appending.toList : Multiset ClientPtr) +
    ∑ i, (σ.workers i).unclosed

/-- The object is **in use**: `run` has not returned. -/
def InUse (σ : EventLoop n) (conn : ClientPtr) : Prop :=
  conn ∈ σ.unclosed ∨ ∃ i, σ.workers i = .closing conn

end EventLoop

/-- **The event loop** with `n` workers. -/
def loopMachine (n : ℕ) : Machine (EventLoop n) (LoopAct n) where
  step := EventLoop.step

namespace EventLoop

variable {n : ℕ} {σ τ : EventLoop n} {a : LoopAct n}

/-- **What every step keeps.** -/
structure Owned (σ : EventLoop n) : Prop where
  once : σ.unclosed.Nodup
  opened : ∀ fd conn, σ.opened fd = some conn ↔ conn ∈ σ.unclosed ∧ conn.sockfd = fd
  watched : ∀ fd, σ.watched fd = true → σ.opened fd ≠ none
  clients : ∀ fd conn, σ.clients fd = some conn → conn.sockfd = fd ∧ conn.object < σ.created
  entered : ∀ fd, σ.watched fd = true → σ.clients fd ≠ none
  undone : σ.requests.done = false

theorem owned_init (queueSize : ℕ) : (init queueSize : EventLoop n).Owned where
  once := by simp [init, unclosed, BlockQueueState.new]
  opened := by simp [init, unclosed, BlockQueueState.new]
  watched := by simp [init]
  clients := by simp [init]
  entered := by simp [init]
  undone := rfl

/-- What `appendRequest` leaves as it was. -/
theorem appendRequest_eq (σ : EventLoop n) (conn : ClientPtr) :
    (σ.appendRequest conn).clients = σ.clients ∧ (σ.appendRequest conn).opened = σ.opened ∧
    (σ.appendRequest conn).watched = σ.watched ∧ (σ.appendRequest conn).workers = σ.workers ∧
    (σ.appendRequest conn).created = σ.created ∧ (σ.appendRequest conn).deleted = σ.deleted ∧
    (σ.appendRequest conn).requests.done = σ.requests.done := by
  unfold appendRequest
  split
  · exact ⟨rfl, rfl, rfl, rfl, rfl, rfl, rfl⟩
  · rename_i q hpush
    exact ⟨rfl, rfl, rfl, rfl, rfl, rfl, (BlockQueueState.push_eq_some hpush).2.2.1⟩

/-- The object that `append` is called with is waiting from then on. -/
theorem unclosed_appendRequest (σ : EventLoop n) (conn : ClientPtr) :
    (σ.appendRequest conn).unclosed =
      conn ::ₘ ((σ.requests.queue : Multiset ClientPtr) + ∑ i, (σ.workers i).unclosed) := by
  unfold appendRequest
  split
  · rw [unclosed, Option.toList_some, Multiset.coe_singleton, add_right_comm,
      ← Multiset.singleton_add, add_comm]
  · rename_i q hpush
    rw [unclosed, (BlockQueueState.push_eq_some hpush).1, Option.toList_none, Multiset.coe_nil,
      add_zero, ← Multiset.coe_add, Multiset.coe_singleton, add_right_comm,
      ← Multiset.singleton_add, add_comm]

/-- While nothing is being appended, what waits is in the queue or in `run`. -/
theorem unclosed_of_none (h : σ.appending = none) :
    σ.unclosed = (σ.requests.queue : Multiset ClientPtr) + ∑ i, (σ.workers i).unclosed := by
  rw [unclosed, h, Option.toList_none, Multiset.coe_nil, add_zero]

/-- What accepting a client changes. -/
theorem acceptClient_eq (σ : EventLoop n) (sockfd : ℕ) :
    (σ.acceptClient sockfd).clients = insertClient σ.clients ⟨σ.created, sockfd⟩ ∧
    (σ.acceptClient sockfd).opened = Function.update σ.opened sockfd (some ⟨σ.created, sockfd⟩) ∧
    (σ.acceptClient sockfd).watched = Function.update σ.watched sockfd true ∧
    (σ.acceptClient sockfd).workers = σ.workers ∧
    (σ.acceptClient sockfd).created = σ.created + 1 ∧
    (σ.acceptClient sockfd).deleted = σ.deleted ∧
    (σ.acceptClient sockfd).requests.done = σ.requests.done :=
  appendRequest_eq (σ.enterClient sockfd) ⟨σ.created, sockfd⟩

/-- The new client waits. -/
theorem unclosed_acceptClient (h : σ.appending = none) (sockfd : ℕ) :
    (σ.acceptClient sockfd).unclosed = ⟨σ.created, sockfd⟩ ::ₘ σ.unclosed := by
  rw [unclosed_of_none h]
  exact unclosed_appendRequest (σ.enterClient sockfd) ⟨σ.created, sockfd⟩

/-- What a worker does with its object changes what waits. -/
theorem unclosed_update {i : Fin n} (w : Serving) (workers : Fin n → Serving)
    (queue appending : Multiset ClientPtr) :
    queue + appending + ∑ j, (Function.update workers i w j).unclosed + (workers i).unclosed =
      queue + appending + ∑ j, (workers j).unclosed + w.unclosed := by
  rw [add_assoc, sum_update_add Serving.unclosed, ← add_assoc]

/-- A descriptor that is still watched is another one than that which has been taken out. -/
theorem watched_update {watched : ℕ → Bool} {sockfd fd : ℕ}
    (h : Function.update watched sockfd false fd = true) : fd ≠ sockfd ∧ watched fd = true := by
  by_cases hfd : fd = sockfd
  · subst hfd
    rw [Function.update_self] at h
    cases h
  · rw [Function.update_of_ne hfd] at h
    exact ⟨hfd, h⟩

/-! ## One step -/

/-- **What a step can do.** A worker that finds the queue empty, and one that handles a message other than
`QUIT`, change nothing here. -/
inductive Moves (σ : EventLoop n) : LoopAct n → EventLoop n → Prop
  | accept {sockfd : ℕ} (happ : σ.appending = none) (hfree : σ.opened sockfd = none) :
      Moves σ (.accept sockfd) (σ.acceptClient sockfd)
  | append {conn : ClientPtr} (happ : σ.appending = some conn) :
      Moves σ .append (σ.appendRequest conn)
  | hangUp {eventfd : ℕ} (hwatched : σ.watched eventfd = true) :
      Moves σ (.hangUp eventfd) { σ with
        watched := Function.update σ.watched eventfd false
        clients := Function.update σ.clients eventfd none
        deleted := σ.deleted ++ (σ.clients eventfd).toList }
  | fetch {i : Fin n} {conn : ClientPtr} {q : BlockQueueState ClientPtr} (hi : σ.workers i = .idle)
      (hpop : σ.requests.pop = .got conn q) :
      Moves σ (.fetch i) { σ with
        requests := q
        workers := Function.update σ.workers i (.running conn) }
  | fetchNone (i : Fin n) : Moves σ (.fetch i) σ
  | serve (i : Fin n) : Moves σ (.serve i) σ
  | quit {i : Fin n} {conn : ClientPtr} (hi : σ.workers i = .running conn) :
      Moves σ (.quit i) { σ with
        opened := Function.update σ.opened conn.sockfd none
        watched := Function.update σ.watched conn.sockfd false
        workers := Function.update σ.workers i (.closing conn) }
  | leave {i : Fin n} {conn : ClientPtr} (hi : σ.workers i = .closing conn) :
      Moves σ (.leave i) { σ with workers := Function.update σ.workers i .idle }

/-- **Every step** is one of these. -/
theorem moves_of_step (hstep : σ.step a = some τ) : σ.Moves a τ := by
  cases a with
  | accept sockfd =>
    simp only [EventLoop.step] at hstep
    split at hstep
    · rename_i hfree
      obtain rfl := Option.some.inj hstep
      exact .accept hfree.1 hfree.2
    · cases hstep
  | append =>
    simp only [EventLoop.step] at hstep
    split at hstep
    · cases hstep
    · rename_i conn happ
      obtain rfl := Option.some.inj hstep
      exact .append happ
  | hangUp eventfd =>
    simp only [EventLoop.step] at hstep
    split at hstep
    · rename_i hwatched
      obtain rfl := Option.some.inj hstep
      exact .hangUp hwatched.2
    · cases hstep
  | fetch i =>
    simp only [EventLoop.step] at hstep
    split at hstep
    -- the pop returns either a request or that the pool is done
    · rename_i hi
      split at hstep
      · rename_i conn q hpop
        obtain rfl := Option.some.inj hstep
        exact .fetch hi hpop
      · obtain rfl := Option.some.inj hstep
        exact .fetchNone i
    · cases hstep
  | serve i =>
    simp only [EventLoop.step] at hstep
    split at hstep
    · obtain rfl := Option.some.inj hstep
      exact .serve i
    · cases hstep
  | quit i =>
    simp only [EventLoop.step] at hstep
    split at hstep
    · rename_i conn hi
      obtain rfl := Option.some.inj hstep
      exact .quit hi
    · cases hstep
  | leave i =>
    simp only [EventLoop.step] at hstep
    split at hstep
    · rename_i conn hi
      obtain rfl := Option.some.inj hstep
      exact .leave hi
    · cases hstep

/-- An `append` that goes on changes nothing but where its object waits. -/
theorem Owned.append {conn : ClientPtr} (h : σ.Owned) (happ : σ.appending = some conn) :
    (σ.appendRequest conn).Owned := by
  obtain ⟨hclients, hopened, hwatched, -, hcreated, -, hdone⟩ := appendRequest_eq σ conn
  have hsame : (σ.appendRequest conn).unclosed = σ.unclosed := by
    rw [unclosed_appendRequest, unclosed, happ, Option.toList_some, Multiset.coe_singleton,
      add_right_comm, ← Multiset.singleton_add, add_comm]
  constructor
  · rw [hsame]
    exact h.once
  · rw [hopened, hsame]
    exact h.opened
  · rw [hwatched, hopened]
    exact h.watched
  · rw [hclients, hcreated]
    exact h.clients
  · rw [hwatched, hclients]
    exact h.entered
  · rw [hdone]
    exact h.undone

/-- **A new client** waits from now on, and its descriptor is open. -/
theorem Owned.accept {sockfd : ℕ} (h : σ.Owned) (happ : σ.appending = none)
    (hfree : σ.opened sockfd = none) : (σ.acceptClient sockfd).Owned := by
  obtain ⟨hclients, hopened, hwatched, -, hcreated, -, hdone⟩ := acceptClient_eq σ sockfd
  have hunclosed := unclosed_acceptClient happ sockfd
  -- what waits has other descriptors
  have hother : ∀ conn ∈ σ.unclosed, conn.sockfd ≠ sockfd := by
    intro conn hconn heq
    rw [(h.opened sockfd conn).mpr ⟨hconn, heq⟩] at hfree
    cases hfree
  constructor
  · rw [hunclosed, Multiset.nodup_cons]
    exact ⟨fun hin => hother _ hin rfl, h.once⟩
  · intro fd conn
    rw [hopened, hunclosed, Multiset.mem_cons]
    by_cases hfd : fd = sockfd
    · subst hfd
      rw [Function.update_self]
      constructor
      · intro heq
        obtain rfl := Option.some.inj heq
        exact ⟨.inl rfl, rfl⟩
      · rintro ⟨hconn | hconn, hsock⟩
        · rw [hconn]
        · exact absurd hsock (hother conn hconn)
    · rw [Function.update_of_ne hfd, h.opened fd conn]
      constructor
      · rintro ⟨hconn, hsock⟩
        exact ⟨.inr hconn, hsock⟩
      · rintro ⟨hconn | hconn, hsock⟩
        · subst hconn
          exact absurd hsock.symm hfd
        · exact ⟨hconn, hsock⟩
  · intro fd
    rw [hwatched, hopened]
    by_cases hfd : fd = sockfd
    · subst hfd
      simp
    · rw [Function.update_of_ne hfd, Function.update_of_ne hfd]
      exact h.watched fd
  · intro fd conn
    rw [hclients, hcreated, insertClient]
    by_cases hfd : fd = sockfd
    · subst hfd
      rw [Function.update_self]
      intro heq
      rcases Option.or_eq_some_iff.mp heq with hold | ⟨-, hnew⟩
      · obtain ⟨hsock, hlt⟩ := h.clients _ _ hold
        exact ⟨hsock, Nat.lt_succ_of_lt hlt⟩
      · obtain rfl := Option.some.inj hnew
        exact ⟨rfl, Nat.lt_succ_self _⟩
    · rw [Function.update_of_ne hfd]
      intro heq
      obtain ⟨hsock, hlt⟩ := h.clients _ _ heq
      exact ⟨hsock, Nat.lt_succ_of_lt hlt⟩
  · intro fd
    rw [hwatched, hclients, insertClient]
    by_cases hfd : fd = sockfd
    · subst hfd
      rw [Function.update_self, Function.update_self]
      intro _ hnone
      cases hc : σ.clients fd <;> simp [hc] at hnone
    · rw [Function.update_of_ne hfd, Function.update_of_ne hfd]
      exact h.entered fd
  · rw [hdone]
    exact h.undone

/-- **A hang-up** takes the number out of the map and of what epoll watches. -/
theorem Owned.hangUp (h : σ.Owned) (eventfd : ℕ) (deleted : List ClientPtr) :
    Owned { σ with
      watched := Function.update σ.watched eventfd false
      clients := Function.update σ.clients eventfd none
      deleted := deleted } := by
  refine ⟨h.once, h.opened, fun fd hfd => h.watched fd (watched_update hfd).2, ?_, ?_, h.undone⟩
  · intro fd conn
    dsimp only
    by_cases hfd : fd = eventfd
    · subst hfd
      simp
    · rw [Function.update_of_ne hfd]
      exact h.clients fd conn
  · intro fd hfd
    obtain ⟨hne, hwatched⟩ := watched_update hfd
    dsimp only
    rw [Function.update_of_ne hne]
    exact h.entered fd hwatched

/-- **A worker takes a request** from the queue. -/
theorem Owned.fetch {i : Fin n} {conn : ClientPtr} {q : BlockQueueState ClientPtr} (h : σ.Owned)
    (hi : σ.workers i = .idle) (hpop : σ.requests.pop = .got conn q) :
    Owned { σ with requests := q, workers := Function.update σ.workers i (.running conn) } := by
  obtain ⟨hqueue, -, hdone, -⟩ := BlockQueueState.pop_eq_got hpop
  have hsame : unclosed { σ with
      requests := q
      workers := Function.update σ.workers i (.running conn) } = σ.unclosed := by
    have hsum := unclosed_update (i := i) (.running conn) σ.workers q.queue σ.appending.toList
    rw [hi, Serving.unclosed_idle, Serving.unclosed_running, add_zero] at hsum
    rw [unclosed, unclosed, hsum, hqueue, ← Multiset.cons_coe, ← Multiset.singleton_add,
      add_comm, add_assoc, add_assoc, add_assoc]
  refine ⟨?_, ?_, h.watched, h.clients, h.entered, hdone.trans h.undone⟩
  · rw [hsame]
    exact h.once
  · rw [hsame]
    exact h.opened

/-- **A worker closes the descriptor** of its object: it is the only one with that number. -/
theorem Owned.quit {i : Fin n} {conn : ClientPtr} (h : σ.Owned)
    (hi : σ.workers i = .running conn) :
    Owned { σ with
      opened := Function.update σ.opened conn.sockfd none
      watched := Function.update σ.watched conn.sockfd false
      workers := Function.update σ.workers i (.closing conn) } := by
  have hcons : σ.unclosed = conn ::ₘ unclosed { σ with
      opened := Function.update σ.opened conn.sockfd none
      watched := Function.update σ.watched conn.sockfd false
      workers := Function.update σ.workers i (.closing conn) } := by
    have hsum := unclosed_update (i := i) (.closing conn) σ.workers σ.requests.queue
      σ.appending.toList
    rw [hi, Serving.unclosed_closing, Serving.unclosed_running, add_zero] at hsum
    rw [unclosed, unclosed, ← hsum, ← Multiset.singleton_add, add_comm]
  have honce := h.once
  rw [hcons, Multiset.nodup_cons] at honce
  have hopened : ∀ fd c, σ.opened fd = some c ↔ (c = conn ∨ c ∈ unclosed { σ with
      opened := Function.update σ.opened conn.sockfd none
      watched := Function.update σ.watched conn.sockfd false
      workers := Function.update σ.workers i (.closing conn) }) ∧ c.sockfd = fd := by
    intro fd c
    rw [h.opened fd c, hcons, Multiset.mem_cons]
  refine ⟨honce.2, ?_, ?_, h.clients, ?_, h.undone⟩
  · intro fd c
    dsimp only
    by_cases hfd : fd = conn.sockfd
    · subst hfd
      rw [Function.update_self]
      constructor
      · rintro ⟨⟩
      · -- another object with this number would be the one of this worker
        rintro ⟨hc, hsock⟩
        have hc' := (hopened conn.sockfd c).mpr ⟨.inr hc, hsock⟩
        have hconn := (hopened conn.sockfd conn).mpr ⟨.inl rfl, rfl⟩
        rw [hconn] at hc'
        obtain rfl := Option.some.inj hc'
        exact absurd hc honce.1
    · rw [Function.update_of_ne hfd, hopened fd c]
      constructor
      · rintro ⟨rfl | hc, hsock⟩
        · exact absurd hsock.symm hfd
        · exact ⟨hc, hsock⟩
      · rintro ⟨hc, hsock⟩
        exact ⟨.inr hc, hsock⟩
  · intro fd hfd
    obtain ⟨hne, hwatched⟩ := watched_update hfd
    dsimp only
    rw [Function.update_of_ne hne]
    exact h.watched fd hwatched
  · exact fun fd hfd => h.entered fd (watched_update hfd).2

/-- A worker returns from `run`. -/
theorem Owned.leave {i : Fin n} {conn : ClientPtr} (h : σ.Owned)
    (hi : σ.workers i = .closing conn) :
    Owned { σ with workers := Function.update σ.workers i .idle } := by
  have hsame : unclosed { σ with workers := Function.update σ.workers i .idle } = σ.unclosed := by
    have hsum := unclosed_update (i := i) .idle σ.workers σ.requests.queue σ.appending.toList
    rwa [hi, Serving.unclosed_closing, Serving.unclosed_idle, add_zero, add_zero] at hsum
  refine ⟨?_, ?_, h.watched, h.clients, h.entered, h.undone⟩
  · rw [hsame]
    exact h.once
  · rw [hsame]
    exact h.opened

/-- **Every step** keeps the descriptors and their objects together. -/
theorem Owned.step (h : σ.Owned) (hstep : σ.step a = some τ) : τ.Owned := by
  cases moves_of_step hstep with
  | accept happ hfree => exact h.accept happ hfree
  | append happ => exact h.append happ
  | hangUp => exact h.hangUp _ _
  | fetch hi hpop => exact h.fetch hi hpop
  | quit hi => exact h.quit hi
  | leave hi => exact h.leave hi
  | fetchNone | serve => exact h

end EventLoop

end DedupServer
