import DedupServer.Threads.EventLoop

/-! # `m_clients` and the objects it names

`m_clients` names the right object for every open descriptor exactly if no `accept` returns a number
that is still a key (`names_right_iff`): `insert` keeps an entry that exists, and `QUIT` leaves one
behind. The event loop deletes objects that are in use exactly if it handles a hang-up of a connection
whose own entry is there (`safe_delete_iff`): its worker has not returned, since that closes the
descriptor. -/

namespace DedupServer

open Foundations

variable {n : ℕ} {σ τ : EventLoop n} {a : LoopAct n}

namespace EventLoop

/-- **`m_clients` names the right object** for every client descriptor that is open and has not been hung
up. -/
def NamesRight (σ : EventLoop n) : Prop :=
  ∀ fd conn, σ.opened fd = some conn → σ.watched fd = true → σ.clients fd = some conn

/-- A hang-up deletes the object of the connection that hung up, and no other. -/
def DeletesOwn : Machine.Condition (EventLoop n) (LoopAct n) := fun σ a τ =>
  ∀ fd, a = .hangUp fd → ∃ conn, σ.opened fd = some conn ∧ τ.deleted = σ.deleted ++ [conn]

/-- An `accept` returns a number that is no key of `m_clients`. -/
def FreshNumber : Machine.Condition (EventLoop n) (LoopAct n) := fun σ a _ =>
  ∀ sockfd, a = .accept sockfd → σ.clients sockfd = none

/-- What is deleted is not in use. -/
def SafeDelete : Machine.Condition (EventLoop n) (LoopAct n) := fun σ _ τ =>
  ∀ conn, τ.deleted = σ.deleted ++ [conn] → ¬ σ.InUse conn

/-- A hang-up finds the entry that an earlier connection with the same number has left, and the worker
that closed that one has returned. -/
def LeftOver : Machine.Condition (EventLoop n) (LoopAct n) := fun σ a _ =>
  ∀ fd, a = .hangUp fd → σ.clients fd ≠ σ.opened fd ∧
    ∀ i conn, σ.workers i = .closing conn → σ.clients fd ≠ some conn

/-! ## The map -/

/-- What an `accept` leaves for the number it returns. -/
theorem namesRight_accept {sockfd : ℕ} (h : σ.Owned) (hσ : σ.NamesRight) :
    (σ.acceptClient sockfd).NamesRight ↔ σ.clients sockfd = none := by
  obtain ⟨hclients, hopened, hwatched, -⟩ := acceptClient_eq σ sockfd
  constructor
  · intro hright
    have hnew := hright sockfd ⟨σ.created, sockfd⟩ (by rw [hopened, Function.update_self])
      (by rw [hwatched, Function.update_self])
    rw [hclients, insertClient, Function.update_self] at hnew
    -- an entry that was there is of an older object
    cases hold : σ.clients sockfd with
    | none => rfl
    | some conn =>
      rw [hold, Option.some_or] at hnew
      obtain rfl := Option.some.inj hnew
      exact absurd (h.clients sockfd _ hold).2 (Nat.lt_irrefl _)
  · intro hnone fd conn
    rw [hclients, hopened, hwatched, insertClient]
    by_cases hfd : fd = sockfd
    · subst hfd
      rw [Function.update_self, Function.update_self, Function.update_self, hnone, Option.none_or]
      exact fun heq _ => heq
    · rw [Function.update_of_ne hfd, Function.update_of_ne hfd, Function.update_of_ne hfd]
      exact hσ fd conn

/-- Taking a number out of what is watched spoils nothing. -/
theorem NamesRight.unwatch (hσ : σ.NamesRight) {sockfd : ℕ}
    (hwatched : τ.watched = Function.update σ.watched sockfd false)
    (hother : ∀ fd, fd ≠ sockfd → τ.opened fd = σ.opened fd ∧ τ.clients fd = σ.clients fd) :
    τ.NamesRight := by
  intro fd conn hconn hfd
  rw [hwatched] at hfd
  obtain ⟨hne, hold⟩ := watched_update hfd
  obtain ⟨hopened, hclients⟩ := hother fd hne
  rw [hopened] at hconn
  rw [hclients]
  exact hσ fd conn hconn hold

/-- **One step and the map**: only an `accept` can spoil it. -/
theorem namesRight_step (h : σ.Owned) (hσ : σ.NamesRight) (hstep : σ.step a = some τ) :
    τ.NamesRight ↔ FreshNumber σ a τ := by
  cases moves_of_step hstep with
  | @accept sockfd =>
    rw [namesRight_accept h hσ]
    constructor
    · rintro hnone fd ⟨⟩
      exact hnone
    · intro hfresh
      exact hfresh sockfd rfl
  | @append conn =>
    refine iff_of_true ?_ nofun
    obtain ⟨hclients, hopened, hwatched, -⟩ := appendRequest_eq σ conn
    rw [NamesRight, hclients, hopened, hwatched]
    exact hσ
  | hangUp =>
    exact iff_of_true (hσ.unwatch rfl fun fd hne => ⟨rfl, Function.update_of_ne hne ..⟩) nofun
  | quit =>
    exact iff_of_true (hσ.unwatch rfl fun fd hne => ⟨Function.update_of_ne hne .., rfl⟩) nofun
  | fetch | fetchNone | serve | leave => exact iff_of_true hσ nofun

/-- **What a hang-up does**: the entry of a watched descriptor is deleted. -/
theorem hangUp_deletes (h : σ.Owned) {fd : ℕ} (hstep : σ.step (.hangUp fd) = some τ) :
    ∃ conn entry, σ.opened fd = some conn ∧ σ.clients fd = some entry ∧ σ.watched fd = true ∧
      τ.deleted = σ.deleted ++ [entry] := by
  cases moves_of_step hstep with
  | hangUp hwatched =>
    obtain ⟨conn, hconn⟩ := Option.ne_none_iff_exists'.mp (h.watched fd hwatched)
    obtain ⟨entry, hentry⟩ := Option.ne_none_iff_exists'.mp (h.entered fd hwatched)
    refine ⟨conn, entry, hconn, hentry, hwatched, ?_⟩
    rw [hentry, Option.toList_some]

/-- Only a hang-up deletes an object. -/
theorem deleted_step (hstep : σ.step a = some τ) (ha : ∀ fd, a ≠ .hangUp fd) :
    τ.deleted = σ.deleted := by
  cases moves_of_step hstep with
  | hangUp => exact absurd rfl (ha _)
  | accept => exact (acceptClient_eq σ _).2.2.2.2.2.1
  | append => exact (appendRequest_eq σ _).2.2.2.2.2.1
  | fetch | fetchNone | serve | quit | leave => rfl

/-- **When the entry of a watched descriptor is in use**: it is the connection's own, or its worker is
about to return. -/
theorem inUse_entry (h : σ.Owned) {fd : ℕ} {conn entry : ClientPtr}
    (hconn : σ.opened fd = some conn) (hentry : σ.clients fd = some entry) :
    ¬ σ.InUse entry ↔ σ.clients fd ≠ σ.opened fd ∧
      ∀ i c, σ.workers i = .closing c → σ.clients fd ≠ some c := by
  rw [hconn, hentry]
  constructor
  · intro hfree
    constructor
    · intro heq
      obtain rfl := Option.some.inj heq
      exact hfree (.inl ((h.opened fd entry).mp hconn).1)
    · intro i c hi heq
      obtain rfl := Option.some.inj heq
      exact hfree (.inr ⟨i, hi⟩)
  · rintro ⟨hother, hclosing⟩ (hin | ⟨i, hi⟩)
    · -- an object that waits has its descriptor open, so it would be the connection's own
      have hopen := (h.opened fd entry).mpr ⟨hin, (h.clients fd entry hentry).1⟩
      rw [hconn] at hopen
      exact hother hopen.symm
    · exact hclosing i entry hi rfl

end EventLoop

open EventLoop

/-- **When `m_clients` names the right connection.** In an execution of the event loop, of the workers
and of their clients, `m_clients[fd]` is, in every state and for every open descriptor that has not been
hung up, the object that the `accept` which returned `fd` has created, exactly if no `accept` returns a
number that is a key of `m_clients`. As long as it is so, every hang-up deletes the object of the
connection that hung up. -/
theorem names_right_iff (queueSize : ℕ) (as : List (LoopAct n)) :
    ((loopMachine n).StatesMeet NamesRight (init queueSize) as ↔
      (loopMachine n).StepsMeet FreshNumber (init queueSize) as) ∧
    ((loopMachine n).StatesMeet NamesRight (init queueSize) as →
      (loopMachine n).StepsMeet DeletesOwn (init queueSize) as) := by
  have hinv : ∀ (σ : EventLoop n) a τ, σ.Owned → (loopMachine n).step σ a = some τ → τ.Owned :=
    fun σ a τ h hstep => h.step hstep
  have hinit : (init queueSize : EventLoop n).NamesRight := by
    intro fd conn hconn
    simp [init] at hconn
  constructor
  · apply Machine.statesMeet_iff_stepsMeet hinv _ (owned_init queueSize) hinit
    intro σ a τ h hσ hstep
    exact namesRight_step h hσ hstep
  · intro hstates
    apply hstates.stepsMeet hinv _ (owned_init queueSize)
    rintro σ a τ h hσ hstep fd rfl
    obtain ⟨conn, entry, hconn, hentry, hwatched, hdeleted⟩ := hangUp_deletes h hstep
    have hown := hσ fd conn hconn hwatched
    rw [hentry] at hown
    obtain rfl := Option.some.inj hown
    exact ⟨entry, hconn, hdeleted⟩

/-- A client quits, the next one is given its descriptor: `m_clients` names the object of the first. -/
theorem names_not_right : ¬ (loopMachine 1).StatesMeet NamesRight (init 20)
    [.accept 5, .fetch 0, .quit 0, .leave 0, .accept 5] := by
  intro h
  have hnew := h.last rfl 5 ⟨1, 5⟩ rfl rfl
  exact absurd hnew (by decide)

/-- **When no object is deleted while in use.** In an execution, the objects deleted are never waiting
in the request queue and their `run` has returned, exactly if every hang-up that is handled finds the
entry of an earlier connection whose worker has returned. -/
theorem safe_delete_iff (queueSize : ℕ) (as : List (LoopAct n)) :
    (loopMachine n).StepsMeet SafeDelete (init queueSize) as ↔
      (loopMachine n).StepsMeet LeftOver (init queueSize) as := by
  have hinv : ∀ (σ : EventLoop n) a τ, σ.Owned → (loopMachine n).step σ a = some τ → τ.Owned :=
    fun σ a τ h hstep => h.step hstep
  apply Machine.stepsMeet_congr hinv _ (owned_init queueSize)
  intro σ a τ h hstep
  -- only the hang up of a watched client deletes a connection
  by_cases ha : ∃ fd, a = .hangUp fd
  · obtain ⟨fd, rfl⟩ := ha
    obtain ⟨conn, entry, hconn, hentry, -, hdeleted⟩ := hangUp_deletes h hstep
    have hiff := inUse_entry h hconn hentry
    constructor
    · rintro hsafe fd' ⟨⟩
      exact hiff.mp (hsafe entry hdeleted)
    -- exactly one connection is deleted, the one the client left over
    · intro hleft c hc
      rw [hdeleted, List.append_cancel_left_eq] at hc
      obtain rfl := List.singleton_inj.mp hc
      exact hiff.mpr (hleft fd rfl)
  · have hne : ∀ fd, a ≠ .hangUp fd := fun fd hfd => ha ⟨fd, hfd⟩
    have hdeleted := deleted_step hstep hne
    apply iff_of_true
    · intro c hc
      rw [hdeleted] at hc
      simp at hc
    · intro fd hfd
      exact absurd hfd (hne fd)

/-- A client disconnects without `QUIT` while its object is in the request queue. -/
theorem deleted_in_use : ¬ (loopMachine 1).StepsMeet SafeDelete (init 20)
    [.accept 5, .hangUp 5] := by
  intro h
  have hsteps : (loopMachine 1).StepsMeet SafeDelete (init 20) ([.accept 5] ++ [.hangUp 5]) := h
  have hsafe := hsteps.last rfl rfl ⟨0, 5⟩ rfl
  exact hsafe (.inl (by decide))

end DedupServer
