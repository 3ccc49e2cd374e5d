import DedupServer.Foundations.Slots
import DedupServer.Threads.BlockQueue
import Mathlib.Algebra.BigOperators.Fin
import Mathlib.Algebra.Order.BigOperators.Group.Multiset

/-! # `ThreadPool`

The pool of `ThreadPool.cc`: a `BlockQueue` of requests, `n` workers in `run`, the threads that are
waiting in `append`, and the destructor. What a worker does from one call to the next is one step; a
waiting thread may go on at any time, notified, spuriously or after a timeout.

`ThreadPool.Orderly` is what every step keeps: the requests appended are those that have been started
followed by those in the queue, and those that have been started have finished or are running. Once
the destructor has begun every step decreases `ThreadPool.remaining`. -/

namespace DedupServer

open Foundations

/-- Where a worker is in `run`: in `pop`, in the function of a request, or returned. -/
inductive Worker (Req : Type*)
  | popping
  | running (req : Req)
  | returned

namespace Worker

variable {Req : Type*}

/-- The request that the worker is running. -/
def holding : Worker Req → Multiset Req
  | running req => {req}
  | _ => 0

@[simp] theorem holding_popping : (popping : Worker Req).holding = 0 := rfl

@[simp] theorem holding_running (req : Req) : (running req).holding = {req} := rfl

@[simp] theorem holding_returned : (returned : Worker Req).holding = 0 := rfl

/-- An upper bound for what the worker has to do before it returns, without new requests. -/
def remaining : Worker Req → ℕ
  | popping => 1
  | running _ => 2
  | returned => 0

end Worker

/-- The pool: the queue, the workers, the threads blocked in `append` (by their requests), how many
joins of the destructor have returned (`none` before the destructor), and what has happened: the
requests in the order in which `append` has queued them, in the order in which they have been started,
and in the order in which they have finished. -/
structure ThreadPool (n : ℕ) (Req : Type*) where
  requests : BlockQueueState Req
  workers : Fin n → Worker Req
  blocked : List Req
  joined : Option ℕ
  appended : List Req
  started : List Req
  finished : List Req

/-- The steps of the pool: a thread calls `append`, a thread blocked in `append` goes on, a worker goes
on, the destructor begins, one of its joins returns. -/
inductive PoolAct (n : ℕ) (Req : Type*)
  | append (req : Req)
  | retry (k : ℕ)
  | work (i : Fin n)
  | destroy
  | join

namespace ThreadPool

variable {n : ℕ} {Req : Type*}

/-- The constructor, with its threads created. -/
def new (queueSize : ℕ) : ThreadPool n Req :=
  ⟨.new queueSize, fun _ => .popping, [], none, [], [], []⟩

/-- Worker `i` has the lock in `pop`. -/
def tryPop (σ : ThreadPool n Req) (i : Fin n) : ThreadPool n Req :=
  match σ.requests.pop with
  | .wait => σ
  | .finished => { σ with workers := Function.update σ.workers i .returned }
  | .got req q => { σ with
      requests := q
      workers := Function.update σ.workers i (.running req)
      started := σ.started ++ [req] }

/-- One step. The pool may be used until its destructor begins, and its owner destroys it when no
`append` is in progress. -/
def step (σ : ThreadPool n Req) : PoolAct n Req → Option (ThreadPool n Req)
  | .append req =>
    if σ.joined = none then
      match σ.requests.push req with
      | none => some { σ with blocked := σ.blocked ++ [req] }
      | some q => some { σ with requests := q, appended := σ.appended ++ [req] }
    else none
  | .retry k =>
    match σ.blocked[k]? with
    | none => none
    | some req =>
      match σ.requests.push req with
      | none => some σ
      | some q => some { σ with
          requests := q
          blocked := σ.blocked.eraseIdx k
          appended := σ.appended ++ [req] }
  | .work i =>
    match σ.workers i with
    | .popping => some (σ.tryPop i)
    | .running req => some { σ with
        workers := Function.update σ.workers i .popping
        finished := σ.finished ++ [req] }
    | .returned => none
  | .destroy =>
    if σ.joined = none ∧ σ.blocked.isEmpty then
      some { σ with requests := σ.requests.setDone, joined := some 0 }
    else none
  | .join =>
    match σ.joined with
    | none => none
    | some k =>
      if h : k < n then
        match σ.workers ⟨k, h⟩ with
        | .returned => some { σ with joined := some (k + 1) }
        | _ => none
      else none

/-- `~ThreadPool` has returned: it has joined every thread. -/
def Destroyed (σ : ThreadPool n Req) : Prop := σ.joined = some n

instance (σ : ThreadPool n Req) : Decidable σ.Destroyed := inferInstanceAs (Decidable (_ = _))

/-- The requests that the workers are running. -/
def running (σ : ThreadPool n Req) : Multiset Req := ∑ i, (σ.workers i).holding

/-- An upper bound for the steps left once the destructor has begun. -/
def remaining (σ : ThreadPool n Req) : ℕ :=
  2 * σ.requests.queue.length + ∑ i, (σ.workers i).remaining + (n - σ.joined.getD 0)

end ThreadPool

/-- **A `ThreadPool` of `n` workers.** -/
def poolMachine (n : ℕ) (Req : Type*) : Machine (ThreadPool n Req) (PoolAct n Req) where
  step := ThreadPool.step

namespace ThreadPool

variable {n : ℕ} {Req : Type*} {σ τ : ThreadPool n Req} {a : PoolAct n Req}

/-! ## One step -/

/-- **What a step can do**: nothing, or a thread blocks in `append`; a request is queued, whether its
`append` had to wait or not; a worker starts a request, finishes one, or returns; the destructor
begins, or one more of its joins returns. -/
inductive Moves (σ : ThreadPool n Req) : ThreadPool n Req → Prop
  | quiet : Moves σ σ
  | block (req : Req) (h : σ.joined = none) :
      Moves σ { σ with blocked := σ.blocked ++ [req] }
  | append {req : Req} {q : BlockQueueState Req} (blocked : List Req)
      (h : σ.requests.push req = some q) (hopen : σ.joined = none ∨ σ.blocked ≠ []) :
      Moves σ { σ with requests := q, blocked := blocked, appended := σ.appended ++ [req] }
  | start {i : Fin n} {req : Req} {q : BlockQueueState Req} (hi : σ.workers i = .popping)
      (h : σ.requests.pop = .got req q) :
      Moves σ { σ with
        requests := q
        workers := Function.update σ.workers i (.running req)
        started := σ.started ++ [req] }
  | finish {i : Fin n} {req : Req} (hi : σ.workers i = .running req) :
      Moves σ { σ with
        workers := Function.update σ.workers i .popping
        finished := σ.finished ++ [req] }
  | leave {i : Fin n} (hi : σ.workers i = .popping) (h : σ.requests.pop = .finished) :
      Moves σ { σ with workers := Function.update σ.workers i .returned }
  | destroy (h : σ.joined = none) (hblocked : σ.blocked = []) :
      Moves σ { σ with requests := σ.requests.setDone, joined := some 0 }
  | join {k : ℕ} (hk : k < n) (h : σ.joined = some k) (hret : σ.workers ⟨k, hk⟩ = .returned) :
      Moves σ { σ with joined := some (k + 1) }

/-- **Every step** is one of `Moves`. -/
theorem moves_of_step (h : σ.step a = some τ) : σ.Moves τ := by
  cases a with
  | append req =>
    simp only [step] at h
    split at h
    · rename_i hjoined
      -- `append` blocks while the queue is full
      split at h
      · obtain rfl := Option.some.inj h
        exact .block req hjoined
      · rename_i q hpush
        obtain rfl := Option.some.inj h
        exact .append σ.blocked hpush (.inl hjoined)
    · cases h
  | retry k =>
    simp only [step] at h
    split at h
    · cases h
    · rename_i req hreq
      split at h
      · obtain rfl := Option.some.inj h
        exact .quiet
      · rename_i q hpush
        obtain rfl := Option.some.inj h
        apply Moves.append _ hpush
        right
        intro hnil
        rw [hnil] at hreq
        cases hreq
  | work i =>
    simp only [step] at h
    split at h
    · rename_i hi
      obtain rfl := Option.some.inj h
      -- what is popped decides: nothing yet, the shutdown, or a request
      unfold tryPop
      split
      · exact .quiet
      · rename_i hpop
        exact .leave hi hpop
      · rename_i req q hpop
        exact .start hi hpop
    · rename_i req hi
      obtain rfl := Option.some.inj h
      exact .finish hi
    · cases h
  | destroy =>
    simp only [step] at h
    split at h
    · rename_i hfree
      obtain rfl := Option.some.inj h
      exact .destroy hfree.1 (List.isEmpty_iff.mp hfree.2)
    · cases h
  | join =>
    simp only [step] at h
    split at h
    · cases h
    · rename_i k hk
      split at h
      · rename_i hlt
        split at h
        · rename_i hret
          obtain rfl := Option.some.inj h
          exact .join hlt hk hret
        · cases h
      · cases h

/-! ## The requests -/

/-- **What every step keeps.** -/
structure Orderly (σ : ThreadPool n Req) : Prop where
  order : σ.appended = σ.started ++ σ.requests.queue
  counted : (σ.finished : Multiset Req) + σ.running = σ.started
  done : σ.requests.done = true ↔ σ.joined ≠ none
  closed : σ.joined ≠ none → σ.blocked = []
  returned : ∀ i, σ.workers i = .returned → σ.requests.queue = [] ∧ σ.joined ≠ none
  joined : ∀ k, σ.joined = some k → k ≤ n ∧ ∀ i : Fin n, i < k → σ.workers i = .returned

theorem orderly_new (queueSize : ℕ) : (new queueSize : ThreadPool n Req).Orderly where
  order := rfl
  counted := by simp [new, running, Worker.holding]
  done := by simp [new, BlockQueueState.new]
  closed := by simp [new]
  returned := by simp [new]
  joined := by simp [new]

/-- The worker that goes on has not returned, so those that have are others. -/
theorem update_returned {i j : Fin n} {w : Worker Req} (hw : w ≠ .returned)
    (h : Function.update σ.workers i w j = .returned) : σ.workers j = .returned := by
  by_cases hij : j = i
  · subst hij
    rw [Function.update_self] at h
    exact absurd h hw
  · rwa [Function.update_of_ne hij] at h

/-- A worker that has returned is not the one that goes on. -/
theorem returned_update {i j : Fin n} (w : Worker Req) (hi : σ.workers i ≠ .returned)
    (hj : σ.workers j = .returned) : Function.update σ.workers i w j = .returned := by
  rw [Function.update_of_ne]
  · exact hj
  · rintro rfl
    exact hi hj

/-- The workers that have been joined are others than the one that goes on. -/
theorem Orderly.joined_update {i : Fin n} (h : σ.Orderly) (hi : σ.workers i ≠ .returned) (w : Worker Req) :
    ∀ k, σ.joined = some k →
      k ≤ n ∧ ∀ j : Fin n, j < k → Function.update σ.workers i w j = .returned := by
  intro k hk
  obtain ⟨hle, hall⟩ := h.joined k hk
  exact ⟨hle, fun j hj => returned_update w hi (hall j hj)⟩

/-- **A step keeps the requests in order.** -/
theorem Orderly.moves (h : σ.Orderly) (hmoves : σ.Moves τ) : τ.Orderly := by
  cases hmoves with
  | quiet => exact h
  | block req hjoined =>
    refine ⟨h.order, h.counted, h.done, ?_, h.returned, h.joined⟩
    intro hne
    exact absurd hjoined hne
  | @append req q blocked hpush hopen =>
    obtain ⟨hqueue, -, hdone, -⟩ := BlockQueueState.push_eq_some hpush
    -- nothing is appended once the destructor has begun
    have hnone : σ.joined = none := by
      rcases hopen with hnone | hblocked
      · exact hnone
      · by_contra hne
        exact hblocked (h.closed hne)
    refine ⟨?_, h.counted, ?_, ?_, ?_, h.joined⟩
    · rw [h.order, hqueue, List.append_assoc]
    · rw [hdone]
      exact h.done
    · intro hne
      exact absurd hnone hne
    · intro i hi
      exact absurd hnone (h.returned i hi).2
  | @start i req q hi hpop =>
    obtain ⟨hqueue, -, hdone, -⟩ := BlockQueueState.pop_eq_got hpop
    have hret : ∀ j, Function.update σ.workers i (.running req) j = .returned →
        σ.workers j = .returned := fun j => update_returned (by simp)
    refine ⟨?_, ?_, ?_, h.closed, ?_, h.joined_update (hi ▸ nofun) _⟩
    · rw [h.order, hqueue, List.append_assoc]
      rfl
    · have hsum := sum_update_add Worker.holding σ.workers i (.running req)
      rw [hi, Worker.holding_running, Worker.holding_popping, add_zero] at hsum
      rw [running, hsum, ← add_assoc, ← Multiset.coe_add, ← h.counted]
      rfl
    · rw [hdone]
      exact h.done
    · -- a worker returns only when the queue is empty, so nobody has
      intro j hj
      have hempty := (h.returned j (hret j hj)).1
      rw [hqueue] at hempty
      cases hempty
  | @finish i req hi =>
    have hret : ∀ j, Function.update σ.workers i .popping j = .returned →
        σ.workers j = .returned := fun j => update_returned (by simp)
    refine ⟨h.order, ?_, h.done, h.closed, ?_, h.joined_update (hi ▸ nofun) _⟩
    · have hsum := sum_update_add Worker.holding σ.workers i .popping
      rw [hi, Worker.holding_running, Worker.holding_popping, add_zero] at hsum
      have hcounted := h.counted
      rw [running, ← hsum] at hcounted
      rw [← hcounted, running, ← Multiset.coe_add, Multiset.coe_singleton, add_assoc,
        add_comm ({req} : Multiset Req)]
    · intro j hj
      exact h.returned j (hret j hj)
  | @leave i hi hpop =>
    obtain ⟨hempty, hdone⟩ := BlockQueueState.pop_eq_finished hpop
    refine ⟨h.order, ?_, h.done, h.closed, ?_, h.joined_update (hi ▸ nofun) _⟩
    · have hsum := sum_update_add Worker.holding σ.workers i .returned
      rw [hi, Worker.holding_returned, Worker.holding_popping, add_zero, add_zero] at hsum
      rw [running, hsum]
      exact h.counted
    · intro j hj
      exact ⟨hempty, h.done.mp hdone⟩
  | destroy hjoined hblocked =>
    refine ⟨h.order, h.counted, ?_, ?_, ?_, ?_⟩
    · simp [BlockQueueState.setDone]
    · intro _
      exact hblocked
    · intro i hi
      exact absurd hjoined (h.returned i hi).2
    · intro k hk
      obtain rfl := Option.some.inj hk
      exact ⟨Nat.zero_le _, fun i hi => absurd hi (Nat.not_lt_zero _)⟩
  | @join k hk hjoined hret =>
    have hne : σ.joined ≠ none := by simp [hjoined]
    refine ⟨h.order, h.counted, ?_, fun _ => h.closed hne, ?_, ?_⟩
    · simp [h.done, hjoined]
    · intro i hi
      exact ⟨(h.returned i hi).1, by simp⟩
    · intro k' hk'
      obtain rfl := Option.some.inj hk'
      refine ⟨hk, fun i hi => ?_⟩
      rcases Nat.lt_succ_iff_lt_or_eq.mp hi with hlt | heq
      · exact (h.joined k hjoined).2 i hlt
      · subst heq
        exact hret

/-- **In every state that can be reached** the requests are in order. -/
theorem orderly {queueSize : ℕ} (h : (poolMachine n Req).Run Machine.anyAction (new queueSize) σ) :
    σ.Orderly := by
  refine h.invariant ?_ (orderly_new queueSize)
  intro σ a τ hσ hstep _
  exact hσ.moves (moves_of_step hstep)

/-! ## The destructor -/

/-- The destructor has begun. -/
def Closing (σ : ThreadPool n Req) : Prop := σ.Orderly ∧ σ.joined ≠ none

/-- **Once the destructor has begun** every step brings its end nearer. -/
theorem Closing.step (h : σ.Closing) (hstep : σ.step a = some τ) :
    (τ.Closing ∧ τ.appended = σ.appended) ∧ τ.remaining < σ.remaining := by
  obtain ⟨k, hk⟩ := Option.ne_none_iff_exists'.mp h.2
  have hτ : τ.Orderly := h.1.moves (moves_of_step hstep)
  have hdone : σ.requests.done = true := h.1.done.mpr h.2
  cases a with
  -- nothing is appended and nothing waits once the destructor runs
  | append req => simp [ThreadPool.step, hk] at hstep
  | retry k => simp [ThreadPool.step, h.1.closed h.2] at hstep
  | destroy => simp [ThreadPool.step, hk] at hstep
  -- one thread less to join
  | join =>
    simp only [ThreadPool.step, hk] at hstep
    split at hstep
    · rename_i hlt
      split at hstep
      · obtain rfl := Option.some.inj hstep
        refine ⟨⟨⟨hτ, by simp⟩, rfl⟩, ?_⟩
        simp only [remaining, hk, Option.getD_some]
        omega
      · cases hstep
    · cases hstep
  | work i =>
    simp only [ThreadPool.step] at hstep
    split at hstep
    · rename_i hi
      obtain rfl := Option.some.inj hstep
      unfold tryPop at hτ ⊢
      -- with the flag set a pop never waits: it ends the worker or takes a request away
      split
      · rename_i hwait
        exact absurd hwait (BlockQueueState.pop_ne_wait hdone)
      · rename_i hpop
        simp only [hpop] at hτ
        have hsum := sum_update_add Worker.remaining σ.workers i .returned
        rw [hi] at hsum
        refine ⟨⟨⟨hτ, h.2⟩, rfl⟩, ?_⟩
        simp only [remaining, Worker.remaining] at hsum ⊢
        omega
      · rename_i req q hpop
        simp only [hpop] at hτ
        have hqueue := (BlockQueueState.pop_eq_got hpop).1
        have hsum := sum_update_add Worker.remaining σ.workers i (.running req)
        rw [hi] at hsum
        refine ⟨⟨⟨hτ, h.2⟩, rfl⟩, ?_⟩
        simp only [remaining, Worker.remaining, hqueue, List.length_cons] at hsum ⊢
        omega
    · rename_i req hi
      obtain rfl := Option.some.inj hstep
      have hsum := sum_update_add Worker.remaining σ.workers i .popping
      rw [hi] at hsum
      refine ⟨⟨⟨hτ, h.2⟩, rfl⟩, ?_⟩
      simp only [remaining, Worker.remaining] at hsum ⊢
      omega
    · cases hstep

/-- **The destructor never gets stuck.** -/
theorem Closing.progress (h : σ.Closing) : σ.Destroyed ∨ ∃ a τ, σ.step a = some τ := by
  obtain ⟨k, hk⟩ := Option.ne_none_iff_exists'.mp h.2
  rcases Nat.lt_or_ge k n with hlt | hge
  · -- the thread that is being joined goes on, or has returned
    right
    cases hw : σ.workers ⟨k, hlt⟩ with
    | popping => exact ⟨.work ⟨k, hlt⟩, σ.tryPop ⟨k, hlt⟩, by simp [ThreadPool.step, hw]⟩
    | running req => exact ⟨.work ⟨k, hlt⟩, _, by simp [ThreadPool.step, hw]; rfl⟩
    | returned => exact ⟨.join, _, by simp [ThreadPool.step, hk, hlt, hw]; rfl⟩
  · left
    rw [Destroyed, hk, le_antisymm (h.1.joined k hk).1 hge]

/-- **The destructor returns**: once it has begun, the steps of the workers come to an end, and they end
only when every thread has been joined. -/
theorem Closing.returns {as : List (PoolAct n Req)} (h : σ.Closing)
    (hexec : (poolMachine n Req).exec σ as = some τ) :
    τ.appended = σ.appended ∧ as.length ≤ σ.remaining ∧
      (τ.Destroyed ∨ ∃ a υ, τ.step a = some υ) := by
  obtain ⟨⟨hτ, hsame⟩, hlen⟩ := Machine.length_le_of_exec remaining
    (I := fun τ => τ.Closing ∧ τ.appended = σ.appended) (fun s a _ t hs hst => by
      obtain ⟨⟨ht, heq⟩, hlt⟩ := hs.1.step hst
      exact ⟨⟨ht, heq.trans hs.2⟩, hlt⟩) ⟨h, rfl⟩ hexec
  exact ⟨hsame, by omega, hτ.progress⟩

/-- **A pool of one worker or more that has been destroyed** has run everything. -/
theorem Orderly.destroyed (h : σ.Orderly) (hn : 1 ≤ n) (hσ : σ.Destroyed) :
    σ.started = σ.appended ∧ (σ.finished : Multiset Req) = σ.appended := by
  have hall : ∀ i, σ.workers i = .returned := fun i => (h.joined n hσ).2 i i.isLt
  have hempty : σ.requests.queue = [] := (h.returned ⟨0, hn⟩ (hall _)).1
  have hstarted : σ.started = σ.appended := by
    rw [h.order, hempty, List.append_nil]
  refine ⟨hstarted, ?_⟩
  have hrunning : σ.running = 0 := by simp [running, hall, Worker.holding]
  rw [← hstarted, ← h.counted, hrunning, add_zero]

end ThreadPool

end DedupServer
