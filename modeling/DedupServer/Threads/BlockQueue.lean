import DedupServer.Foundations.Machine
import DedupServer.Model.Define
import Mathlib.Data.List.ReduceOption
import Mathlib.Logic.Function.Basic

/-! # `BlockQueue` with its threads

`BlockQueue<T>` as it is written: `push` waits while the queue is full, `pop` waits while it is empty
and returns false once it is empty and done. What a thread does between taking the lock and either
releasing it or waiting is one step (`BlockQueueState.push`, `BlockQueueState.pop`); `empty` and
`set_done` take no lock. A thread that waits may go on at any time, notified, spuriously or after a
timeout, and then tests its condition again.

`BlockQueueState.abs` is the queue of `Define`, which the sessions use one finished call at a time
(`sessionQueue`). -/

namespace DedupServer

open Foundations

/-- The fields of `BlockQueue<T>` that the mutex protects, and the done flag. -/
structure BlockQueueState (α : Type*) where
  queue : List α
  size : ℕ
  isEmpty : Bool
  done : Bool

/-- What `pop` does when it has the lock: wait, return false, or return an element. -/
inductive PopResult (α : Type*)
  | wait
  | finished
  | got (e : α) (q : BlockQueueState α)

namespace BlockQueueState

variable {α : Type*}

/-- The constructor. -/
def new (size : ℕ) : BlockQueueState α := ⟨[], size, true, false⟩

/-- `push`, unless it has to wait for room. -/
def push (q : BlockQueueState α) (e : α) : Option (BlockQueueState α) :=
  if q.queue.length = q.size then none
  else some { q with queue := q.queue ++ [e], isEmpty := false }

/-- `pop`. -/
def pop (q : BlockQueueState α) : PopResult α :=
  match q.queue with
  | [] => if q.done then .finished else .wait
  | e :: rest => .got e { q with
      queue := rest
      isEmpty := if rest.isEmpty then true else q.isEmpty }

/-- `empty`. -/
def empty (q : BlockQueueState α) : Bool := q.isEmpty

/-- `set_done`. -/
def setDone (q : BlockQueueState α) : BlockQueueState α := { q with done := true }

/-- `undone`. -/
def undone (q : BlockQueueState α) : BlockQueueState α := { q with done := false }

/-- **What is true of the queue whenever the lock is free.** -/
structure Good (q : BlockQueueState α) : Prop where
  bounded : q.queue.length ≤ q.size
  flag : q.isEmpty = q.queue.isEmpty

variable {q q' : BlockQueueState α} {e : α}

theorem good_new (size : ℕ) : (new size : BlockQueueState α).Good := ⟨Nat.zero_le _, rfl⟩

/-- **What `push` does.** -/
theorem push_eq_some (h : q.push e = some q') :
    q'.queue = q.queue ++ [e] ∧ q'.size = q.size ∧ q'.done = q.done ∧ q'.isEmpty = false ∧
      q.queue.length ≠ q.size := by
  unfold push at h
  split at h
  · cases h
  · rename_i hroom
    obtain rfl := Option.some.inj h
    exact ⟨rfl, rfl, rfl, rfl, hroom⟩

/-- `push` waits while the queue is full. -/
theorem push_eq_none (h : q.push e = none) : q.queue.length = q.size := by
  unfold push at h
  split at h
  · assumption
  · cases h

/-- **What `pop` does** when it returns an element. -/
theorem pop_eq_got (h : q.pop = .got e q') :
    q.queue = e :: q'.queue ∧ q'.size = q.size ∧ q'.done = q.done ∧
      q'.isEmpty = if q'.queue.isEmpty then true else q.isEmpty := by
  unfold pop at h
  split at h
  · split at h <;> cases h
  · rename_i x rest hq
    cases h
    exact ⟨hq, rfl, rfl, rfl⟩

/-- `pop` returns false on an empty queue that is done. -/
theorem pop_eq_finished (h : q.pop = .finished) : q.queue = [] ∧ q.done = true := by
  unfold pop at h
  split at h
  · rename_i hq
    split at h
    · rename_i hdone
      exact ⟨hq, hdone⟩
    · cases h
  · cases h

/-- `pop` waits while the queue is empty and not done. -/
theorem pop_eq_wait (h : q.pop = .wait) : q.queue = [] ∧ q.done = false := by
  unfold pop at h
  split at h
  · rename_i hq
    split at h
    · cases h
    · rename_i hdone
      exact ⟨hq, Bool.eq_false_iff.mpr hdone⟩
  · cases h

/-- `pop` does not wait on a queue that is done. -/
theorem pop_ne_wait (h : q.done = true) : q.pop ≠ .wait := by
  unfold pop
  split
  · simp [h]
  · simp

/-- `push` leaves the queue good. -/
theorem Good.push (h : q.Good) (hpush : q.push e = some q') : q'.Good := by
  obtain ⟨hqueue, hsize, -, hempty, hroom⟩ := push_eq_some hpush
  have hbound := h.bounded
  constructor
  · rw [hqueue, hsize, List.length_append, List.length_singleton]
    omega
  · rw [hempty, hqueue]
    simp

/-- `pop` leaves the queue good. -/
theorem Good.pop (h : q.Good) (hpop : q.pop = .got e q') : q'.Good := by
  obtain ⟨hqueue, hsize, -, hempty⟩ := pop_eq_got hpop
  have hbound := h.bounded
  constructor
  · rw [hqueue, List.length_cons] at hbound
    rw [hsize]
    omega
  · rw [hempty, h.flag, hqueue]
    cases q'.queue <;> rfl

end BlockQueueState

/-! ## The queue of the sessions -/

/-- A call of the sessions that finishes. -/
inductive QueueCall (α : Type)
  | push (e : α)
  | pop
  | setDone

/-- **The queue as the sessions use it**: a call is one step. -/
def sessionQueue (α : Type) : Machine (BlockQueue α) (QueueCall α) where
  step q
    | .push e => some (q.push e)
    | .pop => match q.queue with
      | [] => none
      | _ :: rest => some { q with queue := rest }
    | .setDone => some q.setDone

namespace BlockQueueState

variable {α : Type} {q q' : BlockQueueState α} {e : α}

/-- The queue seen one finished call at a time. -/
def abs (q : BlockQueueState α) : BlockQueue α := ⟨q.queue, q.done⟩

/-- A `push` that has finished is a `push` of the sessions. -/
theorem abs_push (h : q.push e = some q') : (sessionQueue α).step q.abs (.push e) = some q'.abs := by
  obtain ⟨hqueue, -, hdone, -⟩ := push_eq_some h
  simp only [sessionQueue, BlockQueue.push, abs, hqueue, hdone]

/-- A `pop` that has returned an element has taken the first one. -/
theorem abs_pop (h : q.pop = .got e q') : (sessionQueue α).step q.abs .pop = some q'.abs := by
  obtain ⟨hqueue, -, hdone, -⟩ := pop_eq_got h
  simp only [sessionQueue, abs, hqueue, hdone]

theorem abs_setDone (q : BlockQueueState α) :
    (sessionQueue α).step q.abs .setDone = some q.setDone.abs := rfl

end BlockQueueState

/-! ## The threads -/

/-- Where a thread is: outside of the queue, or in a call that waits. -/
inductive QueueThread (α : Type*)
  | outside
  | pushing (e : α)
  | popping

/-- The queue, its threads, and what has happened: what the pops of each thread have returned (`none`
for false), the elements pushed and popped in order, and whether `set_done` has been called. -/
structure QueueSystem (ι α : Type*) where
  queue : BlockQueueState α
  threads : ι → QueueThread α
  returned : ι → List (Option α)
  pushed : List α
  popped : List α
  doneCalled : Bool

/-- What a thread does next: call a method, or go on in a call that waits. -/
inductive QueueAct (ι α : Type*)
  | push (i : ι) (e : α)
  | pop (i : ι)
  | empty (i : ι)
  | setDone (i : ι)
  | resume (i : ι)

namespace QueueSystem

variable {ι α : Type*} [DecidableEq ι]

/-- A new queue, with no thread in it. -/
def init (size : ℕ) : QueueSystem ι α := ⟨.new size, fun _ => .outside, fun _ => [], [], [], false⟩

/-- Thread `i` has the lock in `push`. -/
def tryPush (σ : QueueSystem ι α) (i : ι) (e : α) : QueueSystem ι α :=
  match σ.queue.push e with
  | none => { σ with threads := Function.update σ.threads i (.pushing e) }
  | some q => { σ with
      queue := q
      threads := Function.update σ.threads i .outside
      pushed := σ.pushed ++ [e] }

/-- Thread `i` has the lock in `pop`. -/
def tryPop (σ : QueueSystem ι α) (i : ι) : QueueSystem ι α :=
  match σ.queue.pop with
  | .wait => { σ with threads := Function.update σ.threads i .popping }
  | .finished => { σ with
      threads := Function.update σ.threads i .outside
      returned := Function.update σ.returned i (σ.returned i ++ [none]) }
  | .got e q => { σ with
      queue := q
      threads := Function.update σ.threads i .outside
      returned := Function.update σ.returned i (σ.returned i ++ [some e])
      popped := σ.popped ++ [e] }

/-- One step. -/
def step (σ : QueueSystem ι α) : QueueAct ι α → Option (QueueSystem ι α)
  | .push i e =>
    match σ.threads i with
    | .outside => some (σ.tryPush i e)
    | _ => none
  | .pop i =>
    match σ.threads i with
    | .outside => some (σ.tryPop i)
    | _ => none
  | .empty i =>
    match σ.threads i with
    | .outside => some σ
    | _ => none
  | .setDone i =>
    match σ.threads i with
    | .outside => some { σ with queue := σ.queue.setDone, doneCalled := true }
    | _ => none
  | .resume i =>
    match σ.threads i with
    | .pushing e => some (σ.tryPush i e)
    | .popping => some (σ.tryPop i)
    | .outside => none

end QueueSystem

/-- **The threads of a `BlockQueue`**, any number of them. -/
def queueMachine (ι α : Type*) [DecidableEq ι] : Machine (QueueSystem ι α) (QueueAct ι α) where
  step := QueueSystem.step

end DedupServer
