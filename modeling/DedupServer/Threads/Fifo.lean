import DedupServer.Threads.BlockQueue
import Mathlib.Algebra.BigOperators.Group.Finset.Basic
import Mathlib.Algebra.Order.Group.Multiset

/-! # `BlockQueue` is a bounded FIFO

What has been pushed is what has been popped, followed by what is in the queue
(`QueueSystem.Fifo`), and what has been popped is what the pops of all threads have returned
(`QueueSystem.Handed`). Every step of every thread keeps this, whoever waits and whenever he goes on
(`Fifo.moves`, `Handed.moves`), so it holds along every run (`QueueSystem.fifo`, `QueueSystem.handed`).
What the threads do to the queue is what the sessions do to theirs
(`QueueSystem.refines_sessionQueue`). -/

namespace DedupServer

open Foundations

variable {ι α : Type*} [DecidableEq ι] {σ τ υ : QueueSystem ι α} {a : QueueAct ι α} {size : ℕ}

namespace QueueSystem

/-- **What a step can do**: a thread waits, or reads; an element is pushed; an element is popped; a
`pop` returns false; or the queue is set done. -/
inductive Moves (σ : QueueSystem ι α) : QueueSystem ι α → Prop
  | quiet (threads : ι → QueueThread α) : Moves σ { σ with threads := threads }
  | push {i : ι} {e : α} {q : BlockQueueState α} (h : σ.queue.push e = some q) :
      Moves σ { σ with
        queue := q
        threads := Function.update σ.threads i .outside
        pushed := σ.pushed ++ [e] }
  | pop {i : ι} {e : α} {q : BlockQueueState α} (h : σ.queue.pop = .got e q) :
      Moves σ { σ with
        queue := q
        threads := Function.update σ.threads i .outside
        returned := Function.update σ.returned i (σ.returned i ++ [some e])
        popped := σ.popped ++ [e] }
  | finish {i : ι} (h : σ.queue.pop = .finished) :
      Moves σ { σ with
        threads := Function.update σ.threads i .outside
        returned := Function.update σ.returned i (σ.returned i ++ [none]) }
  | setDone : Moves σ { σ with queue := σ.queue.setDone, doneCalled := true }

theorem moves_tryPush (σ : QueueSystem ι α) (i : ι) (e : α) : σ.Moves (σ.tryPush i e) := by
  unfold tryPush
  split
  · exact .quiet _
  · rename_i q h
    exact .push h

theorem moves_tryPop (σ : QueueSystem ι α) (i : ι) : σ.Moves (σ.tryPop i) := by
  unfold tryPop
  split
  · exact .quiet _
  · rename_i h
    exact .finish h
  · rename_i e q h
    exact .pop h

/-- **Every step** is one of `Moves`. -/
theorem moves_of_step (h : σ.step a = some τ) : σ.Moves τ := by
  cases a with
  | push i e =>
    simp only [step] at h
    split at h
    · obtain rfl := Option.some.inj h
      exact moves_tryPush σ i e
    · cases h
  | pop i =>
    simp only [step] at h
    split at h
    · obtain rfl := Option.some.inj h
      exact moves_tryPop σ i
    · cases h
  | empty i =>
    simp only [step] at h
    split at h
    · obtain rfl := Option.some.inj h
      exact .quiet σ.threads
    · cases h
  | setDone i =>
    simp only [step] at h
    split at h
    · obtain rfl := Option.some.inj h
      exact .setDone
    · cases h
  | resume i =>
    simp only [step] at h
    split at h
    · rename_i e _
      obtain rfl := Option.some.inj h
      exact moves_tryPush σ i e
    · obtain rfl := Option.some.inj h
      exact moves_tryPop σ i
    · cases h

/-- **The queue is a bounded FIFO.** -/
structure Fifo (size : ℕ) (σ : QueueSystem ι α) : Prop where
  good : σ.queue.Good
  size : σ.queue.size = size
  order : σ.pushed = σ.popped ++ σ.queue.queue
  done : σ.queue.done = true → σ.doneCalled = true
  returned : ∀ i, (σ.returned i).reduceOption.Sublist σ.popped

omit [DecidableEq ι] in
theorem fifo_init (size : ℕ) : (init size : QueueSystem ι α).Fifo size where
  good := BlockQueueState.good_new size
  size := rfl
  order := rfl
  done := by simp [init, BlockQueueState.new]
  returned := fun i => List.nil_sublist _

/-- What a thread has been given stays part of what has been popped. -/
theorem reduceOption_update_sublist {returned : ι → List (Option α)} {popped : List α}
    (h : ∀ i, (returned i).reduceOption.Sublist popped) (i : ι) (r : Option α) (j : ι) :
    (Function.update returned i (returned i ++ [r]) j).reduceOption.Sublist
      (popped ++ r.toList) := by
  by_cases hj : j = i
  · subst hj
    rw [Function.update_self, List.reduceOption_append]
    apply List.Sublist.append (h j)
    cases r with
    | none => exact List.Sublist.refl _
    | some e => exact List.Sublist.refl _
  · rw [Function.update_of_ne hj]
    exact (h j).trans (List.sublist_append_left _ _)

/-- **A step keeps the order.** -/
theorem Fifo.moves (h : σ.Fifo size) (hmoves : σ.Moves τ) : τ.Fifo size := by
  cases hmoves with
  | quiet threads => exact ⟨h.good, h.size, h.order, h.done, h.returned⟩
  | @push i e q hpush =>
    obtain ⟨hqueue, hsize, hdone, -⟩ := BlockQueueState.push_eq_some hpush
    refine ⟨h.good.push hpush, hsize.trans h.size, ?_, ?_, h.returned⟩
    · rw [h.order, hqueue, List.append_assoc]
    · intro hq
      exact h.done (hdone ▸ hq)
  | @pop i e q hpop =>
    obtain ⟨hqueue, hsize, hdone, -⟩ := BlockQueueState.pop_eq_got hpop
    refine ⟨h.good.pop hpop, hsize.trans h.size, ?_, ?_, ?_⟩
    · rw [h.order, hqueue, List.append_assoc]
      rfl
    · intro hq
      exact h.done (hdone ▸ hq)
    · intro j
      exact reduceOption_update_sublist h.returned i (some e) j
  | @finish i hpop =>
    refine ⟨h.good, h.size, h.order, h.done, fun j => ?_⟩
    have hsub := reduceOption_update_sublist h.returned i none j
    rwa [Option.toList_none, List.append_nil] at hsub
  | setDone =>
    exact ⟨⟨h.good.bounded, h.good.flag⟩, h.size, h.order, fun _ => rfl, h.returned⟩

/-- **In every state that can be reached** the queue is a bounded FIFO. -/
theorem fifo (h : (queueMachine ι α).Run Machine.anyAction (init size) σ) : σ.Fifo size := by
  refine h.invariant ?_ (fifo_init size)
  intro σ a τ hσ hstep _
  exact hσ.moves (moves_of_step hstep)

/-- **What has been popped stays popped.** -/
theorem popped_prefix (h : (queueMachine ι α).Run Machine.anyAction σ τ) :
    σ.popped <+: τ.popped := by
  refine h.invariant (I := fun τ => σ.popped <+: τ.popped) ?_ List.prefix_rfl
  intro τ a υ hτ hstep _
  cases moves_of_step hstep with
  | quiet | push | finish | setDone => exact hτ
  | pop => exact hτ.trans (List.prefix_append _ _)

/-- **What has been popped is what the pops have returned**, those of all threads together: only some
threads have called `pop`, and nothing else has been popped. -/
def Handed (σ : QueueSystem ι α) : Prop := ∃ callers : Finset ι,
  (∀ i ∉ callers, σ.returned i = []) ∧
    ∑ i ∈ callers, ((σ.returned i).reduceOption : Multiset α) = σ.popped

omit [DecidableEq ι] in
theorem handed_init (size : ℕ) : (init size : QueueSystem ι α).Handed :=
  ⟨∅, fun _ _ => rfl, rfl⟩

/-- What one more call returns is counted once. -/
theorem Handed.returned (h : σ.Handed) (i : ι) (r : Option α)
    (hreturned : τ.returned = Function.update σ.returned i (σ.returned i ++ [r]))
    (hpopped : τ.popped = σ.popped ++ r.toList) : τ.Handed := by
  obtain ⟨callers, hothers, hsum⟩ := h
  have hmem : i ∈ insert i callers := Finset.mem_insert_self i callers
  refine ⟨insert i callers, fun j hj => ?_, ?_⟩
  · obtain ⟨hji, hj⟩ := not_or.mp (mt Finset.mem_insert.mpr hj)
    rw [hreturned, Function.update_of_ne hji, hothers j hj]
  · have hbefore : ∑ j ∈ insert i callers, ((σ.returned j).reduceOption : Multiset α) = σ.popped := by
      rw [← hsum]
      refine (Finset.sum_subset (Finset.subset_insert i callers) fun j _ hj => ?_).symm
      rw [hothers j hj]
      rfl
    have hrest : ∑ j ∈ (insert i callers).erase i, ((τ.returned j).reduceOption : Multiset α) =
        ∑ j ∈ (insert i callers).erase i, ((σ.returned j).reduceOption : Multiset α) := by
      refine Finset.sum_congr rfl fun j hj => ?_
      rw [hreturned, Function.update_of_ne (Finset.ne_of_mem_erase hj)]
    have hcall : ((τ.returned i).reduceOption : Multiset α) =
        (σ.returned i).reduceOption + (r.toList : Multiset α) := by
      rw [hreturned, Function.update_self, List.reduceOption_append, Multiset.coe_add]
      cases r <;> rfl
    rw [← Finset.add_sum_erase _ _ hmem, hrest, hcall, hpopped, ← Multiset.coe_add, ← hbefore,
      ← Finset.add_sum_erase _ _ hmem, add_right_comm]

/-- **A step keeps it.** -/
theorem Handed.moves (h : σ.Handed) (hmoves : σ.Moves τ) : τ.Handed := by
  cases hmoves with
  | quiet | push | setDone => exact h
  | @pop i e q => exact h.returned i (some e) rfl rfl
  | @finish i => exact h.returned i none rfl (List.append_nil _).symm

/-- **In every state that can be reached** the pops have returned what has been popped. -/
theorem handed (h : (queueMachine ι α).Run Machine.anyAction (init size) σ) : σ.Handed := by
  refine h.invariant ?_ (handed_init size)
  intro σ a τ hσ hstep _
  exact hσ.moves (moves_of_step hstep)

/-- **A `pop` that returns false** finds the queue empty and done. -/
theorem finished_of_step (h : σ.step a = some τ) {i : ι}
    (hfalse : τ.returned i = σ.returned i ++ [none]) :
    σ.queue.queue = [] ∧ σ.queue.done = true ∧ τ.queue.queue = [] := by
  have hne : σ.returned i ≠ σ.returned i ++ [none] := by simp
  cases moves_of_step h with
  | quiet | push | setDone => exact absurd hfalse hne
  | @pop j e q hpop =>
    exfalso
    by_cases hij : i = j
    · subst hij
      simp at hfalse
    · dsimp only at hfalse
      rw [Function.update_of_ne hij] at hfalse
      exact hne hfalse
  | finish hpop =>
    obtain ⟨hqueue, hdone⟩ := BlockQueueState.pop_eq_finished hpop
    exact ⟨hqueue, hdone, hqueue⟩

/-- **The threads do what the sessions see**: whatever waits and goes on in between, the calls that have
finished are calls on the queue of the sessions. -/
theorem refines_sessionQueue {α : Type} {σ : QueueSystem ι α}
    (h : (queueMachine ι α).Run Machine.anyAction (init size) σ) :
    (sessionQueue α).Run Machine.anyAction BlockQueue.empty σ.queue.abs := by
  refine h.invariant (I := fun σ => (sessionQueue α).Run Machine.anyAction BlockQueue.empty σ.queue.abs)
    ?_ (.refl _)
  intro σ a τ hσ hstep _
  cases moves_of_step hstep with
  | quiet | finish => exact hσ
  | push hpush => exact hσ.tail (BlockQueueState.abs_push hpush) trivial
  | pop hpop => exact hσ.tail (BlockQueueState.abs_pop hpop) trivial
  | setDone => exact hσ.tail (BlockQueueState.abs_setDone _) trivial

end QueueSystem

end DedupServer
