import DedupServer.Threads.Fifo

/-! # What every thread may rely on

`BlockQueue` is a bounded FIFO for any number of threads, whatever order they take the lock in, and
whenever a waiting thread goes on (`block_queue_fifo`). -/

namespace DedupServer

open Foundations

variable {ι α : Type*} [DecidableEq ι] {σ : QueueSystem ι α} {size : ℕ}

/-- **`BlockQueue` is a bounded FIFO.** In every state that any interleaving of any number of threads
can reach: what has been popped is a prefix of what has been pushed; each thread has been given a part of
it in this order, and all threads together have been given it all and nothing else; the queue is within
its bound; `m_isEmpty` tells whether it is empty. A `pop` returns
false only when the queue is empty and `set_done` has been called, and if nothing is pushed after
that, everything that was pushed has been popped, exactly once and in order. -/
theorem block_queue_fifo
    (h : (queueMachine ι α).Run Machine.anyAction (QueueSystem.init size) σ) :
    σ.popped <+: σ.pushed ∧
    (∀ i, (σ.returned i).reduceOption.Sublist σ.popped) ∧
    (∃ callers : Finset ι, (∀ i ∉ callers, σ.returned i = []) ∧
      ∑ i ∈ callers, ((σ.returned i).reduceOption : Multiset α) = σ.popped) ∧
    σ.queue.queue.length ≤ size ∧
    (σ.queue.isEmpty = true ↔ σ.queue.queue = []) ∧
    ∀ a τ i, σ.step a = some τ → τ.returned i = σ.returned i ++ [none] →
      σ.queue.queue = [] ∧ σ.doneCalled = true ∧
      ∀ υ, (queueMachine ι α).Run Machine.anyAction τ υ → υ.pushed = τ.pushed →
        υ.popped = υ.pushed := by
  have hfifo := QueueSystem.fifo h
  refine ⟨?_, hfifo.returned, QueueSystem.handed h, ?_, ?_, ?_⟩
  · rw [hfifo.order]
    exact List.prefix_append _ _
  · rw [← hfifo.size]
    exact hfifo.good.bounded
  · rw [hfifo.good.flag, List.isEmpty_iff]
  · intro a τ i hstep hfalse
    obtain ⟨hempty, hdone, hempty'⟩ := QueueSystem.finished_of_step hstep hfalse
    refine ⟨hempty, hfifo.done hdone, fun υ hυ hsame => ?_⟩
    have hτ : τ.Fifo size := hfifo.moves (QueueSystem.moves_of_step hstep)
    have hfifo' : υ.Fifo size := by
      apply QueueSystem.fifo
      exact (h.tail hstep trivial).trans hυ
    -- everything had been popped when the call returned, and nothing has come since
    have hall : τ.popped = τ.pushed := by
      rw [hτ.order, hempty', List.append_nil]
    have hprefix := QueueSystem.popped_prefix hυ
    rw [hall, ← hsame] at hprefix
    have hprefix' : υ.popped <+: υ.pushed := by
      rw [hfifo'.order]
      exact List.prefix_append _ _
    exact hprefix'.eq_of_length_le hprefix.length_le

/-- Two producers and two consumers on a queue of one element: a push waits until the first element has
been popped, each consumer gets one element, and then a `pop` returns false. -/
theorem block_queue_fifo_sample : ∃ σ : QueueSystem ℕ ℕ,
    (queueMachine ℕ ℕ).Run Machine.anyAction (QueueSystem.init 1) σ ∧
      σ.pushed = [7, 9] ∧ σ.returned 2 = [some 7] ∧ σ.returned 3 = [some 9, none] ∧
      σ.popped <+: σ.pushed ∧ ∃ callers : Finset ℕ, (∀ i ∉ callers, σ.returned i = []) ∧
        ∑ i ∈ callers, ((σ.returned i).reduceOption : Multiset ℕ) = σ.popped := by
  have hrun : ((queueMachine ℕ ℕ).exec (QueueSystem.init 1) [.push 0 7, .push 1 9, .resume 1,
      .pop 2, .pop 3, .resume 3, .resume 1, .resume 3, .pop 3, .setDone 0, .resume 3]).any
        (fun σ => decide (σ.pushed = [7, 9] ∧ σ.returned 2 = [some 7] ∧
          σ.returned 3 = [some 9, none])) = true := by
    decide
  obtain ⟨σ, hσ, hrun⟩ := (Option.any_eq_true _ _).mp hrun
  obtain ⟨hpushed, hfirst, hsecond⟩ := of_decide_eq_true hrun
  have hreach : (queueMachine ℕ ℕ).Run Machine.anyAction (QueueSystem.init 1) σ :=
    Machine.run_of_exec (fun _ _ _ _ => trivial) hσ
  obtain ⟨hpopped, -, hhanded, -⟩ := block_queue_fifo hreach
  exact ⟨σ, hreach, hpushed, hfirst, hsecond, hpopped, hhanded⟩

end DedupServer
