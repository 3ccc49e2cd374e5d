import DedupServer.Threads.ThreadPool

/-! # The thread pool runs each request exactly once

Requests are started in the order in which they are appended, each of them once, and when
`~ThreadPool` returns all of them have been run (`thread_pool_runs_once`). -/

namespace DedupServer

open Foundations

variable {n : ℕ} {Req : Type*} {σ : ThreadPool n Req} {queueSize : ℕ}

/-- **The pool runs each request exactly once.** In every state that any interleaving of appends, of
workers and of the destructor can reach: the requests started are, one by one and in order, the first
of those appended; each of them has finished or is being run by a worker; when the destructor has
returned all of them have been run. Once it has begun it returns: the steps left are bounded, and they
end only when every worker has been joined. -/
theorem thread_pool_runs_once (hn : 1 ≤ n)
    (h : (poolMachine n Req).Run Machine.anyAction (ThreadPool.new queueSize) σ) :
    σ.started <+: σ.appended ∧
    (σ.finished : Multiset Req) + σ.running = σ.started ∧
    (σ.Destroyed → σ.started = σ.appended ∧ (σ.finished : Multiset Req) = σ.appended) ∧
    (σ.joined ≠ none → ∃ bound, ∀ as τ, (poolMachine n Req).exec σ as = some τ →
      τ.appended = σ.appended ∧ as.length ≤ bound ∧
        (τ.Destroyed ∨ ∃ a υ, τ.step a = some υ)) := by
  have horderly := ThreadPool.orderly h
  refine ⟨?_, horderly.counted, horderly.destroyed hn, ?_⟩
  · rw [horderly.order]
    exact List.prefix_append _ _
  · intro hbegun
    have hclosing : σ.Closing := ⟨horderly, hbegun⟩
    exact ⟨σ.remaining, fun as τ hexec => hclosing.returns hexec⟩

/-- Two workers, a queue of one request and three requests: the third `append` waits, and the destructor
begins while a request is in the queue. -/
theorem thread_pool_runs_once_sample : ∃ σ : ThreadPool 2 ℕ,
    (poolMachine 2 ℕ).Run Machine.anyAction (ThreadPool.new 1) σ ∧
      σ.Destroyed ∧ σ.appended = [7, 8, 9] ∧ σ.started = [7, 8, 9] := by
  have hrun : ((poolMachine 2 ℕ).exec (ThreadPool.new 1) [.append 7, .work 1, .append 8, .append 9,
      .retry 0, .work 0, .retry 0, .work 0, .destroy, .work 0, .work 1, .work 1, .work 0, .work 0,
      .join, .join]).any
        (fun σ => decide (σ.Destroyed ∧ σ.appended = [7, 8, 9])) = true := by
    decide
  obtain ⟨σ, hσ, hrun⟩ := (Option.any_eq_true _ _).mp hrun
  obtain ⟨hdestroyed, happended⟩ := of_decide_eq_true hrun
  have hreach : (poolMachine 2 ℕ).Run Machine.anyAction (ThreadPool.new 1) σ :=
    Machine.run_of_exec (fun _ _ _ _ => trivial) hσ
  have hall := (thread_pool_runs_once (by decide) hreach).2.2.1 hdestroyed
  exact ⟨σ, hreach, hdestroyed, happended, hall.1.trans happended⟩

end DedupServer
