import DedupServer.Threads.Sleepers

/-! # No producer sleeps through free space

A lost wake-up of a `push` would never be made good, since its wait has no time-out. None is lost
(`no_producer_forgotten`), although a thread that has just called may take the place for which a sleeper has
been notified. -/

namespace DedupServer

open Foundations

variable {ι α : Type*} [Fintype ι] [DecidableEq ι] {σ : SleepingQueue ι α} {size : ℕ}

/-- **No producer sleeps through free space.** In every state that any interleaving of any number of threads
can reach, whomever `notify_one` wakes and whoever wakes by itself: while a producer sleeps un-notified, the
queued elements and the producers that have been notified and have not resumed are together at least as many
as the queue has places. So there is no room of which no producer has been told. -/
theorem no_producer_forgotten
    (h : (sleepingMachine ι α).Run Machine.anyAction (SleepingQueue.init size) σ)
    (hsleeps : ∃ i e, σ.callers i = .pushing e .asleep) :
    size ≤ σ.queue.queue.length + σ.woken ∧ ¬ (σ.queue.queue.length < size ∧ σ.woken = 0) := by
  obtain ⟨i, e, hi⟩ := hsleeps
  have hkept := SleepingQueue.kept h
  have hne : σ.sleepers ≠ 0 := CondVar.sleepers_ne_zero (k := i) (b := .pushing e .notified) (by rw [hi]; rfl)
  have hfree := hkept.covered hne
  constructor
  · omega
  · omega

/-- One place and four threads: two producers sleep, a `pop` notifies the first of them, and another thread
pushes before it resumes. -/
theorem no_producer_forgotten_sample : ∃ σ : SleepingQueue (Fin 4) ℕ,
    (sleepingMachine (Fin 4) ℕ).Run Machine.anyAction (SleepingQueue.init 1) σ ∧
      σ.callers 2 = .pushing 9 .asleep ∧ σ.queue.queue = [5] ∧ σ.woken = 1 ∧
        1 ≤ σ.queue.queue.length + σ.woken := by
  have hrun : ((sleepingMachine (Fin 4) ℕ).exec (SleepingQueue.init 1) [.push 0 7 none, .push 1 8 none,
      .push 2 9 none, .pop 3 (some 1), .push 0 5 none]).any (fun σ =>
        decide (σ.callers 2 = .pushing 9 .asleep ∧ σ.queue.queue = [5] ∧ σ.woken = 1)) = true := by
    decide
  obtain ⟨σ, hσ, hrun⟩ := (Option.any_eq_true _ _).mp hrun
  obtain ⟨hsleeps, hqueue, hwoken⟩ := of_decide_eq_true hrun
  have hreach : (sleepingMachine (Fin 4) ℕ).Run Machine.anyAction (SleepingQueue.init 1) σ :=
    Machine.run_of_exec (fun _ _ _ _ => trivial) hσ
  exact ⟨σ, hreach, hsleeps, hqueue, hwoken, (no_producer_forgotten hreach ⟨2, 9, hsleeps⟩).1⟩

end DedupServer
