import DedupServer.Threads.SharedPool

/-! # Releasing a connection again

A repeated release is harmless exactly if its connection is free (`repeated_release_iff`). One that has been
handed to another thread is listed as free while that thread holds it (`repeated_release_shares`). -/

namespace DedupServer

open Foundations

namespace SharedPool

variable {ι Conn : Type*} [DecidableEq ι] [DecidableEq Conn] [Fintype ι] {σ τ : SharedPool ι Conn}
  {conns : List Conn} {i : ι} {conn : Conn} {w : Option ι}

/-- A repeated release of a connection that is not free puts it into the list. -/
theorem connpool_of_again (hstep : σ.step (.again i conn w) = some τ) (hbusy : conn ∉ σ.free.connpool) :
    τ.free.connpool = σ.free.connpool ++ [conn] := by
  simp only [step] at hstep
  split at hstep
  · rw [releaseConnection, if_neg hbusy] at hstep
    obtain ⟨users, -, rfl⟩ := Option.map_eq_some_iff.mp hstep
    rfl
  · cases hstep

/-- **It is held by a thread then**, and listed as free. -/
theorem not_safe_of_again (h : σ.Kept conns) (hstep : σ.step (.again i conn w) = some τ)
    (hbusy : conn ∉ σ.free.connpool) : ¬ τ.Safe := by
  have hlist := connpool_of_again hstep hbusy
  simp only [step] at hstep
  split at hstep
  · rename_i hi
    obtain ⟨j, hj⟩ := h.exists_held hi.2 hbusy
    rw [releaseConnection, if_neg hbusy] at hstep
    obtain ⟨users, husers, rfl⟩ := Option.map_eq_some_iff.mp hstep
    intro hsafe
    rw [← (users_notifyOne husers j).1] at hj
    exact hsafe.listed j conn hj (hlist ▸ List.mem_append_right _ List.mem_cons_self)
  · cases hstep

end SharedPool

variable {ι Conn : Type*} [DecidableEq ι] [DecidableEq Conn] [Fintype ι] {σ : SharedPool ι Conn}
  {conns : List Conn}

/-- **When releasing a connection again is harmless.** In every state that any interleaving of any number of
threads reaches in which each repeated release finds its connection free: no connection is held by two
threads, or listed as free while it is held; and the next repeated release leaves the pool as it is, and
safe, if and only if its connection is free. -/
theorem repeated_release_iff (hconns : conns.Nodup)
    (h : (sharedPoolMachine ι Conn).Run SharedPool.careful (SharedPool.init conns) σ) :
    σ.Safe ∧ ∀ i conn w τ, σ.step (.again i conn w) = some τ →
      (τ.free = σ.free ↔ conn ∈ σ.free.connpool) ∧ (τ.Safe ↔ conn ∈ σ.free.connpool) := by
  have hkept := SharedPool.kept hconns h
  have hsafe := hkept.safe hconns
  refine ⟨hsafe, fun i conn w τ hstep => ?_⟩
  by_cases hfree : conn ∈ σ.free.connpool
  · have hsame : τ = σ := by
      simp only [SharedPool.step] at hstep
      split at hstep
      · exact SharedPool.releaseConnection_of_mem hfree hstep
      · cases hstep
    rw [hsame]
    exact ⟨iff_of_true rfl hfree, iff_of_true hsafe hfree⟩
  · refine ⟨iff_of_false (fun heq => ?_) hfree,
      iff_of_false (SharedPool.not_safe_of_again hkept hstep hfree) hfree⟩
    -- the list has become longer
    have hlen := congrArg List.length (SharedPool.connpool_of_again hstep hfree)
    rw [heq, List.length_append, List.length_singleton] at hlen
    omega

/-- One connection and two threads: the first releases it twice, and then the second gets it. -/
theorem repeated_release_iff_sample : ∃ σ : SharedPool (Fin 2) ℕ,
    (sharedPoolMachine (Fin 2) ℕ).Run SharedPool.careful (SharedPool.init [7]) σ ∧
      (σ.users 0).released = [7] ∧ (σ.users 1).held = [7] ∧ σ.Safe := by
  have hrun : ((sharedPoolMachine (Fin 2) ℕ).exec (SharedPool.init [7]) [.get 0, .release 0 7 none,
      .again 0 7 none, .get 1]).any (fun σ =>
        decide ((σ.users 0).released = [7] ∧ (σ.users 1).held = [7])) = true := by
    decide
  have hcareful : (sharedPoolMachine (Fin 2) ℕ).StepsMeet SharedPool.careful (SharedPool.init [7])
      [.get 0, .release 0 7 none, .again 0 7 none, .get 1] := by
    decide
  obtain ⟨σ, hσ, hrun⟩ := (Option.any_eq_true _ _).mp hrun
  obtain ⟨hreleased, hheld⟩ := of_decide_eq_true hrun
  have hreach := hcareful.run hσ
  exact ⟨σ, hreach, hreleased, hheld, (repeated_release_iff (by decide) hreach).1⟩

/-- **A connection is shared.** The first thread releases its connection, the second gets it, the first
releases it again, and the third gets it as well. -/
theorem repeated_release_shares : ∃ σ : SharedPool (Fin 3) ℕ,
    (sharedPoolMachine (Fin 3) ℕ).Run Machine.anyAction (SharedPool.init [7]) σ ∧
      (σ.users 1).held = [7] ∧ (σ.users 2).held = [7] ∧ ¬ σ.Safe := by
  have hrun : ((sharedPoolMachine (Fin 3) ℕ).exec (SharedPool.init [7]) [.get 0, .release 0 7 none, .get 1,
      .again 0 7 none, .get 2]).any (fun σ => decide ((σ.users 1).held = [7] ∧ (σ.users 2).held = [7])) =
        true := by
    decide
  obtain ⟨σ, hσ, hrun⟩ := (Option.any_eq_true _ _).mp hrun
  obtain ⟨hsecond, hthird⟩ := of_decide_eq_true hrun
  refine ⟨σ, Machine.run_of_exec (fun _ _ _ _ => trivial) hσ, hsecond, hthird, fun hsafe => ?_⟩
  have hsame : (1 : Fin 3) = 2 := hsafe.alone 1 2 7 (by simp [hsecond]) (by simp [hthird])
  exact absurd hsame (by decide)

end DedupServer
