import DedupServer.Threads.MysqlConnPool

/-! # The connection pool

No connection is lost, none is shared, and no getter sleeps through a free connection
(`conn_pool_kept`). -/

namespace DedupServer

open Foundations

variable {Conn : Type*} [DecidableEq Conn] {conns : List Conn} {σ : MysqlConnPool Conn}

/-- **The pool neither loses nor shares a connection, and strands no waiter.** In every state that any
interleaving of `MysqlConn` objects can reach: the counter is the length of the list; no connection is
in the list twice; those in the list and those held by live objects are together the ones the pool was
made of; two live objects hold different connections; and while a getter sleeps un-notified, there are
no more free connections than getters that have been notified and have not resumed. -/
theorem conn_pool_kept (hconns : conns.Nodup)
    (h : (connPoolMachine Conn).Run Machine.anyAction (MysqlConnPool.new conns) σ) :
    σ.freeconn = σ.connpool.length ∧
    σ.connpool.Nodup ∧
    (σ.connpool ++ σ.held).Perm conns ∧
    (∀ (i j : ℕ) (c : Conn), σ.objects[i]? = some (.live c) → σ.objects[j]? = some (.live c) →
      i = j) ∧
    (σ.sleepers ≠ 0 → σ.freeconn ≤ σ.woken) := by
  have hkept := MysqlConnPool.kept hconns h
  have hnodup : (σ.connpool ++ σ.held).Nodup := hkept.conserved.nodup_iff.mpr hconns
  refine ⟨hkept.counter, hnodup.of_append_left, hkept.conserved, ?_, hkept.covered⟩
  intro i j c hi hj
  exact slot_unique hnodup.of_append_right hi hj rfl rfl

/-- One connection and three objects: the second and the third sleep, the release of the first notifies
the third, and a fourth takes the connection before the third resumes. -/
theorem conn_pool_kept_sample : ∃ σ : MysqlConnPool ℕ,
    (connPoolMachine ℕ).Run Machine.anyAction (MysqlConnPool.new [7]) σ ∧
      σ.connpool = [] ∧ σ.held = [7] ∧ σ.sleepers = 1 ∧ σ.woken = 1 ∧ σ.freeconn ≤ σ.woken := by
  have hrun : ((connPoolMachine ℕ).exec (MysqlConnPool.new [7]) [.construct, .getConnection 0,
      .construct, .getConnection 1, .construct, .getConnection 2, .construct, .destruct 0 (some 2),
      .getConnection 3]).any
        (fun σ => decide (σ.connpool = [] ∧ σ.held = [7] ∧ σ.sleepers = 1 ∧ σ.woken = 1)) =
          true := by
    decide
  obtain ⟨σ, hσ, hrun⟩ := (Option.any_eq_true _ _).mp hrun
  obtain ⟨hpool, hheld, hsleepers, hwoken⟩ := of_decide_eq_true hrun
  have hreach : (connPoolMachine ℕ).Run Machine.anyAction (MysqlConnPool.new [7]) σ :=
    Machine.run_of_exec (fun _ _ _ _ => trivial) hσ
  have hkept := conn_pool_kept (by decide) hreach
  refine ⟨σ, hreach, hpool, hheld, hsleepers, hwoken, hkept.2.2.2.2 ?_⟩
  rw [hsleepers]
  exact Nat.one_ne_zero

end DedupServer
