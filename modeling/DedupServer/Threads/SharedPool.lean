import DedupServer.Foundations.Machine
import DedupServer.Threads.MysqlConnPool
import DedupServer.Threads.Sleepers

/-! # `MysqlConnPool` with threads that release twice

The two methods of the pool, called by threads that keep what they get: a thread may call
`release_connection` for a connection that it holds, and again for one that it has released. The scan of the
list in `release_connection` tells whether the connection is free, not who has it. While every repeated
release finds its connection free, the connections in the list and those held are together the ones the pool
was made of (`SharedPool.Kept`). -/

namespace DedupServer

open Foundations

/-- The fields of the pool that its methods change. -/
structure FreeList (Conn : Type*) where
  connpool : List Conn
  freeconn : ℕ
  deriving DecidableEq

namespace FreeList

variable {Conn : Type*}

/-- The end of `get_connection`: `front` and `pop_front`. -/
def fetch (free : FreeList Conn) : Option (Conn × FreeList Conn) :=
  match free.connpool with
  | [] => none
  | conn :: rest => some (conn, ⟨rest, free.freeconn - 1⟩)

/-- The end of `release_connection`: `push_back`. -/
def put (free : FreeList Conn) (conn : Conn) : FreeList Conn :=
  ⟨free.connpool ++ [conn], free.freeconn + 1⟩

end FreeList

/-- A thread: whether it waits in `get_connection`, the connections that it holds, and those that it has
released and not got again. -/
structure PoolUser (Conn : Type*) where
  waits : Option WaitStage
  held : List Conn
  released : List Conn
  deriving DecidableEq

/-- `m_cond_notEmpty` of the pool. -/
def condFree (Conn : Type*) : CondVar (PoolUser Conn) where
  wake user := if user.waits = some .asleep then some { user with waits := some .notified } else none
  notified user := user.waits = some .notified
  notified_of_wake {a b} h := by
    split at h
    · obtain rfl := Option.some.inj h
      rfl
    · cases h
  wake_of_notified {a} h := by
    rw [of_decide_eq_true h]
    rfl

/-- **The pool and its threads.** -/
structure SharedPool (ι Conn : Type*) where
  free : FreeList Conn
  users : ι → PoolUser Conn

/-- The steps: thread `i` calls `get_connection`, goes on in it, or wakes by itself; it releases a
connection that it holds, or one that it has released. A release says whom it notifies. -/
inductive HolderAct (ι Conn : Type*)
  | get (i : ι)
  | resume (i : ι)
  | wake (i : ι)
  | release (i : ι) (conn : Conn) (w : Option ι)
  | again (i : ι) (conn : Conn) (w : Option ι)

namespace SharedPool

variable {ι Conn : Type*}

/-- A new pool, with no thread in it. -/
def init (conns : List Conn) : SharedPool ι Conn :=
  ⟨⟨conns, conns.length⟩, fun _ => ⟨none, [], []⟩⟩

/-- **No connection is held by two threads**, or twice by one, or listed as free while it is held. -/
structure Safe (σ : SharedPool ι Conn) : Prop where
  once : ∀ i, (σ.users i).held.Nodup
  alone : ∀ i j conn, conn ∈ (σ.users i).held → conn ∈ (σ.users j).held → i = j
  listed : ∀ i conn, conn ∈ (σ.users i).held → conn ∉ σ.free.connpool

variable [DecidableEq ι]

/-- Thread `i` becomes `user`. -/
def goto (σ : SharedPool ι Conn) (i : ι) (user : PoolUser Conn) : SharedPool ι Conn :=
  { σ with users := Function.update σ.users i user }

variable [DecidableEq Conn]

/-- `get_connection`, when thread `i` has the lock: it sleeps, or takes the first connection. -/
def getConnection (σ : SharedPool ι Conn) (i : ι) : Option (SharedPool ι Conn) :=
  if σ.free.freeconn = 0 then some (σ.goto i { σ.users i with waits := some .asleep })
  else σ.free.fetch.map fun r => { σ with free := r.2 }.goto i
    { waits := none
      held := r.1 :: (σ.users i).held
      released := (σ.users i).released.filter (· ≠ r.1) }

variable [Fintype ι]

/-- `release_connection`, with the lock: a connection that is in the list already is ignored. -/
def releaseConnection (σ : SharedPool ι Conn) (conn : Conn) (w : Option ι) : Option (SharedPool ι Conn) :=
  if conn ∈ σ.free.connpool then if w.isNone then some σ else none
  else ((condFree Conn).notifyOne σ.users w).map fun users => ⟨σ.free.put conn, users⟩

/-- One step. -/
def step (σ : SharedPool ι Conn) : HolderAct ι Conn → Option (SharedPool ι Conn)
  | .get i => if (σ.users i).waits = none then σ.getConnection i else none
  | .resume i =>
    match (σ.users i).waits with
    | some .notified => σ.getConnection i
    | some .awake => σ.getConnection i
    | _ => none
  | .wake i =>
    if (σ.users i).waits = some .asleep then some (σ.goto i { σ.users i with waits := some .awake })
    else none
  | .release i conn w =>
    if (σ.users i).waits = none ∧ conn ∈ (σ.users i).held then
      (σ.goto i { σ.users i with
        held := (σ.users i).held.erase conn
        released := conn :: (σ.users i).released }).releaseConnection conn w
    else none
  | .again i conn w =>
    if (σ.users i).waits = none ∧ conn ∈ (σ.users i).released then σ.releaseConnection conn w else none

/-- **A repeated release finds its connection free.** -/
def careful : Machine.Condition (SharedPool ι Conn) (HolderAct ι Conn)
  | σ, .again _ conn _, _ => conn ∈ σ.free.connpool
  | _, _, _ => True

instance (σ τ : SharedPool ι Conn) (a : HolderAct ι Conn) : Decidable (careful σ a τ) :=
  match a with
  | .again _ _ _ => inferInstanceAs (Decidable (_ ∈ _))
  | .get _ => inferInstanceAs (Decidable True)
  | .resume _ => inferInstanceAs (Decidable True)
  | .wake _ => inferInstanceAs (Decidable True)
  | .release _ _ _ => inferInstanceAs (Decidable True)

end SharedPool

/-- **A pool whose connections may be released again**, and its threads. -/
def sharedPoolMachine (ι Conn : Type*) [DecidableEq ι] [DecidableEq Conn] [Fintype ι] :
    Machine (SharedPool ι Conn) (HolderAct ι Conn) where
  step := SharedPool.step

namespace SharedPool

variable {ι Conn : Type*} [Fintype ι] {σ τ : SharedPool ι Conn}
  {conns : List Conn} {i : ι} {conn : Conn} {w : Option ι} {user : PoolUser Conn}

/-- The connections that the threads hold. -/
def held (σ : SharedPool ι Conn) : Multiset Conn := ∑ i, ((σ.users i).held : Multiset Conn)

/-- **What every careful step keeps.** -/
structure Kept (conns : List Conn) (σ : SharedPool ι Conn) : Prop where
  counter : σ.free.freeconn = σ.free.connpool.length
  conserved : (σ.free.connpool : Multiset Conn) + σ.held = conns
  known : ∀ i, ∀ conn ∈ (σ.users i).released, conn ∈ conns

theorem kept_init (conns : List Conn) : (init conns : SharedPool ι Conn).Kept conns := by
  refine ⟨rfl, ?_, fun _ conn h => (by cases h)⟩
  have hnone : (init conns : SharedPool ι Conn).held = 0 := Finset.sum_eq_zero fun _ _ => rfl
  rw [hnone, add_zero]
  rfl

/-! ## Who holds what -/

/-- What a thread holds, all of them hold. -/
theorem mem_held (h : conn ∈ (σ.users i).held) : conn ∈ σ.held :=
  Multiset.mem_sum.mpr ⟨i, Finset.mem_univ i, h⟩

/-- A connection that has been released and is not free is held by somebody. -/
theorem Kept.exists_held (h : σ.Kept conns) (hreleased : conn ∈ (σ.users i).released)
    (hbusy : conn ∉ σ.free.connpool) : ∃ j, conn ∈ (σ.users j).held := by
  have hmem : conn ∈ (σ.free.connpool : Multiset Conn) + σ.held := by
    rw [h.conserved]
    exact h.known i conn hreleased
  rcases Multiset.mem_add.mp hmem with hlisted | hheld
  · exact absurd hlisted hbusy
  · obtain ⟨j, -, hj⟩ := Multiset.mem_sum.mp hheld
    exact ⟨j, hj⟩

variable [DecidableEq ι]

/-- **No connection is at two places** when those in the list and those held are the ones the pool was made
of. -/
theorem Kept.safe (h : σ.Kept conns) (hconns : conns.Nodup) : σ.Safe := by
  have hnodup : ((σ.free.connpool : Multiset Conn) + σ.held).Nodup := by
    rw [h.conserved]
    exact hconns
  obtain ⟨-, hheld, hdisjoint⟩ := Multiset.nodup_add.mp hnodup
  have hrest : ∀ i, σ.held = (σ.users i).held +
      ∑ j ∈ Finset.univ.erase i, ((σ.users j).held : Multiset Conn) := fun i =>
    (Finset.add_sum_erase _ _ (Finset.mem_univ i)).symm
  refine ⟨fun i => ?_, fun i j conn hi hj => ?_, fun i conn hi hlisted => ?_⟩
  · rw [hrest i] at hheld
    exact (Multiset.nodup_add.mp hheld).1
  · by_contra hne
    rw [hrest i] at hheld
    have hj' : conn ∈ ∑ j ∈ Finset.univ.erase i, ((σ.users j).held : Multiset Conn) :=
      Multiset.mem_sum.mpr ⟨j, Finset.mem_erase.mpr ⟨Ne.symm hne, Finset.mem_univ j⟩, hj⟩
    exact Multiset.disjoint_left.mp (Multiset.nodup_add.mp hheld).2.2 hi hj'
  · exact Multiset.disjoint_left.mp hdisjoint hlisted (mem_held hi)

/-- One thread changes what it holds. -/
theorem held_goto (σ : SharedPool ι Conn) (i : ι) (user : PoolUser Conn) :
    (σ.goto i user).held + (σ.users i).held = σ.held + user.held :=
  sum_update_add (fun user => (user.held : Multiset Conn)) σ.users i user

omit [Fintype ι] in
/-- One thread changes what it has released. -/
theorem known_goto (h : ∀ i, ∀ conn ∈ (σ.users i).released, conn ∈ conns)
    (huser : ∀ conn ∈ user.released, conn ∈ conns) (j : ι) :
    ∀ conn ∈ ((σ.goto i user).users j).released, conn ∈ conns := by
  show ∀ conn ∈ (Function.update σ.users i user j).released, conn ∈ conns
  by_cases hij : j = i
  · subst hij
    rw [Function.update_self]
    exact huser
  · rw [Function.update_of_ne hij]
    exact h j

/-- Notifying a thread changes neither what it holds nor what it has released. -/
theorem users_notifyOne {users : ι → PoolUser Conn} (h : (condFree Conn).notifyOne σ.users w = some users)
    (i : ι) : (users i).held = (σ.users i).held ∧ (users i).released = (σ.users i).released := by
  obtain ⟨rfl, -⟩ | ⟨j, c, hc, rfl⟩ := CondVar.notifyOne_eq_some h
  · exact ⟨rfl, rfl⟩
  · by_cases hij : i = j
    · subst hij
      rw [Function.update_self]
      simp only [condFree] at hc
      split at hc
      · obtain rfl := Option.some.inj hc
        exact ⟨rfl, rfl⟩
      · cases hc
    · rw [Function.update_of_ne hij]
      exact ⟨rfl, rfl⟩

/-! ## The steps -/

/-- A thread that neither gets nor gives back a connection. -/
theorem Kept.goto (h : σ.Kept conns) (hheld : user.held = (σ.users i).held)
    (hreleased : user.released = (σ.users i).released) : (σ.goto i user).Kept conns := by
  refine ⟨h.counter, ?_, ?_⟩
  · have hsum := held_goto σ i user
    rw [hheld, add_left_inj] at hsum
    rw [hsum]
    exact h.conserved
  · apply known_goto h.known
    rw [hreleased]
    exact h.known i

variable [DecidableEq Conn]

/-- **A thread that has the lock in `get_connection`** sleeps, or gets the first connection. -/
theorem Kept.getConnection (h : σ.Kept conns) (hstep : σ.getConnection i = some τ) : τ.Kept conns := by
  unfold SharedPool.getConnection at hstep
  split at hstep
  · obtain rfl := Option.some.inj hstep
    exact h.goto rfl rfl
  · obtain ⟨⟨c, free⟩, hfetch, rfl⟩ := Option.map_eq_some_iff.mp hstep
    unfold FreeList.fetch at hfetch
    split at hfetch
    · cases hfetch
    · rename_i c rest hpool
      obtain ⟨rfl, rfl⟩ := Prod.mk.inj (Option.some.inj hfetch)
      have hcounter := h.counter
      have hconserved := h.conserved
      rw [hpool] at hcounter hconserved
      refine ⟨?_, ?_, ?_⟩
      · show σ.free.freeconn - 1 = rest.length
        rw [hcounter, List.length_cons, Nat.add_sub_cancel]
      · have hsum := held_goto { σ with free := ⟨rest, σ.free.freeconn - 1⟩ } i
          ⟨none, c :: (σ.users i).held, (σ.users i).released.filter (· ≠ c)⟩
        rw [← Multiset.cons_coe, Multiset.add_cons, ← Multiset.cons_add, add_left_inj] at hsum
        rw [hsum, Multiset.add_cons, ← hconserved, ← Multiset.cons_coe, Multiset.cons_add]
        rfl
      · exact known_goto h.known fun conn hc => h.known i conn (List.mem_filter.mp hc).1

/-- **A release of a connection that the thread holds** gives it back. -/
theorem Kept.release (h : σ.Kept conns) (hconns : conns.Nodup) (hi : conn ∈ (σ.users i).held)
    (hstep : (σ.goto i { σ.users i with
      held := (σ.users i).held.erase conn
      released := conn :: (σ.users i).released }).releaseConnection conn w = some τ) : τ.Kept conns := by
  have hbusy : conn ∉ σ.free.connpool := (h.safe hconns).listed i conn hi
  have hmem : conn ∈ conns := by
    have hall : conn ∈ (σ.free.connpool : Multiset Conn) + σ.held :=
      Multiset.mem_add.mpr (.inr (mem_held hi))
    rwa [h.conserved] at hall
  obtain ⟨gone, hgone⟩ : ∃ gone, gone = σ.goto i { σ.users i with
      held := (σ.users i).held.erase conn
      released := conn :: (σ.users i).released } := ⟨_, rfl⟩
  have hfree : gone.free = σ.free := by rw [hgone]; rfl
  rw [← hgone, SharedPool.releaseConnection, hfree, if_neg hbusy] at hstep
  obtain ⟨users, husers, rfl⟩ := Option.map_eq_some_iff.mp hstep
  have hsame := users_notifyOne husers
  refine ⟨?_, ?_, ?_⟩
  · show σ.free.freeconn + 1 = (σ.free.connpool ++ [conn]).length
    rw [h.counter, List.length_append, List.length_singleton]
  · -- the thread holds it no longer, the list contains it
    have hsum := held_goto σ i { σ.users i with
      held := (σ.users i).held.erase conn
      released := conn :: (σ.users i).released }
    have hone : ((σ.users i).held : Multiset Conn) =
        conn ::ₘ ((σ.users i).held.erase conn : Multiset Conn) := by
      rw [← Multiset.coe_erase, Multiset.cons_erase (Multiset.mem_coe.mpr hi)]
    rw [← hgone] at hsum
    rw [hone, Multiset.add_cons, ← Multiset.cons_add, add_left_inj] at hsum
    have hheld : held (⟨σ.free.put conn, users⟩ : SharedPool ι Conn) = gone.held :=
      Finset.sum_congr rfl fun j _ => by rw [(hsame j).1]
    rw [hheld, FreeList.put, ← h.conserved, ← hsum, ← Multiset.coe_add, Multiset.coe_singleton,
      add_assoc, Multiset.singleton_add]
  · intro j
    rw [(hsame j).2, hgone]
    apply known_goto h.known
    intro c hc
    rcases List.mem_cons.mp hc with rfl | hc
    · exact hmem
    · exact h.known i c hc

/-- A release of a connection that is in the list does nothing. -/
theorem releaseConnection_of_mem (hfree : conn ∈ σ.free.connpool)
    (hstep : σ.releaseConnection conn w = some τ) : τ = σ := by
  rw [releaseConnection, if_pos hfree] at hstep
  split at hstep
  · exact (Option.some.inj hstep).symm
  · cases hstep

/-- **Every careful step** keeps it. -/
theorem Kept.step {a : HolderAct ι Conn} (h : σ.Kept conns) (hconns : conns.Nodup)
    (hstep : σ.step a = some τ) (hcareful : careful σ a τ) : τ.Kept conns := by
  cases a with
  | get i =>
    simp only [SharedPool.step] at hstep
    split at hstep
    -- a caller that arrives, and one that was woken, take the same two ways through the loop
    · exact h.getConnection hstep
    · cases hstep
  | resume i =>
    simp only [SharedPool.step] at hstep
    split at hstep
    · exact h.getConnection hstep
    · exact h.getConnection hstep
    · cases hstep
  | wake i =>
    simp only [SharedPool.step] at hstep
    split at hstep
    · obtain rfl := Option.some.inj hstep
      exact h.goto rfl rfl
    · cases hstep
  | release i conn w =>
    simp only [SharedPool.step] at hstep
    split at hstep
    · rename_i hi
      exact h.release hconns hi.2 hstep
    · cases hstep
  | again i conn w =>
    simp only [SharedPool.step] at hstep
    split at hstep
    -- `release_connection` finds the connection among the free ones
    · rw [releaseConnection_of_mem hcareful hstep]
      exact h
    · cases hstep

/-- **In every state that a careful run reaches** every connection is free or held, once. -/
theorem kept (hconns : conns.Nodup) (h : (sharedPoolMachine ι Conn).Run careful (init conns) σ) :
    σ.Kept conns := by
  refine h.invariant ?_ (kept_init conns)
  intro σ a τ hσ hstep hcareful
  exact hσ.step hconns hstep hcareful

end SharedPool

end DedupServer
