import DedupServer.Foundations.Machine
import DedupServer.Foundations.Slots

/-! # `MysqlConnPool`

The pool of `MysqlConnPool.cc` with the `MysqlConn` objects that use it. `get_connection` waits on the
condition variable while no connection is free; `release_connection` puts the connection back and
notifies one of the sleepers, which one is up to the condition variable. A getter that has been notified
competes for the lock with those that arrive, and a sleeper may wake spuriously.

`MysqlConnPool.Kept` is what every step keeps. Its part `covered` is about the wake-ups: while a getter
sleeps, there are no more free connections than getters that have been notified. -/

namespace DedupServer

open Foundations

/-- Where a `MysqlConn` is: about to take the lock in `get_connection`, asleep there, notified but not yet
resumed, constructed with its connection, or destructed. -/
inductive MysqlConn (Conn : Type*)
  | arriving
  | sleeping
  | notified
  | live (conn : Conn)
  | ended

namespace MysqlConn

variable {Conn : Type*}

/-- The connection that the object holds. -/
def conn : MysqlConn Conn → Option Conn
  | live c => some c
  | _ => none

/-- The object sleeps, and nobody has notified it. -/
def isSleeping : MysqlConn Conn → Bool
  | sleeping => true
  | _ => false

/-- The object has been notified, and has not resumed. -/
def isNotified : MysqlConn Conn → Bool
  | notified => true
  | _ => false

end MysqlConn

/-- The fields of the pool that the mutex protects, and the `MysqlConn` objects in the order in which
their constructors have been called. -/
structure MysqlConnPool (Conn : Type*) where
  connpool : List Conn
  freeconn : ℕ
  objects : List (MysqlConn Conn)

/-- The steps: a constructor is called, object `k` gets the lock in `get_connection` (as it arrives,
notified, or spuriously), object `k` is destructed and its release notifies object `w`, or nobody. -/
inductive ConnAct
  | construct
  | getConnection (k : ℕ)
  | destruct (k : ℕ) (w : Option ℕ)

namespace MysqlConnPool

variable {Conn : Type*}

/-- The constructor's loop, over the connections it opens. -/
def new (conns : List Conn) : MysqlConnPool Conn :=
  conns.foldl (fun σ mysql =>
    { σ with connpool := σ.connpool ++ [mysql], freeconn := σ.freeconn + 1 }) ⟨[], 0, []⟩

/-- Object `k` has the lock in `get_connection`: it sleeps, or takes the first connection. -/
def getConnection (σ : MysqlConnPool Conn) (k : ℕ) : Option (MysqlConnPool Conn) :=
  if σ.freeconn = 0 then
    some { σ with objects := σ.objects.set k .sleeping }
  else
    match σ.connpool with
    | [] => none
    | conn :: rest => some {
        connpool := rest
        freeconn := σ.freeconn - 1
        objects := σ.objects.set k (.live conn) }

/-- `notify_one`: one of the sleepers is notified, if there is one. -/
def notifyOne (σ : MysqlConnPool Conn) : Option ℕ → Option (MysqlConnPool Conn)
  | none => if σ.objects.any MysqlConn.isSleeping then none else some σ
  | some j =>
    match σ.objects[j]? with
    | some .sleeping => some { σ with objects := σ.objects.set j .notified }
    | _ => none

/-- `release_connection`, with the lock: a connection that is in the list already is ignored. -/
def releaseConnection [DecidableEq Conn] (σ : MysqlConnPool Conn) (conn : Conn) (w : Option ℕ) :
    Option (MysqlConnPool Conn) :=
  if conn ∈ σ.connpool then some σ
  else notifyOne { σ with
    connpool := σ.connpool ++ [conn]
    freeconn := σ.freeconn + 1 } w

/-- One step. -/
def step [DecidableEq Conn] (σ : MysqlConnPool Conn) : ConnAct → Option (MysqlConnPool Conn)
  | .construct => some { σ with objects := σ.objects ++ [.arriving] }
  | .getConnection k =>
    match σ.objects[k]? with
    | some .arriving => σ.getConnection k
    | some .sleeping => σ.getConnection k
    | some .notified => σ.getConnection k
    | _ => none
  | .destruct k w =>
    match σ.objects[k]? with
    | some (.live conn) =>
      { σ with objects := σ.objects.set k .ended }.releaseConnection conn w
    | _ => none

/-- The connections held by live objects. -/
def held (σ : MysqlConnPool Conn) : List Conn := σ.objects.filterMap MysqlConn.conn

/-- How many getters sleep un-notified. -/
def sleepers (σ : MysqlConnPool Conn) : ℕ := σ.objects.countP MysqlConn.isSleeping

/-- How many getters have been notified and have not resumed. -/
def woken (σ : MysqlConnPool Conn) : ℕ := σ.objects.countP MysqlConn.isNotified

end MysqlConnPool

/-- **A `MysqlConnPool`** and the `MysqlConn` objects that use it, any number of them. -/
def connPoolMachine (Conn : Type*) [DecidableEq Conn] :
    Machine (MysqlConnPool Conn) ConnAct where
  step := MysqlConnPool.step

namespace MysqlConnPool

variable {Conn : Type*} {σ τ : MysqlConnPool Conn} {conns : List Conn}

/-- The constructor puts every connection into the list and counts it. -/
theorem new_eq (conns : List Conn) : new conns = ⟨conns, conns.length, []⟩ := by
  have hloop : ∀ σ : MysqlConnPool Conn, conns.foldl (fun σ mysql =>
      { σ with connpool := σ.connpool ++ [mysql], freeconn := σ.freeconn + 1 }) σ =
        ⟨σ.connpool ++ conns, σ.freeconn + conns.length, σ.objects⟩ := by
    induction conns with
    | nil =>
      intro σ
      simp
    | cons c conns ih =>
      intro σ
      rw [List.foldl_cons, ih, List.append_assoc, List.length_cons, Nat.add_right_comm,
        Nat.add_assoc]
      rfl
  rw [new, hloop, List.nil_append, Nat.zero_add]

/-- **What every step keeps.** -/
structure Kept (conns : List Conn) (σ : MysqlConnPool Conn) : Prop where
  counter : σ.freeconn = σ.connpool.length
  conserved : (σ.connpool ++ σ.held).Perm conns
  covered : σ.sleepers ≠ 0 → σ.freeconn ≤ σ.woken

theorem kept_new (conns : List Conn) : (new conns).Kept conns := by
  rw [new_eq]
  refine ⟨rfl, ?_, ?_⟩
  · simp [held]
  · simp [sleepers]

/-! ## Changing one object -/

/-- What the objects hold, and how many of them sleep or have been notified, when object `k` goes on. -/
theorem objects_set {k : ℕ} {old : MysqlConn Conn} (h : σ.objects[k]? = some old)
    (new : MysqlConn Conn) (connpool : List Conn) (freeconn : ℕ) :
    let τ : MysqlConnPool Conn := ⟨connpool, freeconn, σ.objects.set k new⟩
    (old.conn.toList ++ τ.held).Perm (new.conn.toList ++ σ.held) ∧
    τ.sleepers + old.isSleeping.toNat = σ.sleepers + new.isSleeping.toNat ∧
    τ.woken + old.isNotified.toNat = σ.woken + new.isNotified.toNat :=
  ⟨filterMap_set_perm h new _, countP_set_add h new _, countP_set_add h new _⟩

/-- **An object that has the lock in `get_connection`** sleeps while nothing is free, and otherwise takes
a connection. Only one that was notified uses up a notification, and it takes a free connection. -/
theorem Kept.getConnection {k : ℕ} {old : MysqlConn Conn} (h : σ.Kept conns)
    (hk : σ.objects[k]? = some old) (hold : old.conn = none) (hstep : σ.getConnection k = some τ) :
    τ.Kept conns := by
  unfold MysqlConnPool.getConnection at hstep
  split at hstep
  · rename_i hfree
    obtain rfl := Option.some.inj hstep
    obtain ⟨hheld, -, -⟩ := objects_set hk .sleeping σ.connpool σ.freeconn
    rw [hold] at hheld
    refine ⟨h.counter, ?_, ?_⟩
    · exact (hheld.append_left _).trans h.conserved
    · intro _
      rw [hfree]
      exact Nat.zero_le _
  · split at hstep
    · cases hstep
    · rename_i hfree conn rest hpool
      obtain rfl := Option.some.inj hstep
      obtain ⟨hheld, hsleep, hwoken⟩ := objects_set hk (.live conn) rest (σ.freeconn - 1)
      rw [hold] at hheld
      have hcounter := h.counter
      have hcovered := h.covered
      refine ⟨?_, ?_, ?_⟩
      · rw [hpool, List.length_cons] at hcounter
        show σ.freeconn - 1 = rest.length
        omega
      · have hconserved := h.conserved
        rw [hpool] at hconserved
        refine ((hheld.append_left rest).trans ?_).trans hconserved
        exact List.perm_middle
      · intro hτ
        -- a sleeper is left, so before this step there was one as well
        have hlast : _ + old.isSleeping.toNat = σ.sleepers := hsleep
        have hle := hcovered (by omega)
        have hone : old.isNotified.toNat ≤ 1 := Bool.toNat_le _
        have hused : _ + old.isNotified.toNat = σ.woken := hwoken
        show σ.freeconn - 1 ≤ _
        omega

/-- **A release** gives the connection back and notifies one sleeper, if there is one. -/
theorem Kept.release [DecidableEq Conn] {k : ℕ} {conn : Conn} {w : Option ℕ} (h : σ.Kept conns)
    (hnodup : conns.Nodup) (hk : σ.objects[k]? = some (.live conn))
    (hstep : { σ with objects := σ.objects.set k .ended }.releaseConnection conn w = some τ) :
    τ.Kept conns := by
  obtain ⟨hheld, hsleep, hwoken⟩ := objects_set hk .ended σ.connpool σ.freeconn
  simp only [MysqlConn.isSleeping, MysqlConn.isNotified, Bool.toNat_false, Nat.add_zero]
    at hsleep hwoken
  -- a connection that is held is not in the list
  have hout : conn ∉ σ.connpool := by
    intro hin
    have hmem : conn ∈ σ.held :=
      List.mem_filterMap.mpr ⟨.live conn, List.mem_of_getElem? hk, rfl⟩
    exact (List.nodup_append.mp (h.conserved.nodup_iff.mpr hnodup)).2.2 conn hin conn hmem rfl
  have hback : ∀ held : List Conn, (conn :: held).Perm σ.held →
      (σ.connpool ++ [conn] ++ held).Perm conns := by
    intro held hperm
    rw [List.append_assoc]
    exact (hperm.append_left _).trans h.conserved
  have hcounter := h.counter
  have hcovered := h.covered
  simp only [releaseConnection, hout, if_false] at hstep
  cases w with
  | none =>
    simp only [notifyOne] at hstep
    split at hstep
    · cases hstep
    · rename_i hnone
      obtain rfl := Option.some.inj hstep
      refine ⟨?_, hback _ hheld, ?_⟩
      · simp [hcounter]
      · intro hne
        have hpos := Nat.pos_of_ne_zero hne
        obtain ⟨o, ho, hsl⟩ := List.countP_pos_iff.mp hpos
        exact absurd (List.any_eq_true.mpr ⟨o, ho, hsl⟩) hnone
  | some j =>
    simp only [notifyOne] at hstep
    split at hstep
    · rename_i hj
      obtain rfl := Option.some.inj hstep
      obtain ⟨hheld', hsleep', hwoken'⟩ := objects_set
        (σ := ⟨σ.connpool ++ [conn], σ.freeconn + 1, σ.objects.set k .ended⟩) hj .notified
        (σ.connpool ++ [conn]) (σ.freeconn + 1)
      refine ⟨?_, ?_, ?_⟩
      · simp [hcounter]
      · exact hback _ ((hheld'.cons conn).trans hheld)
      · intro _
        -- one free connection more, one notification more
        simp only [MysqlConn.isSleeping, MysqlConn.isNotified, Bool.toNat_false, Bool.toNat_true,
          Nat.add_zero] at hsleep' hwoken'
        have hsame : woken ⟨σ.connpool ++ [conn], σ.freeconn + 1, σ.objects.set k .ended⟩ =
          σ.woken := hwoken
        have hslept : sleepers ⟨σ.connpool ++ [conn], σ.freeconn + 1, σ.objects.set k .ended⟩ =
          σ.sleepers := hsleep
        have hle := hcovered (by omega)
        show σ.freeconn + 1 ≤ _
        omega
    · cases hstep

/-- **Every step** keeps the connections and the wake-ups. -/
theorem Kept.step [DecidableEq Conn] {a : ConnAct} (h : σ.Kept conns) (hnodup : conns.Nodup)
    (hstep : σ.step a = some τ) : τ.Kept conns := by
  cases a with
  | construct =>
    obtain rfl := Option.some.inj hstep
    refine ⟨h.counter, ?_, ?_⟩
    -- a caller that has just arrived holds no connection
    · have hnew : ([.arriving] : List (MysqlConn Conn)).filterMap MysqlConn.conn = [] := rfl
      simp only [held, List.filterMap_append, hnew, List.append_nil]
      exact h.conserved
    · simpa [sleepers, woken, MysqlConn.isSleeping, MysqlConn.isNotified] using h.covered
  | getConnection k =>
    simp only [MysqlConnPool.step] at hstep
    -- the three places from which `getConnection` goes on: arriving, woken, woken in vain
    split at hstep
    · rename_i hk
      exact h.getConnection hk rfl hstep
    · rename_i hk
      exact h.getConnection hk rfl hstep
    · rename_i hk
      exact h.getConnection hk rfl hstep
    · cases hstep
  | destruct k w =>
    simp only [MysqlConnPool.step] at hstep
    split at hstep
    · rename_i conn hk
      exact h.release hnodup hk hstep
    · cases hstep

/-- **In every state that can be reached** the connections are kept, and the wake-ups suffice. -/
theorem kept [DecidableEq Conn] (hnodup : conns.Nodup)
    (h : (connPoolMachine Conn).Run Machine.anyAction (new conns) σ) : σ.Kept conns := by
  refine h.invariant ?_ (kept_new conns)
  intro σ a τ hσ hstep _
  exact hσ.step hnodup hstep

end MysqlConnPool

end DedupServer
