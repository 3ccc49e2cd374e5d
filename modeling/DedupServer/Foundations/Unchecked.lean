import Mathlib.Algebra.GroupWithZero.Nat
import Mathlib.Data.List.TakeWhile
import Mathlib.Data.List.Range
import Mathlib.Data.Nat.Notation

/-! # Loops that do not look at failures

A loop moves `size` items in calls; each call returns how many it has moved, or fails. The loop adds the
result to its total without looking at it: a failure, `-1`, is the largest number modulo `M`
(`Transfer.pass`). So a failure steps the total back by one, and from zero to the end.

The loop works as meant up to some call exactly if every call so far has been survived
(`sound_iff_survives`): as long as not everything has been moved, nothing is moved after a failure, and
there are no more failures than items moved before the first. -/

namespace DedupServer.Foundations

/-- What a call returns: it fails, or moves at most `k` items. -/
inductive Outcome
  | failed
  | moved (k : ℕ)
  deriving DecidableEq, Repr

namespace Outcome

/-- The call has not failed. -/
def isMoved : Outcome → Bool
  | failed => false
  | moved _ => true

/-- The number of items that the call would move. -/
def count : Outcome → ℕ
  | failed => 0
  | moved k => k

/-- The result as an unsigned number modulo `M`, when `asked` items are asked for. -/
def result (M asked : ℕ) : Outcome → ℕ
  | failed => M - 1
  | moved k => min k asked

/-- The positions of the items that the call moves, from `total` on. -/
def positions (total asked : ℕ) : Outcome → List ℕ
  | failed => []
  | moved k => List.range' total (min k asked)

end Outcome

/-- **The state of the loop**: its total, and the positions of the items moved so far. -/
structure Transfer where
  total : ℕ
  positions : List ℕ
  deriving DecidableEq, Repr

namespace Transfer

/-- **One pass of the loop**, which has ended once the total has reached the size. -/
def pass (M size : ℕ) (t : Transfer) (o : Outcome) : Transfer :=
  if t.total < size then
    ⟨(t.total + o.result M (size - t.total)) % M, t.positions ++ o.positions t.total (size - t.total)⟩
  else t

/-- The loop after some calls. -/
def run (M size : ℕ) (os : List Outcome) : Transfer := os.foldl (pass M size) ⟨0, []⟩

/-- The items are moved in order, without gap or repetition. -/
def InOrder (t : Transfer) : Prop := t.positions = List.range t.positions.length

instance (t : Transfer) : Decidable t.InOrder := inferInstanceAs (Decidable (_ = _))

/-- **The loop works as meant**: the items are moved in order, and it ends only in a state that is
accepted. -/
structure Sound (accepted : Transfer → Prop) (size : ℕ) (t : Transfer) : Prop where
  inOrder : t.InOrder
  ended : size ≤ t.total → accepted t

end Transfer

/-- The number of items that are moved before the first failure. -/
def movedBefore (os : List Outcome) : ℕ := ((os.takeWhile Outcome.isMoved).map Outcome.count).sum

/-- The number of failures. -/
def failures (os : List Outcome) : ℕ := os.count .failed

/-- **A call is survived** after the calls `os`: everything has been moved before; or it does not fail
when there have been as many failures as items moved before the first (unless `wraps`: the total that
wraps around is accepted), and it moves nothing after a failure. -/
def Survives (wraps : Prop) (size : ℕ) (os : List Outcome) (o : Outcome) : Prop :=
  size ≤ movedBefore os ∨
    (o = .failed → failures os < movedBefore os ∨ wraps) ∧
      (0 < o.count → failures os = 0 ∨ wraps ∧ movedBefore os < failures os)

variable {M size : ℕ} {os : List Outcome} {o : Outcome} {t : Transfer} {wraps : Prop}
  {accepted : Transfer → Prop}

/-! ## One more call -/

@[simp] theorem failures_nil : failures [] = 0 := rfl

@[simp] theorem movedBefore_nil : movedBefore [] = 0 := rfl

/-- A failure is counted. -/
theorem failures_append_failed (os : List Outcome) : failures (os ++ [.failed]) = failures os + 1 := by
  simp [failures]

/-- Anything else is not. -/
theorem failures_append_moved (os : List Outcome) (k : ℕ) :
    failures (os ++ [.moved k]) = failures os := by
  simp [failures]

/-- Without a failure so far everything is taken. -/
theorem takeWhile_isMoved (h : failures os = 0) : os.takeWhile Outcome.isMoved = os := by
  rw [List.takeWhile_eq_self_iff]
  intro o ho
  cases o with
  | failed => exact absurd ho (List.count_eq_zero.mp h)
  | moved k => rfl

/-- What is moved before the first failure goes on. -/
theorem movedBefore_append_moved (h : failures os = 0) (k : ℕ) :
    movedBefore (os ++ [.moved k]) = movedBefore os + k := by
  have h' : failures (os ++ [.moved k]) = 0 := (failures_append_moved os k).trans h
  rw [movedBefore, movedBefore, takeWhile_isMoved h, takeWhile_isMoved h']
  simp [Outcome.count]

/-- After a failure nothing counts as moved before the first. -/
theorem movedBefore_append_of_failure (h : failures os ≠ 0) (o : Outcome) :
    movedBefore (os ++ [o]) = movedBefore os := by
  rw [movedBefore, movedBefore, List.takeWhile_append, if_neg]
  intro hlen
  have hself : os.takeWhile Outcome.isMoved = os := (List.takeWhile_prefix _).eq_of_length hlen
  apply h
  rw [failures, List.count_eq_zero]
  intro hmem
  cases List.takeWhile_eq_self_iff.mp hself _ hmem

/-- A failure moves nothing. -/
theorem movedBefore_append_failed (os : List Outcome) :
    movedBefore (os ++ [.failed]) = movedBefore os := by
  by_cases h : failures os = 0
  · have hall : ∀ o ∈ os, Outcome.isMoved o = true :=
      List.takeWhile_eq_self_iff.mp (takeWhile_isMoved h)
    rw [movedBefore, List.takeWhile_append_of_pos hall, List.takeWhile_cons_of_neg (by decide),
      List.append_nil, movedBefore, takeWhile_isMoved h]
  · exact movedBefore_append_of_failure h _

/-! ## The state of a loop that works as meant -/

/-- **Where the loop is after some calls**: it has ended with everything moved; it is on its way, and each
failure has stepped its total back by one; or its total has wrapped around. -/
def Reached (wraps : Prop) (M size : ℕ) (os : List Outcome) (t : Transfer) : Prop :=
  (size ≤ movedBefore os ∧ t = ⟨size, List.range size⟩) ∨
    (movedBefore os < size ∧ failures os ≤ movedBefore os ∧
      t = ⟨movedBefore os - failures os, List.range (movedBefore os)⟩) ∨
    (movedBefore os < size ∧ movedBefore os < failures os ∧ wraps ∧
      t = ⟨M - 1, List.range (movedBefore os)⟩)

/-- The next positions in order. -/
theorem range_append_next (n k : ℕ) : List.range n ++ List.range' n k = List.range (n + k) := by
  have h : List.range' 0 n ++ List.range' (0 + n) k = List.range' 0 (n + k) := List.range'_append_1
  rwa [Nat.zero_add, ← List.range_eq_range', ← List.range_eq_range'] at h

/-- Everything before a position is in order. -/
theorem inOrder_range (total n : ℕ) : (⟨total, List.range n⟩ : Transfer).InOrder := by
  simp [Transfer.InOrder]

/-- **A repeated position is not in order.** -/
theorem not_inOrder_append {total n start k : ℕ} (hstart : start < n) (hk : 0 < k) :
    ¬ (⟨total, List.range n ++ List.range' start k⟩ : Transfer).InOrder := by
  intro h
  have hnth := congrArg (fun l => l[n]?) (show List.range n ++ List.range' start k = _ from h)
  simp only [List.length_append, List.length_range, List.length_range'] at hnth
  rw [List.getElem?_append_right (by simp), List.length_range, Nat.sub_self,
    List.getElem?_range' (by omega), List.getElem?_range (by omega), Option.some.injEq] at hnth
  omega

/-- Before the first call. -/
theorem reached_nil : Reached wraps M size [] ⟨0, []⟩ := by
  by_cases h : size = 0
  · subst h
    exact .inl ⟨le_rfl, rfl⟩
  · exact .inr (.inl ⟨Nat.pos_of_ne_zero h, le_rfl, rfl⟩)

/-- **A call that is survived** keeps the loop where it should be. -/
theorem Reached.pass (h : Reached wraps M size os t) (hsize : size < M)
    (ho : Survives wraps size os o) : Reached wraps M size (os ++ [o]) (t.pass M size o) := by
  have hended : size ≤ t.total → t.pass M size o = t := by
    intro hle
    rw [Transfer.pass, if_neg (by omega)]
  rcases h with ⟨hm, rfl⟩ | ⟨hm, hf, rfl⟩ | ⟨hm, hf, hw, rfl⟩
  · -- everything has been moved
    rw [hended le_rfl]
    refine .inl ⟨hm.trans ?_, rfl⟩
    cases o with
    | failed => exact (movedBefore_append_failed os).ge
    | moved k =>
      by_cases h0 : failures os = 0
      · rw [movedBefore_append_moved h0]
        exact Nat.le_add_right _ _
      · exact (movedBefore_append_of_failure h0 _).ge
  · -- the loop is on its way
    rcases ho with ho | ⟨hfailed, hmoves⟩
    · omega
    rw [Transfer.pass, if_pos (show movedBefore os - failures os < size by omega)]
    cases o with
    | failed =>
      have hnext := movedBefore_append_failed os
      have hcount := failures_append_failed os
      simp only [Outcome.result, Outcome.positions, List.append_nil]
      rw [Reached, hnext, hcount]
      by_cases hlt : failures os < movedBefore os
      · refine .inr (.inl ⟨hm, hlt, ?_⟩)
        have htotal : movedBefore os - failures os + (M - 1)
            = movedBefore os - (failures os + 1) + M := by omega
        rw [htotal, Nat.add_mod_right, Nat.mod_eq_of_lt (by omega)]
      · -- the total wraps around
        refine .inr (.inr ⟨hm, by omega, (hfailed rfl).resolve_left hlt, ?_⟩)
        rw [show movedBefore os - failures os = 0 by omega, Nat.zero_add,
          Nat.mod_eq_of_lt (by omega)]
    | moved k =>
      simp only [Outcome.result, Outcome.positions]
      by_cases h0 : failures os = 0
      · have hnext := movedBefore_append_moved h0 k
        have hcount : failures (os ++ [.moved k]) = 0 := (failures_append_moved os k).trans h0
        rw [Reached, hnext, hcount, h0, Nat.sub_zero, Nat.sub_zero,
          Nat.mod_eq_of_lt (by omega), range_append_next]
        rcases Nat.lt_or_ge (movedBefore os + k) size with hlt | hge
        · rw [Nat.min_eq_left (by omega)]
          exact .inr (.inl ⟨hlt, Nat.zero_le _, rfl⟩)
        · rw [Nat.min_eq_right (by omega), Nat.add_sub_of_le hm.le]
          exact .inl ⟨hge, rfl⟩
      · -- nothing is moved after a failure
        have hk : k = 0 := by
          by_contra hk
          rcases hmoves (Nat.pos_of_ne_zero hk) with h | h
          · exact h0 h
          · omega
        subst hk
        rw [Reached, movedBefore_append_of_failure h0, failures_append_moved, Nat.zero_min,
          Nat.add_zero, Nat.mod_eq_of_lt (by omega)]
        exact .inr (.inl ⟨hm, hf, by simp⟩)
  · -- the total has wrapped around
    have h0 : failures os ≠ 0 := by omega
    rw [hended (show size ≤ M - 1 by omega), Reached, movedBefore_append_of_failure h0]
    refine .inr (.inr ⟨hm, ?_, hw, rfl⟩)
    cases o with
    | failed =>
      rw [failures_append_failed]
      omega
    | moved k =>
      rw [failures_append_moved]
      exact hf

/-- A loop that is where it should be works as meant. -/
theorem Reached.sound (h : Reached wraps M size os t) (hfull : accepted ⟨size, List.range size⟩)
    (hwrap : ∀ m < size, accepted ⟨M - 1, List.range m⟩ ↔ wraps) : t.Sound accepted size := by
  rcases h with ⟨-, rfl⟩ | ⟨hm, -, rfl⟩ | ⟨hm, -, hw, rfl⟩
  · exact ⟨inOrder_range _ _, fun _ => hfull⟩
  · refine ⟨inOrder_range _ _, fun hle => ?_⟩
    have : size ≤ movedBefore os - failures os := hle
    omega
  · exact ⟨inOrder_range _ _, fun _ => (hwrap _ hm).mpr hw⟩

/-- **A call that is not survived** does damage. -/
theorem Reached.survives (h : Reached wraps M size os t) (hsize : size < M)
    (hwrap : ∀ m < size, accepted ⟨M - 1, List.range m⟩ ↔ wraps)
    (hsound : (t.pass M size o).Sound accepted size) : Survives wraps size os o := by
  rcases h with ⟨hm, rfl⟩ | ⟨hm, hf, rfl⟩ | ⟨hm, hf, hw, rfl⟩
  · exact .inl hm
  · rw [Transfer.pass, if_pos (show movedBefore os - failures os < size by omega)] at hsound
    refine .inr ⟨?_, ?_⟩
    · rintro rfl
      by_contra! hnot
      -- the total wraps around, and the loop ends
      simp only [Outcome.result, Outcome.positions, List.append_nil] at hsound
      rw [show movedBefore os - failures os = 0 by omega, Nat.zero_add,
        Nat.mod_eq_of_lt (by omega)] at hsound
      exact hnot.2 ((hwrap _ hm).mp (hsound.ended (show size ≤ M - 1 by omega)))
    · intro hk
      by_contra! hnot
      cases o with
      | failed => cases hk
      | moved k =>
        simp only [Outcome.count] at hk
        have h0 : failures os ≠ 0 := hnot.1
        have hstart : movedBefore os - failures os < movedBefore os := by omega
        have hcount : 0 < min k (size - (movedBefore os - failures os)) := by omega
        exact not_inOrder_append hstart hcount hsound.inOrder
  · exact .inr ⟨fun _ => .inr hw, fun _ => .inr ⟨hw, hf⟩⟩

/-- **When a loop that does not look at failures works as meant**: all along the calls, if and only if
each of them is survived. -/
theorem sound_iff_survives (accepted : Transfer → Prop) (hsize : size < M)
    (hfull : accepted ⟨size, List.range size⟩)
    (hwrap : ∀ m < size, accepted ⟨M - 1, List.range m⟩ ↔ wraps) (os : List Outcome) :
    (∀ before, before <+: os → (Transfer.run M size before).Sound accepted size) ↔
      ∀ before o, before ++ [o] <+: os → Survives wraps size before o := by
  have hrun : ∀ os o, Transfer.run M size (os ++ [o]) = (Transfer.run M size os).pass M size o := by
    intro os o
    simp [Transfer.run]
  constructor
  · intro h
    -- while everything is sound, what is reached is what survives (on the outcomes, from the end)
    have hreached : ∀ before, before <+: os →
        Reached wraps M size before (Transfer.run M size before) := by
      intro before
      induction before using List.reverseRecOn with
      | nil => exact fun _ => reached_nil
      | append_singleton before o ih =>
        intro hprefix
        have hbefore := ih ((List.prefix_append before [o]).trans hprefix)
        rw [hrun]
        exact hbefore.pass hsize (hbefore.survives hsize hwrap (hrun before o ▸ h _ hprefix))
    intro before o hprefix
    have hbefore := hreached before ((List.prefix_append before [o]).trans hprefix)
    exact hbefore.survives hsize hwrap (hrun before o ▸ h _ hprefix)
  · intro h before hprefix
    -- the other way the outcomes are survived one by one, and what is reached stays sound
    suffices hreached : Reached wraps M size before (Transfer.run M size before) from
      hreached.sound hfull hwrap
    induction before using List.reverseRecOn with
    | nil => exact reached_nil
    | append_singleton before o ih =>
      rw [hrun]
      exact (ih ((List.prefix_append before [o]).trans hprefix)).pass hsize (h before o hprefix)

end DedupServer.Foundations
