import DedupServer.Foundations.Slots
import Mathlib.Data.Fintype.Basic

/-! # Wake-ups

Threads that wait on a condition variable for something to become free. What is given back is announced by
`notify_one`, which wakes one sleeper, any of them. No sleeper is forgotten while the free things do not
outnumber the threads that have been notified and have not resumed (`Covered`): this holds when a thread only
goes to sleep while nothing is free (`covered_zero`), and it survives every way in which things are taken
(`Covered.take`) and given back (`Covered.give`), whoever takes them first.

`CondVar` says which states of a thread are those of sleepers and of notified threads. -/

namespace DedupServer.Foundations

/-- **While anybody sleeps**, no more is free than has been announced. -/
def Covered (free sleepers woken : ℕ) : Prop := sleepers ≠ 0 → free ≤ woken

section Covered

variable {free sleepers sleepers' woken woken' : ℕ}

/-- A thread may go to sleep while nothing is free. -/
theorem covered_zero (sleepers woken : ℕ) : Covered 0 sleepers woken := fun _ => Nat.zero_le _

/-- Nobody sleeps. -/
theorem covered_awake (free woken : ℕ) : Covered free 0 woken := fun h => absurd rfl h

/-- A thread moves that has not been notified, or a sleeper wakes by itself. -/
theorem Covered.move (h : Covered free sleepers woken) (hs : sleepers' ≤ sleepers)
    (hw : woken ≤ woken') : Covered free sleepers' woken' := by
  intro hne
  have hfree := h (by omega)
  omega

/-- **Something is taken**, by a notified thread or by another one. -/
theorem Covered.take (h : Covered (free + 1) sleepers woken) (hs : sleepers' ≤ sleepers)
    (hw : woken ≤ woken' + 1) : Covered free sleepers' woken' := by
  intro hne
  have hfree := h (by omega)
  omega

/-- **Something is given back**, and a sleeper is notified. -/
theorem Covered.give (h : Covered free (sleepers + 1) woken) :
    Covered (free + 1) sleepers (woken + 1) := by
  intro _
  have hfree := h (Nat.succ_ne_zero _)
  omega

end Covered

/-- **A condition variable**: what becomes of a sleeper that is notified, and which threads have been
notified. -/
structure CondVar (α : Type*) where
  wake : α → Option α
  notified : α → Bool
  notified_of_wake : ∀ {a b}, wake a = some b → notified b = true
  wake_of_notified : ∀ {a}, notified a = true → wake a = none

namespace CondVar

variable {ι α : Type*} [Fintype ι] (V : CondVar α) {threads threads' : ι → α} {k : ι} {b : α}
  {free : ℕ}

/-- How many threads sleep un-notified. -/
def sleepers (threads : ι → α) : ℕ := ∑ i, (V.wake (threads i)).isSome.toNat

/-- How many threads have been notified and have not resumed. -/
def woken (threads : ι → α) : ℕ := ∑ i, (V.notified (threads i)).toNat

variable {V}

/-- Somebody sleeps. -/
theorem sleepers_ne_zero (h : V.wake (threads k) = some b) : V.sleepers threads ≠ 0 := by
  intro hzero
  have hk := Finset.sum_eq_zero_iff.mp hzero k (Finset.mem_univ k)
  rw [h] at hk
  cases hk

variable [DecidableEq ι]

/-- **`notify_one`**: one of the sleepers is notified, if there is one. -/
def notifyOne (V : CondVar α) (threads : ι → α) : Option ι → Option (ι → α)
  | none => if ∀ i, (V.wake (threads i)).isNone then some threads else none
  | some j => (V.wake (threads j)).map (Function.update threads j)

/-- The counts when one thread moves. -/
theorem sleepers_update (threads : ι → α) (k : ι) (b : α) :
    V.sleepers (Function.update threads k b) + (V.wake (threads k)).isSome.toNat =
      V.sleepers threads + (V.wake b).isSome.toNat :=
  sum_update_add (fun a => (V.wake a).isSome.toNat) threads k b

theorem woken_update (threads : ι → α) (k : ι) (b : α) :
    V.woken (Function.update threads k b) + (V.notified (threads k)).toNat =
      V.woken threads + (V.notified b).toNat :=
  sum_update_add (fun a => (V.notified a).toNat) threads k b

/-- What `notify_one` does. -/
theorem notifyOne_eq_some {w : Option ι} (h : V.notifyOne threads w = some threads') :
    (threads' = threads ∧ ∀ i, V.wake (threads i) = none) ∨
      ∃ j c, V.wake (threads j) = some c ∧ threads' = Function.update threads j c := by
  cases w with
  | none =>
    simp only [notifyOne] at h
    split at h
    · rename_i hnone
      exact .inl ⟨(Option.some.inj h).symm, fun i => Option.isNone_iff_eq_none.mp (hnone i)⟩
    · cases h
  | some j =>
    obtain ⟨c, hc, rfl⟩ := Option.map_eq_some_iff.mp h
    exact .inr ⟨j, c, hc, rfl⟩

/-- **A thread moves** that is not notified, to a state in which it does not sleep. -/
theorem covered_move (h : Covered free (V.sleepers threads) (V.woken threads))
    (hold : V.notified (threads k) = false) (hb : V.wake b = none) :
    Covered free (V.sleepers (Function.update threads k b)) (V.woken (Function.update threads k b)) := by
  have hs := V.sleepers_update threads k b
  have hw := V.woken_update threads k b
  rw [hb] at hs
  rw [hold] at hw
  exact h.move (by simp at hs; omega) (by simp at hw; omega)

/-- **A thread takes something**, and then neither sleeps nor is notified. -/
theorem covered_take (h : Covered (free + 1) (V.sleepers threads) (V.woken threads))
    (hb : V.wake b = none) :
    Covered free (V.sleepers (Function.update threads k b)) (V.woken (Function.update threads k b)) := by
  have hs := V.sleepers_update threads k b
  have hw := V.woken_update threads k b
  have hone : (V.notified (threads k)).toNat ≤ 1 := Bool.toNat_le _
  rw [hb] at hs
  exact h.take (by simp at hs; omega) (by omega)

/-- **Something is given back with `notify_one`.** -/
theorem covered_notifyOne {w : Option ι} (h : Covered free (V.sleepers threads) (V.woken threads))
    (hnotify : V.notifyOne threads w = some threads') :
    Covered (free + 1) (V.sleepers threads') (V.woken threads') := by
  obtain ⟨rfl, hnone⟩ | ⟨j, c, hc, rfl⟩ := notifyOne_eq_some hnotify
  -- nobody slept, so that there is nobody to cover
  · have hzero : V.sleepers threads' = 0 := by
      apply Finset.sum_eq_zero
      intro i _
      rw [hnone i]
      rfl
    rw [hzero]
    exact covered_awake _ _
  -- thread `j` is one sleeper less and one woken more
  · have hs := V.sleepers_update threads j c
    have hw := V.woken_update threads j c
    have hnotified := V.notified_of_wake hc
    have hold : V.notified (threads j) = false := by
      rw [Bool.eq_false_iff]
      intro htrue
      rw [V.wake_of_notified htrue] at hc
      cases hc
    rw [hc, V.wake_of_notified hnotified] at hs
    rw [hnotified, hold] at hw
    have hs' : V.sleepers threads = V.sleepers (Function.update threads j c) + 1 := hs.symm
    have hw' : V.woken (Function.update threads j c) = V.woken threads + 1 := hw
    rw [hs'] at h
    rw [hw']
    exact h.give

end CondVar

end DedupServer.Foundations
