import Mathlib.Algebra.BigOperators.Group.Finset.Basic
import Mathlib.Data.List.Perm.Basic
import Mathlib.Data.List.Nodup
import Mathlib.Data.Nat.Notation

/-! # Slots

A list of slots of which one is given another content (`List.set`): the old content and the new list
are, up to order, the new content and the old list (`perm_cons_set`). What is counted or collected over
the slots changes by what the one slot contributes. -/

namespace DedupServer.Foundations

open scoped List

variable {α β : Type*} {slots : List α} {k : ℕ} {old : α}

/-- **One slot changes**, the others stay. -/
theorem perm_cons_set (h : slots[k]? = some old) (new : α) :
    old :: slots.set k new ~ new :: slots := by
  induction slots generalizing k with
  | nil => simp at h
  | cons a slots ih =>
    cases k with
    | zero =>
      obtain rfl : a = old := by simpa using h
      exact List.Perm.swap _ _ _
    | succ k =>
      have htail : slots[k]? = some old := by simpa using h
      rw [List.set_cons_succ]
      calc old :: a :: slots.set k new
          ~ a :: old :: slots.set k new := List.Perm.swap _ _ _
        _ ~ a :: new :: slots := (ih htail).cons a
        _ ~ new :: a :: slots := List.Perm.swap _ _ _

/-- The number of slots with a property. -/
theorem countP_set_add (h : slots[k]? = some old) (new : α) (p : α → Bool) :
    (slots.set k new).countP p + (p old).toNat = slots.countP p + (p new).toNat := by
  have hperm := (perm_cons_set h new).countP_eq p
  have hcons : ∀ (a : α) (l : List α), (a :: l).countP p = l.countP p + (p a).toNat := by
    intro a l
    cases hpa : p a <;> simp [hpa]
  rwa [hcons, hcons] at hperm

/-- What the slots hold. -/
theorem filterMap_set_perm (h : slots[k]? = some old) (new : α) (f : α → Option β) :
    (f old).toList ++ (slots.set k new).filterMap f ~
      (f new).toList ++ slots.filterMap f := by
  have hperm := (perm_cons_set h new).filterMap f
  have hcons : ∀ (a : α) (l : List α),
      (a :: l).filterMap f = (f a).toList ++ l.filterMap f := by
    intro a l
    cases hfa : f a <;> simp [hfa]
  rwa [hcons, hcons] at hperm

/-- The sum over the slots of a function. -/
theorem sum_update_add {ι M : Type*} [Fintype ι] [DecidableEq ι] [AddCommMonoid M] (f : α → M)
    (slots : ι → α) (k : ι) (new : α) :
    ∑ j, f (Function.update slots k new j) + f (slots k) = ∑ j, f (slots j) + f new := by
  have hrest : ∑ j ∈ Finset.univ.erase k, f (Function.update slots k new j) =
      ∑ j ∈ Finset.univ.erase k, f (slots j) := by
    apply Finset.sum_congr rfl
    intro j hj
    rw [Function.update_of_ne (Finset.ne_of_mem_erase hj)]
  rw [← Finset.add_sum_erase _ _ (Finset.mem_univ k),
    ← Finset.add_sum_erase _ (fun j => f (slots j)) (Finset.mem_univ k), hrest,
    Function.update_self, add_comm (f new), add_comm (f (slots k)), add_right_comm]

/-- **A relation that holds slot by slot** is kept when one slot changes on both sides. -/
theorem forall_update {ι : Type*} [DecidableEq ι] {R : α → β → Prop} {slots : ι → α} {slots' : ι → β}
    (h : ∀ i, R (slots i) (slots' i)) (k : ι) {a : α} {b : β} (hab : R a b) (i : ι) :
    R (Function.update slots k a i) (Function.update slots' k b i) := by
  by_cases hi : i = k
  · subst hi
    rw [Function.update_self, Function.update_self]
    exact hab
  · rw [Function.update_of_ne hi, Function.update_of_ne hi]
    exact h i

/-- Different slots hold different things, when all that is held is distinct. -/
theorem slot_unique {f : α → Option β} (h : (slots.filterMap f).Nodup) {i j : ℕ} {a b : α} {c : β}
    (hi : slots[i]? = some a) (hj : slots[j]? = some b) (ha : f a = some c) (hb : f b = some c) :
    i = j := by
  -- on the list: if one of the two is the first slot, the rest must not hold `c` again
  induction slots generalizing i j with
  | nil => simp at hi
  | cons s slots ih =>
    have hmem : ∀ {k : ℕ} {d : α}, slots[k]? = some d → f d = some c →
        c ∈ slots.filterMap f := by
      intro k d hk hd
      exact List.mem_filterMap.mpr ⟨d, List.mem_of_getElem? hk, hd⟩
    cases i with
    | zero =>
      obtain rfl : s = a := by simpa using hi
      rw [List.filterMap_cons_some ha, List.nodup_cons] at h
      cases j with
      | zero => rfl
      | succ j => exact absurd (hmem (by simpa using hj) hb) h.1
    | succ i =>
      cases j with
      | zero =>
        obtain rfl : s = b := by simpa using hj
        rw [List.filterMap_cons_some hb, List.nodup_cons] at h
        exact absurd (hmem (by simpa using hi) ha) h.1
      | succ j =>
        have htail : (slots.filterMap f).Nodup := by
          rw [List.filterMap_cons] at h
          split at h
          · exact h
          · exact (List.nodup_cons.mp h).2
        rw [List.getElem?_cons_succ] at hi hj
        rw [ih htail hi hj]

end DedupServer.Foundations
