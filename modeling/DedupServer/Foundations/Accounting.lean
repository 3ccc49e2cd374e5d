import Mathlib.Algebra.GroupWithZero.Nat
import Mathlib.Algebra.Order.BigOperators.Group.List
import Mathlib.Algebra.Order.Group.Nat
import Mathlib.Data.List.Dedup

/-! # What is recorded, batch by batch

Batches of items arrive one after another, and of each batch those items are recorded that have not
been seen before the batch arrived (`recorded`). An item is left out when it has come in an earlier
batch, but not when it is repeated within its batch, so that the record is free of repetitions if
and only if the new items of every batch are (`nodup_recorded_iff`). Whether it is can be told from
the total weight of what is recorded (`sum_dedup_eq_iff`). -/

namespace DedupServer.Foundations

variable {α : Type*} [DecidableEq α]

/-- **The items recorded**, when those in `seen` have been seen before. -/
def recorded (seen : List α) : List (List α) → List α
  | [] => []
  | b :: bs => b.filter (· ∉ seen) ++ recorded (seen ++ b) bs

@[simp] theorem recorded_nil (seen : List α) : recorded seen [] = [] := rfl

@[simp] theorem recorded_cons (seen b : List α) (bs : List (List α)) :
    recorded seen (b :: bs) = b.filter (· ∉ seen) ++ recorded (seen ++ b) bs := rfl

/-- More batches are recorded behind. -/
theorem recorded_append (seen : List α) (bs cs : List (List α)) :
    recorded seen (bs ++ cs) = recorded seen bs ++ recorded (seen ++ bs.flatten) cs := by
  induction bs generalizing seen with
  | nil => simp
  | cons b bs ih => simp [ih, List.append_assoc]

/-- One more batch. -/
theorem recorded_concat (seen b : List α) (bs : List (List α)) :
    recorded seen (bs ++ [b]) = recorded seen bs ++ b.filter (· ∉ seen ++ bs.flatten) := by
  rw [recorded_append, recorded_cons, recorded_nil, List.append_nil]

/-- **Everything new is recorded.** -/
theorem mem_recorded {seen : List α} {bs : List (List α)} {x : α} :
    x ∈ recorded seen bs ↔ x ∉ seen ∧ x ∈ bs.flatten := by
  induction bs generalizing seen with
  | nil => simp
  | cons b bs ih =>
    simp only [recorded_cons, List.mem_append, List.mem_filter, decide_eq_true_eq, ih, not_or,
      List.flatten_cons]
    tauto

/-- **Nothing is recorded twice** if and only if no batch repeats an item that has not been seen
before the batch. -/
theorem nodup_recorded_iff {seen : List α} {bs : List (List α)} :
    (recorded seen bs).Nodup ↔ ∀ before b after, bs = before ++ b :: after →
      (b.filter (· ∉ seen ++ before.flatten)).Nodup := by
  induction bs generalizing seen with
  | nil => simp
  | cons b bs ih =>
    have hdisjoint : (b.filter (· ∉ seen)).Disjoint (recorded (seen ++ b) bs) := by
      intro x hx hx'
      exact (mem_recorded.mp hx').1 (List.mem_append_right _ (List.mem_filter.mp hx).1)
    rw [recorded_cons, List.nodup_append', ih]
    constructor
    · rintro ⟨hb, hbs, -⟩ before c after heq
      cases before with
      | nil =>
        obtain ⟨rfl, -⟩ := List.cons.inj heq
        simpa using hb
      | cons d before =>
        obtain ⟨rfl, rfl⟩ := List.cons.inj heq
        simpa [List.append_assoc] using hbs before c after rfl
    · intro h
      refine ⟨by simpa using h [] b bs rfl, fun before c after heq => ?_, hdisjoint⟩
      simpa [List.append_assoc] using h (b :: before) c after (by rw [heq, List.cons_append])

/-- What is recorded, without repetitions, is what has arrived, without repetitions. -/
theorem dedup_recorded_perm (bs : List (List α)) :
    (recorded [] bs).dedup.Perm bs.flatten.dedup := by
  rw [List.perm_ext_iff_of_nodup (List.nodup_dedup _) (List.nodup_dedup _)]
  intro x
  simp [mem_recorded]

/-- **The weights tell whether there is a repetition**, when there is no item without weight. -/
theorem sum_dedup_eq_iff {l : List α} {f : α → ℕ} (hpos : ∀ x ∈ l, 0 < f x) :
    (l.map f).sum = (l.dedup.map f).sum ↔ l.Nodup := by
  constructor
  · intro h
    induction l with
    | nil => exact List.nodup_nil
    | cons x l ih =>
      have hle : (l.dedup.map f).sum ≤ (l.map f).sum :=
        ((List.dedup_sublist l).map f).sum_le_sum fun _ _ => Nat.zero_le _
      have hx := hpos x List.mem_cons_self
      have hl : ∀ y ∈ l, 0 < f y := fun y hy => hpos y (List.mem_cons_of_mem _ hy)
      by_cases hmem : x ∈ l
      · rw [List.dedup_cons_of_mem hmem, List.map_cons, List.sum_cons] at h
        omega
      · rw [List.dedup_cons_of_notMem hmem, List.map_cons, List.map_cons, List.sum_cons,
          List.sum_cons] at h
        exact List.nodup_cons.mpr ⟨hmem, ih hl (by omega)⟩
  · intro h
    rw [h.dedup]

end DedupServer.Foundations
