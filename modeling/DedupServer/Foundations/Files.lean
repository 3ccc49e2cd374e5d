import Mathlib.Algebra.BigOperators.Group.Multiset.Basic
import Mathlib.Data.List.AList

/-! # Files and their contents

A directory maps names to lists of items. What all its files contain (`contents`) changes by what one file
contains when that file is written (`contents_insert`). Names that only grow are never used again
(`Below.lookup_eq_none`). -/

namespace DedupServer.Foundations

variable {κ α : Type*} [DecidableEq κ]

/-- **What all files contain**, taken together. -/
def contents (files : AList fun _ : κ => List α) : Multiset α :=
  (files.entries.map fun file => (file.2 : Multiset α)).sum

/-- Without a file, its items are missing. -/
theorem sum_kerase_add (k : κ) (entries : List (Sigma fun _ : κ => List α)) :
    ((entries.kerase k).map fun file => (file.2 : Multiset α)).sum +
        ((entries.dlookup k).getD [] : Multiset α) =
      (entries.map fun file => (file.2 : Multiset α)).sum := by
  induction entries with
  | nil => simp
  | cons file entries ih =>
    obtain ⟨name, items⟩ := file
    by_cases heq : k = name
    · subst heq
      have hrest : List.kerase k (⟨k, items⟩ :: entries) = entries := List.kerase_cons_eq rfl
      rw [hrest, List.dlookup_cons_eq, List.map_cons, List.sum_cons]
      exact add_comm _ _
    · have hrest : List.kerase k (⟨name, items⟩ :: entries) = ⟨name, items⟩ :: entries.kerase k :=
        List.kerase_cons_ne heq
      have hlookup : List.dlookup k (⟨name, items⟩ :: entries) = entries.dlookup k :=
        List.dlookup_cons_ne entries ⟨name, items⟩ heq
      rw [hrest, hlookup, List.map_cons, List.map_cons, List.sum_cons, List.sum_cons, add_assoc, ih]

/-- **One file is written**, the others stay. -/
theorem contents_insert (files : AList fun _ : κ => List α) (k : κ) (items : List α) :
    contents (files.insert k items) + ((files.lookup k).getD [] : Multiset α) =
      contents files + items := by
  have hrest := sum_kerase_add k files.entries
  rw [contents, contents, AList.entries_insert, List.map_cons, List.sum_cons, ← hrest, AList.lookup]
  rw [add_assoc, add_comm]

/-- Every file that there is has a name up to `top`. -/
def Below [LE κ] (files : AList fun _ : κ => List α) (top : κ) : Prop :=
  ∀ k, (files.lookup k).isSome → k ≤ top

/-- The name of a single file. -/
theorem below_singleton [Preorder κ] (k : κ) (items : List α) :
    Below (AList.singleton k items : AList fun _ : κ => List α) k := by
  intro j hj
  rw [AList.lookup_isSome, AList.mem_keys, AList.keys_singleton, List.mem_singleton] at hj
  exact hj.le

namespace Below

variable [Preorder κ] {files : AList fun _ : κ => List α} {top k : κ}

/-- **A name above all of them** is not used yet. -/
theorem lookup_eq_none (h : Below files top) (hlt : top < k) : files.lookup k = none := by
  by_contra hne
  exact absurd (h k (Option.isSome_iff_ne_none.mpr hne)) (not_le_of_gt hlt)

/-- Writing a file whose name is not above the new top. -/
theorem insert (h : Below files top) {top' : κ} (htop : top ≤ top') (hk : k ≤ top') (items : List α) :
    Below (files.insert k items) top' := by
  intro j hj
  by_cases heq : j = k
  · exact heq ▸ hk
  · rw [AList.lookup_insert_ne heq] at hj
    exact (h j hj).trans htop

end Below

end DedupServer.Foundations
