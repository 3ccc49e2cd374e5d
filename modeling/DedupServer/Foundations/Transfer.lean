import DedupServer.Foundations.Pieces

/-! # Transfers in pieces

A kernel moves as many items at a time as it likes. A loop that goes on until everything has been
moved gives the same result for every way of cutting (`pushAll_eq`, `pullAll_eq`); a single transfer
does not. -/

namespace DedupServer.Foundations

variable {α : Type*}

/-- **Writing in a loop**: what gets onto the stream when the kernel accepts the given numbers of items
one after another, and then all that is left. -/
def pushAll : List ℕ → List α → List α
  | [], xs => xs
  | k :: ks, xs => if xs = [] then [] else xs.take k ++ pushAll ks (xs.drop k)

/-- **Reading in a loop** until `n` items have been read: these items and the rest of the stream, or
nothing when the stream ends and the loop waits for ever. -/
def pullAll : List ℕ → ℕ → List α → Option (List α × List α)
  | [], n, xs => if n ≤ xs.length then some (xs.take n, xs.drop n) else none
  | k :: ks, n, xs =>
    if n = 0 then some ([], xs)
    else if xs = [] then none
    else
      let m := min k (min n xs.length)
      (pullAll ks (n - m) (xs.drop m)).map fun r => (xs.take m ++ r.1, r.2)

/-- **However the kernel cuts**, everything is written. -/
@[simp] theorem pushAll_eq (ks : List ℕ) (xs : List α) : pushAll ks xs = xs := by
  induction ks generalizing xs with
  | nil => rfl
  | cons k ks ih =>
    rw [pushAll, ih]
    split
    · rename_i hnil
      exact hnil.symm
    · exact List.take_append_drop k xs

/-- **However the kernel cuts**, the next `n` items are read. -/
@[simp] theorem pullAll_eq (ks : List ℕ) (n : ℕ) (xs : List α) :
    pullAll ks n xs = if n ≤ xs.length then some (xs.take n, xs.drop n) else none := by
  induction ks generalizing n xs with
  | nil => rfl
  | cons k ks ih =>
    rw [pullAll]
    split
    · rename_i hzero
      simp [hzero]
    · rename_i hpos
      split
      · rename_i hnil
        rw [hnil, List.length_nil, if_neg (by omega)]
      · -- a piece, and the rest by induction
        obtain ⟨m, hm⟩ : ∃ m, m = min k (min n xs.length) := ⟨_, rfl⟩
        simp only [← hm]
        rw [ih, List.length_drop]
        by_cases hle : n ≤ xs.length
        · rw [if_pos hle, if_pos (by omega), Option.map_some, List.drop_drop, ← List.take_add,
            Nat.add_sub_cancel' (by omega)]
        · rw [if_neg hle, if_neg (by omega), Option.map_none]

end DedupServer.Foundations
