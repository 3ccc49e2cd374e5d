import Mathlib.Order.Interval.Set.Nat
import Mathlib.Data.Set.Lattice
import Mathlib.Order.CompletePartialOrder

/-! # Extents that tile

Extents are pairs of an offset and a size. They tile an interval from 0 when they are pairwise disjoint and
cover it (`Tiles`). A record of pieces that were put to the ends of buffers is packed when the extents of
each buffer tile it and every piece is where it was put (`Packed`); opening a buffer, putting a piece to the
end of the last one and dropping a buffer that is empty keep it packed. -/

namespace DedupServer.Foundations

/-- The positions of an extent. -/
def span (e : ℕ × ℕ) : Set ℕ := Set.Ico e.1 (e.1 + e.2)

/-- **The extents tile `[0, n)`**: no two of them share a position, and together they are all of it. -/
structure Tiles (es : List (ℕ × ℕ)) (n : ℕ) : Prop where
  disjoint : es.Pairwise fun e f => Disjoint (span e) (span f)
  cover : ⋃ e ∈ es, span e = Set.Iio n

namespace Tiles

variable {es : List (ℕ × ℕ)} {n k : ℕ}

/-- Nothing tiles the empty interval. -/
theorem nil : Tiles [] 0 := by
  refine ⟨.nil, ?_⟩
  ext i
  simp

/-- **One more extent**, at the end. -/
theorem concat (h : Tiles es n) (k : ℕ) : Tiles (es ++ [(n, k)]) (n + k) := by
  -- the old spans cover what is below `n`, so the new one begins where they end
  have hbelow : ∀ e ∈ es, ∀ i ∈ span e, i < n := by
    intro e he i hi
    have hmem : i ∈ ⋃ e ∈ es, span e := Set.mem_biUnion he hi
    rw [h.cover] at hmem
    exact hmem
  constructor
  · apply List.pairwise_append.mpr
    refine ⟨h.disjoint, List.pairwise_singleton _ _, ?_⟩
    intro e he f hf
    obtain rfl := List.mem_singleton.mp hf
    apply Set.disjoint_left.mpr
    intro i hi hi'
    exact absurd (hbelow e he i hi) (Nat.not_lt_of_le hi'.1)
  · ext i
    constructor
    · intro hi
      obtain ⟨e, he, hie⟩ := Set.mem_iUnion₂.mp hi
      rcases List.mem_append.mp he with he | he
      · exact Nat.lt_add_right k (hbelow e he i hie)
      · obtain rfl := List.mem_singleton.mp he
        exact hie.2
    · intro hi
      apply Set.mem_iUnion₂.mpr
      -- below `n` an old span has it, from `n` on the new one
      by_cases hlt : i < n
      · have hmem : i ∈ ⋃ e ∈ es, span e := by
          rw [h.cover]
          exact hlt
        obtain ⟨e, he, hie⟩ := Set.mem_iUnion₂.mp hmem
        exact ⟨e, List.mem_append_left _ he, hie⟩
      · exact ⟨(n, k), List.mem_append_right _ List.mem_cons_self, Nat.le_of_not_lt hlt, hi⟩

end Tiles

/-! ## Pieces in buffers -/

section Packed

variable {ι α : Type*} [DecidableEq ι]

/-- A piece that was put into a buffer, with the offset. -/
structure Placed (ι α : Type*) where
  buffer : ι
  offset : ℕ
  piece : List α

/-- The extents that were handed out for a buffer. -/
def extentsOf (placed : List (Placed ι α)) (i : ι) : List (ℕ × ℕ) :=
  (placed.filter (·.buffer = i)).map fun p => (p.offset, p.piece.length)

/-- **The pieces are packed**: the extents of each buffer tile it, and each piece is in its buffer where it
was put. -/
structure Packed (placed : List (Placed ι α)) (buffers : List (ι × List α)) : Prop where
  tiles : ∀ b ∈ buffers, Tiles (extentsOf placed b.1) b.2.length
  held : ∀ p ∈ placed, ∃ b ∈ buffers, b.1 = p.buffer ∧
    (b.2.drop p.offset).take p.piece.length = p.piece

variable {placed : List (Placed ι α)} {buffers : List (ι × List α)} {i j : ι} {content piece : List α}

/-- A slice that lies whole in a list is the same in a longer one. -/
theorem take_drop_append_of_length {l m : List α} {o n : ℕ} (h : ((l.drop o).take n).length = n) :
    ((l ++ m).drop o).take n = (l.drop o).take n := by
  rw [List.length_take, List.length_drop] at h
  by_cases hn : n = 0
  · rw [hn, List.take_zero, List.take_zero]
  · rw [List.drop_append_of_le_length (by omega), List.take_append_of_le_length]
    rw [List.length_drop]
    omega

/-- Pieces for another buffer do not count. -/
theorem extentsOf_concat_of_ne {p : Placed ι α} (hne : p.buffer ≠ i) :
    extentsOf (placed ++ [p]) i = extentsOf placed i := by
  rw [extentsOf, List.filter_append, List.filter_cons_of_neg (by simpa using hne)]
  simp [extentsOf]

/-- A piece for the buffer is the last one. -/
theorem extentsOf_concat_self (p : Placed ι α) :
    extentsOf (placed ++ [p]) p.buffer =
      extentsOf placed p.buffer ++ [(p.offset, p.piece.length)] := by
  rw [extentsOf, List.filter_append, List.filter_cons_of_pos (by simp)]
  simp [extentsOf]

namespace Packed

/-- No pieces, and one empty buffer. -/
theorem nil (i : ι) : Packed (α := α) [] [(i, [])] := by
  constructor
  · intro b hb
    rw [List.mem_singleton.mp hb]
    exact Tiles.nil
  · intro p hp
    cases hp

/-- What was put into a buffer is in one of those there are. -/
theorem buffer_mem (h : Packed placed buffers) {p : Placed ι α} (hp : p ∈ placed) :
    p.buffer ∈ buffers.map Prod.fst := by
  obtain ⟨b, hb, hid, -⟩ := h.held p hp
  exact hid ▸ List.mem_map_of_mem hb

/-- **A new buffer** is empty. -/
theorem renew (h : Packed placed buffers) (hnew : i ∉ buffers.map Prod.fst) :
    Packed placed (buffers ++ [(i, [])]) := by
  constructor
  · intro b hb
    rcases List.mem_append.mp hb with hb | hb
    · exact h.tiles b hb
    · rw [List.mem_singleton.mp hb]
      have hnone : extentsOf placed i = [] := by
        rw [extentsOf, List.map_eq_nil_iff, List.filter_eq_nil_iff]
        intro p hp hid
        rw [decide_eq_true_eq] at hid
        exact hnew (hid ▸ h.buffer_mem hp)
      show Tiles (extentsOf placed i) 0
      rw [hnone]
      exact Tiles.nil
  · intro p hp
    obtain ⟨b, hb, hheld⟩ := h.held p hp
    exact ⟨b, List.mem_append_left _ hb, hheld⟩

/-- **A piece is put to the end** of the last buffer. -/
theorem put (h : Packed placed (buffers ++ [(i, content)])) (hother : i ∉ buffers.map Prod.fst)
    (piece : List α) :
    Packed (placed ++ [⟨i, content.length, piece⟩]) (buffers ++ [(i, content ++ piece)]) := by
  constructor
  · intro b hb
    rcases List.mem_append.mp hb with hb | hb
    · have hne : i ≠ b.1 := by
        intro heq
        exact hother (heq ▸ List.mem_map_of_mem hb)
      rw [extentsOf_concat_of_ne hne]
      exact h.tiles b (List.mem_append_left _ hb)
    · obtain rfl := List.mem_singleton.mp hb
      have hlast := h.tiles (i, content) (List.mem_append_right _ List.mem_cons_self)
      show Tiles (extentsOf _ i) (content ++ piece).length
      rw [extentsOf_concat_self ⟨i, content.length, piece⟩, List.length_append]
      exact hlast.concat piece.length
  · intro p hp
    rcases List.mem_append.mp hp with hp | hp
    · -- an earlier piece stays where it is
      obtain ⟨b, hb, hid, hslice⟩ := h.held p hp
      rcases List.mem_append.mp hb with hb | hb
      · exact ⟨b, List.mem_append_left _ hb, hid, hslice⟩
      · obtain rfl := List.mem_singleton.mp hb
        refine ⟨(i, content ++ piece), List.mem_append_right _ List.mem_cons_self, hid, ?_⟩
        dsimp only at hslice ⊢
        rw [take_drop_append_of_length (congrArg List.length hslice)]
        exact hslice
    · obtain rfl := List.mem_singleton.mp hp
      refine ⟨(i, content ++ piece), List.mem_append_right _ List.mem_cons_self, rfl, ?_⟩
      show ((content ++ piece).drop content.length).take piece.length = piece
      rw [List.drop_left, List.take_length]

/-- **A buffer that is empty can be dropped** when no piece is. -/
theorem drop (h : Packed placed (buffers ++ [(i, [])])) (hpieces : ∀ p ∈ placed, p.piece ≠ []) :
    Packed placed buffers := by
  constructor
  · intro b hb
    exact h.tiles b (List.mem_append_left _ hb)
  · intro p hp
    obtain ⟨b, hb, hid, hslice⟩ := h.held p hp
    rcases List.mem_append.mp hb with hb | hb
    · exact ⟨b, hb, hid, hslice⟩
    · obtain rfl := List.mem_singleton.mp hb
      rw [List.drop_nil, List.take_nil] at hslice
      exact absurd hslice.symm (hpieces p hp)

end Packed

end Packed

end DedupServer.Foundations
