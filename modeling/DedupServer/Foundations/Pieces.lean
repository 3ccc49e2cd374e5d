import Mathlib.Data.List.Forall2
import Mathlib.Data.List.Flatten
import Mathlib.Tactic.Ring

/-! # Fixed-width pieces of a list, and memory written in place

Two things every byte protocol rests on, stated over lists of any element type.

* **`piece w l i`** — the `i`-th block of width `w`, the last one possibly shorter;
  `pieces w l` cuts the whole list and `flatten_pieces` puts it together again.
* **`Ragged w cs`** — a list of blocks that all have width `w`, except that the last may be
  shorter (never empty). It is closed under sublists, which is why a receiver that is told
  only *which* blocks were kept can recompute every offset (`Ragged.slice_append`).
* **`overwrite buf off xs`** — writing `xs` over `buf` from position `off`, the list form of
  copying into memory or into a file that is not truncated. -/

namespace DedupServer.Foundations

variable {α : Type*}

/-! ## Pieces of fixed width -/

/-- The `i`-th block of width `w` of a list (shorter at the end of the list). -/
def piece (w : Nat) (l : List α) (i : Nat) : List α := (l.drop (i * w)).take w

/-- Number of blocks of width `w` a list of length `n` is cut into: `⌈n / w⌉`. -/
def pieceCount (w n : Nat) : Nat := (n + (w - 1)) / w

/-- The list cut into blocks of width `w`. -/
def pieces (w : Nat) (l : List α) : List (List α) :=
  (List.range (pieceCount w l.length)).map (piece w l)

/-- **A sequence of blocks of width `w` with a possibly shorter last one.** Every block that is
followed by another has width exactly `w`, and no block is empty or longer than `w`. -/
def Ragged (w : Nat) (cs : List (List α)) : Prop :=
  cs.Pairwise (fun c _ => c.length = w) ∧ ∀ c ∈ cs, 0 < c.length ∧ c.length ≤ w

instance (w : Nat) (cs : List (List α)) : Decidable (Ragged w cs) :=
  inferInstanceAs (Decidable (_ ∧ _))

/-- The empty sequence is ragged. -/
@[simp] theorem ragged_nil (w : Nat) : Ragged w ([] : List (List α)) := by
  simp [Ragged]

/-- A block in front of a ragged sequence: it has full width unless the sequence is empty. -/
theorem ragged_cons {w : Nat} {c : List α} {cs : List (List α)} :
    Ragged w (c :: cs) ↔
      (cs ≠ [] → c.length = w) ∧ (0 < c.length ∧ c.length ≤ w) ∧ Ragged w cs := by
  simp only [Ragged, List.pairwise_cons, List.mem_cons, forall_eq_or_imp]
  constructor
  · rintro ⟨⟨hfull, hpair⟩, hc, hcs⟩
    refine ⟨fun hne => ?_, hc, hpair, hcs⟩
    obtain ⟨d, hd⟩ := List.exists_mem_of_ne_nil cs hne
    exact hfull d hd
  · rintro ⟨hfull, hc, hpair, hcs⟩
    exact ⟨⟨fun d hd => hfull (List.ne_nil_of_mem hd), hpair⟩, hc, hcs⟩

/-- **Dropping blocks keeps a sequence ragged**: only a last block can be short, and what is
last in a sublist was last before or is followed by something. -/
theorem Ragged.sublist {w : Nat} {cs ds : List (List α)} (h : Ragged w cs)
    (hsub : ds.Sublist cs) : Ragged w ds :=
  ⟨h.1.sublist hsub, fun c hc => h.2 c (hsub.subset hc)⟩

/-- A ragged sequence of `n` blocks holds at most `n * w` elements. -/
theorem Ragged.length_flatten_le {w : Nat} {cs : List (List α)} (h : Ragged w cs) :
    cs.flatten.length ≤ cs.length * w := by
  induction cs with
  | nil => simp
  | cons c cs ih =>
    obtain ⟨-, hc, hcs⟩ := ragged_cons.mp h
    have := ih hcs
    simp only [List.flatten_cons, List.length_append, List.length_cons, Nat.add_mul]
    omega

/-- **Where block `u` of a ragged sequence lies.** It starts at `u * w` and ends at
`min ((u + 1) * w)` of the total length. -/
theorem Ragged.offsets {w : Nat} {cs : List (List α)} (h : Ragged w cs) {u : Nat}
    (hu : u < cs.length) :
    u * w + cs[u].length = min ((u + 1) * w) cs.flatten.length ∧
      (cs.flatten.drop (u * w)).take cs[u].length = cs[u] := by
  -- on the list, from the front: the first piece is full unless it is the last
  induction cs generalizing u with
  | nil => simp at hu
  | cons c cs ih =>
    obtain ⟨hfull, hc, hcs⟩ := ragged_cons.mp h
    cases u with
    | zero =>
      refine ⟨?_, by simp⟩
      simp only [List.getElem_cons_zero, List.flatten_cons, List.length_append]
      by_cases hne : cs = []
      · subst hne
        simp
        omega
      · have := hfull hne
        omega
    | succ u =>
      have hu' : u < cs.length := by simpa using hu
      have hne : cs ≠ [] := by
        rintro rfl
        simp at hu'
      -- a piece follows, so that the first one is full and the offset skips it whole
      have hw := hfull hne
      obtain ⟨hlen, htake⟩ := ih hcs hu'
      simp only [List.getElem_cons_succ, List.flatten_cons, List.length_append]
      constructor
      · have h1 : (u + 1) * w = u * w + w := by ring
        have h2 : (u + 1 + 1) * w = (u + 1) * w + w := by ring
        omega
      · have h1 : (u + 1) * w = c.length + u * w := by rw [hw]; ring
        rw [h1, List.drop_length_add_append]
        exact htake

/-- **Slicing undoes concatenation.** Cutting block `u` out of a ragged sequence followed by
anything, with the end of the slice clipped at the length of the sequence, gives block `u`. -/
theorem Ragged.slice_append {w : Nat} {cs : List (List α)} (h : Ragged w cs) (rest : List α)
    {u : Nat} (hu : u < cs.length) :
    ((cs.flatten ++ rest).drop (u * w)).take (min ((u + 1) * w) cs.flatten.length - u * w)
      = cs[u] := by
  obtain ⟨hlen, htake⟩ := h.offsets hu
  have hsize : min ((u + 1) * w) cs.flatten.length - u * w = cs[u].length := by omega
  have hle : u * w + cs[u].length ≤ cs.flatten.length := by omega
  rw [hsize, List.drop_append_of_le_length (by omega),
    List.take_append_of_le_length (by rw [List.length_drop]; omega), htake]

/-- The `i`-th piece of a concatenated ragged sequence is its `i`-th block. -/
theorem Ragged.piece_flatten {w : Nat} {cs : List (List α)} (h : Ragged w cs) {i : Nat}
    (hi : i < cs.length) : piece w cs.flatten i = cs[i] := by
  obtain ⟨hlen, htake⟩ := h.offsets hi
  have hc := h.2 cs[i] (List.getElem_mem hi)
  rw [piece, ← htake, List.take_eq_take_iff, List.length_drop]
  have h2 : (i + 1) * w = i * w + w := by ring
  omega

/-- Blocks of one common positive width form a ragged sequence. -/
theorem ragged_of_length_eq {w : Nat} (hw : 0 < w) {cs : List (List α)}
    (h : ∀ c ∈ cs, c.length = w) : Ragged w cs :=
  ⟨List.pairwise_of_forall_mem_list fun c hc _ _ => h c hc, fun c hc => by
    rw [h c hc]; exact ⟨hw, le_refl w⟩⟩

/-- Blocks of one common width together. -/
theorem length_flatten_of_length_eq {w : Nat} {cs : List (List α)} (h : ∀ c ∈ cs, c.length = w) :
    cs.flatten.length = cs.length * w := by
  induction cs with
  | nil => simp
  | cons c cs ih =>
    rw [List.flatten_cons, List.length_append, h c List.mem_cons_self,
      ih fun d hd => h d (List.mem_cons_of_mem c hd), List.length_cons, Nat.succ_mul, Nat.add_comm]

/-- The first records are the first bytes. -/
theorem take_flatten_of_length_eq {w : Nat} {cs : List (List α)} (h : ∀ c ∈ cs, c.length = w)
    (n : Nat) : cs.flatten.take (w * n) = (cs.take n).flatten := by
  induction n generalizing cs with
  | zero => simp
  | succ n ih =>
    cases cs with
    | nil => simp
    | cons c cs =>
      have hc : c.length = w := h c List.mem_cons_self
      rw [List.flatten_cons, List.take_succ_cons, List.flatten_cons, Nat.mul_succ, Nat.add_comm,
        ← hc, List.take_length_add_append, hc, ih fun d hd => h d (List.mem_cons_of_mem c hd)]

/-- The bytes behind the first records are the other records. -/
theorem drop_flatten_of_length_eq {w : Nat} {cs : List (List α)} (h : ∀ c ∈ cs, c.length = w)
    (n : Nat) : cs.flatten.drop (w * n) = (cs.drop n).flatten := by
  induction n generalizing cs with
  | zero => simp
  | succ n ih =>
    cases cs with
    | nil => simp
    | cons c cs =>
      have hc : c.length = w := h c List.mem_cons_self
      rw [List.flatten_cons, List.drop_succ_cons, Nat.mul_succ, Nat.add_comm, ← hc,
        List.drop_length_add_append, hc, ih fun d hd => h d (List.mem_cons_of_mem c hd)]

/-- **Reading an array of records.** A concatenation of `n` records of width `w`, read record by
record, gives the records back, whatever follows them. -/
theorem map_piece_flatten_append {w : Nat} (hw : 0 < w) {cs : List (List α)}
    (h : ∀ c ∈ cs, c.length = w) (rest : List α) :
    (List.range cs.length).map (piece w (cs.flatten ++ rest)) = cs := by
  apply List.ext_getElem
  · simp
  · intro i hi hi'
    simp only [List.length_map, List.length_range] at hi
    simp only [List.getElem_map, List.getElem_range]
    have hrag := ragged_of_length_eq hw h
    obtain ⟨hlen, htake⟩ := hrag.offsets hi
    have hci : cs[i].length = w := h _ (List.getElem_mem hi)
    rw [piece, List.drop_append_of_le_length (by omega),
      List.take_append_of_le_length (by rw [List.length_drop]; omega), ← hci]
    simpa [hci] using htake

/-! ## Cutting a list and putting it together -/

/-- No element, no piece. -/
@[simp] theorem pieces_nil (w : Nat) (hw : 0 < w) : pieces w ([] : List α) = [] := by
  simp only [pieces, pieceCount, List.length_nil, Nat.zero_add]
  rw [Nat.div_eq_of_lt (by omega)]
  rfl

/-- The first piece is the first `w` elements, the others are the pieces of the rest. -/
theorem pieces_of_ne_nil {w : Nat} (hw : 0 < w) {l : List α} (hl : l ≠ []) :
    pieces w l = l.take w :: pieces w (l.drop w) := by
  have hpos : 0 < l.length := List.length_pos_iff.mpr hl
  have hcount : pieceCount w l.length = pieceCount w (l.drop w).length + 1 := by
    simp only [pieceCount, List.length_drop]
    rcases Nat.lt_or_ge l.length w with hlt | hge
    · rw [Nat.sub_eq_zero_of_le hlt.le, Nat.zero_add, Nat.div_eq_of_lt (by omega : w - 1 < w)]
      rw [show l.length + (w - 1) = l.length - 1 + w by omega, Nat.add_div_right _ hw,
        Nat.div_eq_of_lt (by omega)]
    · rw [show l.length + (w - 1) = l.length - w + (w - 1) + w by omega, Nat.add_div_right _ hw]
  simp only [pieces, hcount, List.range_succ_eq_map, List.map_cons, List.map_map]
  congr 1
  · simp [piece]
  · apply List.map_congr_left
    intro i _
    simp only [Function.comp, piece, List.drop_drop]
    rw [show i.succ * w = w + i * w by rw [Nat.succ_mul]; ring]

/-- **The pieces of a list, put together, are the list.** -/
theorem flatten_pieces {w : Nat} (hw : 0 < w) (l : List α) : (pieces w l).flatten = l := by
  by_cases hl : l = []
  · simp [hl, hw]
  · rw [pieces_of_ne_nil hw hl, List.flatten_cons, flatten_pieces hw (l.drop w),
      List.take_append_drop]
termination_by l.length
decreasing_by
  have := List.length_pos_iff.mpr hl
  rw [List.length_drop]
  omega

/-- The pieces of a list form a ragged sequence. -/
theorem ragged_pieces {w : Nat} (hw : 0 < w) (l : List α) : Ragged w (pieces w l) := by
  by_cases hl : l = []
  · simp [hl, hw]
  · have hpos := List.length_pos_iff.mpr hl
    rw [pieces_of_ne_nil hw hl, ragged_cons]
    refine ⟨fun hne => ?_, ?_, ragged_pieces hw (l.drop w)⟩
    · have hdrop : l.drop w ≠ [] := by
        intro h
        rw [h, pieces_nil w hw] at hne
        exact hne rfl
      rw [List.length_take, min_eq_left]
      have := List.length_pos_iff.mpr hdrop
      rw [List.length_drop] at this
      omega
    · rw [List.length_take]
      omega
termination_by l.length
decreasing_by
  rw [List.length_drop]
  omega

/-- **Batching does not move the cuts.** A list cut after a multiple of the width gives the same
pieces as its two parts. -/
theorem pieces_take_append_pieces_drop {w : Nat} (hw : 0 < w) (n : Nat) (l : List α) :
    pieces w (l.take (w * n)) ++ pieces w (l.drop (w * n)) = pieces w l := by
  induction n generalizing l with
  | zero => simp [hw]
  | succ n ih =>
    by_cases hl : l = []
    · simp [hl, hw]
    · have htake : l.take (w * (n + 1)) ≠ [] := by
        rw [Ne, List.take_eq_nil_iff]
        simp only [not_or]
        exact ⟨Nat.mul_ne_zero hw.ne' (by omega), hl⟩
      have h1 : min w (w * (n + 1)) = w := min_eq_left (Nat.le_mul_of_pos_right _ (by omega))
      have h2 : w * (n + 1) = w + w * n := by ring
      rw [pieces_of_ne_nil hw htake, pieces_of_ne_nil hw hl, List.take_take, h1, List.cons_append,
        h2, List.drop_take, ← List.drop_drop, Nat.add_sub_cancel_left, ih (l.drop w)]

/-! ## Selecting by an answer -/

section Picks

variable {κ β γ : Type*} [DecidableEq κ]

/-- What stands beside the answer `a` in a list of answered questions, in order. -/
def picks (a : κ) (qs : List (κ × β)) : List β := (qs.filter fun q => q.1 = a).map (·.2)

@[simp] theorem picks_nil (a : κ) : picks a ([] : List (κ × β)) = [] := rfl

/-- A question answered `a` is selected. -/
@[simp] theorem picks_cons_self (a : κ) (x : β) (qs : List (κ × β)) :
    picks a ((a, x) :: qs) = x :: picks a qs := by
  simp [picks]

/-- A question answered otherwise is not selected. -/
theorem picks_cons_of_ne {a b : κ} (h : b ≠ a) (x : β) (qs : List (κ × β)) :
    picks a ((b, x) :: qs) = picks a qs := by
  simp [picks, h]

/-- When all questions are answered `a`, all are selected. -/
theorem picks_of_forall_eq {a : κ} {qs : List (κ × β)} (h : ∀ q ∈ qs, q.1 = a) :
    picks a qs = qs.map (·.2) := by
  rw [picks, List.filter_eq_self.mpr fun q hq => decide_eq_true (h q hq)]

/-- When none is answered `a`, none is selected. -/
theorem picks_of_forall_ne {a : κ} {qs : List (κ × β)} (h : ∀ q ∈ qs, q.1 ≠ a) :
    picks a qs = [] := by
  rw [picks, List.filter_eq_nil_iff.mpr fun q hq => by simpa using h q hq, List.map_nil]

/-- Selecting from a list of questions gives a sublist of it. -/
theorem picks_zip_sublist (a : κ) (as : List κ) (xs : List β) :
    (picks a (as.zip xs)).Sublist xs := by
  induction as generalizing xs with
  | nil => simp
  | cons b as ih =>
    cases xs with
    | nil => simp
    | cons x xs =>
      rw [List.zip_cons_cons]
      by_cases h : b = a
      · subst h
        rw [picks_cons_self]
        exact (ih xs).cons_cons x
      · rw [picks_cons_of_ne h]
        exact (ih xs).cons x

/-- Selecting commutes with a change of the questions. -/
theorem picks_zip_map (a : κ) (f : β → γ) (as : List κ) (xs : List β) :
    picks a (as.zip (xs.map f)) = (picks a (as.zip xs)).map f := by
  induction as generalizing xs with
  | nil => simp
  | cons b as ih =>
    cases xs with
    | nil => simp
    | cons x xs =>
      by_cases h : b = a
      · subst h
        simp [ih]
      · simp only [List.map_cons, List.zip_cons_cons, picks_cons_of_ne h, ih]

/-- Selecting by an answer that is computed from the question is filtering. -/
theorem picks_map_self (a : κ) (f : β → κ) (xs : List β) :
    picks a (xs.map fun x => (f x, x)) = xs.filter fun x => f x = a := by
  simp [picks, List.filter_map, Function.comp_def]

/-- As many questions are selected as the answer occurs. -/
theorem length_picks_zip (a : κ) {as : List κ} {xs : List β} (h : as.length = xs.length) :
    (picks a (as.zip xs)).length = as.count a := by
  induction as generalizing xs with
  | nil => simp
  | cons b as ih =>
    cases xs with
    | nil => simp at h
    | cons x xs =>
      have hlen : as.length = xs.length := by simpa using h
      by_cases hb : b = a
      · subst hb
        simp [ih hlen]
      · rw [List.zip_cons_cons, picks_cons_of_ne hb, ih hlen, List.count_cons_of_ne hb]

/-- When there are two answers, every question is selected by one of them. -/
theorem length_picks_add {a b : κ} (hne : a ≠ b) {qs : List (κ × β)}
    (h : ∀ q ∈ qs, q.1 = a ∨ q.1 = b) :
    (picks a qs).length + (picks b qs).length = qs.length := by
  induction qs with
  | nil => rfl
  | cons q qs ih =>
    obtain ⟨c, x⟩ := q
    have hrest := ih fun q hq => h q (List.mem_cons_of_mem _ hq)
    rcases h (c, x) List.mem_cons_self with rfl | rfl
    · rw [picks_cons_self, picks_cons_of_ne hne, List.length_cons, List.length_cons, ← hrest]
      omega
    · rw [picks_cons_self, picks_cons_of_ne hne.symm, List.length_cons, List.length_cons, ← hrest]
      omega

/-- **Two lists are related when their selections are**, for each of two answers. -/
theorem forall₂_of_picks {a b : κ} (hne : a ≠ b) {R : β → γ → Prop} {as : List κ} {xs : List β}
    {ys : List γ} (hans : ∀ c ∈ as, c = a ∨ c = b) (hxs : as.length = xs.length)
    (hys : as.length = ys.length)
    (ha : List.Forall₂ R (picks a (as.zip xs)) (picks a (as.zip ys)))
    (hb : List.Forall₂ R (picks b (as.zip xs)) (picks b (as.zip ys))) :
    List.Forall₂ R xs ys := by
  -- on the answers: each one moves on in one of the two selections
  induction as generalizing xs ys with
  | nil =>
    obtain rfl := List.length_eq_zero_iff.mp hxs.symm
    obtain rfl := List.length_eq_zero_iff.mp hys.symm
    exact .nil
  | cons c as ih =>
    obtain ⟨x, xs, rfl⟩ := List.exists_cons_of_length_eq_add_one hxs.symm
    obtain ⟨y, ys, rfl⟩ := List.exists_cons_of_length_eq_add_one hys.symm
    have hans' : ∀ c ∈ as, c = a ∨ c = b := fun c hc => hans c (List.mem_cons_of_mem _ hc)
    have hxs' : as.length = xs.length := by simpa using hxs
    have hys' : as.length = ys.length := by simpa using hys
    simp only [List.zip_cons_cons] at ha hb
    rcases hans c List.mem_cons_self with rfl | rfl
    · rw [picks_cons_self, picks_cons_self, List.forall₂_cons] at ha
      rw [picks_cons_of_ne hne, picks_cons_of_ne hne] at hb
      exact .cons ha.1 (ih hans' hxs' hys' ha.2 hb)
    · rw [picks_cons_of_ne hne.symm, picks_cons_of_ne hne.symm] at ha
      rw [picks_cons_self, picks_cons_self, List.forall₂_cons] at hb
      exact .cons hb.1 (ih hans' hxs' hys' ha hb.2)

end Picks

/-- What stands at a position of related lists is related. -/
theorem exists_getElem?_of_forall₂ {β γ : Type*} {R : β → γ → Prop} {xs : List β} {ys : List γ}
    (h : List.Forall₂ R xs ys) {n : ℕ} {x : β} (hx : xs[n]? = some x) :
    ∃ y, ys[n]? = some y ∧ R x y := by
  induction h generalizing n with
  | nil => simp at hx
  | cons hxy _ ih =>
    cases n with
    | zero =>
      obtain rfl := Option.some.inj hx
      exact ⟨_, rfl, hxy⟩
    | succ n => exact ih hx

/-! ## Writing in place -/

/-- `buf` with `xs` written over it from position `off` (at most the end of `buf`). -/
def overwrite (buf : List α) (off : Nat) (xs : List α) : List α :=
  buf.take off ++ xs ++ buf.drop (off + xs.length)

/-- Writing at the end of a list appends to it. -/
theorem overwrite_length (buf xs : List α) : overwrite buf buf.length xs = buf ++ xs := by
  simp [overwrite]

/-- What lies before the written range stays, and the written range reads back. -/
theorem take_overwrite {buf xs : List α} {off : Nat} (h : off ≤ buf.length) :
    (overwrite buf off xs).take (off + xs.length) = buf.take off ++ xs := by
  have hlen : (buf.take off ++ xs).length = off + xs.length := by
    rw [List.length_append, List.length_take, min_eq_left h]
  rw [overwrite, ← hlen, List.take_left]

/-- Writing inside the list keeps its length. -/
theorem length_overwrite {buf xs : List α} {off : Nat} (h : off + xs.length ≤ buf.length) :
    (overwrite buf off xs).length = buf.length := by
  simp only [overwrite, List.length_append, List.length_take, List.length_drop]
  omega

/-! ## Little-endian numbers -/

/-- The `w` little-endian bytes of a number. -/
def leBytes : (w : Nat) → Nat → List UInt8
  | 0, _ => []
  | w + 1, n => UInt8.ofNat n :: leBytes w (n / 256)

/-- The number whose little-endian bytes are given. -/
def ofLeBytes : List UInt8 → Nat
  | [] => 0
  | b :: bs => b.toNat + 256 * ofLeBytes bs

@[simp] theorem length_leBytes (w n : Nat) : (leBytes w n).length = w := by
  induction w generalizing n with
  | zero => rfl
  | succ w ih => simp [leBytes, ih]

/-- Reading back `w` little-endian bytes gives the number modulo `256 ^ w`. -/
theorem ofLeBytes_leBytes (w n : Nat) : ofLeBytes (leBytes w n) = n % 256 ^ w := by
  induction w generalizing n with
  | zero => simp [leBytes, ofLeBytes, Nat.mod_one]
  | succ w ih =>
    have hb : (UInt8.ofNat n).toNat = n % 256 := UInt8.toNat_ofNat'
    rw [leBytes, ofLeBytes, ih, hb, Nat.pow_succ' (m := 256), Nat.mod_mul]

/-- The bytes of the lower part come first. -/
theorem ofLeBytes_append (xs ys : List UInt8) :
    ofLeBytes (xs ++ ys) = ofLeBytes xs + 256 ^ xs.length * ofLeBytes ys := by
  induction xs with
  | nil => simp [ofLeBytes]
  | cons x xs ih =>
    rw [List.cons_append, ofLeBytes, ofLeBytes, ih, List.length_cons, Nat.pow_succ, Nat.mul_add,
      Nat.add_assoc, Nat.mul_comm (256 ^ xs.length) 256, Nat.mul_assoc]

end DedupServer.Foundations
