import DedupServer.Foundations.Pieces
import Mathlib.Data.List.Nodup
import Mathlib.Data.List.Perm.Subperm
import Mathlib.Logic.Function.Basic

/-! # A heap of blocks

A heap maps addresses to blocks of bytes (`Heap`). `malloc` gives a block with any content at a free
address, `store` and `load` fail outside of a block, and `free` fails for an address that is free.
`Heap.Owned` says that some addresses are those of different blocks of given sizes; it is what the parts
of a program that own these blocks keep. -/

namespace DedupServer.Foundations

/-- **A block** of memory: its bytes, as many as its size. -/
structure Block where
  size : ℕ
  data : List UInt8
  length_data : data.length = size

/-- Copy bytes into a block that has room for them. -/
def Block.copy (block : Block) (pos : ℕ) (bs : List UInt8) (h : pos + bs.length ≤ block.size) : Block where
  size := block.size
  data := overwrite block.data pos bs
  length_data := (length_overwrite (block.length_data ▸ h)).trans block.length_data

/-- A heap: the block at each address. -/
abbrev Heap := ℕ → Option Block

/-- Sublists up to order, under a function. -/
theorem subperm_map {α β : Type*} (f : α → β) {l l' : List α} (h : l.Subperm l') :
    (l.map f).Subperm (l'.map f) := by
  obtain ⟨m, hperm, hsub⟩ := h
  exact ⟨m.map f, hperm.map f, hsub.map f⟩

namespace Heap

/-- `malloc` returns the address `p` of `block`, which was free. -/
def malloc (h : Heap) (p : ℕ) (block : Block) : Option Heap :=
  match h p with
  | none => some (Function.update h p (some block))
  | some _ => none

/-- Copy bytes into a block. -/
def store (h : Heap) (p pos : ℕ) (bs : List UInt8) : Option Heap :=
  match h p with
  | some block =>
    if hin : pos + bs.length ≤ block.size then
      some (Function.update h p (some (block.copy pos bs hin)))
    else none
  | none => none

/-- The first bytes of a block. -/
def load (h : Heap) (p n : ℕ) : Option (List UInt8) :=
  match h p with
  | some block => if n ≤ block.size then some (block.data.take n) else none
  | none => none

/-- `free`. -/
def free (h : Heap) (p : ℕ) : Option Heap :=
  match h p with
  | some _ => some (Function.update h p none)
  | none => none

/-- The first bytes of a block, without a check. -/
def read (h : Heap) (p n : ℕ) : List UInt8 := ((h p).elim [] Block.data).take n

/-- **Different blocks**, given by address and size. -/
structure Owned (h : Heap) (blocks : List (ℕ × ℕ)) : Prop where
  nodup : (blocks.map Prod.fst).Nodup
  live : ∀ b ∈ blocks, ∃ block, h b.1 = some block ∧ block.size = b.2

variable {h h' : Heap} {blocks blocks' : List (ℕ × ℕ)} {p q n pos : ℕ} {bs : List UInt8}
  {block : Block}

/-- What is read depends on the block alone. -/
theorem read_congr (heq : h' q = h q) (n : ℕ) : h'.read q n = h.read q n := by
  rw [read, read, heq]

/-- Some of the blocks, in any order. -/
theorem Owned.subperm (ho : h.Owned blocks) (hsub : blocks'.Subperm blocks) : h.Owned blocks' := by
  constructor
  · obtain ⟨l, hperm, hl⟩ := subperm_map Prod.fst hsub
    exact hperm.nodup_iff.mp (ho.nodup.sublist hl)
  · intro b hb
    exact ho.live b (hsub.subset hb)

/-- The other blocks are elsewhere. -/
theorem Owned.ne {b c : ℕ × ℕ} (ho : h.Owned (b :: blocks)) (hc : c ∈ blocks) : c.1 ≠ b.1 := by
  have hnot := (List.nodup_cons.mp ho.nodup).1
  intro heq
  exact hnot (heq ▸ List.mem_map_of_mem hc)

/-- The blocks are as they were when nothing changes at their addresses. -/
theorem Owned.congr (ho : h.Owned blocks) (heq : ∀ b ∈ blocks, h' b.1 = h b.1) :
    h'.Owned blocks := by
  refine ⟨ho.nodup, fun b hb => ?_⟩
  rw [heq b hb]
  exact ho.live b hb

/-- **A block can be written to** within its size. -/
theorem Owned.exists_store (ho : h.Owned ((p, n) :: blocks)) (hle : pos + bs.length ≤ n) :
    ∃ h', h.store p pos bs = some h' := by
  obtain ⟨block, hblock, hsize⟩ := ho.live _ List.mem_cons_self
  have hin : pos + bs.length ≤ block.size := hsize ▸ hle
  refine ⟨Function.update h p (some (block.copy pos bs hin)), ?_⟩
  rw [Heap.store, hblock]
  dsimp only
  rw [dif_pos hin]

/-- **What is written** reads back, and nothing else changes. -/
theorem Owned.store (ho : h.Owned ((p, n) :: blocks)) (hstore : h.store p pos bs = some h') :
    h'.Owned ((p, n) :: blocks) ∧ h'.read p (pos + bs.length) = h.read p pos ++ bs ∧
      ∀ q, q ≠ p → h' q = h q := by
  unfold Heap.store at hstore
  split at hstore
  · rename_i block hblock
    split at hstore
    · rename_i hin
      obtain rfl := Option.some.inj hstore
      -- the other blocks are where they were
      have hother : ∀ q, q ≠ p →
          Function.update h p (some (block.copy pos bs hin)) q = h q := by
        intro q hq
        rw [Function.update_of_ne hq]
      refine ⟨⟨ho.nodup, ?_⟩, ?_, hother⟩
      · intro b hb
        rcases List.mem_cons.mp hb with rfl | hb
        -- the block that is written keeps its size
        · obtain ⟨block', hblock', hsize⟩ := ho.live _ List.mem_cons_self
          obtain rfl := Option.some.inj (hblock.symm.trans hblock')
          exact ⟨block.copy pos bs hin, Function.update_self .., hsize⟩
        · rw [hother b.1 (ho.ne hb)]
          exact ho.live b (List.mem_cons_of_mem _ hb)
      · rw [read, read, Function.update_self, hblock]
        apply take_overwrite
        rw [block.length_data]
        exact le_trans (Nat.le_add_right _ _) hin
    · cases hstore
  · cases hstore

/-- **A block can be read** within its size. -/
theorem Owned.load (ho : h.Owned blocks) (hb : (p, n) ∈ blocks) (hle : pos ≤ n) :
    h.load p pos = some (h.read p pos) := by
  obtain ⟨block, hblock, hsize⟩ := ho.live _ hb
  have hin : pos ≤ block.size := hsize ▸ hle
  rw [Heap.load, read, hblock]
  dsimp only
  rw [if_pos hin]
  rfl

/-- **A new block** is different from those that are owned. -/
theorem Owned.malloc (ho : h.Owned blocks) (hnew : h.malloc p block = some h') :
    h'.Owned ((p, block.size) :: blocks) ∧ ∀ q, q ≠ p → h' q = h q := by
  unfold Heap.malloc at hnew
  split at hnew
  · rename_i hfree
    obtain rfl := Option.some.inj hnew
    have hother : ∀ q, q ≠ p → Function.update h p (some block) q = h q := by
      intro q hq
      rw [Function.update_of_ne hq]
    -- a block that is live is not at a free address
    have hne : ∀ b ∈ blocks, b.1 ≠ p := by
      intro b hb heq
      obtain ⟨_, hlive, -⟩ := ho.live b hb
      rw [heq, hfree] at hlive
      cases hlive
    refine ⟨⟨?_, ?_⟩, hother⟩
    · apply List.nodup_cons.mpr
      refine ⟨?_, ho.nodup⟩
      intro hmem
      obtain ⟨b, hb, heq⟩ := List.mem_map.mp hmem
      exact hne b hb heq
    · intro b hb
      rcases List.mem_cons.mp hb with rfl | hb
      · exact ⟨block, Function.update_self .., rfl⟩
      · rw [hother b.1 (hne b hb)]
        exact ho.live b hb
  · cases hnew

/-- **A block that is owned can be freed.** -/
theorem Owned.exists_free (ho : h.Owned ((p, n) :: blocks)) : ∃ h', h.free p = some h' := by
  obtain ⟨block, hblock, -⟩ := ho.live _ List.mem_cons_self
  refine ⟨Function.update h p none, ?_⟩
  rw [Heap.free, hblock]

/-- The other blocks stay. -/
theorem Owned.free (ho : h.Owned ((p, n) :: blocks)) (hfree : h.free p = some h') :
    h'.Owned blocks ∧ ∀ q, q ≠ p → h' q = h q := by
  unfold Heap.free at hfree
  split at hfree
  · obtain rfl := Option.some.inj hfree
    have hother : ∀ q, q ≠ p → Function.update h p none q = h q := by
      intro q hq
      rw [Function.update_of_ne hq]
    refine ⟨?_, hother⟩
    exact (ho.subperm (List.sublist_cons_self _ _).subperm).congr fun b hb => hother b.1 (ho.ne hb)
  · cases hfree

/-! ## What has been allocated since -/

/-- **Exactly these blocks** have been allocated and not freed since the heap was `h₀`. -/
structure Allocated (h₀ h : Heap) (blocks : List (ℕ × ℕ)) : Prop where
  owned : h.Owned blocks
  outside : ∀ p, p ∉ blocks.map Prod.fst → h p = h₀ p
  fresh : ∀ b ∈ blocks, h₀ b.1 = none

variable {h₀ : Heap}

theorem allocated_nil (h : Heap) : Allocated h h [] where
  owned := ⟨List.nodup_nil, fun b hb => by cases hb⟩
  outside _ _ := rfl
  fresh b hb := by cases hb

/-- The order of the blocks does not matter. -/
theorem Allocated.perm (ha : Allocated h₀ h blocks) (hp : blocks.Perm blocks') :
    Allocated h₀ h blocks' where
  owned := ha.owned.subperm hp.symm.subperm
  outside q hq := ha.outside q fun hmem => hq ((hp.map Prod.fst).subset hmem)
  fresh b hb := ha.fresh b (hp.symm.subset hb)

/-- Writing allocates nothing. -/
theorem Allocated.store (ha : Allocated h₀ h ((p, n) :: blocks)) (hstore : h.store p pos bs = some h') :
    Allocated h₀ h' ((p, n) :: blocks) where
  owned := (ha.owned.store hstore).1
  outside q hq := by
    have hne : q ≠ p := by
      rintro rfl
      exact hq List.mem_cons_self
    rw [(ha.owned.store hstore).2.2 q hne]
    exact ha.outside q hq
  fresh := ha.fresh

/-- `malloc` adds a block. -/
theorem Allocated.malloc (ha : Allocated h₀ h blocks) (hnew : h.malloc p block = some h') :
    Allocated h₀ h' ((p, block.size) :: blocks) := by
  obtain ⟨howned, hother⟩ := ha.owned.malloc hnew
  have hnotin : p ∉ blocks.map Prod.fst := (List.nodup_cons.mp howned.nodup).1
  refine ⟨howned, fun q hq => ?_, fun b hb => ?_⟩
  · simp only [List.map_cons, List.mem_cons, not_or] at hq
    obtain ⟨hne, hq⟩ := hq
    rw [hother q hne]
    exact ha.outside q hq
  · rcases List.mem_cons.mp hb with rfl | hb
    · -- the address was free, and nobody has had it since
      have hfree : h p = none := by
        unfold Heap.malloc at hnew
        split at hnew
        · assumption
        · cases hnew
      exact (ha.outside p hnotin).symm.trans hfree
    · exact ha.fresh b hb

/-- `free` takes one away. -/
theorem Allocated.free (ha : Allocated h₀ h ((p, n) :: blocks)) (hfree : h.free p = some h') :
    Allocated h₀ h' blocks := by
  obtain ⟨howned, hother⟩ := ha.owned.free hfree
  refine ⟨howned, fun q hq => ?_, fun b hb => ha.fresh b (List.mem_cons_of_mem _ hb)⟩
  by_cases hqp : q = p
  · subst hqp
    unfold Heap.free at hfree
    split at hfree
    · obtain rfl := Option.some.inj hfree
      rw [Function.update_self]
      exact (ha.fresh _ List.mem_cons_self).symm
    · cases hfree
  · rw [hother q hqp]
    exact ha.outside q fun hmem => (List.mem_cons.mp hmem).elim hqp hq

/-- **What is live** is what was, and the blocks. -/
theorem Allocated.live_iff (ha : Allocated h₀ h blocks) (q : ℕ) :
    h q ≠ none ↔ h₀ q ≠ none ∨ q ∈ blocks.map Prod.fst := by
  by_cases hq : q ∈ blocks.map Prod.fst
  · obtain ⟨b, hb, rfl⟩ := List.mem_map.mp hq
    obtain ⟨block, hblock, -⟩ := ha.owned.live b hb
    simp [hblock, hq]
  · rw [ha.outside q hq]
    simp [hq]

end Heap

end DedupServer.Foundations
