import DedupServer.Foundations.Lifetimes
import Mathlib.Algebra.BigOperators.Finprod
import Mathlib.Algebra.Order.BigOperators.Group.Finset
import Mathlib.Data.DFinsupp.WellFounded

/-! # Processes that come to rest

A process may have little left to do and yet be given more by the others, who change the state that all
of them see. The whole family comes to rest all the same when there is a `Ranking`: finitely many
weights, one more important than the next, such that every action of a process takes from one of its
weights, adds to its less important weights only, and leaves this weight and the more important ones of
all others alone.

* **`Config.weight`** — what all processes weigh together.
* **`Ranking.measure_lt`** — every action decreases the list of weights.
* **`exists_ge_not_of_lt`** — what decreases a measure does not happen for ever. -/

namespace DedupServer.Foundations

variable {ι Shared Local Act Arg : Type*} {M : Processes Shared Local Act Arg} {k : ℕ}
  {σ τ : Config ι Shared Local} {i : ι}

/-! ## What decreases -/

/-- **What decreases a measure** does not happen for ever. -/
theorem exists_ge_not_of_lt {α : Type*} [Preorder α] [WellFoundedLT α] (μ : ℕ → α) {P : ℕ → Prop}
    (h : ∀ n, P n → μ (n + 1) < μ n) (N : ℕ) : ∃ n ≥ N, ¬ P n := by
  by_contra! hall
  obtain ⟨n, hn⟩ := WellFounded.not_rel_apply_succ (r := (· < ·)) fun n => μ (N + n)
  exact hn (h (N + n) (hall (N + n) (Nat.le_add_right N n)))

/-- A list of weights is less when one of them is less and those before it are not greater. -/
theorem toLex_lt_of_le {x y : Fin k → ℕ} {m : Fin k} (hlt : x m < y m) (hle : ∀ j < m, x j ≤ y j) :
    toLex x < toLex y := by
  -- the first weight that is less decides
  obtain ⟨j, hj, hmin⟩ := (wellFounded_lt (α := Fin k)).has_min {j | x j < y j} ⟨m, hlt⟩
  refine ⟨j, fun l hl => ?_, hj⟩
  have hlm : l < m := hl.trans_le (not_lt.mp (hmin m hlt))
  exact (hle l hlm).antisymm (not_lt.mp fun hless => hmin l hless hl)

/-! ## Sums over all processes -/

/-- A sum in which one term changes, and no other becomes greater. -/
theorem finsum_add_le {f g : ι → ℕ} (hf : f.support.Finite) (hg : g.support.Finite) (i : ι)
    (h : ∀ j, j ≠ i → f j ≤ g j) : (∑ᶠ j, f j) + g i ≤ (∑ᶠ j, g j) + f i := by
  classical
  let s := insert i (hf.toFinset ∪ hg.toFinset)
  have hi : i ∈ s := Finset.mem_insert_self _ _
  have hfs : f.support ⊆ s := fun j hj => by simp [s, Function.mem_support.mp hj]
  have hgs : g.support ⊆ s := fun j hj => by simp [s, Function.mem_support.mp hj]
  rw [finsum_eq_sum_of_support_subset f hfs, finsum_eq_sum_of_support_subset g hgs,
    ← Finset.add_sum_erase s f hi, ← Finset.add_sum_erase s g hi]
  have hrest : ∑ j ∈ s.erase i, f j ≤ ∑ j ∈ s.erase i, g j :=
    Finset.sum_le_sum fun j hj => h j (Finset.ne_of_mem_erase hj)
  omega

/-- **What all processes weigh together.** -/
noncomputable def Config.weight (w : Shared → Local → ℕ) (σ : Config ι Shared Local) : ℕ :=
  ∑ᶠ i, (σ.locals i).elim 0 (w σ.shared)

/-- The processes that weigh something are among those that have joined. -/
theorem Config.finite_support (w : Shared → Local → ℕ) (h : {i | σ.locals i ≠ none}.Finite) :
    (Function.support fun i => (σ.locals i).elim 0 (w σ.shared)).Finite := by
  refine h.subset fun i hi hnone => hi ?_
  simp only [hnone, Option.elim_none]

/-- One process has moved, and no other has become heavier. -/
theorem Config.weight_moved [DecidableEq ι] {w : Shared → Local → ℕ} {l : Local} (l' : Local)
    (hfinite : {i | σ.locals i ≠ none}.Finite) {sh : Shared} (hl : σ.locals i = some l)
    (h : ∀ o, w sh o ≤ w σ.shared o) :
    (σ.moved i sh l').weight w + w σ.shared l ≤ σ.weight w + w sh l' := by
  have hfinite' : {j | (σ.moved i sh l').locals j ≠ none}.Finite := by
    refine hfinite.subset fun j hj => ?_
    by_cases hji : j = i
    · subst hji
      simp [hl]
    · have hj' : (σ.moved i sh l').locals j ≠ none := hj
      rwa [Config.moved_locals_of_ne _ hji] at hj'
  have hle := finsum_add_le (Config.finite_support w hfinite') (Config.finite_support w hfinite) i
    fun j hj => by
      rw [Config.moved_locals_of_ne _ hj, Config.moved_shared]
      cases σ.locals j with
      | none => exact le_rfl
      | some o => exact h o
  rw [hl, Config.moved_locals_self, Option.elim_some, Option.elim_some, Config.moved_shared] at hle
  exact hle

/-! ## Rankings -/

/-- **Weights that every action of a live process takes from**: it takes from one weight of the process,
adds nothing to the more important ones, and adds nothing to these weights of anybody else. -/
structure Ranking (M : Processes Shared Local Act Arg) (live : Local → Prop) (k : ℕ) where
  weight : Fin k → Shared → Local → ℕ
  spends : ∀ {sh sh' : Shared} {l l' : Local} {a : Act}, live l → M.act sh l a = some (sh', l') →
    ∃ m, weight m sh' l' < weight m sh l ∧ (∀ j < m, weight j sh' l' ≤ weight j sh l) ∧
      ∀ j ≤ m, ∀ o, weight j sh' o ≤ weight j sh o

namespace Ranking

variable {live : Local → Prop} (R : Ranking M live k)

/-- The weights of all processes, the most important first. -/
noncomputable def measure (σ : Config ι Shared Local) : Lex (Fin k → ℕ) :=
  toLex fun m => σ.weight (R.weight m)

/-- **Every action of a live process decreases the measure**, whatever it does to the others. -/
theorem measure_lt [DecidableEq ι] {l l' : Local} {sh : Shared} {a : Act}
    (hfinite : {i | σ.locals i ≠ none}.Finite) (hl : σ.locals i = some l) (hlive : live l)
    (hact : M.act σ.shared l a = some (sh, l')) : R.measure (σ.moved i sh l') < R.measure σ := by
  obtain ⟨m, hlt, hle, hothers⟩ := R.spends hlive hact
  refine toLex_lt_of_le (m := m) ?_ fun j hj => ?_
  · have hsum := Config.weight_moved l' hfinite hl (hothers m le_rfl)
    omega
  · have hsum := Config.weight_moved l' hfinite hl (hothers j hj.le)
    have hown := hle j hj
    omega

end Ranking

end DedupServer.Foundations
