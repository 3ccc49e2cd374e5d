import DedupServer.Foundations.Interleaving
import Mathlib.Algebra.Group.Defs

/-! # Runs with a ledger

A ledger adds up what the steps of a run contribute (`Books`). Every run has one
(`Reaches.exists_books`). When only the steps of one process contribute, what its private state says
about the sum has to be checked for the steps of that process only, whatever the others do in between
(`Books.local_invariant`). -/

namespace DedupServer.Foundations

variable {ι Shared Local Act Arg A : Type*} [DecidableEq ι] [AddMonoid A]

/-- What a step contributes. -/
abbrev Contribution (ι Shared Local Act Arg A : Type*) :=
  Config ι Shared Local → Label ι Act Arg → Config ι Shared Local → A

/-- **A run and its ledger**: `a` is the sum of what the steps have contributed. -/
inductive Books (M : Processes Shared Local Act Arg) (ok : StepCondition ι Shared Local Act Arg)
    (w : Contribution ι Shared Local Act Arg A) (σ : Config ι Shared Local) :
    Config ι Shared Local → A → Prop
  | refl : Books M ok w σ σ 0
  | tail {υ τ : Config ι Shared Local} {ℓ : Label ι Act Arg} {a : A} (hrun : Books M ok w σ υ a)
      (hs : Step M υ ℓ τ) (hok : ok υ ℓ τ) : Books M ok w σ τ (a + w υ ℓ τ)

variable {M : Processes Shared Local Act Arg} {ok : StepCondition ι Shared Local Act Arg}
  {w : Contribution ι Shared Local Act Arg A} {σ τ : Config ι Shared Local} {a : A}

/-- A run with a ledger is a run. -/
theorem Books.reaches (h : Books M ok w σ τ a) : Reaches M ok σ τ := by
  induction h with
  | refl => exact .refl
  | tail _ hs hok ih => exact ih.tail ⟨_, hs, hok⟩

/-- **Every run has a ledger**, whatever its steps contribute. -/
theorem Reaches.exists_books (w : Contribution ι Shared Local Act Arg A) (h : Reaches M ok σ τ) :
    ∃ a, Books M ok w σ τ a := by
  induction h with
  | refl => exact ⟨0, .refl⟩
  | tail _ hlast ih =>
    obtain ⟨ℓ, hs, hok⟩ := hlast
    obtain ⟨a, ha⟩ := ih
    exact ⟨_, ha.tail hs hok⟩

/-- **The ledger of one process.** When only the steps of process `i` contribute, `I` holds of its
private state and the sum, once it has joined, if it holds on joining and is kept by the actions of
that process. Of a step it may be assumed that it is on the way from `σ` to `τ`. -/
theorem Books.local_invariant {i : ι} {I : Local → A → Prop} (h : Books M ok w σ τ a)
    (hnone : σ.locals i = none) (hforeign : ∀ υ ℓ υ', ℓ.owner ≠ i → w υ ℓ υ' = 0)
    (hspawn : ∀ (υ : Config ι Shared Local) arg υ', Reaches M ok σ υ → Reaches M ok υ' τ →
      υ' = υ.moved i (M.spawn υ.shared arg).1 (M.spawn υ.shared arg).2 →
      I (M.spawn υ.shared arg).2 (w υ (.spawn i arg) υ'))
    (hact : ∀ (υ : Config ι Shared Local) act υ' l sh l' b, Reaches M ok σ υ → Reaches M ok υ' τ →
      υ' = υ.moved i sh l' → υ.locals i = some l → M.act υ.shared l act = some (sh, l') → I l b →
      I l' (b + w υ (.act i act) υ')) :
    (τ.locals i = none ∧ a = 0) ∨ ∃ l, τ.locals i = some l ∧ I l a := by
  induction h with
  | refl => exact .inl ⟨hnone, rfl⟩
  | @tail υ τ ℓ a hrun hs hok ih =>
    have hlast : Reaches M ok υ τ := .single ⟨ℓ, hs, hok⟩
    have hbefore := ih
      (fun υ₁ arg υ₂ hto hfrom heq => hspawn υ₁ arg υ₂ hto (hfrom.trans hlast) heq)
      (fun υ₁ act υ₂ l sh l' b hto hfrom => hact υ₁ act υ₂ l sh l' b hto (hfrom.trans hlast))
    by_cases howner : ℓ.owner = i
    · cases hs with
      | spawn hfree =>
        -- the process joins: nothing has been contributed before
        obtain rfl := howner
        have hzero : a = 0 := by
          rcases hbefore with ⟨-, hzero⟩ | ⟨l, hl, -⟩
          · exact hzero
          · exact absurd (hfree.symm.trans hl) (by simp)
        refine .inr ⟨_, Config.moved_locals_self _ _ _ _, ?_⟩
        rw [hzero, zero_add]
        exact hspawn υ _ _ hrun.reaches .refl rfl
      | act hl hstep =>
        obtain rfl := howner
        obtain ⟨l, hl', hI⟩ := hbefore.resolve_left fun hleft =>
          absurd (hleft.1.symm.trans hl) (by simp)
        obtain rfl := Option.some.inj (hl'.symm.trans hl)
        exact .inr ⟨_, Config.moved_locals_self _ _ _ _,
          hact υ _ _ _ _ _ a hrun.reaches .refl rfl hl hstep hI⟩
    · -- a step of another process
      rw [hforeign υ ℓ τ howner, add_zero, hs.locals_of_ne (Ne.symm howner)]
      exact hbefore

end DedupServer.Foundations
