import DedupServer.Foundations.Interleaving
import Mathlib.Data.Set.Finite.Basic

/-! # Processes whose host is killed and started again

The host of a family of processes may stop at any moment. It takes all private states with it,
and leaves of the shared state what it leaves; then it starts again, with no process at all.
Names are given anew after that, so a process of one life and one of the next may have the same.

* **`Life`** — runs with restarts, and what has happened in them.
* **`RelyGuarantee.since`** — the invariant rule for one life that begins with a shared state
  other than the first: what it finds there belongs to a name that no process of this life has. -/

namespace DedupServer.Foundations

variable {ι Shared Local Act Arg : Type*}

/-- What happens in the life of a host: a step of its processes, or its end. -/
inductive Happening (ι Shared Local Act Arg : Type*)
  | step (σ : Config ι Shared Local) (ℓ : Label ι Act Arg) (τ : Config ι Shared Local)
  | killed (σ : Config ι Shared Local)

section Lives

variable [DecidableEq ι] (M : Processes Shared Local Act Arg)

/-- **Runs with restarts**: the steps meet the condition, and a host that is killed leaves a shared
state that is one of those it may leave. -/
inductive Life (ok : StepCondition ι Shared Local Act Arg)
    (leaves : Config ι Shared Local → Shared → Prop) :
    Config ι Shared Local → List (Happening ι Shared Local Act Arg) → Config ι Shared Local → Prop
  | refl (σ : Config ι Shared Local) : Life ok leaves σ [] σ
  | step {σ τ υ : Config ι Shared Local} {h : List (Happening ι Shared Local Act Arg)}
      {ℓ : Label ι Act Arg} (hlife : Life ok leaves σ h τ) (hs : Step M τ ℓ υ) (hok : ok τ ℓ υ) :
      Life ok leaves σ (h ++ [.step τ ℓ υ]) υ
  | restart {σ τ : Config ι Shared Local} {h : List (Happening ι Shared Local Act Arg)}
      {sh : Shared} (hlife : Life ok leaves σ h τ) (hleaves : leaves τ sh) :
      Life ok leaves σ (h ++ [.killed τ]) ⟨sh, fun _ => none⟩

variable {M} {ok ok' : StepCondition ι Shared Local Act Arg}
  {leaves : Config ι Shared Local → Shared → Prop} {σ τ υ : Config ι Shared Local}
  {h h' : List (Happening ι Shared Local Act Arg)}

/-- Runs under a stronger condition are runs under a weaker one. -/
theorem Life.mono (himp : ∀ σ ℓ τ, ok σ ℓ τ → ok' σ ℓ τ) (hlife : Life M ok leaves σ h τ) :
    Life M ok' leaves σ h τ := by
  induction hlife with
  | refl => exact .refl _
  | step _ hs hok ih => exact ih.step hs (himp _ _ _ hok)
  | restart _ hleaves ih => exact ih.restart hleaves

/-- One run after another. -/
theorem Life.trans (hlife : Life M ok leaves σ h τ) (hlife' : Life M ok leaves τ h' υ) :
    Life M ok leaves σ (h ++ h') υ := by
  induction hlife' with
  | refl => rwa [List.append_nil]
  | step _ hs hok ih =>
    rw [← List.append_assoc]
    exact ih.step hs hok
  | restart _ hleaves ih =>
    rw [← List.append_assoc]
    exact ih.restart hleaves

/-- **Invariants hold along lives** when they survive both the steps and the restarts. -/
theorem Life.invariant {I : Config ι Shared Local → Prop}
    (hstep : ∀ σ ℓ τ, I σ → Step M σ ℓ τ → ok σ ℓ τ → I τ)
    (hrestart : ∀ σ sh, I σ → leaves σ sh → I ⟨sh, fun _ => none⟩)
    (hlife : Life M ok leaves σ h τ) (hσ : I σ) : I τ := by
  induction hlife with
  | refl => exact hσ
  | step _ hs hok ih => exact hstep _ _ _ ih hs hok
  | restart _ hleaves ih => exact hrestart _ _ ih hleaves

/-- A run without restarts. -/
theorem Reaches.exists_life (hr : Reaches M ok σ τ) :
    ∃ h, Life M ok leaves σ h τ ∧ ∀ υ, .killed υ ∉ h := by
  induction hr with
  | refl => exact ⟨[], .refl σ, fun _ => List.not_mem_nil⟩
  | tail _ hlast ih =>
    obtain ⟨h, hlife, hnone⟩ := ih
    obtain ⟨ℓ, hs, hok⟩ := hlast
    refine ⟨_, hlife.step hs hok, fun υ hυ => ?_⟩
    rcases List.mem_append.mp hυ with hυ | hυ
    · exact hnone υ hυ
    · cases List.mem_singleton.mp hυ

/-- The processes that have joined are finite in number. -/
theorem finite_joined_step {ℓ : Label ι Act Arg} (hs : Step M σ ℓ τ)
    (hfinite : {i | σ.locals i ≠ none}.Finite) : {i | τ.locals i ≠ none}.Finite := by
  refine (hfinite.insert ℓ.owner).subset fun i hi => ?_
  by_cases howner : i = ℓ.owner
  · exact .inl howner
  · have hi' : τ.locals i ≠ none := hi
    rw [hs.locals_of_ne howner] at hi'
    exact .inr hi'

/-- A process that has not joined did not join before. -/
theorem Step.locals_eq_none {ℓ : Label ι Act Arg} (hs : Step M σ ℓ τ) {o : ι}
    (ho : τ.locals o = none) : ℓ.owner ≠ o ∧ σ.locals o = none := by
  have hne : ℓ.owner ≠ o := by
    rintro rfl
    cases hs <;> simp [Label.owner] at ho
  exact ⟨hne, (hs.locals_of_ne hne.symm).symm.trans ho⟩

end Lives

/-! ## A life that begins in the middle -/

namespace RelyGuarantee

variable [DecidableEq ι] {M : Processes Shared Local Act Arg}
  {ok : StepCondition ι Shared Local Act Arg} {Ghost : Type*}

/-- **The argument of one life**: what the life has found belongs to `o`, which is the name of no
process of this life. `found` is what is known of it, and no process may change that. -/
def since (R : RelyGuarantee M ok Ghost) (o : ι) (found : Ghost → Shared → Prop)
    (hfound : ∀ {g g' : Ghost} {sh sh' : Shared} {i : ι}, i ≠ o → R.guar i g sh g' sh' →
      found g sh → found g' sh') :
    RelyGuarantee M (fun σ ℓ τ => ok σ ℓ τ ∧ ℓ.owner ≠ o) Ghost where
  glob g sh := R.glob g sh ∧ found g sh
  loc := R.loc
  idle i g := i ≠ o → R.idle i g
  guar := R.guar
  spawn_step hglob hidle hok hτ := by
    obtain ⟨g', hguar, hglob', hloc⟩ := R.spawn_step hglob.1 (hidle hok.2) hok.1 hτ
    exact ⟨g', hguar, ⟨hglob', hfound hok.2 hguar hglob.2⟩, hloc⟩
  act_step hglob hl hloc hact hok hτ := by
    obtain ⟨g', hguar, hglob', hloc'⟩ := R.act_step hglob.1 hl hloc hact hok.1 hτ
    exact ⟨g', hguar, ⟨hglob', hfound hok.2 hguar hglob.2⟩, hloc'⟩
  stable := R.stable
  idle_stable hne hguar hidle ho := R.idle_stable hne hguar (hidle ho)

end RelyGuarantee

end DedupServer.Foundations
