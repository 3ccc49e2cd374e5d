import Mathlib.Logic.Relation
import Mathlib.Logic.Function.Basic

/-! # Processes that interleave over a shared state

A family of processes, each with a private state, that act one at a time on one shared state.
New processes may join at any moment. Runs are the reflexive transitive closure of the step
relation, restricted by a condition on steps where a result is about some runs only.

* **`Processes`** — what a new process does on joining, and what one action of a process does.
* **`Step`, `Reaches`** — one action of one process, and runs whose steps all meet a condition.
* **`Processes.execChecked`** — runs that are given by their steps and computed.
* **`RelyGuarantee`** — the invariant rule: every process keeps its own invariant, promises the
  others to change the shared state only within its guarantee, and every invariant is stable
  under the guarantees of the others. A ghost state may be threaded through the argument. -/

namespace DedupServer.Foundations

variable {ι Shared Local Act Arg : Type*}

/-- A family of processes over a shared state. -/
structure Processes (Shared Local Act Arg : Type*) where
  /-- A new process joins: the shared state after that, and its first private state. -/
  spawn : Shared → Arg → Shared × Local
  /-- One action of a process, when it is enabled. -/
  act : Shared → Local → Act → Option (Shared × Local)

/-- A state of the whole system: the shared state, and the processes that have joined. -/
structure Config (ι Shared Local : Type*) where
  /-- The state all processes see. -/
  shared : Shared
  /-- The private state of every process that has joined. -/
  locals : ι → Option Local

/-- What happens in one step: a process joins, or a process acts. -/
inductive Label (ι Act Arg : Type*)
  | spawn (i : ι) (arg : Arg)
  | act (i : ι) (a : Act)

/-- The process a step belongs to. -/
def Label.owner : Label ι Act Arg → ι
  | .spawn i _ => i
  | .act i _ => i

section Steps

variable [DecidableEq ι] (M : Processes Shared Local Act Arg)

/-- Process `i` has moved to the private state `l`, the shared state to `sh`. -/
def Config.moved (σ : Config ι Shared Local) (i : ι) (sh : Shared) (l : Local) :
    Config ι Shared Local :=
  ⟨sh, Function.update σ.locals i (some l)⟩

@[simp] theorem Config.moved_shared (σ : Config ι Shared Local) (i : ι) (sh : Shared)
    (l : Local) : (σ.moved i sh l).shared = sh := rfl

@[simp] theorem Config.moved_locals_self (σ : Config ι Shared Local) (i : ι) (sh : Shared)
    (l : Local) : (σ.moved i sh l).locals i = some l := by
  simp [Config.moved]

theorem Config.moved_locals_of_ne (σ : Config ι Shared Local) {i j : ι} (h : j ≠ i)
    (sh : Shared) (l : Local) : (σ.moved i sh l).locals j = σ.locals j := by
  simp [Config.moved, h]

/-- **One step of the system.** -/
inductive Step : Config ι Shared Local → Label ι Act Arg → Config ι Shared Local → Prop
  | spawn {σ : Config ι Shared Local} {i : ι} {arg : Arg} (h : σ.locals i = none) :
      Step σ (.spawn i arg) (σ.moved i (M.spawn σ.shared arg).1 (M.spawn σ.shared arg).2)
  | act {σ : Config ι Shared Local} {i : ι} {a : Act} {l l' : Local} {sh : Shared}
      (hl : σ.locals i = some l) (h : M.act σ.shared l a = some (sh, l')) :
      Step σ (.act i a) (σ.moved i sh l')

/-- A condition on steps. -/
abbrev StepCondition (ι Shared Local Act Arg : Type*) :=
  Config ι Shared Local → Label ι Act Arg → Config ι Shared Local → Prop

/-- **Runs whose steps all meet a condition.** -/
def Reaches (ok : StepCondition ι Shared Local Act Arg) :
    Config ι Shared Local → Config ι Shared Local → Prop :=
  Relation.ReflTransGen fun σ τ => ∃ ℓ, Step M σ ℓ τ ∧ ok σ ℓ τ

/-- The condition every step meets. -/
def anyStep : StepCondition ι Shared Local Act Arg := fun _ _ _ => True

/-- Only process `i` acts, and nobody joins. -/
def soloStep (i : ι) : StepCondition ι Shared Local Act Arg := fun _ ℓ _ => ∃ a, ℓ = .act i a

variable {M} {ok ok' : StepCondition ι Shared Local Act Arg} {σ τ υ : Config ι Shared Local}

/-- Runs under a stronger condition are runs under a weaker one. -/
theorem Reaches.mono (h : ∀ σ ℓ τ, ok σ ℓ τ → ok' σ ℓ τ) (hr : Reaches M ok σ τ) :
    Reaches M ok' σ τ :=
  Relation.ReflTransGen.mono (fun _ _ ⟨ℓ, hs, hok⟩ => ⟨ℓ, hs, h _ _ _ hok⟩) _ _ hr

/-- **Invariants hold along runs.** -/
theorem Reaches.invariant {I : Config ι Shared Local → Prop}
    (hstep : ∀ σ ℓ τ, I σ → Step M σ ℓ τ → ok σ ℓ τ → I τ) (hr : Reaches M ok σ τ) (h : I σ) :
    I τ := by
  induction hr with
  | refl => exact h
  | tail _ hlast ih =>
    obtain ⟨ℓ, hs, hok⟩ := hlast
    exact hstep _ _ _ ih hs hok

/-- **An invariant may be assumed of every step** of a run. -/
theorem Reaches.carry {I : Config ι Shared Local → Prop}
    (hstep : ∀ σ ℓ τ, I σ → Step M σ ℓ τ → ok σ ℓ τ → I τ) (hr : Reaches M ok σ τ) (h : I σ) :
    Reaches M (fun σ ℓ τ => ok σ ℓ τ ∧ I σ ∧ I τ) σ τ := by
  induction hr with
  | refl => exact .refl
  | tail hfirst hlast ih =>
    obtain ⟨ℓ, hs, hok⟩ := hlast
    have hmid := Reaches.invariant hstep hfirst h
    exact ih.tail ⟨ℓ, hs, hok, hmid, hstep _ _ _ hmid hs hok⟩

/-- **What holds at the end and is inherited backwards held all along.** A run to a state with
such a property is a run through states with it. -/
theorem Reaches.strengthen {Q : Config ι Shared Local → Prop}
    (hback : ∀ σ ℓ τ, Step M σ ℓ τ → ok σ ℓ τ → Q τ → Q σ) (hr : Reaches M ok σ τ) (h : Q τ) :
    Reaches M (fun σ ℓ τ => ok σ ℓ τ ∧ Q τ) σ τ := by
  induction hr with
  | refl => exact .refl
  | tail _ hlast ih =>
    obtain ⟨ℓ, hs, hok⟩ := hlast
    exact (ih (hback _ _ _ hs hok h)).tail ⟨ℓ, hs, hok, h⟩

/-- A step changes the private state of no process but its owner. -/
theorem Step.locals_of_ne {ℓ : Label ι Act Arg} (h : Step M σ ℓ τ) {j : ι} (hj : j ≠ ℓ.owner) :
    τ.locals j = σ.locals j := by
  cases h <;> exact Config.moved_locals_of_ne _ hj _ _

/-! ## Runs step by step -/

variable (M) in
/-- One step, when it is possible. -/
def Processes.exec1 (σ : Config ι Shared Local) : Label ι Act Arg → Option (Config ι Shared Local)
  | .spawn i arg =>
    match σ.locals i with
    | none => some (σ.moved i (M.spawn σ.shared arg).1 (M.spawn σ.shared arg).2)
    | some _ => none
  | .act i a =>
    match σ.locals i with
    | none => none
    | some l => (M.act σ.shared l a).map fun r => σ.moved i r.1 r.2

variable (M) in
/-- **The state after the given steps**, when they are all possible and pass a check. -/
def Processes.execChecked
    (check : Config ι Shared Local → Label ι Act Arg → Config ι Shared Local → Bool)
    (σ : Config ι Shared Local) : List (Label ι Act Arg) → Option (Config ι Shared Local)
  | [] => some σ
  | ℓ :: steps => (M.exec1 σ ℓ).bind fun τ =>
    if check σ ℓ τ then Processes.execChecked check τ steps else none

/-- A computed step is a step. -/
theorem Processes.step_exec1 {ℓ : Label ι Act Arg} (h : M.exec1 σ ℓ = some τ) : Step M σ ℓ τ := by
  cases ℓ with
  | spawn i arg =>
    simp only [exec1] at h
    split at h
    · rename_i hnone
      obtain rfl := Option.some.inj h
      exact .spawn hnone
    · cases h
  | act i a =>
    simp only [exec1] at h
    split at h
    · cases h
    · rename_i l hl
      obtain ⟨r, hr, rfl⟩ := Option.map_eq_some_iff.mp h
      exact .act hl hr

/-- **Checked steps are a run**, under any condition that the check tells, with what the steps keep. -/
theorem Processes.reaches_execChecked {I : Config ι Shared Local → Prop}
    {check : Config ι Shared Local → Label ι Act Arg → Config ι Shared Local → Bool}
    {steps : List (Label ι Act Arg)}
    (hok : ∀ σ ℓ τ, I σ → Step M σ ℓ τ → ℓ ∈ steps → check σ ℓ τ = true → ok σ ℓ τ ∧ I τ) (hσ : I σ)
    (h : M.execChecked check σ steps = some τ) : Reaches M ok σ τ ∧ I τ := by
  induction steps generalizing σ with
  | nil =>
    obtain rfl := Option.some.inj h
    exact ⟨.refl, hσ⟩
  | cons ℓ steps ih =>
    obtain ⟨υ, hυ, h⟩ := Option.bind_eq_some_iff.mp h
    split at h
    · rename_i hcheck
      have hstep := step_exec1 hυ
      obtain ⟨hfirst, hIυ⟩ := hok σ ℓ υ hσ hstep List.mem_cons_self hcheck
      obtain ⟨hreach, hτ⟩ :=
        ih (fun σ ℓ τ hσ hs hℓ => hok σ ℓ τ hσ hs (List.mem_cons_of_mem _ hℓ)) hIυ h
      exact ⟨.head ⟨ℓ, hstep, hfirst⟩ hreach, hτ⟩
    · cases h

end Steps

/-! ## The invariant rule -/

/-- **A rely/guarantee argument.** `glob` is the invariant of the shared state, `loc i` the one
of process `i`, `idle i` what is known of a process that has not joined, and `guar i` what
process `i` may do to the shared state. All of them may speak about a ghost state. -/
structure RelyGuarantee [DecidableEq ι] (M : Processes Shared Local Act Arg)
    (ok : StepCondition ι Shared Local Act Arg) (Ghost : Type*) where
  glob : Ghost → Shared → Prop
  loc : ι → Ghost → Shared → Local → Prop
  idle : ι → Ghost → Prop
  guar : ι → Ghost → Shared → Ghost → Shared → Prop
  /-- A process that joins establishes its invariant within its guarantee. -/
  spawn_step : ∀ {g : Ghost} {σ τ : Config ι Shared Local} {i : ι} {arg : Arg},
    glob g σ.shared → idle i g → ok σ (.spawn i arg) τ →
    τ = σ.moved i (M.spawn σ.shared arg).1 (M.spawn σ.shared arg).2 →
    ∃ g', guar i g σ.shared g' τ.shared ∧ glob g' τ.shared ∧
      loc i g' τ.shared (M.spawn σ.shared arg).2
  /-- An action keeps the invariants within the guarantee. -/
  act_step : ∀ {g : Ghost} {σ τ : Config ι Shared Local} {i : ι} {a : Act} {l l' : Local},
    glob g σ.shared → σ.locals i = some l → loc i g σ.shared l →
    M.act σ.shared l a = some (τ.shared, l') → ok σ (.act i a) τ →
    τ = σ.moved i τ.shared l' →
    ∃ g', guar i g σ.shared g' τ.shared ∧ glob g' τ.shared ∧ loc i g' τ.shared l'
  /-- The invariant of a process survives what the others may do. -/
  stable : ∀ {g g' : Ghost} {sh sh' : Shared} {i j : ι} {l : Local}, j ≠ i →
    guar i g sh g' sh' → loc j g sh l → loc j g' sh' l
  /-- So does what is known of a process that has not joined. -/
  idle_stable : ∀ {g g' : Ghost} {sh sh' : Shared} {i j : ι}, j ≠ i →
    guar i g sh g' sh' → idle j g → idle j g'

namespace RelyGuarantee

variable [DecidableEq ι] {M : Processes Shared Local Act Arg}
  {ok : StepCondition ι Shared Local Act Arg} {Ghost : Type*} (R : RelyGuarantee M ok Ghost)

/-- The invariant of the whole system under a ghost state. -/
structure Inv (g : Ghost) (σ : Config ι Shared Local) : Prop where
  glob : R.glob g σ.shared
  loc : ∀ i l, σ.locals i = some l → R.loc i g σ.shared l
  idle : ∀ i, σ.locals i = none → R.idle i g

variable {R}

/-- The others keep their invariants when process `i` moves within its guarantee. -/
theorem Inv.moved {g g' : Ghost} {σ : Config ι Shared Local} (h : R.Inv g σ) {i : ι}
    {sh : Shared} {l : Local} (hguar : R.guar i g σ.shared g' sh) (hglob : R.glob g' sh)
    (hloc : R.loc i g' sh l) : R.Inv g' (σ.moved i sh l) where
  glob := hglob
  loc j l' hj := by
    by_cases hij : j = i
    · subst hij
      obtain rfl : l = l' := by simpa using hj
      exact hloc
    · rw [Config.moved_locals_of_ne _ hij] at hj
      exact R.stable hij hguar (h.loc j l' hj)
  idle j hj := by
    by_cases hij : j = i
    · subst hij
      simp at hj
    · rw [Config.moved_locals_of_ne _ hij] at hj
      exact R.idle_stable hij hguar (h.idle j hj)

/-- **One step keeps the invariant**, for some next ghost state within the guarantee of the
process that moved. -/
theorem Inv.step {g : Ghost} {σ τ : Config ι Shared Local} {ℓ : Label ι Act Arg}
    (h : R.Inv g σ) (hs : Step M σ ℓ τ) (hok : ok σ ℓ τ) :
    ∃ g', R.guar ℓ.owner g σ.shared g' τ.shared ∧ R.Inv g' τ := by
  cases hs with
  | spawn hnone =>
    obtain ⟨g', hguar, hglob, hloc⟩ := R.spawn_step h.glob (h.idle _ hnone) hok rfl
    exact ⟨g', hguar, h.moved hguar hglob hloc⟩
  | act hl hact =>
    obtain ⟨g', hguar, hglob, hloc⟩ :=
      R.act_step h.glob hl (h.loc _ _ hl) (by simpa using hact) hok rfl
    exact ⟨g', hguar, h.moved hguar hglob hloc⟩

/-- **The invariant holds along every run**, and the ends of the run are related by whatever
contains all guarantees. -/
theorem Inv.reaches {r : Ghost → Shared → Ghost → Shared → Prop} (hrefl : ∀ g sh, r g sh g sh)
    (htrans : ∀ {g sh g' sh' g'' sh''}, r g sh g' sh' → r g' sh' g'' sh'' → r g sh g'' sh'')
    (hguar : ∀ {σ τ : Config ι Shared Local} {ℓ g g'}, ok σ ℓ τ →
      R.guar ℓ.owner g σ.shared g' τ.shared → r g σ.shared g' τ.shared) {g : Ghost}
    {σ τ : Config ι Shared Local} (h : R.Inv g σ) (hr : Reaches M ok σ τ) :
    ∃ g', r g σ.shared g' τ.shared ∧ R.Inv g' τ := by
  induction hr with
  | refl => exact ⟨g, hrefl g _, h⟩
  | tail _ hlast ih =>
    obtain ⟨ℓ, hs, hok⟩ := hlast
    obtain ⟨g', hr', hg'⟩ := ih
    obtain ⟨g'', hguar', hg''⟩ := hg'.step hs hok
    exact ⟨g'', htrans hr' (hguar hok hguar'), hg''⟩

end RelyGuarantee

end DedupServer.Foundations
