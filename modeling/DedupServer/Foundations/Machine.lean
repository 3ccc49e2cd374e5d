import Mathlib.Data.Nat.Notation
import Mathlib.Logic.Relation

/-! # Machines

A machine is a step function that may refuse a step (`Machine`). Its runs are sequences of steps that
all meet a condition (`Machine.Run`), and what every step keeps holds along every run
(`Run.invariant`). A list of actions can be executed (`Machine.exec`); what is executed is a run
(`run_of_exec`). A measure that every step decreases bounds the length of what can be executed
(`length_le_of_exec`). -/

namespace DedupServer.Foundations

/-- **A machine**: the state after an action, when the action is possible. -/
structure Machine (S A : Type*) where
  step : S → A → Option S

namespace Machine

variable {S A : Type*} (M : Machine S A)

/-- A condition on steps. -/
abbrev Condition (S A : Type*) := S → A → S → Prop

/-- Any step. -/
def anyAction : Condition S A := fun _ _ _ => True

/-- **Runs** all of whose steps meet the condition. -/
def Run (ok : Condition S A) : S → S → Prop :=
  Relation.ReflTransGen fun s t => ∃ a, M.step s a = some t ∧ ok s a t

/-- Execute a list of actions. -/
def exec (s : S) (as : List A) : Option S := as.foldlM M.step s

variable {M} {ok ok' : Condition S A} {s t u : S} {a : A} {as bs : List A}

theorem Run.refl (s : S) : M.Run ok s s := Relation.ReflTransGen.refl

theorem Run.trans (h : M.Run ok s t) (h' : M.Run ok t u) : M.Run ok s u :=
  Relation.ReflTransGen.trans h h'

/-- One more step. -/
theorem Run.tail (h : M.Run ok s t) (hstep : M.step t a = some u) (hok : ok t a u) :
    M.Run ok s u :=
  Relation.ReflTransGen.tail h ⟨a, hstep, hok⟩

/-- One step before. -/
theorem Run.head (hstep : M.step s a = some t) (hok : ok s a t) (h : M.Run ok t u) :
    M.Run ok s u :=
  Relation.ReflTransGen.head ⟨a, hstep, hok⟩ h

/-- A weaker condition. -/
theorem Run.mono (h : M.Run ok s t) (himp : ∀ s a t, ok s a t → ok' s a t) : M.Run ok' s t := by
  induction h with
  | refl => exact .refl s
  | tail _ hlast ih =>
    obtain ⟨a, hstep, hok⟩ := hlast
    exact ih.tail hstep (himp _ _ _ hok)

/-- **What every step keeps holds along every run.** -/
theorem Run.invariant {I : S → Prop} (h : M.Run ok s t)
    (hstep : ∀ s a t, I s → M.step s a = some t → ok s a t → I t) (hs : I s) : I t := by
  induction h with
  | refl => exact hs
  | tail _ hlast ih =>
    obtain ⟨a, hlast, hok⟩ := hlast
    exact hstep _ _ _ ih hlast hok

@[simp] theorem exec_nil (s : S) : M.exec s [] = some s := rfl

theorem exec_cons (s : S) (a : A) (as : List A) :
    M.exec s (a :: as) = (M.step s a).bind fun t => M.exec t as := by
  simp [exec]

/-- Two actions. -/
theorem exec_pair {b : A} (h : M.step s a = some t) (h' : M.step t b = some u) :
    M.exec s [a, b] = some u := by
  rw [exec_cons, h, Option.bind_some, exec_cons, h', Option.bind_some, exec_nil]

/-- **What is executed is a run.** -/
theorem run_of_exec (hok : ∀ s, ∀ a ∈ as, ∀ t, ok s a t) (h : M.exec s as = some t) :
    M.Run ok s t := by
  induction as generalizing s with
  | nil =>
    obtain rfl := Option.some.inj h
    exact .refl s
  | cons a as ih =>
    rw [exec_cons] at h
    obtain ⟨u, hu, hrest⟩ := Option.bind_eq_some_iff.mp h
    exact .head hu (hok s a List.mem_cons_self u)
      (ih (fun s b hb => hok s b (List.mem_cons_of_mem _ hb)) hrest)

/-- **A measure that every step decreases** bounds the number of steps, as long as what it needs is
kept. -/
theorem length_le_of_exec {I : S → Prop} (μ : S → ℕ)
    (hstep : ∀ s, ∀ a ∈ as, ∀ t, I s → M.step s a = some t → I t ∧ μ t < μ s)
    (hs : I s) (h : M.exec s as = some t) : I t ∧ as.length + μ t ≤ μ s := by
  induction as generalizing s with
  | nil =>
    obtain rfl := Option.some.inj h
    exact ⟨hs, by simp⟩
  | cons a as ih =>
    rw [exec_cons] at h
    obtain ⟨u, hu, hrest⟩ := Option.bind_eq_some_iff.mp h
    obtain ⟨hIu, hlt⟩ := hstep s a List.mem_cons_self u hs hu
    obtain ⟨hIt, hle⟩ := ih (fun s b hb => hstep s b (List.mem_cons_of_mem _ hb)) hIu hrest
    refine ⟨hIt, ?_⟩
    rw [List.length_cons]
    omega

/-! ## Logs -/

/-- **A machine that keeps a log**: every step adds to it what it emits. -/
def logged {O : Type*} (M : Machine S A) (emit : S → A → List O) : Machine (S × List O) A where
  step s a := (M.step s.1 a).map fun t => (t, s.2 ++ emit s.1 a)

/-- A step with the log. -/
theorem logged_step_eq_some {O : Type*} {emit : S → A → List O} {s t : S × List O}
    (h : (M.logged emit).step s a = some t) :
    M.step s.1 a = some t.1 ∧ t.2 = s.2 ++ emit s.1 a := by
  obtain ⟨u, hu, rfl⟩ := Option.map_eq_some_iff.mp h
  exact ⟨hu, rfl⟩

/-- **The machine does not see the log.** -/
theorem Run.of_logged {O : Type*} {emit : S → A → List O} {s t : S × List O}
    (h : (M.logged emit).Run (fun s a t => ok s.1 a t.1) s t) : M.Run ok s.1 t.1 := by
  induction h with
  | refl => exact .refl _
  | tail _ hlast ih =>
    obtain ⟨a, hstep, hok⟩ := hlast
    exact ih.tail (logged_step_eq_some hstep).1 hok

/-- **What is executed is a run** all of whose entries have a property that those in the last log have. -/
theorem run_logged_of_exec {O : Type*} {emit : S → A → List O} {P : O → Prop} {s t : S × List O}
    (hok : ∀ s, ∀ a ∈ as, ∀ t, ok s a t) (hlog : ∀ e ∈ t.2, P e)
    (h : (M.logged emit).exec s as = some t) :
    (M.logged emit).Run (fun s a t => ok s.1 a t.1 ∧ ∀ e ∈ emit s.1 a, P e) s t := by
  -- the log at each step is a part of the last one
  suffices hall : s.2 <+: t.2 ∧
      (M.logged emit).Run (fun s a t => ok s.1 a t.1 ∧ ∀ e ∈ emit s.1 a, P e) s t from hall.2
  induction as generalizing s with
  | nil =>
    obtain rfl := Option.some.inj h
    exact ⟨List.prefix_rfl, .refl s⟩
  | cons a as ih =>
    rw [exec_cons] at h
    obtain ⟨u, hu, hrest⟩ := Option.bind_eq_some_iff.mp h
    obtain ⟨hstep, hemit⟩ := logged_step_eq_some hu
    obtain ⟨hfront, hrun⟩ := ih (fun s b hb => hok s b (List.mem_cons_of_mem _ hb)) hrest
    rw [hemit] at hfront
    refine ⟨(List.prefix_append _ _).trans hfront, .head hu ⟨hok s.1 a List.mem_cons_self u.1, ?_⟩ ?_⟩
    · intro e he
      exact hlog e (hfront.subset (List.mem_append_right _ he))
    · exact hrun

/-! ## Executions step by step -/

/-- **The steps of an execution** all meet a condition. -/
def StepsMeet (M : Machine S A) (ok : Condition S A) : S → List A → Prop
  | _, [] => True
  | s, a :: as => ∀ t, M.step s a = some t → ok s a t ∧ StepsMeet M ok t as

instance StepsMeet.decidable [∀ s a t, Decidable (ok s a t)] :
    (s : S) → (as : List A) → Decidable (M.StepsMeet ok s as)
  | _, [] => inferInstanceAs (Decidable True)
  | s, a :: as =>
    match hstep : M.step s a with
    | none => .isTrue fun t ht => by rw [hstep] at ht; cases ht
    | some t =>
      haveI := StepsMeet.decidable t as
      decidable_of_iff (ok s a t ∧ M.StepsMeet ok t as)
        ⟨fun h u hu => by rw [hstep] at hu; cases hu; exact h, fun h => h t hstep⟩

/-- An execution all of whose steps meet the condition is a run. -/
theorem StepsMeet.run (h : M.StepsMeet ok s as) (hexec : M.exec s as = some t) : M.Run ok s t := by
  induction as generalizing s with
  | nil =>
    obtain rfl := Option.some.inj hexec
    exact .refl s
  | cons a as ih =>
    rw [exec_cons] at hexec
    obtain ⟨u, hu, hrest⟩ := Option.bind_eq_some_iff.mp hexec
    obtain ⟨hok, hmeet⟩ := h u hu
    exact .head hu hok (ih hmeet hrest)

/-- **The states of an execution** all have a property. -/
def StatesMeet (M : Machine S A) (P : S → Prop) : S → List A → Prop
  | s, [] => P s
  | s, a :: as => P s ∧ ∀ t, M.step s a = some t → StatesMeet M P t as

/-- The last state of an execution. -/
theorem StatesMeet.last {P : S → Prop} (h : M.StatesMeet P s as) (hexec : M.exec s as = some t) :
    P t := by
  induction as generalizing s with
  | nil =>
    obtain rfl := Option.some.inj hexec
    exact h
  | cons a as ih =>
    rw [exec_cons] at hexec
    obtain ⟨u, hu, hrest⟩ := Option.bind_eq_some_iff.mp hexec
    exact ih (h.2 u hu) hrest

/-- The last step of an execution. -/
theorem StepsMeet.last (h : M.StepsMeet ok s (as ++ [a])) (hexec : M.exec s as = some t)
    (hstep : M.step t a = some u) : ok t a u := by
  induction as generalizing s with
  | nil =>
    obtain rfl := Option.some.inj hexec
    exact (h u hstep).1
  | cons b as ih =>
    rw [exec_cons] at hexec
    obtain ⟨v, hv, hrest⟩ := Option.bind_eq_some_iff.mp hexec
    exact ih (h v hv).2 hrest

/-- Two conditions that agree wherever an invariant holds. -/
theorem stepsMeet_congr {I : S → Prop} (hinv : ∀ s a t, I s → M.step s a = some t → I t)
    (hiff : ∀ s a t, I s → M.step s a = some t → (ok s a t ↔ ok' s a t)) (hs : I s) :
    M.StepsMeet ok s as ↔ M.StepsMeet ok' s as := by
  induction as generalizing s with
  | nil => exact Iff.rfl
  | cons a as ih =>
    apply forall_congr'
    intro t
    apply imp_congr_right
    intro ht
    exact and_congr (hiff s a t hs ht) (ih (hinv s a t hs ht))

/-- **A property of states and a condition on steps.** When a step from a state with the property leads
to one with the property exactly if it meets the condition, the states of an execution all have the
property exactly if its steps all meet the condition. -/
theorem statesMeet_iff_stepsMeet {I P : S → Prop}
    (hinv : ∀ s a t, I s → M.step s a = some t → I t)
    (hiff : ∀ s a t, I s → P s → M.step s a = some t → (P t ↔ ok s a t)) (hs : I s) (hP : P s) :
    M.StatesMeet P s as ↔ M.StepsMeet ok s as := by
  induction as generalizing s with
  | nil => exact iff_of_true hP trivial
  | cons a as ih =>
    constructor
    · intro h t ht
      have hPt : P t := by
        have hrest := h.2 t ht
        cases as with
        | nil => exact hrest
        | cons b bs => exact hrest.1
      exact ⟨(hiff s a t hs hP ht).mp hPt, (ih (hinv s a t hs ht) hPt).mp (h.2 t ht)⟩
    · intro h
      refine ⟨hP, fun t ht => ?_⟩
      obtain ⟨hok, hrest⟩ := h t ht
      exact (ih (hinv s a t hs ht) ((hiff s a t hs hP ht).mpr hok)).mpr hrest

/-- What every step from a state with the property does. -/
theorem StatesMeet.stepsMeet {I P : S → Prop} (h : M.StatesMeet P s as)
    (hinv : ∀ s a t, I s → M.step s a = some t → I t)
    (hok : ∀ s a t, I s → P s → M.step s a = some t → ok s a t) (hs : I s) :
    M.StepsMeet ok s as := by
  induction as generalizing s with
  | nil => trivial
  | cons a as ih =>
    intro t ht
    exact ⟨hok s a t hs h.1 ht, ih (h.2 t ht) (hinv s a t hs ht)⟩

end Machine

end DedupServer.Foundations
