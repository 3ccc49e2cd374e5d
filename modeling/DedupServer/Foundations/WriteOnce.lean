import Mathlib.Data.List.Basic
import Mathlib.Logic.Function.Basic

/-! # A write-once store that may fail

The specification of a store in which a key can be given a value once. A writer is told at once
whether it gets the key (`granted`) or not (`denied`); its value is `pending` for a while and
`stored` for good after that. The store may fail, and then a pending value is lost: the key may be
free again, or it may stay taken for ever.

* **`WriteOnce.Run`** — runs of the store, with the replies given in them.
* **`Run.stored`** — what is stored stays stored, and its key is never granted again.
* **`Run.exists_granted`** — what a key has is the value of its last grant.
* **`Run.failed_between`**, **`Run.granted_before`** — a key is granted again only after a failure, and
  denied only after it has been granted. -/

namespace DedupServer.Foundations

/-- What a write-once store knows of a key. -/
inductive Entry (α : Type*)
  | free
  | pending (v : α)
  | stored (v : α)
  | lost

/-- What a store tells its writers, or what befalls all of them. -/
inductive Reply (κ α : Type*)
  | granted (k : κ) (v : α)
  | denied (k : κ)
  | failed
  deriving DecidableEq

namespace WriteOnce

variable {κ α : Type*}

/-! ## Settling and failing -/

section Operations

open Classical

/-- The store when the pending values of some keys have been settled. -/
noncomputable def settled (m : κ → Entry α) (done : κ → Prop) (k : κ) : Entry α :=
  match m k with
  | .pending v => if done k then .stored v else .pending v
  | e => e

/-- The store after a failure, which leaves some of the keys taken. -/
noncomputable def afterFailure (m : κ → Entry α) (kept : κ → Prop) (k : κ) : Entry α :=
  match m k with
  | .pending _ => if kept k then .lost else .free
  | e => e

variable {done kept : κ → Prop} {m : κ → Entry α} {k : κ} {v : α}

@[simp] theorem settled_eq_free : settled m done k = .free ↔ m k = .free := by
  cases h : m k <;> by_cases hdone : done k <;> simp [settled, h, hdone]

@[simp] theorem settled_eq_lost : settled m done k = .lost ↔ m k = .lost := by
  cases h : m k <;> by_cases hdone : done k <;> simp [settled, h, hdone]

@[simp] theorem settled_eq_pending :
    settled m done k = .pending v ↔ m k = .pending v ∧ ¬ done k := by
  cases h : m k <;> by_cases hdone : done k <;> simp [settled, h, hdone]

@[simp] theorem settled_eq_stored :
    settled m done k = .stored v ↔ m k = .stored v ∨ (m k = .pending v ∧ done k) := by
  cases h : m k <;> by_cases hdone : done k <;> simp [settled, h, hdone]

@[simp] theorem afterFailure_eq_pending : afterFailure m kept k ≠ .pending v := by
  cases h : m k <;> by_cases hkept : kept k <;> simp [afterFailure, h, hkept]

@[simp] theorem afterFailure_eq_stored : afterFailure m kept k = .stored v ↔ m k = .stored v := by
  cases h : m k <;> by_cases hkept : kept k <;> simp [afterFailure, h, hkept]

/-- A key is free after a failure if it was, or if its value was lost and the key was not taken. -/
theorem afterFailure_eq_free (h : afterFailure m kept k = .free) :
    m k = .free ∨ ((∃ v, m k = .pending v) ∧ ¬ kept k) := by
  unfold afterFailure at h
  split at h
  · split_ifs at h with hkept
    exact .inr ⟨⟨_, by assumption⟩, hkept⟩
  · exact .inl h

theorem afterFailure_eq_lost (h : afterFailure m kept k = .lost) :
    m k = .lost ∨ ((∃ v, m k = .pending v) ∧ kept k) := by
  unfold afterFailure at h
  split at h
  · split_ifs at h with hkept
    exact .inr ⟨⟨_, by assumption⟩, hkept⟩
  · exact .inl h

end Operations

variable [DecidableEq κ] {m m' m'' : κ → Entry α} {t t' : List (Reply κ α)} {k : κ} {v w : α}

/-- **One step of the store**, with the replies it gives. -/
inductive Step (m : κ → Entry α) : List (Reply κ α) → (κ → Entry α) → Prop
  | grant {k : κ} (v : α) (hfree : m k = .free) :
      Step m [.granted k v] (Function.update m k (.pending v))
  | deny {k : κ} (hfree : m k ≠ .free) : Step m [.denied k] m
  | settle {m' : κ → Entry α}
      (h : ∀ k, m' k = m k ∨ ∃ v, m k = .pending v ∧ m' k = .stored v) : Step m [] m'
  | fail {m' : κ → Entry α}
      (h : ∀ k, m' k = m k ∨ (∃ v, m k = .pending v) ∧ (m' k = .free ∨ m' k = .lost)) :
      Step m [.failed] m'

/-- **Runs of the store.** -/
inductive Run (m : κ → Entry α) : List (Reply κ α) → (κ → Entry α) → Prop
  | refl : Run m [] m
  | tail {m' m'' : κ → Entry α} {t r : List (Reply κ α)} (hrun : Run m t m')
      (hstep : Step m' r m'') : Run m (t ++ r) m''

theorem Run.trans (h : Run m t m') (h' : Run m' t' m'') : Run m (t ++ t') m'' := by
  induction h' with
  | refl => rwa [List.append_nil]
  | tail _ hstep ih =>
    rw [← List.append_assoc]
    exact ih.tail hstep

/-- Settling is a step. -/
theorem Step.settled (m : κ → Entry α) (done : κ → Prop) : Step m [] (settled m done) := by
  refine .settle fun k => ?_
  unfold WriteOnce.settled
  split
  · split_ifs
    · exact .inr ⟨_, by assumption, rfl⟩
    · exact .inl (by symm; assumption)
  · exact .inl rfl

/-- Failing is a step. -/
theorem Step.afterFailure (m : κ → Entry α) (kept : κ → Prop) :
    Step m [.failed] (afterFailure m kept) := by
  refine .fail fun k => ?_
  unfold WriteOnce.afterFailure
  split
  · refine .inr ⟨⟨_, by assumption⟩, ?_⟩
    split_ifs
    · exact .inr rfl
    · exact .inl rfl
  · exact .inl rfl

/-! ## One step, one key -/

/-- **What a step does to a key that is not free**: it is granted to nobody, and unless the store
fails it stays taken with the value it has. -/
theorem Step.taken (h : Step m t m') (hk : m k ≠ .free) :
    (∀ v, Reply.granted k v ∉ t) ∧
      (m' k = m k ∨ (∃ v, m k = .pending v ∧ m' k = .stored v) ∨
        (Reply.failed ∈ t ∧ (∃ v, m k = .pending v) ∧ (m' k = .free ∨ m' k = .lost))) := by
  cases h with
  | @grant k' v hfree =>
    have hne : k ≠ k' := by
      rintro rfl
      exact hk hfree
    exact ⟨fun w hw => hne (Reply.granted.inj (List.mem_singleton.mp hw)).1, .inl (by simp [hne])⟩
  | deny => exact ⟨by simp, .inl rfl⟩
  | settle h => exact ⟨by simp, (h k).imp_right .inl⟩
  | fail h =>
    exact ⟨by simp, (h k).imp_right fun hlost => .inr ⟨List.mem_singleton_self _, hlost⟩⟩

/-- **A key that is free** is taken by being granted only. -/
theorem Step.free (h : Step m t m') (hk : m k = .free) :
    Reply.denied k ∉ t ∧ ((m' k = .free ∧ ∀ v, Reply.granted k v ∉ t) ∨
      ∃ v, t = [.granted k v] ∧ m' k = .pending v) := by
  cases h with
  | @grant k' v hfree =>
    by_cases hne : k = k'
    · subst hne
      exact ⟨by simp, .inr ⟨v, rfl, Function.update_self _ _ _⟩⟩
    · refine ⟨by simp, .inl ⟨by simp [hne, hk], fun w hw => hne ?_⟩⟩
      exact (Reply.granted.inj (List.mem_singleton.mp hw)).1
  | @deny k' hfree =>
    refine ⟨fun hmem => hfree ?_, .inl ⟨hk, by simp⟩⟩
    obtain rfl : k = k' := by simpa using hmem
    exact hk
  | settle h =>
    rcases h k with heq | ⟨v, hv, -⟩
    · exact ⟨by simp, .inl ⟨heq.trans hk, by simp⟩⟩
    · simp [hk] at hv
  | fail h =>
    rcases h k with heq | ⟨⟨v, hv⟩, -⟩
    · exact ⟨by simp, .inl ⟨heq.trans hk, by simp⟩⟩
    · simp [hk] at hv

/-! ## Runs -/

/-- **What is stored stays stored**, and its key is never granted again. -/
theorem Run.stored (h : Run m t m') (hk : m k = .stored v) :
    m' k = .stored v ∧ ∀ w, Reply.granted k w ∉ t := by
  induction h with
  | refl => exact ⟨hk, by simp⟩
  | @tail m₁ m₂ t r _ hstep ih =>
    obtain ⟨hm₁, hnot⟩ := ih
    obtain ⟨hnone, hkeep⟩ := hstep.taken (k := k) (by simp [hm₁])
    refine ⟨?_, fun w hw => (List.mem_append.mp hw).elim (hnot w) (hnone w)⟩
    -- neither settling nor failing touches what is stored
    rcases hkeep with heq | ⟨u, hu, -⟩ | ⟨-, ⟨u, hu⟩, -⟩
    · exact heq.trans hm₁
    · simp [hm₁] at hu
    · simp [hm₁] at hu

/-- What is lost stays lost. -/
theorem Run.lost (h : Run m t m') (hk : m k = .lost) :
    m' k = .lost ∧ ∀ w, Reply.granted k w ∉ t := by
  induction h with
  | refl => exact ⟨hk, by simp⟩
  | @tail m₁ m₂ t r _ hstep ih =>
    obtain ⟨hm₁, hnot⟩ := ih
    obtain ⟨hnone, hkeep⟩ := hstep.taken (k := k) (by simp [hm₁])
    refine ⟨?_, fun w hw => (List.mem_append.mp hw).elim (hnot w) (hnone w)⟩
    rcases hkeep with heq | ⟨u, hu, -⟩ | ⟨-, ⟨u, hu⟩, -⟩
    · exact heq.trans hm₁
    · simp [hm₁] at hu
    · simp [hm₁] at hu

/-- **What a key has been granted, as long as the store does not fail.** -/
theorem Run.pending (h : Run m t m') (hk : m k = .pending v) (hok : Reply.failed ∉ t) :
    (m' k = .pending v ∨ m' k = .stored v) ∧ ∀ w, Reply.granted k w ∉ t := by
  induction h with
  | refl => exact ⟨.inl hk, by simp⟩
  | @tail m₁ m₂ t r _ hstep ih =>
    obtain ⟨hm₁, hnot⟩ := ih fun hmem => hok (List.mem_append_left _ hmem)
    have hne : m₁ k ≠ .free := by rcases hm₁ with hm₁ | hm₁ <;> simp [hm₁]
    obtain ⟨hnone, hkeep⟩ := hstep.taken hne
    refine ⟨?_, fun w hw => (List.mem_append.mp hw).elim (hnot w) (hnone w)⟩
    rcases hkeep with heq | ⟨u, hu, hu'⟩ | ⟨hmem, -⟩
    · rwa [heq]
    · rcases hm₁ with hm₁ | hm₁
      · obtain rfl : v = u := by simpa [hm₁] using hu
        exact .inr hu'
      · simp [hm₁] at hu
    · exact absurd (List.mem_append_right _ hmem) hok

/-! ## What the replies tell -/

/-- A step gives one reply at most. -/
theorem Step.reply (h : Step m t m') : t = [] ∨ ∃ r, t = [r] := by
  cases h with
  | grant v => exact .inr ⟨_, rfl⟩
  | deny => exact .inr ⟨_, rfl⟩
  | settle => exact .inl rfl
  | fail => exact .inr ⟨_, rfl⟩

/-- A run can be cut between any two replies. -/
theorem Run.cut {s : List (Reply κ α)} (h : Run m s m'') (hs : s = t ++ t') :
    ∃ m', Run m t m' ∧ Run m' t' m'' := by
  induction h generalizing t' with
  | refl =>
    obtain ⟨rfl, rfl⟩ := List.append_eq_nil_iff.mp hs.symm
    exact ⟨m, .refl, .refl⟩
  | @tail m₁ m₂ s r hrun hstep ih =>
    rcases hstep.reply with rfl | ⟨x, rfl⟩
    · obtain ⟨m', hrun', hrest⟩ := ih ((List.append_nil s).symm.trans hs)
      have hstep' := hrest.tail hstep
      rw [List.append_nil] at hstep'
      exact ⟨m', hrun', hstep'⟩
    · -- the last reply belongs to the second part, unless that is empty
      rcases List.eq_nil_or_concat t' with rfl | ⟨t'', y, rfl⟩
      · rw [List.append_nil] at hs
        exact ⟨m₂, hs ▸ hrun.tail hstep, .refl⟩
      · rw [List.concat_eq_append, ← List.append_assoc] at hs
        obtain ⟨rfl, heq⟩ := List.append_inj' hs rfl
        obtain ⟨m', hrun', hrest⟩ := ih rfl
        rw [List.concat_eq_append, ← heq]
        exact ⟨m', hrun', hrest.tail hstep⟩

/-- **What a key has is what it was granted last**, and it is lost by a failure only. -/
theorem Run.exists_granted (h : Run m t m') (hm : m k = .free) (hk : m' k ≠ .free) :
    ∃ v before after, t = before ++ .granted k v :: after ∧ (∀ w, Reply.granted k w ∉ after) ∧
      (m' k = .pending v ∨ m' k = .stored v ∨ (m' k = .lost ∧ Reply.failed ∈ after)) := by
  induction h with
  | refl => exact absurd hm hk
  | @tail m₁ m₂ t r _ hstep ih =>
    by_cases hfree : m₁ k = .free
    · rcases (hstep.free hfree).2 with ⟨hm₂, -⟩ | ⟨v, rfl, hm₂⟩
      · exact absurd hm₂ hk
      · exact ⟨v, t, [], rfl, by simp, .inl hm₂⟩
    · obtain ⟨v, before, after, rfl, hnot, hv⟩ := ih hfree
      obtain ⟨hnone, hkeep⟩ := hstep.taken hfree
      refine ⟨v, before, after ++ r, by simp, fun w hw =>
        (List.mem_append.mp hw).elim (hnot w) (hnone w), ?_⟩
      rcases hkeep with heq | ⟨u, hu, hu'⟩ | ⟨hmem, -, hm₂ | hm₂⟩
      · rw [heq]
        exact hv.imp_right (.imp_right fun h => ⟨h.1, List.mem_append_left _ h.2⟩)
      -- a value that is settled is the one that was pending
      · rcases hv with hv | hv | ⟨hv, -⟩
        · obtain rfl : v = u := by simpa [hv] using hu
          exact .inr (.inl hu')
        · simp [hv] at hu
        · simp [hv] at hu
      · exact absurd hm₂ hk
      · exact .inr (.inr ⟨hm₂, List.mem_append_right _ hmem⟩)

/-- **A key is denied only after it has been granted.** -/
theorem Run.granted_before (h : Run m t m') (hm : m k = .free) {before after : List (Reply κ α)}
    (ht : t = before ++ .denied k :: after) : ∃ v, Reply.granted k v ∈ before := by
  induction h generalizing after with
  | refl => simp at ht
  | @tail m₁ m₂ t r hrun hstep ih =>
    rcases hstep.reply with rfl | ⟨x, rfl⟩
    · exact ih ((List.append_nil t).symm.trans ht)
    rcases List.eq_nil_or_concat after with rfl | ⟨after, y, rfl⟩
    · obtain ⟨rfl, heq⟩ := List.append_inj' ht rfl
      have hne : m₁ k ≠ .free := fun hfree =>
        (hstep.free hfree).1 (by rw [heq]; exact List.mem_singleton_self _)
      obtain ⟨v, _, _, rfl, -, -⟩ := hrun.exists_granted hm hne
      exact ⟨v, by simp⟩
    · rw [List.concat_eq_append, ← List.cons_append, ← List.append_assoc] at ht
      obtain ⟨rfl, -⟩ := List.append_inj' ht rfl
      exact ih rfl

/-- **A grant is in force when it has been given.** -/
theorem Run.granted {s : List (Reply κ α)} (h : Run m s m') (hs : s = t ++ [.granted k v]) :
    m' k = .pending v ∨ m' k = .stored v := by
  induction h with
  | refl => simp at hs
  | @tail m₁ m₂ s r _ hstep ih =>
    rcases hstep.reply with rfl | ⟨x, rfl⟩
    · have hm₁ := ih ((List.append_nil s).symm.trans hs)
      have hne : m₁ k ≠ .free := by rcases hm₁ with hm₁ | hm₁ <;> simp [hm₁]
      rcases (hstep.taken hne).2 with heq | ⟨u, hu, hu'⟩ | ⟨hmem, -⟩
      · rwa [heq]
      · rcases hm₁ with hm₁ | hm₁
        · obtain rfl : v = u := by simpa [hm₁] using hu
          exact .inr hu'
        · simp [hm₁] at hu
      · cases hmem
    · obtain ⟨rfl, heq⟩ := List.append_inj' hs rfl
      rw [heq] at hstep
      by_cases hfree : m₁ k = .free
      · rcases (hstep.free hfree).2 with ⟨-, hnone⟩ | ⟨u, hu, hm₂⟩
        · exact absurd (List.mem_singleton_self _) (hnone v)
        · obtain rfl : v = u := by simpa using hu
          exact .inl hm₂
      · exact absurd (List.mem_singleton_self _) ((hstep.taken hfree).1 v)

/-- **A key is granted again only after a failure.** -/
theorem Run.failed_between (h : Run m t m') {before between after : List (Reply κ α)}
    (ht : t = before ++ .granted k v :: (between ++ .granted k w :: after)) :
    Reply.failed ∈ between := by
  by_contra hok
  have hcut : t = (before ++ [.granted k v]) ++ (between ++ .granted k w :: after) := by
    rw [ht]
    simp
  obtain ⟨m₁, hfirst, hrest⟩ := h.cut hcut
  obtain ⟨m₂, hmid, hlast⟩ := hrest.cut (t := between) rfl
  -- the first grant is in force until the store fails, and so the second one is not given
  have htaken : m₂ k = .pending v ∨ m₂ k = .stored v := by
    rcases hfirst.granted rfl with hm₁ | hm₁
    · exact (hmid.pending hm₁ hok).1
    · exact .inr (hmid.stored hm₁).1
  obtain ⟨m₃, hone, -⟩ := hlast.cut (t := [.granted k w]) rfl
  have hmem : Reply.granted k w ∈ [Reply.granted k w] := List.mem_singleton_self _
  rcases htaken with hm₂ | hm₂
  · exact (hone.pending hm₂ (by simp)).2 w hmem
  · exact (hone.stored hm₂).2 w hmem

end WriteOnce

end DedupServer.Foundations
