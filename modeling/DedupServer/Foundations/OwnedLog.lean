import Mathlib.Data.List.Infix
import Mathlib.Logic.Function.Basic

/-! # Append-only logs with owners

A store of named logs in which only the owner of a log may append to it, and an index that
points into the logs. Publishing an address before the bytes behind it are durable is sound for
readers of *the logs* because a log only grows: an extent, once it holds some elements, holds
them for ever (`Holds.mono`).

* **`Logs`** — which logs exist, who owns each, and what has been appended so far.
* **`GrowsBy i P P'`** — owner `i` has opened or extended logs of its own, nobody else's.
* **`Holds P id off len xs`** — the extent `[off, off + len)` of log `id` is there and is `xs`. -/

namespace DedupServer.Foundations

variable {Id Owner α : Type*}

/-- The logs of a store: for each name that is in use, its owner and what was appended. -/
abbrev Logs (Id Owner α : Type*) := Id → Option (Owner × List α)

/-- **The extent `[off, off + len)` of log `id` holds `xs`.** -/
def Holds (P : Logs Id Owner α) (id : Id) (off len : Nat) (xs : List α) : Prop :=
  ∃ o l, P id = some (o, l) ∧ off + len ≤ l.length ∧ (l.drop off).take len = xs

/-- **Owner `i` extends the store.** Every log is kept up to appended elements, and the logs of
the other owners (also: which logs the others own) are exactly as before. -/
structure GrowsBy (i : Owner) (P P' : Logs Id Owner α) : Prop where
  /-- Every log is still there, with its owner, and only grew. -/
  kept : ∀ id o l, P id = some (o, l) → ∃ l', P' id = some (o, l') ∧ l <+: l'
  /-- The logs of every other owner are unchanged. -/
  foreign : ∀ id o l, o ≠ i → (P' id = some (o, l) ↔ P id = some (o, l))

namespace GrowsBy

variable {i : Owner} {P P' P'' : Logs Id Owner α}

/-- Doing nothing is growing. -/
theorem refl (i : Owner) (P : Logs Id Owner α) : GrowsBy i P P :=
  ⟨fun _ _ l h => ⟨l, h, List.prefix_rfl⟩, fun _ _ _ _ => Iff.rfl⟩

/-- Growing twice is growing. -/
theorem trans (h : GrowsBy i P P') (h' : GrowsBy i P' P'') : GrowsBy i P P'' where
  kept id o l hl := by
    obtain ⟨l', hl', hpre⟩ := h.kept id o l hl
    obtain ⟨l'', hl'', hpre'⟩ := h'.kept id o l' hl'
    exact ⟨l'', hl'', hpre.trans hpre'⟩
  foreign id o l ho := (h'.foreign id o l ho).trans (h.foreign id o l ho)

end GrowsBy

/-- **An extent never changes once it holds something**: its log can only grow behind it. -/
theorem Holds.mono {i : Owner} {P P' : Logs Id Owner α} (h : GrowsBy i P P') {id : Id}
    {off len : Nat} {xs : List α} (hx : Holds P id off len xs) : Holds P' id off len xs := by
  obtain ⟨o, l, hl, hlen, hxs⟩ := hx
  obtain ⟨l', hl', t, rfl⟩ := h.kept id o l hl
  refine ⟨o, l ++ t, hl', by rw [List.length_append]; omega, ?_⟩
  rw [List.drop_append_of_le_length (by omega),
    List.take_append_of_le_length (by rw [List.length_drop]; omega), hxs]

section Operations

variable [DecidableEq Id]

/-- A new, empty log of owner `i`. -/
def Logs.opened (P : Logs Id Owner α) (id : Id) (i : Owner) : Logs Id Owner α :=
  Function.update P id (some (i, []))

/-- The log `id` of owner `i` after appending `xs` to its content `l`. -/
def Logs.appended (P : Logs Id Owner α) (id : Id) (i : Owner) (l xs : List α) :
    Logs Id Owner α :=
  Function.update P id (some (i, l ++ xs))

variable {i : Owner} {P : Logs Id Owner α} {id : Id} {l xs : List α}

@[simp] theorem Logs.opened_self : P.opened id i id = some (i, []) := by
  simp [Logs.opened]

@[simp] theorem Logs.appended_self : P.appended id i l xs id = some (i, l ++ xs) := by
  simp [Logs.appended]

theorem Logs.opened_of_ne {id' : Id} (h : id' ≠ id) : P.opened id i id' = P id' := by
  simp [Logs.opened, h]

theorem Logs.appended_of_ne {id' : Id} (h : id' ≠ id) : P.appended id i l xs id' = P id' := by
  simp [Logs.appended, h]

/-- Opening a log under a name nobody uses is growing. -/
theorem Logs.growsBy_opened (h : P id = none) : GrowsBy i P (P.opened id i) where
  kept id' o m hm := by
    have hne : id' ≠ id := by
      rintro rfl
      rw [h] at hm
      cases hm
    exact ⟨m, by rw [Logs.opened_of_ne hne, hm], List.prefix_rfl⟩
  foreign id' o m ho := by
    by_cases hid : id' = id
    · subst hid
      simp [h, ho.symm]
    · rw [Logs.opened_of_ne hid]

/-- Appending to one's own log is growing. -/
theorem Logs.growsBy_appended (h : P id = some (i, l)) :
    GrowsBy i P (P.appended id i l xs) where
  kept id' o m hm := by
    by_cases hid : id' = id
    · subst hid
      obtain ⟨rfl, rfl⟩ : i = o ∧ l = m := by simpa [h] using hm
      exact ⟨l ++ xs, Logs.appended_self, List.prefix_append _ _⟩
    · exact ⟨m, by rw [Logs.appended_of_ne hid, hm], List.prefix_rfl⟩
  foreign id' o m ho := by
    by_cases hid : id' = id
    · subst hid
      simp [h, ho.symm]
    · rw [Logs.appended_of_ne hid]

/-- What was just appended is held by the extent at the old end of the log. -/
theorem Logs.holds_appended : Holds (P.appended id i l xs) id l.length xs.length xs :=
  ⟨i, l ++ xs, Logs.appended_self, by simp, by simp⟩

end Operations

end DedupServer.Foundations
