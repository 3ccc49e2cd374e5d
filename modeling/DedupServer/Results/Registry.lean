import DedupServer.Model.Registry

/-! # The registry as a set of pairs

The look-up answers by the strings that names denote as SQL literals, so two names that denote the same
string are one file to it (`registry_exact_iff`). -/

namespace DedupServer

open Foundations Registry

variable {mysql : MysqlQuery} {calls : List (ℤ × Bytes)} {c : ℤ} {n value : Bytes}

/-- **The registry is exact for a file** after a sequence of `addFile` calls: the look-up of the file
answers that it is unique exactly if no call had these arguments. -/
def RegistryExact (mysql : MysqlQuery) (calls : List (ℤ × Bytes)) (c : ℤ) (n : Bytes) : Prop :=
  ∃ files, addFiles mysql [] calls = some files ∧
    ∃ unique, isFileUnique mysql files c n = some unique ∧ (unique = true ↔ (c, n) ∉ calls)

/-- How many calls had the same client id and a name that denotes the same string. -/
def sameString (calls : List (ℤ × Bytes)) (c : ℤ) (n : Bytes) : ℕ :=
  calls.countP fun call => call.1 = c ∧ literalValue call.2 = literalValue n

/-- **The rows of a string** are those of the calls whose names denote it. -/
theorem count_denoted (hcalls : ∀ call ∈ calls, (literalValue call.2).isSome)
    (hvalue : literalValue n = some value) :
    (calls.map fun call => (call.1, (literalValue call.2).getD [])).count (c, value) =
      sameString calls c n := by
  rw [List.count, List.countP_map, sameString]
  apply List.countP_congr
  rintro ⟨d, m⟩ hmem
  obtain ⟨w, hw⟩ := Option.isSome_iff_exists.mp (hcalls _ hmem)
  simp [hw, hvalue]

/-- No row is found exactly if no call has left one. -/
theorem sameString_eq_zero :
    sameString calls c n = 0 ↔ ∀ m, (c, m) ∈ calls → literalValue m ≠ literalValue n := by
  rw [sameString, List.countP_eq_zero]
  constructor
  · intro h m hmem hm
    exact h (c, m) hmem (decide_eq_true ⟨rfl, hm⟩)
  · rintro h ⟨d, m⟩ hmem hsame
    obtain ⟨rfl, hm⟩ := of_decide_eq_true hsame
    exact h m hmem hm

/-- **When the registry is exact.** Let every name be the inside of one SQL literal. After any sequence
of `addFile` calls the look-up of a file answers exactly whether it has been added, if and only if that is
the same as whether the names under the same client id that denote the same string are no multiple of
`2 ^ 32`. With less than `2 ^ 32` calls this is so if and only if no other name has been added under the
same client id that denotes the same string, or the file itself has been added as well. -/
theorem registry_exact_iff (hmysql : ReadsStatements mysql)
    (hcalls : ∀ call ∈ calls, Sendable call.1 call.2 ∧ (literalValue call.2).isSome)
    (hn : Sendable c n) (hliteral : (literalValue n).isSome) :
    (RegistryExact mysql calls c n ↔ ((c, n) ∈ calls ↔ sameString calls c n % 2 ^ 32 ≠ 0)) ∧
      (calls.length < 2 ^ 32 →
        (RegistryExact mysql calls c n ↔
          ∀ m, (c, m) ∈ calls → literalValue m = literalValue n → (c, n) ∈ calls)) := by
  obtain ⟨value, hvalue⟩ := Option.isSome_iff_exists.mp hliteral
  have hexact : RegistryExact mysql calls c n ↔
      ((c, n) ∈ calls ↔ sameString calls c n % 2 ^ 32 ≠ 0) := by
    rw [RegistryExact]
    simp only [addFiles_eq hmysql hcalls, List.nil_append, Option.some.injEq, exists_eq_left',
      isFileUnique_eq hmysql hn hvalue, decide_eq_true_eq,
      count_denoted (fun call h => (hcalls call h).2) hvalue]
    exact iff_not_comm
  refine ⟨hexact, fun hshort => ?_⟩
  have hmod : sameString calls c n % 2 ^ 32 = sameString calls c n :=
    Nat.mod_eq_of_lt (List.countP_le_length.trans_lt hshort)
  rw [hexact, hmod, Ne, sameString_eq_zero]
  push Not
  constructor
  · intro h m hmem hm
    exact h.mpr ⟨m, hmem, hm⟩
  · intro h
    constructor
    · intro hmem
      exact ⟨n, hmem, rfl⟩
    · rintro ⟨m, hmem, hm⟩
      exact h m hmem hm

/-- A name with a doubled quote that has been added. -/
theorem registry_exact_iff_sample :
    RegistryExact (mysqlQuery fun files _ => (files, none)) [(1, ascii "it''s"), (2, ascii "x")] 1
      (ascii "it''s") :=
  ((registry_exact_iff (readsStatements_mysqlQuery _)
    (List.forall_mem_cons.mpr ⟨⟨⟨by decide, by decide, by decide⟩, by decide⟩,
      List.forall_mem_singleton.mpr ⟨⟨by decide, by decide, by decide⟩, by decide⟩⟩)
    ⟨by decide, by decide, by decide⟩ (by decide)).2 (by decide)).mpr (fun _ _ _ => by decide)

/-- The name with a backslash denotes another name, which has never been added. -/
theorem registry_not_exact :
    ¬ ∃ mysql, ReadsStatements mysql ∧ RegistryExact mysql [(1, ascii "a\\c")] 1 (ascii "ac") := by
  rintro ⟨mysql, hmysql, files, hfiles, unique, hanswer, hunique⟩
  have hadd : addFiles mysql [] [(1, ascii "a\\c")] = some [(1, ascii "ac")] := by
    rw [addFiles_eq hmysql]
    · decide
    · intro call hcall
      obtain rfl := List.mem_singleton.mp hcall
      exact ⟨⟨by decide, by decide, by decide⟩, by decide⟩
  rw [hadd] at hfiles
  obtain rfl := Option.some.inj hfiles
  rw [isFileUnique_eq hmysql ⟨by decide, by decide, by decide⟩
    (show literalValue (ascii "ac") = some (ascii "ac") by decide)] at hanswer
  obtain rfl := Option.some.inj hanswer
  exact absurd hunique (by decide)

end DedupServer
