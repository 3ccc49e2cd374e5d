import Mathlib.Algebra.Order.Ring.Int
import Mathlib.Data.List.TakeWhile
import Mathlib.Logic.Basic

/-! # Reading SQL text

The lexical parts of SQL that a statement with an integer and a string needs, on bytes: a fixed piece of
text (`afterText`), a decimal integer (`readInt`), and the rest of a string literal whose quote has been
read (`readLiteral`), with doubled quotes and backslash escapes as MySQL has them.

`literalValue` is the string that a byte string denotes when it stands between two quotes, if the literal
does not end within it; then the literal reads back as this string (`readLiteral_append`). A byte string
without quotes and backslashes denotes itself (`literalValue_of_plain`). -/

namespace DedupServer.Foundations

/-- What follows a fixed piece of text. -/
def afterText : List UInt8 → List UInt8 → Option (List UInt8)
  | [], text => some text
  | _ :: _, [] => none
  | c :: fixed, d :: text => if c = d then afterText fixed text else none

@[simp] theorem afterText_append (fixed text : List UInt8) :
    afterText fixed (fixed ++ text) = some text := by
  induction fixed with
  | nil => rfl
  | cons c fixed ih => rw [List.cons_append, afterText, if_pos rfl, ih]

/-! ## Integers -/

/-- The byte is an ASCII digit. -/
def isDigitByte (c : UInt8) : Bool := decide (48 ≤ c.toNat ∧ c.toNat ≤ 57)

/-- The number that digits denote. -/
def digitsValue (digits : List UInt8) : ℕ :=
  Nat.ofDigitChars 10 (digits.map fun c => Char.ofNat c.toNat) 0

/-- A number without sign, and what follows it. -/
def readNat (text : List UInt8) : Option (ℕ × List UInt8) :=
  match text.takeWhile isDigitByte with
  | [] => none
  | digits => some (digitsValue digits, text.dropWhile isDigitByte)

/-- A decimal integer, and what follows it. -/
def readInt : List UInt8 → Option (ℤ × List UInt8)
  | [] => none
  | c :: text =>
    if c = 45 then (readNat text).map fun (n, rest) => (-n, rest)
    else (readNat (c :: text)).map fun (n, rest) => (n, rest)

/-- The decimal digits of a number. -/
def decimalDigits (n : ℕ) : List UInt8 :=
  (Nat.toDigits 10 n).map fun c => UInt8.ofNat c.toNat

/-- A digit character as a byte. -/
theorem isDigitByte_ofNat {c : Char} (h : c.isDigit = true) :
    isDigitByte (UInt8.ofNat c.toNat) = true ∧ Char.ofNat (UInt8.ofNat c.toNat).toNat = c := by
  have hrange : 48 ≤ c.toNat ∧ c.toNat ≤ 57 := by
    simp only [Char.isDigit, Bool.and_eq_true, decide_eq_true_eq] at h
    exact ⟨UInt32.le_iff_toNat_le.mp h.1, UInt32.le_iff_toNat_le.mp h.2⟩
  have hbyte : (UInt8.ofNat c.toNat).toNat = c.toNat := by
    rw [UInt8.toNat_ofNat']
    omega
  rw [isDigitByte, hbyte]
  exact ⟨decide_eq_true hrange, Char.ofNat_toNat c⟩

/-- Every decimal digit is a digit. -/
theorem isDigitByte_of_mem {n : ℕ} {c : UInt8} (h : c ∈ decimalDigits n) :
    isDigitByte c = true := by
  obtain ⟨d, hd, rfl⟩ := List.mem_map.mp h
  exact (isDigitByte_ofNat (Nat.isDigit_of_mem_toDigits (by decide) (by decide) hd)).1

/-- The digits of a number denote it. -/
theorem digitsValue_decimalDigits (n : ℕ) : digitsValue (decimalDigits n) = n := by
  have hsame : (decimalDigits n).map (fun c => Char.ofNat c.toNat) = Nat.toDigits 10 n := by
    rw [decimalDigits, List.map_map]
    conv_rhs => rw [← List.map_id (Nat.toDigits 10 n)]
    apply List.map_congr_left
    intro d hd
    exact (isDigitByte_ofNat (Nat.isDigit_of_mem_toDigits (by decide) (by decide) hd)).2
  rw [digitsValue, hsame]
  exact Nat.ofDigitChars_toDigits (by decide) (by decide)

/-- **A number reads back**, when no digit follows it. -/
theorem readNat_append (n : ℕ) {rest : List UInt8}
    (hrest : ∀ c, rest.head? = some c → isDigitByte c = false) :
    readNat (decimalDigits n ++ rest) = some (n, rest) := by
  have hdigits : ∀ c ∈ decimalDigits n, isDigitByte c = true := fun c => isDigitByte_of_mem
  have htake : rest.takeWhile isDigitByte = [] := by
    cases rest with
    | nil => rfl
    | cons c rest => rw [List.takeWhile_cons_of_neg (by simp [hrest c rfl])]
  have hdrop : rest.dropWhile isDigitByte = rest := by
    cases rest with
    | nil => rfl
    | cons c rest => rw [List.dropWhile_cons_of_neg (by simp [hrest c rfl])]
  have hne : decimalDigits n ≠ [] := by
    simp [decimalDigits, Nat.toDigits_ne_nil]
  rw [readNat, List.takeWhile_append_of_pos hdigits, List.dropWhile_append_of_pos hdigits, htake,
    hdrop, List.append_nil]
  split
  · contradiction
  · rw [digitsValue_decimalDigits]

/-- **An integer reads back**, when no digit follows it. -/
theorem readInt_append (n : ℤ) {rest : List UInt8}
    (hrest : ∀ c, rest.head? = some c → isDigitByte c = false) :
    readInt ((if n < 0 then [45] else []) ++ decimalDigits n.natAbs ++ rest) = some (n, rest) := by
  have hread := readNat_append n.natAbs hrest
  split
  · rename_i hneg
    have hval : -(n.natAbs : ℤ) = n := by omega
    rw [List.append_assoc, List.singleton_append, readInt, if_pos rfl, hread, Option.map_some]
    exact congrArg (fun k => some (k, rest)) hval
  · rename_i hneg
    rw [List.nil_append]
    -- the text begins with a digit, which is no sign
    cases hd : decimalDigits n.natAbs with
    | nil => simp [decimalDigits, Nat.toDigits_ne_nil] at hd
    | cons c digits =>
      have hc : isDigitByte c = true := isDigitByte_of_mem (hd ▸ List.mem_cons_self)
      have hsign : c ≠ 45 := by
        rintro rfl
        exact absurd hc (by decide)
      have hval : (n.natAbs : ℤ) = n := by omega
      rw [List.cons_append, readInt, if_neg hsign, ← List.cons_append, ← hd, hread,
        Option.map_some]
      exact congrArg (fun k => some (k, rest)) hval

/-! ## String literals -/

/-- The byte `'`. -/
def quote : UInt8 := 39

/-- The byte of a backslash. -/
def backslash : UInt8 := 92

/-- What a backslash and the byte after it stand for. -/
def unescape (c : UInt8) : List UInt8 :=
  if c = 48 then [0]
  else if c = 98 then [8]
  else if c = 110 then [10]
  else if c = 114 then [13]
  else if c = 116 then [9]
  else if c = 90 then [26]
  else if c = 37 ∨ c = 95 then [backslash, c]
  else [c]

/-- Text put before a string that has been read. -/
def readBefore (text : List UInt8) (r : List UInt8 × List UInt8) : List UInt8 × List UInt8 :=
  (text ++ r.1, r.2)

/-- **The rest of a string literal** whose first quote has been read: the string, and what follows the
last quote. A doubled quote is one, and a backslash escapes what follows it. -/
def readLiteral : List UInt8 → Option (List UInt8 × List UInt8)
  | [] => none
  | c :: text =>
    if c = quote then
      match text with
      | [] => some ([], [])
      | d :: text' =>
        if d = quote then (readLiteral text').map (readBefore [quote]) else some ([], d :: text')
    else if c = backslash then
      match text with
      | [] => none
      | d :: text' => (readLiteral text').map (readBefore (unescape d))
    else (readLiteral text).map (readBefore [c])

/-- **The string that a byte string denotes** between two quotes, if the literal does not end within it
or run over its end. -/
def literalValue : List UInt8 → Option (List UInt8)
  | [] => some []
  | c :: text =>
    if c = quote then
      match text with
      | [] => none
      | d :: text' => if d = quote then (literalValue text').map ([quote] ++ ·) else none
    else if c = backslash then
      match text with
      | [] => none
      | d :: text' => (literalValue text').map (unescape d ++ ·)
    else (literalValue text).map ([c] ++ ·)

/-! How the two readers go on, by the next byte. -/

@[simp] theorem readLiteral_end : readLiteral [quote] = some ([], []) := rfl

@[simp] theorem readLiteral_quote (text : List UInt8) :
    readLiteral (quote :: quote :: text) = (readLiteral text).map (readBefore [quote]) := by
  rw [readLiteral.eq_def]
  rfl

theorem readLiteral_close {d : UInt8} (hd : d ≠ quote) (text : List UInt8) :
    readLiteral (quote :: d :: text) = some ([], d :: text) := by
  rw [readLiteral.eq_def]
  simp [hd]

@[simp] theorem readLiteral_escape (d : UInt8) (text : List UInt8) :
    readLiteral (backslash :: d :: text) =
      (readLiteral text).map (readBefore (unescape d)) := by
  rw [readLiteral.eq_def]
  rfl

theorem readLiteral_plain {c : UInt8} (hquote : c ≠ quote) (hbackslash : c ≠ backslash)
    (text : List UInt8) :
    readLiteral (c :: text) = (readLiteral text).map (readBefore [c]) := by
  rw [readLiteral.eq_def]
  simp [hquote, hbackslash]

theorem literalValue_plain {c : UInt8} (hquote : c ≠ quote) (hbackslash : c ≠ backslash)
    (text : List UInt8) : literalValue (c :: text) = (literalValue text).map ([c] ++ ·) := by
  rw [literalValue.eq_def]
  simp [hquote, hbackslash]

/-- **A literal reads back** as the string that it denotes, when no quote follows it. -/
theorem readLiteral_append {text value rest : List UInt8} (h : literalValue text = some value)
    (hrest : rest.head? ≠ some quote) :
    readLiteral (text ++ quote :: rest) = some (value, rest) := by
  -- on the text, by the cases of `literalValue`: where the text ends, the closing quote is read
  induction text using literalValue.induct generalizing value with
  | case1 =>
    obtain rfl := Option.some.inj h
    cases rest with
    | nil => rfl
    | cons d rest =>
      apply readLiteral_close
      rintro rfl
      exact hrest rfl
  | case2 => simp [literalValue] at h
  | case3 text ih =>
    obtain ⟨v, hv, rfl⟩ := Option.map_eq_some_iff.mp (show (literalValue text).map _ = _ from h)
    rw [List.cons_append, List.cons_append, readLiteral_quote, ih hv]
    rfl
  | case4 d text hd =>
    -- a lone quote inside the text is no literal
    rw [literalValue.eq_def] at h
    simp [hd] at h
  | case5 => simp [literalValue] at h
  | case6 d text _ ih =>
    obtain ⟨v, hv, rfl⟩ := Option.map_eq_some_iff.mp (show (literalValue text).map _ = _ from h)
    rw [List.cons_append, List.cons_append, readLiteral_escape, ih hv]
    rfl
  | case7 c text hquote hbackslash ih =>
    rw [literalValue_plain hquote hbackslash] at h
    obtain ⟨v, hv, rfl⟩ := Option.map_eq_some_iff.mp h
    rw [List.cons_append, readLiteral_plain hquote hbackslash, ih hv]
    rfl

/-- **A byte string without quotes and backslashes** denotes itself. -/
theorem literalValue_of_plain {text : List UInt8} (hquote : quote ∉ text)
    (hbackslash : backslash ∉ text) : literalValue text = some text := by
  induction text with
  | nil => rfl
  | cons c text ih =>
    rw [List.mem_cons, not_or] at hquote hbackslash
    rw [literalValue_plain (Ne.symm hquote.1) (Ne.symm hbackslash.1), ih hquote.2 hbackslash.2]
    rfl

end DedupServer.Foundations
