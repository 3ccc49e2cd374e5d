import DedupServer.Model.Util

/-! # The textual form of a hash

`Util::convert_array_hash_to_string` as the loop that it is: two characters a byte are stored in `strHash`, a
NUL is stored behind them, and the result is the C string at its start (`hashString`). It is the function that
the rest of the development uses (`hashString_eq`): 64 digits from which the array can be read back
(`hash_text_lossless`). -/

namespace DedupServer

open Foundations

/-- An array of `n` bytes. -/
abbrev ByteArrayOf (n : ℕ) := {bs : Bytes // bs.length = n}

/-- The variables `strHash` and `i`. -/
structure HashString where
  strHash : Bytes
  i : ℕ

/-- `strHash[i++] = c`. -/
def HashString.put (st : HashString) (c : UInt8) : HashString := ⟨st.strHash.set st.i c, st.i + 1⟩

/-- The character of a nibble, by its range. -/
def HashString.putDigit (st : HashString) (tmp : UInt8) : HashString :=
  if tmp ≤ 9 then st.put (tmp + 48) else st.put (tmp - 10 + 97)

/-- One pass of the loop: the high nibble of `hash[j]`, then the low one. -/
def HashString.putByte (st : HashString) (b : UInt8) : HashString :=
  (st.putDigit ((b &&& 0xf0) >>> 4)).putDigit (b &&& 0x0f)

/-- **`Util::convert_array_hash_to_string`**, when `strHash` contains `junk` before it is written. -/
def hashString (junk : ByteArrayOf 65) (hash : ByteArrayOf HASHSIZE) : Bytes :=
  let st := hash.1.foldl HashString.putByte ⟨junk.1, 0⟩
  (st.strHash.set st.i 0).takeWhile (· ≠ 0)

/-! ## The loop -/

/-- Storing a digit stores the character of the nibble. -/
theorem HashString.putDigit_eq (st : HashString) (tmp : UInt8) :
    st.putDigit tmp = st.put (hexDigit tmp) := by
  unfold putDigit hexDigit
  split <;> rfl

/-- One pass stores both characters of the byte. -/
theorem HashString.putByte_eq (st : HashString) (b : UInt8) :
    st.putByte b = (hexByte b).foldl put st := by
  rw [putByte, putDigit_eq, putDigit_eq]
  rfl

/-- **Storing characters** one after another: they replace as many. -/
theorem HashString.foldl_put (cs : Bytes) {before old after : Bytes} (h : old.length = cs.length) :
    cs.foldl put ⟨before ++ old ++ after, before.length⟩ =
      ⟨before ++ cs ++ after, before.length + cs.length⟩ := by
  induction cs generalizing before old with
  | nil =>
    obtain rfl := List.length_eq_zero_iff.mp h
    rfl
  | cons c cs ih =>
    obtain ⟨o, old, rfl⟩ := List.exists_cons_of_length_eq_add_one h
    have hput : put ⟨before ++ o :: old ++ after, before.length⟩ c =
        ⟨(before ++ [c]) ++ old ++ after, (before ++ [c]).length⟩ := by
      rw [put, List.append_assoc, List.set_append_right _ _ le_rfl, Nat.sub_self]
      simp
    rw [List.foldl_cons, hput, ih (Nat.succ.inj h)]
    simp [Nat.add_assoc, Nat.add_comm 1]

/-- **The loop stores the digits of all bytes**, in front of what it leaves. -/
theorem HashString.foldl_putByte (bs : Bytes) {old : Bytes} (after : Bytes) (h : old.length = 2 * bs.length) :
    bs.foldl putByte ⟨old ++ after, 0⟩ = ⟨bs.flatMap hexByte ++ after, 2 * bs.length⟩ := by
  have hchars : ∀ st, bs.foldl putByte st = (bs.flatMap hexByte).foldl put st := by
    intro st
    rw [List.foldl_flatMap]
    congr 1
    funext st b
    exact st.putByte_eq b
  have hlen := length_flatMap_hexByte bs
  have hloop := @foldl_put (bs.flatMap hexByte) [] old after (h.trans hlen.symm)
  rw [List.nil_append, List.nil_append, hlen, List.length_nil, Nat.zero_add] at hloop
  rw [hchars, hloop]

/-- **The loop computes the text** that the rest of the development uses, whatever `strHash` contained. -/
theorem hashString_eq (junk : ByteArrayOf 65) (hash : ByteArrayOf HASHSIZE) :
    hashString junk hash = convertArrayHashToString hash.1 := by
  have hhash : hash.1.length = HASHSIZE := hash.2
  have htext : (hash.1.flatMap hexByte).length = 2 * HASHSIZE := by
    rw [length_flatMap_hexByte, hhash]
  -- the NUL replaces the last character of `strHash`
  obtain ⟨last, hlast⟩ : ∃ last, junk.1.drop 64 = [last] := by
    apply List.length_eq_one_iff.mp
    rw [List.length_drop, junk.2]
  have hold : (junk.1.take 64).length = 2 * hash.1.length := by
    rw [List.length_take, junk.2, hhash]
    rfl
  have hloop := HashString.foldl_putByte hash.1 [last] hold
  rw [← hlast, List.take_append_drop, hlast, hhash] at hloop
  have hdigits : ∀ c ∈ hash.1.flatMap hexByte, decide (c ≠ 0) = true := fun c hc =>
    decide_eq_true (isHexDigit_of_mem_flatMap hc).ne_zero
  have hnul : (hash.1.flatMap hexByte ++ [last]).set (2 * HASHSIZE) 0 =
      hash.1.flatMap hexByte ++ [0] := by
    rw [List.set_append_right _ _ htext.le, htext, Nat.sub_self]
    rfl
  rw [hashString, hloop, convertArrayHashToString, List.take_of_length_le hhash.le]
  dsimp only
  rw [hnul, List.takeWhile_append_of_pos hdigits]
  simp

/-- **The textual hash loses nothing.** For every array and whatever `strHash` contained: the text has 64
characters, all of them digits, and reads back as the array. So different arrays have different texts, the
keys of the index, and different recipe files. -/
theorem hash_text_lossless (hash : ByteArrayOf HASHSIZE) (junk : ByteArrayOf 65) :
    (hashString junk hash).length = 64 ∧
    (∀ c ∈ hashString junk hash, IsHexDigit c) ∧
    unhexString (hashString junk hash) = hash.1 ∧
    ∀ (hash' : ByteArrayOf HASHSIZE) (junk' : ByteArrayOf 65), hash' ≠ hash →
      hashString junk' hash' ≠ hashString junk hash ∧
      ∀ dir : Bytes, dir ++ hashString junk' hash' ≠ dir ++ hashString junk hash := by
  have hread : ∀ (hash : ByteArrayOf HASHSIZE) (junk : ByteArrayOf 65),
      hashString junk hash = hash.1.flatMap hexByte := by
    intro hash junk
    rw [hashString_eq, convertArrayHashToString, List.take_of_length_le hash.2.le]
  rw [hread]
  refine ⟨?_, fun c hc => isHexDigit_of_mem_flatMap hc, unhexString_flatMap_hexByte _, ?_⟩
  · rw [length_flatMap_hexByte, hash.2]
    rfl
  · intro hash' junk' hne
    have htexts : hashString junk' hash' ≠ hash.1.flatMap hexByte := by
      intro heq
      have hback := congrArg unhexString heq
      rw [hread, unhexString_flatMap_hexByte, unhexString_flatMap_hexByte] at hback
      exact hne (Subtype.ext hback)
    exact ⟨htexts, fun dir heq => htexts (List.append_cancel_left heq)⟩

end DedupServer
