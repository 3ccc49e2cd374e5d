import DedupServer.Model.Define

/-! # Hashes, names and the random generator

The helpers of `Util.h` the protocol uses, and the two things the program takes from libraries:
the SHA-256 digest of OpenSSL and the UUIDs of Boost. Both are parameters (`Env`). That a digest
has no collision on the strings it is given, and that the ids drawn are all different, are
assumptions about the values that occur (`CollisionFreeOn`, `FreshUpTo`): neither holds of all
inputs of such functions.

The textual form of a hash is injective (`convertArrayHashToString_injective`), so nothing is
lost by using it as a map key and as a file name. -/

namespace DedupServer

open Foundations

/-- **What the program takes from its libraries.** -/
structure Env where
  /-- `EVP_Digest` with `HASHTYPE`. -/
  hash : Bytes → Bytes
  /-- A digest has `HASHSIZE` bytes. -/
  hash_length : ∀ data, (hash data).length = HASHSIZE
  /-- The `k`-th id `boost::uuids::random_generator` draws, as text. -/
  uuid : Nat → ContainerID

/-- `Util::generate_hash`. -/
def Env.generateHash (env : Env) (data : Bytes) : Bytes := env.hash data

@[simp] theorem Env.length_generateHash (env : Env) (data : Bytes) :
    (env.generateHash data).length = HASHSIZE := env.hash_length data

/-- No two different strings of the set have the same hash. -/
def Env.CollisionFreeOn (env : Env) (S : Set Bytes) : Prop := S.InjOn env.generateHash

/-- The first `n` ids drawn are all different. -/
def Env.FreshUpTo (env : Env) (n : Nat) : Prop := (Set.Iio n).InjOn env.uuid

theorem Env.FreshUpTo.mono {env : Env} {m n : Nat} (h : env.FreshUpTo n) (hmn : m ≤ n) :
    env.FreshUpTo m :=
  Set.InjOn.mono (fun _ hk => lt_of_lt_of_le hk hmn) h

/-! ## The textual form of a hash -/

/-- The character of a nibble, `'0'` to `'9'` or `'a'` to `'f'`. -/
def hexDigit (tmp : UInt8) : UInt8 := if tmp ≤ 9 then tmp + 48 else tmp - 10 + 97

/-- The two characters of a byte. -/
def hexByte (b : UInt8) : Bytes := [hexDigit ((b &&& 0xf0) >>> 4), hexDigit (b &&& 0x0f)]

/-- `Util::convert_array_hash_to_string`. -/
def convertArrayHashToString (hash : Bytes) : Bytes := (hash.take HASHSIZE).flatMap hexByte

/-- The nibble a character stands for. -/
def unhexDigit (c : UInt8) : UInt8 := if c ≤ 57 then c - 48 else c - 97 + 10

/-- The byte two characters stand for. -/
def unhexByte (hi lo : UInt8) : UInt8 := (unhexDigit hi <<< 4) ||| unhexDigit lo

/-- Decoding the characters of a byte gives the byte. -/
theorem unhexByte_hexDigit (b : UInt8) :
    unhexByte (hexDigit ((b &&& 0xf0) >>> 4)) (hexDigit (b &&& 0x0f)) = b := by
  have h : ∀ n : Fin 256, unhexByte (hexDigit ((UInt8.ofFin n &&& 0xf0) >>> 4))
      (hexDigit (UInt8.ofFin n &&& 0x0f)) = UInt8.ofFin n := by
    decide +kernel
  exact h b.toFin

/-- Reading a text two digits at a time. -/
def unhexString : Bytes → Bytes
  | hi :: lo :: rest => unhexByte hi lo :: unhexString rest
  | _ => []

/-- **A text reads back.** -/
theorem unhexString_flatMap_hexByte (bs : Bytes) : unhexString (bs.flatMap hexByte) = bs := by
  induction bs with
  | nil => rfl
  | cons b bs ih =>
    rw [List.flatMap_cons, hexByte, List.cons_append, List.cons_append, List.nil_append, unhexString,
      unhexByte_hexDigit, ih]

/-- Different byte strings have different texts. -/
theorem flatMap_hexByte_injective : Function.Injective (fun bs : Bytes => bs.flatMap hexByte) :=
  Function.LeftInverse.injective unhexString_flatMap_hexByte

/-- **Different hashes have different texts.** -/
theorem convertArrayHashToString_injective {h h' : Bytes} (hl : h.length = HASHSIZE)
    (hl' : h'.length = HASHSIZE)
    (heq : convertArrayHashToString h = convertArrayHashToString h') : h = h' := by
  simp only [convertArrayHashToString] at heq
  rw [← hl, List.take_length, hl, ← hl', List.take_length] at heq
  exact flatMap_hexByte_injective heq

/-- The digits of a text: `'0'` to `'9'` and `'a'` to `'f'`. -/
def IsHexDigit (c : UInt8) : Prop := (48 ≤ c ∧ c ≤ 57) ∨ (97 ≤ c ∧ c ≤ 102)

instance (c : UInt8) : Decidable (IsHexDigit c) := inferInstanceAs (Decidable (_ ∨ _))

/-- Both characters of a byte are digits. -/
theorem isHexDigit_of_mem_hexByte {b c : UInt8} (hc : c ∈ hexByte b) : IsHexDigit c := by
  have h : ∀ n : Fin 256, ∀ c ∈ hexByte (UInt8.ofFin n), IsHexDigit c := by
    decide +kernel
  exact h b.toFin c hc

/-- A digit is not the NUL. -/
theorem IsHexDigit.ne_zero {c : UInt8} (h : IsHexDigit c) : c ≠ 0 := by
  rintro rfl
  revert h
  decide

/-- All characters of a text are digits. -/
theorem isHexDigit_of_mem_flatMap {bs : Bytes} {c : UInt8} (hc : c ∈ bs.flatMap hexByte) :
    IsHexDigit c := by
  obtain ⟨b, -, hb⟩ := List.mem_flatMap.mp hc
  exact isHexDigit_of_mem_hexByte hb

/-- A byte has two characters. -/
theorem length_flatMap_hexByte (bs : Bytes) : (bs.flatMap hexByte).length = 2 * bs.length := by
  induction bs with
  | nil => rfl
  | cons b bs ih =>
    rw [List.flatMap_cons, List.length_append, ih, List.length_cons, hexByte]
    simp only [List.length_cons, List.length_nil]
    omega

/-! ## Names -/

/-- `std::to_string(int)`. -/
def toDecimal (n : Int) : Bytes :=
  (if n < 0 then [45] else []) ++ (Nat.toDigits 10 n.natAbs).map fun c => UInt8.ofNat c.toNat

/-- `Util::get_file_name`: what follows the last `'/'`. -/
def getFileName (filePath : Bytes) : Bytes := (filePath.reverse.takeWhile (· ≠ 47)).reverse

/-- The `recipeName` of `receive_file` and `send_file`: the client id followed by the file
name. -/
def recipeName (client_id : Int) (fileName : Bytes) : Bytes := toDecimal client_id ++ fileName

/-- `m_recipeNameHash`, the name of the recipe file. -/
def Env.recipeNameHash (env : Env) (client_id : Int) (fileName : Bytes) : Bytes :=
  convertArrayHashToString (env.generateHash (recipeName client_id fileName))

end DedupServer
