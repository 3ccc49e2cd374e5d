import DedupServer.Foundations.Transfer
import DedupServer.Model.Define

/-! # Messages on a socket

`Util::send_data` and `Util::receive_data` on a stream of bytes. The payload is moved in a loop; the
eight bytes of its length are moved by a single `write` and a single `read`, whose results are
ignored. How the kernel cuts the transfers is an argument (`Fragments`). All writes are taken to come
first: a `read` that comes earlier only finds fewer bytes, and may return fewer anyway. -/

namespace DedupServer

open Foundations

/-- `sizeof(size_t)`. -/
def sizeofSize : ℕ := 8

/-- **How the kernel cuts the transfers of one call**: the number of bytes of the length that are
moved, and the sizes of the pieces of the payload. What is not listed is moved in one piece. -/
structure Fragments where
  lenSize : ℕ
  len_pos : 1 ≤ lenSize
  len_le : lenSize ≤ sizeofSize
  pieces : List ℕ
  pieces_pos : ∀ k ∈ pieces, 1 ≤ k

/-- `Util::send_data`: the bytes that get onto the stream. -/
def sendData (f : Fragments) (data : Bytes) : Bytes :=
  (leBytes sizeofSize data.length).take f.lenSize ++ pushAll f.pieces data

/-- `Util::receive_data`: the payload and the rest of the stream, or nothing when the call waits for
ever. The variable `len` is not initialised: it contains `junk` where the `read` does not write. -/
def receiveData (f : Fragments) (junk : UInt64) (stream : Bytes) : Option (Bytes × Bytes) :=
  if stream = [] then none
  else
    let readSize := min f.lenSize stream.length
    let len := ofLeBytes (overwrite (leBytes sizeofSize junk.toNat) 0 (stream.take readSize))
    pullAll f.pieces len (stream.drop readSize)

/-- A `read` that has got all bytes of the length gives the length. -/
theorem len_of_whole (junk : UInt64) {n : ℕ} (hn : n < 2 ^ 64) :
    ofLeBytes (overwrite (leBytes sizeofSize junk.toNat) 0 (leBytes sizeofSize n)) = n := by
  have hdrop : (leBytes sizeofSize junk.toNat).drop (leBytes sizeofSize n).length = [] := by
    rw [length_leBytes, List.drop_eq_nil_iff, length_leBytes]
  rw [overwrite, List.take_zero, List.nil_append, Nat.zero_add, hdrop, List.append_nil,
    ofLeBytes_leBytes, sizeofSize]
  exact Nat.mod_eq_of_lt hn

/-- One payload, and how the kernel cuts its transfer on both sides. -/
structure Exchange where
  data : Bytes
  /-- The size is a `size_t`. -/
  size_lt : data.length < 2 ^ 64
  sent : Fragments
  received : Fragments

/-- The bytes on the stream after all payloads have been sent. -/
def sendAll (es : List Exchange) : Bytes := es.flatMap fun e => sendData e.sent e.data

/-- Calls of `receive_data` one after another, with what each returns and what it leaves on the
stream; `junk n` is what the `n`-th call finds in its `len`. -/
def receiveAll (junk : ℕ → UInt64) : List Exchange → Bytes → Option (List (Bytes × Bytes))
  | [], _ => some []
  | e :: es, stream =>
    (receiveData e.received (junk 0) stream).bind fun r =>
      (receiveAll (fun n => junk (n + 1)) es r.2).map (r :: ·)

end DedupServer
