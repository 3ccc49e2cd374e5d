import DedupServer.Foundations.Unchecked
import DedupServer.Model.Socket

/-! # The payload loops, one system call at a time

`Model.Socket` follows the bytes of calls that succeed. Here the loops of `Util::send_data` and
`Util::receive_data` are taken call by call, with results that they do not look at: `-1`, which their
`size_t` counters take for the largest number, and the `0` that `read` returns for ever once the peer
has closed its end. -/

namespace DedupServer

open Foundations

/-! ## Calls that fail -/

/-- A payload, with its `size_t`. -/
structure Payload where
  data : Bytes
  size_lt : data.length < 2 ^ 64

/-- **The loop of `send_data`** after some calls of `write`: `totalSentSize`, and the positions in the data
of the bytes that have been accepted. -/
def sendPayload (p : Payload) (results : List Outcome) : Transfer :=
  Transfer.run (2 ^ 64) p.data.length results

/-- **The loop of `receive_data`** after some calls of `read`: `receivedSize`, and the positions in the
buffer at which the bytes of the stream have been stored. -/
def receivePayload (len : UInt64) (results : List Outcome) : Transfer :=
  Transfer.run (2 ^ 64) len.toNat results

/-! ## A peer that has closed its end -/

/-- How much each `read` returns at most: the first, of the length, and those of the payload. -/
structure Cuts where
  lenCut : ℕ
  len_pos : 1 ≤ lenCut
  cut : ℕ → ℕ
  cut_pos : ∀ i, 1 ≤ cut i

/-- The payload loop of `receive_data`: `receivedSize` and what is left of the stream. -/
structure Receiving where
  receivedSize : ℕ
  stream : Bytes

/-- One `read` of the payload loop, of at most `cut` bytes: none from a stream that is exhausted. -/
def Receiving.read (len cut : ℕ) (r : Receiving) : Receiving :=
  let readSize := min cut (min (len - r.receivedSize) r.stream.length)
  ⟨r.receivedSize + readSize, r.stream.drop readSize⟩

/-- The payload loop after `n` passes. -/
def receivePasses (cut : ℕ → ℕ) (len : ℕ) (stream : Bytes) : ℕ → Receiving
  | 0 => ⟨0, stream⟩
  | n + 1 =>
    let r := receivePasses cut len stream n
    if r.receivedSize < len then r.read len (cut n) else r

/-- How many bytes the `read` of the length returns. -/
def Cuts.lenRead (cuts : Cuts) (stream : Bytes) : ℕ := min cuts.lenCut (min sizeofSize stream.length)

/-- **The number that stands for the length**: the bytes that have been read, and `junk` in the place of those
that have not. -/
def Cuts.announced (cuts : Cuts) (junk : UInt64) (stream : Bytes) : ℕ :=
  ofLeBytes (overwrite (leBytes sizeofSize junk.toNat) 0 (stream.take (cuts.lenRead stream)))

/-- **`receive_data` returns** on what a peer has sent before it closed its end. -/
def ReceiveReturns (cuts : Cuts) (junk : UInt64) (stream : Bytes) : Prop :=
  ∃ n, cuts.announced junk stream ≤ (receivePasses cuts.cut (cuts.announced junk stream)
    (stream.drop (cuts.lenRead stream)) n).receivedSize

variable {cut : ℕ → ℕ} {len n : ℕ} {stream : Bytes}

/-- **No pass makes up bytes**: what has been received and what is left are what there was. -/
theorem receivePasses_conserves (cut : ℕ → ℕ) (len : ℕ) (stream : Bytes) (n : ℕ) :
    (receivePasses cut len stream n).receivedSize + (receivePasses cut len stream n).stream.length
      = stream.length := by
  induction n with
  | zero => exact Nat.zero_add _
  | succ n ih =>
    rw [receivePasses]
    split
    · simp only [Receiving.read, List.length_drop]
      omega
    · exact ih

/-- **Every pass makes progress** as long as there is enough left. -/
theorem receivePasses_progress (hcut : ∀ i, 1 ≤ cut i) (hlen : len ≤ stream.length) (n : ℕ) :
    min n len ≤ (receivePasses cut len stream n).receivedSize := by
  induction n with
  | zero => exact (Nat.min_le_left 0 len).trans (Nat.zero_le _)
  | succ n ih =>
    have hconserves := receivePasses_conserves cut len stream n
    have hpos := hcut n
    rw [receivePasses]
    split
    · simp only [Receiving.read]
      omega
    · omega

end DedupServer
