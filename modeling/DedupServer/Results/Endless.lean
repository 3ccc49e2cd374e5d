import DedupServer.Model.Syscalls

/-! # Receiving from a peer that has gone

Once the peer has closed its end, `read` returns 0, which the loop of `receive_data` adds to its total for
ever. The call returns if and only if everything that was announced had been sent
(`receive_returns_iff`). -/

namespace DedupServer

open Foundations

variable {cuts : Cuts} {junk : UInt64} {stream data : Bytes} {m : ℕ}

/-- **When `receive_data` ends.** For every stream that the peer has sent before closing, every fragmentation
of it, and every content of the uninitialised `len`: the call returns if and only if, behind the bytes that
the read of the length has returned, there are as many bytes as these bytes announce. -/
theorem receive_returns_iff (cuts : Cuts) (junk : UInt64) (stream : Bytes) :
    ReceiveReturns cuts junk stream ↔
      cuts.announced junk stream ≤ stream.length - cuts.lenRead stream := by
  rw [← List.length_drop]
  constructor
  · rintro ⟨n, hn⟩
    have hconserves := receivePasses_conserves cuts.cut (cuts.announced junk stream)
      (stream.drop (cuts.lenRead stream)) n
    omega
  · intro hle
    have hprogress := receivePasses_progress cuts.cut_pos hle (cuts.announced junk stream)
    rw [Nat.min_self] at hprogress
    exact ⟨_, hprogress⟩

/-- **A message that is cut off in its payload** is never received: its length has been read whole, and not
all bytes follow. -/
theorem endless_of_truncated (hsize : data.length < 2 ^ 64) (hwhole : sizeofSize ≤ cuts.lenCut)
    (hlow : sizeofSize ≤ m) (hhigh : m < sizeofSize + data.length) :
    ¬ ReceiveReturns cuts junk ((leBytes sizeofSize data.length ++ data).take m) := by
  have hlen := length_leBytes sizeofSize data.length
  have htotal : ((leBytes sizeofSize data.length ++ data).take m).length = m := by
    rw [List.length_take, List.length_append, hlen]
    omega
  have hread : cuts.lenRead ((leBytes sizeofSize data.length ++ data).take m) = sizeofSize := by
    rw [Cuts.lenRead, htotal]
    omega
  have hannounced : cuts.announced junk ((leBytes sizeofSize data.length ++ data).take m)
      = data.length := by
    rw [Cuts.announced, hread, List.take_take, Nat.min_eq_left hlow, List.take_left' hlen]
    exact len_of_whole junk hsize
  rintro ⟨n, hn⟩
  rw [hannounced, hread] at hn
  have hconserves := receivePasses_conserves cuts.cut data.length
    (((leBytes sizeofSize data.length ++ data).take m).drop sizeofSize) n
  rw [List.length_drop, htotal] at hconserves
  omega

/-- Reads that return everything there is. -/
def Sample.whole : Cuts := ⟨8, by decide, fun _ => 8, fun _ => by decide⟩

/-- **The peer announces one byte and closes**: `receive_data` does not end. -/
theorem receive_endless : ¬ ReceiveReturns Sample.whole 0 [1, 0, 0, 0, 0, 0, 0, 0] := by
  rintro ⟨n, hn⟩
  have hconserves := receivePasses_conserves Sample.whole.cut 1 [] n
  have hannounced : Sample.whole.announced 0 [1, 0, 0, 0, 0, 0, 0, 0] = 1 := by decide
  rw [hannounced] at hn
  have hn' : 1 ≤ (receivePasses Sample.whole.cut 1 [] n).receivedSize := hn
  rw [List.length_nil] at hconserves
  omega

end DedupServer
