import DedupServer.Model.Syscalls

/-! # Failed system calls

The payload loops of `send_data` and `receive_data` add the result of every call to a `size_t`, also the
`-1` of a call that has failed. They work as meant exactly as long as every call is survived
(`failures_survived_iff`). -/

namespace DedupServer

open Foundations

/-- **`send_data` works as meant**: at any time the bytes that have been accepted are the first ones of the
data, without gap or repetition, and it returns only when all of them have been accepted. -/
def SendSound (p : Payload) (results : List Outcome) : Prop :=
  ∀ before, before <+: results →
    (sendPayload p before).Sound (fun t => t.positions.length = p.data.length) p.data.length

/-- **`receive_data` works as meant**: at any time the bytes of the stream have been stored in order, at
consecutive positions from 0, and it returns only when `receivedSize` is `len`. -/
def ReceiveSound (len : UInt64) (results : List Outcome) : Prop :=
  ∀ before, before <+: results →
    (receivePayload len before).Sound (fun t => t.total = len.toNat) len.toNat

/-- **When failures do no damage.** For every payload and every finite sequence of results, `-1` at any
position included: `send_data` works as meant all along if and only if every call is survived, that is, as
long as not everything has been moved, no call fails when there have been as many failures as bytes moved
before the first of them, and no call moves anything after a failure. The same holds of `receive_data`; but
if `len` is the largest `size_t`, it also survives the failure that makes its total wrap around, since the
total is then `len`. -/
theorem failures_survived_iff (p : Payload) (len : UInt64) (results : List Outcome) :
    (SendSound p results ↔
      ∀ before o, before ++ [o] <+: results → Survives False p.data.length before o) ∧
    (ReceiveSound len results ↔
      ∀ before o, before ++ [o] <+: results →
        Survives (len.toNat = 2 ^ 64 - 1) len.toNat before o) := by
  constructor
  · have hwrap : ∀ m < p.data.length,
        (⟨2 ^ 64 - 1, List.range m⟩ : Transfer).positions.length = p.data.length ↔ False := by
      intro m hm
      rw [List.length_range, iff_false]
      exact hm.ne
    exact sound_iff_survives (fun t => t.positions.length = p.data.length) p.size_lt
      List.length_range hwrap results
  · have hwrap : ∀ m < len.toNat,
        (⟨2 ^ 64 - 1, List.range m⟩ : Transfer).total = len.toNat ↔ len.toNat = 2 ^ 64 - 1 :=
      fun m _ => eq_comm
    have hfull : (⟨len.toNat, List.range len.toNat⟩ : Transfer).total = len.toNat := rfl
    exact sound_iff_survives (fun t => t.total = len.toNat) len.toNat_lt hfull hwrap results

/-- **A `write` that fails at once** makes `send_data` return with nothing sent; one that fails later makes
it send a byte twice; and a `read` that fails at once makes `receive_data` return with a size that is not that
of the message. -/
theorem failures_damage :
    ¬ SendSound ⟨[7], by decide⟩ [.failed] ∧
      ¬ SendSound ⟨[7, 8], by decide⟩ [.moved 1, .failed, .moved 1] ∧
      ¬ ReceiveSound 1 [.failed] := by
  refine ⟨fun h => ?_, fun h => ?_, fun h => ?_⟩
  · exact absurd ((h _ List.prefix_rfl).ended (by decide)) (by decide)
  · exact absurd (h _ List.prefix_rfl).inOrder (by decide)
  · exact absurd ((h _ List.prefix_rfl).ended (by decide)) (by decide)

end DedupServer
