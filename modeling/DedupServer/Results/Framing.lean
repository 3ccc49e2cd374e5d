import DedupServer.Model.Socket

/-! # Framing and fragmentation

`send_data` and `receive_data` move the payload in loops, which finish whatever pieces the kernel cuts
it into. The length in front of it is moved by one `write` and one `read`: the payloads get through
unchanged, with the stream at a message boundary after each, if and only if each of these moves all
eight bytes (`framing_iff`). -/

namespace DedupServer

open Foundations

variable {f g : Fragments} {data stream rest : Bytes} {es : List Exchange} {junk : ℕ → UInt64}

/-- What each call has to return, and to leave on the stream. -/
def boundaries : List Exchange → List (Bytes × Bytes)
  | [] => []
  | e :: es => (e.data, sendAll es) :: boundaries es

/-- **The payloads get through**: each call returns the payload that was sent, and the stream is at
the boundary to the next message. -/
def Framed (junk : ℕ → UInt64) (es : List Exchange) : Prop :=
  receiveAll junk es (sendAll es) = some (boundaries es)

instance (junk : ℕ → UInt64) (es : List Exchange) : Decidable (Framed junk es) :=
  inferInstanceAs (Decidable (_ = _))

/-! ## The value of `len` -/

/-- **A short `read` leaves `len` open**: no value fits for all contents of the uninitialised
variable. -/
theorem exists_len_ne {taken : Bytes} (hshort : taken.length < sizeofSize) (n : ℕ) :
    ∃ junk : UInt64, ofLeBytes (overwrite (leBytes sizeofSize junk.toNat) 0 taken) ≠ n := by
  have hval : ∀ junk : UInt64, ofLeBytes (overwrite (leBytes sizeofSize junk.toNat) 0 taken)
      = ofLeBytes taken
        + 256 ^ taken.length * ofLeBytes ((leBytes sizeofSize junk.toNat).drop taken.length) := by
    intro junk
    rw [overwrite, List.take_zero, List.nil_append, Nat.zero_add, ofLeBytes_append]
  -- all bits zero and all bits one
  have hzero : ∀ k < sizeofSize, ofLeBytes ((leBytes sizeofSize (0 : UInt64).toNat).drop k) = 0 := by
    decide
  have hones : ∀ k < sizeofSize,
      ofLeBytes ((leBytes sizeofSize (0xffffffffffffffff : UInt64).toNat).drop k) ≠ 0 := by
    decide
  by_contra! hall
  have h0 := hall 0
  have h1 := hall 0xffffffffffffffff
  rw [hval, hzero _ hshort, Nat.mul_zero, Nat.add_zero] at h0
  rw [hval, ← h0, Nat.add_eq_left, Nat.mul_eq_zero] at h1
  rcases h1 with hpow | hones'
  · exact pow_ne_zero _ (by decide) hpow
  · exact hones _ hshort hones'

/-! ## One call -/

/-- **Both lengths are moved whole**: the call returns the payload, and nothing more is read. -/
theorem receiveData_of_whole (hsize : data.length < 2 ^ 64) (hsent : f.lenSize = sizeofSize)
    (hreceived : g.lenSize = sizeofSize) (junk : UInt64) (rest : Bytes) :
    receiveData g junk (sendData f data ++ rest) = some (data, rest) := by
  have hwritten : sendData f data = leBytes sizeofSize data.length ++ data := by
    rw [sendData, hsent, pushAll_eq, List.take_of_length_le (by rw [length_leBytes])]
  have hlen := length_leBytes sizeofSize data.length
  have hne : leBytes sizeofSize data.length ++ data ++ rest ≠ [] := by
    intro hnil
    rw [List.append_assoc, List.append_eq_nil_iff] at hnil
    rw [hnil.1] at hlen
    exact absurd hlen (by decide)
  have hread : min g.lenSize (leBytes sizeofSize data.length ++ data ++ rest).length
      = sizeofSize := by
    rw [hreceived, List.length_append, List.length_append, hlen]
    omega
  rw [hwritten, receiveData, if_neg hne]
  simp only [hread, pullAll_eq]
  rw [List.append_assoc, List.take_left' hlen, List.drop_left' hlen, len_of_whole junk hsize,
    if_pos (by rw [List.length_append]; omega), List.take_left, List.drop_left]

/-- **If the call is right for every content of `len`**, both lengths have been moved whole. -/
theorem whole_of_receiveData
    (h : ∀ junk, receiveData g junk (sendData f data ++ rest) = some (data, rest)) :
    f.lenSize = sizeofSize ∧ g.lenSize = sizeofSize := by
  have hwritten : (sendData f data ++ rest).length = f.lenSize + data.length + rest.length := by
    have := f.len_le
    rw [sendData, pushAll_eq, List.length_append, List.length_append, List.length_take,
      length_leBytes]
    omega
  -- the read of the length takes the same bytes, whatever the uninitialised variable held
  obtain ⟨n, hn⟩ : ∃ n, n = min g.lenSize (sendData f data ++ rest).length := ⟨_, rfl⟩
  have hcall : ∀ junk : UInt64,
      ofLeBytes (overwrite (leBytes sizeofSize junk.toNat) 0
        ((sendData f data ++ rest).take n)) = data.length ∧ n = f.lenSize := by
    intro junk
    have hjunk := h junk
    rw [receiveData] at hjunk
    split at hjunk
    · cases hjunk
    · simp only [← hn, pullAll_eq] at hjunk
      split at hjunk
      · rename_i hle
        obtain ⟨htake, hdrop⟩ := Prod.mk.inj (Option.some.inj hjunk)
        have htake' := congrArg List.length htake
        have hdrop' := congrArg List.length hdrop
        rw [List.length_take, min_eq_left hle] at htake'
        rw [List.length_drop, List.length_drop, hwritten, htake'] at hdrop'
        rw [List.length_drop, hwritten, htake'] at hle
        exact ⟨htake', by omega⟩
      · cases hjunk
  -- a shorter read leaves bytes of that variable in the length, for some value of them
  have hwhole : sizeofSize ≤ n := by
    by_contra hshort
    have hlen : ((sendData f data ++ rest).take n).length < sizeofSize := by
      rw [List.length_take]
      omega
    obtain ⟨junk, hjunk⟩ := exists_len_ne hlen data.length
    exact hjunk (hcall junk).1
  have hf := (hcall 0).2
  have hfle := f.len_le
  have hgle := g.len_le
  omega

/-! ## All calls -/

/-- **When framing survives fragmentation.** Whatever payloads are sent, and however the kernel cuts
them: the calls of `receive_data` return exactly these payloads, with the stream at a message
boundary after each, whatever `len` contains before it is read, if and only if every `write` and
every `read` of a length moves all of its bytes. -/
theorem framing_iff (es : List Exchange) :
    (∀ junk, Framed junk es) ↔
      ∀ e ∈ es, e.sent.lenSize = sizeofSize ∧ e.received.lenSize = sizeofSize := by
  induction es with
  | nil => simp [Framed, receiveAll, boundaries]
  | cons e es ih =>
    have hcons : sendAll (e :: es) = sendData e.sent e.data ++ sendAll es := List.flatMap_cons
    -- one message first, then the rest from where it ended
    have hcall : ∀ junk, Framed junk (e :: es) ↔
        receiveData e.received (junk 0) (sendData e.sent e.data ++ sendAll es)
          = some (e.data, sendAll es) ∧ Framed (fun n => junk (n + 1)) es := by
      intro junk
      rw [Framed, hcons, receiveAll, boundaries]
      constructor
      · intro h
        obtain ⟨r, hr, hrest⟩ := Option.bind_eq_some_iff.mp h
        obtain ⟨rs, hrs, heq⟩ := Option.map_eq_some_iff.mp hrest
        obtain ⟨rfl, rfl⟩ := List.cons.inj heq
        exact ⟨hr, hrs⟩
      · rintro ⟨hr, hrs⟩
        rw [Framed] at hrs
        rw [hr, Option.bind_some, hrs, Option.map_some]
    rw [List.forall_mem_cons, ← ih]
    constructor
    · intro h
      constructor
      · have hfirst : ∀ junk, receiveData e.received junk (sendData e.sent e.data ++ sendAll es)
            = some (e.data, sendAll es) := by
          intro junk
          exact ((hcall fun _ => junk).mp (h _)).1
        exact whole_of_receiveData hfirst
      -- the rest is read with what the calls after the first find in their variables
      · intro junk
        exact ((hcall fun n => junk (n - 1)).mp (h _)).2
    · rintro ⟨⟨hsent, hreceived⟩, hrest⟩ junk
      exact (hcall junk).mpr ⟨receiveData_of_whole e.size_lt hsent hreceived _ _, hrest _⟩

/-- **A `read` of four bytes of the length** is enough to lose the payload: the byte 7 is sent, and
although `len` happens to be zero before, the byte 0 is returned. -/
theorem not_framed :
    let whole : Fragments := ⟨8, by decide, by decide, [], by simp⟩
    let short : Fragments := ⟨4, by decide, by decide, [], by simp⟩
    receiveAll (fun _ => 0) [⟨[7], by decide, whole, short⟩]
        (sendAll [⟨[7], by decide, whole, short⟩]) = some [([0], [0, 0, 0, 7])] ∧
      ¬ ∀ junk, Framed junk [⟨[7], by decide, whole, short⟩] := by
  intro whole short
  refine ⟨by decide, fun h => ?_⟩
  exact absurd (h fun _ => 0) (by decide)

end DedupServer
