import DedupServer.Upload.Accesses
import DedupServer.Model.Script

/-! # Upload messages and the bounds of the buffers

`receive_file` trusts `header.start` and `header.queryNum`: it clamps the end of a slot to `start`, but not
`start` to the data, and it replaces a container without room, but does not ask whether a new one has room.
Every access is in range exactly as long as every message meets `DataMsg.WithinRange`. -/

namespace DedupServer

open Foundations

/-- **Each message of a sequence meets a condition** on the connection that it is received on; what is shared
may be any when it arrives. -/
def Conn.EachFrame (env : Env) (ok : Conn → Server → DataMsg → Prop) :
    Conn → List (Server × DataMsg) → Prop
  | _, [] => True
  | c, (sv, msg) :: frames =>
    ok c sv msg ∧ ∀ r, c.receiveBody env sv msg = some r → EachFrame env ok r.2.1 frames

/-- Two conditions that agree on every connection between two messages, when the second leaves it so. -/
theorem Conn.Roomy.eachFrame_congr {env : Env} {ok ok' : Conn → Server → DataMsg → Prop} {left : ℕ}
    {c : Conn} {frames : List (Server × DataMsg)} (h : c.Roomy left)
    (hiff : ∀ (c : Conn) (f : Server × DataMsg), f ∈ frames → c.Roomy left →
      (ok c f.1 f.2 ↔ ok' c f.1 f.2))
    (hkeep : ∀ (c : Conn) (f : Server × DataMsg), c.Roomy left → ok' c f.1 f.2 →
      ∀ r, c.receiveBody env f.1 f.2 = some r → r.2.1.Roomy left) :
    c.EachFrame env ok frames ↔ c.EachFrame env ok' frames := by
  induction frames generalizing c with
  | nil => exact Iff.rfl
  | cons f frames ih =>
    obtain ⟨sv, msg⟩ := f
    have hfirst := hiff c (sv, msg) List.mem_cons_self h
    show (ok c sv msg ∧ _) ↔ (ok' c sv msg ∧ _)
    rw [hfirst]
    apply and_congr_right
    intro hok
    apply forall_congr'
    intro r
    apply imp_congr_right
    intro hr
    exact ih (hkeep c (sv, msg) h hok r hr) fun c f hf => hiff c f (List.mem_cons_of_mem _ hf)

/-- **When upload messages keep `receive_file` in range.** On a connection on which an upload begins, for
every sequence of `UPLOADBODY` messages that fit the receive buffer: every access for every message is in
range if and only if every message, given the answers in the last reply, meets the condition. -/
theorem upload_inRange_iff (env : Env) (c : Conn) (frames : List (Server × DataMsg))
    (hsettled : c.Settled) (hroom : c.outData.length = CHUNKSIZE * BATCHSIZE)
    (hfits : ∀ f ∈ frames, f.2.data.length ≤ (CHUNKSIZE + HASHSIZE) * BATCHSIZE) :
    c.EachFrame env (fun c sv msg => AllInRange msg.data.length (c.bodyAccesses env sv msg)) frames ↔
      c.EachFrame env (fun c _ msg => msg.WithinRange (picks 1 c.queries).length) frames := by
  apply (hsettled.roomy hroom).eachFrame_congr
  · intro c f hf hroomy
    exact hroomy.inRange_iff env f.1 f.2 (hfits f hf)
  · intro c f hroomy hmsg r hr
    exact hroomy.receiveBody env f.1 hmsg hr

namespace Sample

/-- A connection to the empty server. -/
def connected : Conn := (Conn.init Sample.env .init (List.replicate (CHUNKSIZE * BATCHSIZE) 0)).2

/-- A message that asks for one hash. -/
def asksOne : DataMsg := ⟨⟨.UPLOADBODY, 0, 1, 0, sizeofDataMsg + 32⟩, List.replicate 32 7⟩

/-- A message that says it asks for one hash, and ends. -/
def asksNothing : DataMsg := ⟨⟨.UPLOADBODY, 0, 1, 0, sizeofDataMsg⟩, []⟩

end Sample

/-- A message with its hash. -/
theorem upload_inRange_iff_sample :
    Sample.connected.EachFrame Sample.env
      (fun c sv msg => AllInRange msg.data.length (c.bodyAccesses Sample.env sv msg))
      [(.init, Sample.asksOne)] := by
  apply (upload_inRange_iff Sample.env Sample.connected [(.init, Sample.asksOne)]
    (Conn.fresh_init _ _ _).toSettled List.length_replicate ?_).mpr
  · refine ⟨⟨fun h => absurd rfl h, fun _ => by decide⟩, fun _ _ => trivial⟩
  · intro f hf
    rw [List.mem_singleton.mp hf]
    decide

/-- **The hash of a message without data** is read from behind the data. -/
theorem upload_not_inRange :
    ¬ Sample.connected.EachFrame Sample.env
      (fun c sv msg => AllInRange msg.data.length (c.bodyAccesses Sample.env sv msg))
      [(.init, Sample.asksNothing)] := by
  rintro ⟨hin, -⟩
  have hread : Access.payload 0 HASHSIZE ∈
      Sample.connected.bodyAccesses Sample.env .init Sample.asksNothing :=
    List.mem_append_right _ List.mem_cons_self
  have hle : 0 + HASHSIZE ≤ 0 := hin _ hread
  exact absurd hle (by decide)

end DedupServer
