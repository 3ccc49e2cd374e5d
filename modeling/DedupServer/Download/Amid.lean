import DedupServer.Store.Lasting

/-! # A download while others are at work

The loop of `send_file` reads its recipe block by block, and between two blocks the other sessions
may do what they like. As long as the file lasts (`State.Lasting`), what is still to be sent from a
position between two entries is what is left of the file (`Server.HasFile.remaining`), on whichever
of the states of the server the loop goes on. -/

namespace DedupServer

open Foundations

variable {env : Env} {s s' : Session} {sv sv' : Server} {client_id : Int} {fileName file : Bytes}
  {c : Conn}

namespace Conn

/-- The recipe stream of `send_file` is at the start of an entry. -/
def Aligned (c : Conn) : Prop :=
  ∀ pos, c.pc = .sending (some pos) → ∃ k, pos = 4 + sizeofChunkAddr * k

/-- A connection that is not in the loop of `send_file`. -/
theorem aligned_of_ne (hpc : ∀ recipe, c.pc ≠ .sending recipe) : c.Aligned :=
  fun _ h => absurd h (hpc _)

/-- A recipe is opened at its first entry. -/
theorem openRecipe_eq_some {name : Bytes} {pos : ℕ} (h : openRecipe sv name = some pos) : pos = 4 := by
  unfold openRecipe at h
  split at h
  · split_ifs at h
    exact (Option.some.inj h).symm
  · cases h

/-- **A pass of the loop that goes on** has read a whole block. -/
theorem sendBlock_next {name outData outData' : Bytes} {outHeader outHeader' : DataMsgHeader}
    {recipe : Option ℕ} {pos : ℕ} {msg : DataMsg}
    (h : sendBlock sv name outData outHeader recipe = some (outData', outHeader', some pos, msg)) :
    ∃ pos', recipe = some pos' ∧ pos = pos' + recipeBlockSize := by
  simp only [sendBlock] at h
  split at h
  · cases h
  · obtain ⟨-, -, hnext, -⟩ := by simpa only [Option.some.injEq, Prod.mk.injEq] using h
    split at hnext
    · obtain ⟨pos', hrecipe, heq⟩ := Option.map_eq_some_iff.mp hnext
      exact ⟨pos', hrecipe, heq.symm⟩
    · cases hnext

/-- **The loop of `send_file` moves by whole blocks.** -/
theorem Aligned.proceed (h : c.Aligned) {r : Server × Conn × List Msg}
    (hr : c.proceed env sv = some r) : r.2.1.Aligned := by
  unfold Conn.proceed at hr
  cases hpc : c.pc with
  | lookup fileName =>
    simp only [hpc] at hr
    split at hr <;> obtain rfl := Option.some.inj hr <;> exact aligned_of_ne (by simp)
  | reply fileName | register fileName =>
    simp only [hpc] at hr
    obtain rfl := Option.some.inj hr
    exact aligned_of_ne (by simp)
  | join =>
    simp only [hpc] at hr
    split_ifs at hr
    obtain rfl := Option.some.inj hr
    exact aligned_of_ne (by simp [Conn.resetUpload])
  | exist fileName =>
    simp only [hpc] at hr
    split at hr <;> obtain rfl := Option.some.inj hr
    · intro pos hpos
      exact ⟨0, openRecipe_eq_some (ConnPc.sending.inj hpos)⟩
    · exact aligned_of_ne (by simp)
  | sending recipe =>
    simp only [hpc] at hr
    split at hr <;> obtain rfl := Option.some.inj hr
    · rename_i outData outHeader next msg hblock
      intro pos hpos
      obtain rfl := ConnPc.sending.inj hpos
      obtain ⟨pos', rfl, rfl⟩ := sendBlock_next hblock
      obtain ⟨k, rfl⟩ := h pos' hpc
      exact ⟨k + BATCHSIZE, by rw [recipeBlockSize, Nat.mul_add, Nat.add_assoc]⟩
    · exact aligned_of_ne (by simp)
  | login | order | body | closed =>
    simp only [hpc] at hr
    cases hr

/-- A message does not lead into the loop. -/
theorem aligned_receive {m : Msg} {r : Server × Conn × List Msg}
    (hr : c.receive env sv m = some r) : r.2.1.Aligned := by
  refine aligned_of_ne fun recipe => ?_
  cases m with
  | login client_id =>
    simp only [Conn.receive] at hr
    split at hr <;> cases hr
    simp
  | control order fileName status =>
    simp only [Conn.receive] at hr
    split at hr
    · rename_i hpc
      split at hr <;> cases hr <;> simp [hpc]
    · cases hr
  | data msg =>
    simp only [Conn.receive] at hr
    split at hr
    · rename_i hpc
      split at hr
      · cases hr
        simp [receiveFileEnd]
      · obtain ⟨st, -, rfl⟩ := Option.map_eq_some_iff.mp hr
        simp [answerQuery, hpc]
    · cases hr

end Conn

/-- **Every action leaves the stream at the start of an entry.** -/
theorem Phase.aligned_act (hphase : Phase env s) (h : s.conn.Aligned) {a : Act}
    (hact : Session.act env sv s a = some (sv', s')) : s'.conn.Aligned := by
  cases a with
  | client | rogue chunkData hashes =>
    simp only [Session.act] at hact
    split at hact
    on_goal 2 => cases hact
    obtain ⟨r, -, heq⟩ := Option.map_eq_some_iff.mp hact
    obtain ⟨rfl, rfl⟩ := Prod.mk.inj heq
    exact h
  | server =>
    simp only [Session.act] at hact
    split at hact
    · split at hact
      on_goal 2 => cases hact
      obtain ⟨r, hr, heq⟩ := Option.map_eq_some_iff.mp hact
      obtain ⟨rfl, rfl⟩ := Prod.mk.inj heq
      exact Conn.aligned_receive hr
    · obtain ⟨r, hr, heq⟩ := Option.map_eq_some_iff.mp hact
      obtain ⟨rfl, rfl⟩ := Prod.mk.inj heq
      exact h.proceed hr
  | dataWriter =>
    obtain ⟨r, hr, heq⟩ := Option.map_eq_some_iff.mp hact
    obtain ⟨rfl, rfl⟩ := Prod.mk.inj heq
    intro pos hpos
    exact h pos ((Conn.alike_dataWriterStep hr).pc.symm.trans hpos)
  | recipeWriter =>
    obtain ⟨r, hr, heq⟩ := Option.map_eq_some_iff.mp hact
    obtain ⟨rfl, rfl⟩ := Prod.mk.inj heq
    intro pos hpos
    exact h pos ((hphase.alike_recipeWriterStep hr).pc.symm.trans hpos)

/-! ## What is left of the file -/

/-- Nothing is left of a stream that has reached its end. -/
theorem Conn.remaining_none (sv : Server) (name outData : Bytes) :
    Conn.remaining sv name outData none = [] := by
  rw [Conn.remaining, Conn.sendLoop_none, List.flatMap_nil]

/-- **What is left of a file that is on the server**, behind its first `k` entries. -/
theorem Server.HasFile.remaining (h : sv.HasFile env client_id fileName file) (k : ℕ)
    (outData : Bytes) :
    Conn.remaining sv (env.recipeNameHash client_id fileName) outData
      (some (4 + sizeofChunkAddr * k)) = ((fileChunks env file).drop k).flatten := by
  obtain ⟨as, hrecipe, hextents⟩ := h.recipe
  have hdisk : ∀ a ∈ as.drop k, Conn.OnDisk sv a := fun a ha =>
    ((List.forall₂_and_left _ _).mp hextents).1 a (List.mem_of_mem_drop ha)
  have hmap : as.map (Conn.extentOnDisk sv) = fileChunks env file := by
    have := List.forall₂_map_left_iff.mpr (hextents.imp fun a x h => h.2)
    exact List.forall₂_eq_eq_eq ▸ this
  have hdrop : (encodeTotalChunkNum as.length ++ encodeEntries as).drop (4 + sizeofChunkAddr * k)
      = encodeEntries (as.drop k) := by
    rw [← List.drop_drop, List.drop_left' (by simp), Conn.drop_encodeEntries]
  rw [Conn.remaining, Conn.flatMap_sendLoop hdisk hrecipe hdrop, List.flatMap_def, List.map_drop,
    hmap]
  rw [Conn.recipeRest, hrecipe, Option.getD_some, hdrop, length_encodeEntries]
  simp only [sizeofChunkAddr]
  omega

/-- **A download does not notice what others do** as long as the file is on the server. -/
theorem Session.Downloading.amid
    (h : s.Downloading sv (env.recipeNameHash client_id fileName) file) (halign : s.conn.Aligned)
    (hsv : sv.HasFile env client_id fileName file) (hsv' : sv'.HasFile env client_id fileName file) :
    s.Downloading sv' (env.recipeNameHash client_id fileName) file := by
  cases h with
  | asking hcl hdown hfile htotal => exact .asking hcl hdown hfile (hsv'.sentBytes _)
  | @sending recipe hpc hgot =>
    refine .sending hpc ?_
    cases recipe with
    | none => rwa [Conn.remaining_none] at hgot ⊢
    | some pos =>
      obtain ⟨k, rfl⟩ := halign pos hpc
      rw [hsv.remaining] at hgot
      rwa [hsv'.remaining]
  | sent hpc hup hasked hgot => exact .sent hpc hup hasked hgot

end DedupServer
