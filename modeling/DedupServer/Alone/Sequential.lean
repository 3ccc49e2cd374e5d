import DedupServer.Alone.Upload

/-! # One session at a time

The states reached when sessions of honest clients run one after the other, each to its end
(`Sequential`). In such a state everything the index refers to is on disk, and so the chunks it
knows are kept (`State.Sane.keeps`). -/

namespace DedupServer

open Foundations

variable {env : Env} {S T X : Set Bytes} {hcf : env.CollisionFreeOn S} {i : ℕ} {arg : Arg}
  {σ τ : State} {s : Session}

/-- **The states reached by sessions of honest clients that run one at a time**, each to its end. -/
inductive Sequential (env : Env) (S : Set Bytes) : State → Prop
  | init : Sequential env S State.init
  | session {σ τ : State} {i : ℕ} {arg : Arg} (h : Sequential env S σ)
      (hrun : Completes env i arg σ τ) (hrogue : arg.rogue = false)
      (hknown : arg.op = 117 → ∀ x ∈ fileChunks env arg.file, x ∈ S) : Sequential env S τ

/-- Such sessions are a run of honest clients. -/
theorem Sequential.reaches (h : Sequential env S σ) :
    Reaches (sessions env) (honest env S) State.init σ := by
  induction h with
  | init => exact .refl
  | session h hrun hrogue hknown ih =>
    refine ih.trans (hrun.reaches.mono fun σ ℓ τ hok => ?_)
    rcases hok with rfl | ⟨a, rfl⟩
    · exact honest_spawn hrogue hknown _ σ τ
    · rintro j arg' ⟨⟩

/-- All of them are closed. -/
theorem Sequential.closed (h : Sequential env S σ) {i : ℕ} (hi : σ.locals i = some s) :
    s.Closed := by
  induction h generalizing i s with
  | init => cases hi
  | @session σ τ j arg h hrun hrogue hknown ih =>
    by_cases hij : i = j
    · subst hij
      obtain ⟨s', hs', hclosed⟩ := hrun.closed
      obtain rfl := Option.some.inj (hi.symm.trans hs')
      exact hclosed
    · rw [hrun.others hij] at hi
      exact ih hi

/-- **What a closed session has stored is on disk.** -/
theorem Policy.Local.mem_containers_of_closed {π : Policy env} {P : Pool} {sv : Server}
    (h : π.Local i P sv s) (hphase : Phase env s) (hclosed : s.Closed) {id : ContainerID} {l : Bytes}
    (hl : P id = some (i, l)) (hne : l ≠ []) : id ∈ sv.containers := by
  have hlive : s.conn.live = [s.conn.upload.containerBuffer] ∧
      s.conn.upload.containerBuffer.occupied = 0 := by
    rw [Policy.live_of_ne_join (by simp [hclosed.2]), UploadState.containers]
    rcases (hphase.over hclosed).2 with ⟨hd, -⟩ | ⟨hj, -⟩
    · exact ⟨by simp [hd.dataWriter, hd.containerQueue, DataWriter.held, BlockQueue.empty],
        hd.blank⟩
    · exact ⟨by simp [hj.dataWriter, hj.containerQueue, DataWriter.held, BlockQueue.empty],
        hj.blank⟩
  rcases h.owns.located _ l hl with hnil | hdisk | ⟨C, hC, hid⟩
  · exact absurd hnil hne
  · exact AList.lookup_isSome.mp (by rw [hdisk]; rfl)
  · -- the only container in memory is empty
    have hback := h.owns.backs C hC
    rw [hlive.1, List.mem_singleton] at hC
    have hlog := hback.log
    rw [hid, hl] at hlog
    obtain rfl : l = C.data := (Prod.mk.inj (Option.some.inj hlog)).2
    refine absurd (List.length_eq_zero_iff.mp ?_) hne
    rw [← hback.occupied, hC, hlive.2]

/-- An extent with a chunk in it is one of a container that is not empty. -/
theorem Pool.At.ne_nil {P : Pool} {a : ChunkAddr} {x : Bytes} (hat : P.At a x) (hx : x ≠ []) {o : ℕ}
    {l : Bytes} (hl : P a.containerID = some (o, l)) : l ≠ [] := by
  rintro rfl
  obtain ⟨o', l', hl', -, hext⟩ := hat
  rw [hl] at hl'
  obtain ⟨-, rfl⟩ := Prod.mk.inj (Option.some.inj hl')
  simp at hext
  exact hx hext

/-- **When all sessions are closed**, everything the index refers to is on disk. -/
theorem State.Sane.mem_containers (h : σ.Sane hcf)
    (hclosed : ∀ i s, σ.locals i = some s → s.Closed) {k : Bytes} {a : ChunkAddr}
    (hk : σ.shared.allChunks k = some a) : a.containerID ∈ σ.shared.containers := by
  obtain ⟨P, hinv⟩ := h.inv
  obtain ⟨hash, x, -, -, hx, hat, -⟩ := hinv.glob.index k a hk
  have hat' := hat
  obtain ⟨o, l, hl, -⟩ := hat'
  cases ho : σ.locals o with
  | none => exact absurd hl (hinv.idle o ho _ l)
  | some t =>
    exact (hinv.loc o t ho).mem_containers_of_closed (h.phase o t ho) (hclosed o t ho) hl
      (hat.ne_nil hx hl)

/-- **In a sane store an address on disk is kept.** -/
theorem State.Sane.keeps (h : σ.Sane hcf) (hX : X ⊆ S)
    (hdisk : ∀ x ∈ X, ∀ a,
      σ.shared.allChunks (convertArrayHashToString (env.generateHash x)) = some a →
        a.containerID ∈ σ.shared.containers) : σ.shared.Keeps env X := by
  obtain ⟨P, hinv⟩ := h.inv
  intro x hx a ha
  obtain ⟨hash, y, hlen, hkey, -, hat, hy, rfl⟩ := hinv.glob.index _ a ha
  have hsame := convertArrayHashToString_injective (env.length_generateHash x)
    (env.length_generateHash y) hkey
  obtain rfl := hcf (hX hx) hy hsame
  exact hinv.glob.extentOnDisk_eq hat (hdisk x hx a ha)

end DedupServer
