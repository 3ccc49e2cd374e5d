import DedupServer.Threads.ReadEnds
import DedupServer.Model.Script
import Mathlib.Data.Set.Finite.Basic
import Mathlib.Data.Set.Finite.Lattice

/-! # A client reads ahead of what it sends

The sessions take an upload for a client that has read its file at once and reacts to one message after
another (`Client.react`). The two threads of the source agree with it, whatever the order of their steps, and
`upload_file` always comes to its end. Of the blocks of `read_data`, those of its last pass are never
freed. -/

namespace DedupServer

open Foundations

variable {env : Env} {heap : Heap} {file outData inData : Bytes} {queueSize : ℕ} {readBuffer : ReadStruct}
  {outHeader : DataMsgHeader} {σ : ReadAhead}

namespace ReadAhead

/-- A client that has asked for an upload. -/
def asking (file : Bytes) (outHeader : DataMsgHeader) : Client where
  client_id := 0
  file_path := []
  file := file
  rogue := false
  pc := .awaitUploadRep
  readBufferQueue := []
  readBuffer := ⟨[], [], 0, 0⟩
  outHeader := outHeader

/-- **What holds in every state** of an upload. -/
structure Invariant (env : Env) (heap : Heap) (queueSize : ℕ) (c₀ : Client) (granted : Msg) (σ : ReadAhead) :
    Prop where
  sound : σ.Sound env heap
  agrees : ∃ replies, σ.Agrees env c₀ granted replies
  ordered : σ.Ordered queueSize

/-- Replies fit into `m_inMsgBuffer`. -/
def fitting : Machine.Condition ReadAhead ReadAheadAct := fun _ a _ => a.Fits

variable {c₀ : Client} {granted : Msg}

theorem Invariant.step {τ : ReadAhead} {a : ReadAheadAct} (h : σ.Invariant env heap queueSize c₀ granted)
    (hfits : a.Fits) (hstep : σ.step env a = some τ) : τ.Invariant env heap queueSize c₀ granted := by
  obtain ⟨replies, hagrees⟩ := h.agrees
  obtain ⟨hsound, hagrees'⟩ := h.sound.step hagrees hfits hstep
  exact ⟨hsound, hagrees', h.ordered.step h.sound hstep⟩

theorem Invariant.run {τ : ReadAhead} (h : σ.Invariant env heap queueSize c₀ granted)
    (hrun : (readAheadMachine env).Run fitting σ τ) : τ.Invariant env heap queueSize c₀ granted :=
  hrun.invariant (fun _ _ _ h hstep hok => h.step hok hstep) h

/-- What holds at the start, for the members that matter. -/
theorem invariant_asking (hout : outData.length = outLen) (hin : inData.length = inLen) :
    Invariant env heap queueSize (asking file outHeader) (.control .UPLOADREP [] .NONE)
      (init heap file queueSize readBuffer outHeader outData inData) where
  sound := sound_init env heap file queueSize readBuffer outHeader hout hin
  agrees := ⟨[], agrees_init (asking file outHeader) rfl rfl (by decide) heap queueSize readBuffer
    outData inData⟩
  ordered := ordered_init heap file queueSize readBuffer outHeader outData inData

end ReadAhead

/-- **The two threads send what the reactive client sends**, whatever the interleaving of `read_data` and
`upload_file` and whatever the replies that fit and answer for the whole batch: nothing goes wrong in memory,
and what has been sent is a front of what the client of the sessions sends on the same replies, all of it
whenever `upload_file` waits for a reply or has ended. -/
theorem client_threads_refine {c₀ : Client} (name : Bytes) {status : RepStatus}
    (hpc : c₀.pc = .awaitUploadRep) (hrogue : c₀.rogue = false) (hstatus : status ≠ .DUPLICATE)
    (hout : outData.length = outLen) (hin : inData.length = inLen)
    (hrun : (readAheadMachine env).Run ReadAhead.answered
      (.init heap c₀.file queueSize readBuffer c₀.outHeader outData inData) σ) :
    σ.faulted = false ∧ ∃ c ms,
      c₀.reacts env (.control .UPLOADREP name status :: σ.received.map .data) = some (c, σ.sent ++ ms) ∧
      (σ.uploader = .receiving → ms = [] ∧ c.pc = .awaitBodyRep) ∧
      (σ.uploader = .finished → ms = [] ∧ c.pc = .awaitQuitRep) := by
  have hinv : σ.Sound env heap ∧ σ.Agrees env c₀ (.control .UPLOADREP name status) σ.received :=
    hrun.invariant (I := fun τ => τ.Sound env heap ∧
        τ.Agrees env c₀ (.control .UPLOADREP name status) τ.received)
      (fun _ _ _ h hstep hok => h.1.step_answered h.2 hok hstep)
      ⟨ReadAhead.sound_init env heap c₀.file queueSize readBuffer c₀.outHeader hout hin,
        ReadAhead.agrees_init _ hpc hrogue hstatus heap queueSize readBuffer outData inData⟩
  obtain ⟨hsound, c, ms, hreacts, -, ho⟩ := hinv
  refine ⟨hsound.sound, c, ms, hreacts, fun huploader => ?_, fun huploader => ?_⟩
  · simp only [ReadAhead.Owes, huploader] at ho
    obtain ⟨hms, -, -, -, -, hwaits⟩ := ho
    exact ⟨hms, hwaits⟩
  · simp only [ReadAhead.Owes, huploader] at ho
    exact ho

namespace Sample

/-- The client of an upload of one byte, with a queue for one read buffer. -/
def reading : ReadAhead :=
  .init (fun _ => none) [7] 1 ⟨0, 0, 0, 0⟩ ⟨.UPLOADBODY, 0, 0, 0, 0⟩ (List.replicate outLen 0)
    (List.replicate inLen 9)

/-- The reply that asks for the chunk. -/
def needed : DataMsg := ⟨⟨.UPLOADBODYREP, 0, 0, 0, sizeofDataMsg + 1⟩, [1]⟩

/-- The two blocks of a read buffer. -/
def allocating (p q : ℕ) : List ReadAheadAct :=
  [.malloc p ⟨dataLen, List.replicate dataLen 0, List.length_replicate⟩,
    .malloc q ⟨hashLen, List.replicate hashLen 0, List.length_replicate⟩]

/-- The whole file is read before anything is sent. -/
def readFirst : List ReadAheadAct :=
  allocating 0 1 ++ List.replicate 4 .reader ++ allocating 2 3 ++ List.replicate 2 .reader ++
    List.replicate 3 .uploader ++ [.reply needed] ++ List.replicate 9 .uploader

/-- Where both threads are. -/
def bothFinished (σ : ReadAhead) : Bool :=
  match σ.uploader with
  | .finished => σ.reader = .finished 2 3
  | _ => false

/-- What is sent. -/
def uploaded : List Msg :=
  [.data ⟨⟨.UPLOADBODY, 0, 1, 0, sizeofDataMsg + HASHSIZE⟩, 7 :: List.replicate 31 0⟩,
    .data ⟨⟨.UPLOADBODY, 1, 0, 1, sizeofDataMsg + 1⟩, [7]⟩,
    .data ⟨⟨.FILEEND, 1, 0, 1, sizeofDataMsg⟩, []⟩, .control .QUIT [] .NONE]

instance (σ τ : ReadAhead) (a : ReadAheadAct) : Decidable (ReadAhead.answered σ a τ) :=
  match a with
  | .reply _ => inferInstanceAs (Decidable (_ ∧ _))
  | .reader | .malloc _ _ | .uploader => .isTrue trivial

theorem answered_readFirst :
    (readAheadMachine Sample.env).StepsMeet ReadAhead.answered reading readFirst := by
  decide +kernel

/-- The replies fit. -/
theorem fits_readFirst : ∀ a ∈ readFirst, a.Fits := by
  have hreply : ∀ a ∈ readFirst, ∀ msg, a = .reply msg → msg = needed := by
    intro a ha msg heq
    subst heq
    simpa [readFirst, allocating] using ha
  intro a ha
  cases a with
  | reply msg =>
    obtain rfl := hreply _ ha msg rfl
    show 1 ≤ inLen
    decide
  | _ => trivial

theorem exec_readFirst : ∃ σ, (readAheadMachine Sample.env).exec reading readFirst = some σ ∧
    σ.uploader = .finished ∧ σ.reader = .finished 2 3 ∧ σ.received = [needed] ∧ σ.sent = uploaded := by
  have hrun : ((readAheadMachine Sample.env).exec reading readFirst).any (fun σ =>
      bothFinished σ && decide (σ.received = [needed] ∧ σ.sent = uploaded)) = true := by
    decide +kernel
  obtain ⟨σ, hexec, hσ⟩ := (Option.any_eq_true _ _).mp hrun
  obtain ⟨hover, hsent⟩ := (Bool.and_eq_true _ _).mp hσ
  unfold bothFinished at hover
  split at hover
  · rename_i hfin
    exact ⟨σ, hexec, hfin, of_decide_eq_true hover, of_decide_eq_true hsent⟩
  · cases hover

end Sample

/-- The reactive client on the same reply. -/
theorem client_threads_refine_sample : ∃ c : Client, c.pc = .awaitQuitRep ∧
    (ReadAhead.asking [7] ⟨.UPLOADBODY, 0, 0, 0, 0⟩).reacts Sample.env
      [.control .UPLOADREP [] .NOTEXIST, .data Sample.needed] = some (c, Sample.uploaded) := by
  obtain ⟨σ, hexec, hfin, -, hreceived, hsent⟩ := Sample.exec_readFirst
  have hpc : (ReadAhead.asking [7] ⟨.UPLOADBODY, 0, 0, 0, 0⟩).pc = .awaitUploadRep := rfl
  have hstatus : RepStatus.NOTEXIST ≠ .DUPLICATE := by decide
  obtain ⟨-, c, ms, hreacts, -, hend⟩ := client_threads_refine [] hpc rfl hstatus List.length_replicate
    List.length_replicate (Sample.answered_readFirst.run hexec)
  obtain ⟨rfl, hpc⟩ := hend hfin
  rw [hreceived, hsent, List.append_nil] at hreacts
  exact ⟨c, hpc, hreacts⟩

/-- **What an upload has allocated** since its start, when the replies fit, are the blocks of the buffers that
`read_data` fills, that are in the queue or that `upload_file` has, two for each; they are freed once, and no
others are. There are never more than for two buffers besides those in a full queue. When `upload_file` has
ended, the two blocks of the pass of `read_data` that has found nothing are left. -/
theorem read_buffers_freed (hout : outData.length = outLen) (hin : inData.length = inLen)
    (hrun : (readAheadMachine env).Run ReadAhead.fitting
      (.init heap file queueSize readBuffer outHeader outData inData) σ) :
    σ.faulted = false ∧ (σ.blocks.map Prod.fst).Nodup ∧
      (∀ p, σ.heap p ≠ none ↔ heap p ≠ none ∨ p ∈ σ.blocks.map Prod.fst) ∧
      σ.blocks.length ≤ 2 * (queueSize + 2) ∧
      (σ.uploader = .finished →
        ∃ p q, σ.reader = .finished p q ∧ σ.blocks = [(p, dataLen), (q, hashLen)]) := by
  have hinv := (ReadAhead.invariant_asking hout hin).run hrun
  exact ⟨hinv.sound.sound, hinv.sound.allocated.owned.nodup, hinv.sound.allocated.live_iff,
    hinv.ordered.length_blocks, hinv.ordered.blocks_of_finished hinv.sound⟩

/-- After an upload of one byte, of four blocks two are left. -/
theorem read_buffers_freed_sample : ∃ σ : ReadAhead, σ.uploader = .finished ∧
    ∀ p, σ.heap p ≠ none ↔ p = 2 ∨ p = 3 := by
  obtain ⟨σ, hexec, hfin, hreader, -, -⟩ := Sample.exec_readFirst
  obtain ⟨-, -, hlive, -, hend⟩ := read_buffers_freed List.length_replicate List.length_replicate
    (Machine.run_of_exec (fun _ a ha _ => Sample.fits_readFirst a ha) hexec)
  obtain ⟨p, q, hpq, hblocks⟩ := hend hfin
  rw [hreader, ReaderThread.finished.injEq] at hpq
  obtain ⟨rfl, rfl⟩ := hpq
  refine ⟨σ, hfin, fun p => ?_⟩
  rw [hlive p, hblocks]
  simp

/-- **Every upload comes to its end**: the number of steps of both threads is bounded by the number of batches
of the file, whatever the replies that fit, and as long as `upload_file` neither waits for a reply nor has
ended, one of the threads can go on. -/
theorem upload_ends {acts : List ReadAheadAct} (hsize : 0 < queueSize) (hroom : {p | heap p ≠ none}.Finite)
    (hout : outData.length = outLen) (hin : inData.length = inLen) (hfits : ∀ a ∈ acts, a.Fits)
    (hexec : (readAheadMachine env).exec (.init heap file queueSize readBuffer outHeader outData inData) acts
      = some σ) :
    acts.length ≤ (readData env file).length * batchWork + 9 ∧
      (σ.uploader ≠ .receiving → σ.uploader ≠ .finished →
        ∃ a τ, (∀ msg, a ≠ .reply msg) ∧ σ.step env a = some τ) := by
  obtain ⟨hinv, hlen⟩ := Machine.length_le_of_exec (ReadAhead.measure env)
    (I := fun s => s.Invariant env heap queueSize (ReadAhead.asking file outHeader)
      (.control .UPLOADREP [] .NONE)) (fun s a ha t h hstep => by
        obtain ⟨replies, hagrees⟩ := h.agrees
        exact ⟨h.step (hfits a ha) hstep, h.sound.measure_lt hagrees (hfits a ha) hstep⟩)
    (ReadAhead.invariant_asking hout hin) hexec
  constructor
  · simp only [ReadAhead.measure, ReadAhead.init, BlockQueueState.new, ReaderThread.todo, UploadThread.todo,
      List.length_nil, Nat.zero_mul] at hlen
    omega
  · -- only finitely many addresses are taken
    have hfinite : {p | σ.heap p ≠ none}.Finite := by
      refine (hroom.union (σ.blocks.map Prod.fst).finite_toSet).subset fun p hp => ?_
      exact (hinv.sound.allocated.live_iff p).mp hp
    obtain ⟨p, hp⟩ := hfinite.exists_notMem
    exact hinv.ordered.progress hinv.sound hsize ⟨p, not_not.mp hp⟩

/-- The upload of one byte, and the first step of any. -/
theorem upload_ends_sample : Sample.readFirst.length ≤ (readData Sample.env [7]).length * batchWork + 9 ∧
    ∃ a τ, (∀ msg, a ≠ .reply msg) ∧ Sample.reading.step Sample.env a = some τ := by
  obtain ⟨σ, hexec, -⟩ := Sample.exec_readFirst
  have hnothing : {p | (fun _ => none : Heap) p ≠ none}.Finite := by simp
  have hstart : (readAheadMachine Sample.env).exec Sample.reading [] = some Sample.reading := rfl
  have hbegin := (upload_ends Nat.one_pos hnothing List.length_replicate List.length_replicate
    (List.forall_mem_nil _) hstart).2
  refine ⟨(upload_ends Nat.one_pos hnothing List.length_replicate List.length_replicate
    Sample.fits_readFirst hexec).1, hbegin ?_ ?_⟩
  · rintro ⟨⟩
  · rintro ⟨⟩

end DedupServer
