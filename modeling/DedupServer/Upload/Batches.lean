import DedupServer.Upload.Chunks
import DedupServer.Upload.ReceiveBody

/-! # The messages of `upload_file`

What one pass of the loop of `upload_file` sends (`Client.sendBatch_cons`, `Client.sendBatch_nil`):
a message with the selected chunks of the last batch and the hashes of the next, and, after the
last batch, `FILEEND` and the quit message. -/

namespace DedupServer

open Foundations

namespace Client

/-- **The batches still to be sent** are the last ones of the file, and make up the chunks `rest`. -/
structure Ahead (env : Env) (c : Client) (rest : List Bytes) : Prop where
  suffix : c.readBufferQueue <:+ readData env c.file
  chunks : c.readBufferQueue.flatMap (·.chunks) = rest

/-- They are well formed. -/
theorem Ahead.wf {env : Env} {c : Client} {rest : List Bytes} (h : c.Ahead env rest) :
    ∀ b ∈ c.readBufferQueue, b.WF env :=
  fun b hb => wf_of_mem_readData env c.file b (h.suffix.subset hb)

/-- A message with a query: the client waits for the reply. -/
theorem sendBody_query (c : Client) (uniq : List Bytes) {next : List Bytes} (h : next ≠ []) :
    ∃ header, c.sendBody uniq.flatten next.flatten next.length =
        ({ c with outHeader := header, pc := .awaitBodyRep },
          [.data ⟨header, uniq.flatten ++ next.flatten⟩]) ∧
      (⟨header, uniq.flatten ++ next.flatten⟩ : DataMsg).Carries uniq next := by
  have hnum : next.length ≠ 0 := fun h0 => h (List.length_eq_zero_iff.mp h0)
  exact ⟨_, by rw [sendBody, if_neg hnum], ⟨rfl, rfl, rfl, rfl⟩⟩

/-- A message without a query is the last one. -/
theorem sendBody_last (c : Client) (uniq : List Bytes) :
    ∃ header fileEnd, c.sendBody uniq.flatten [] 0 =
        ({ c with outHeader := fileEnd, pc := .awaitQuitRep },
          [.data ⟨header, uniq.flatten ++ []⟩, .data ⟨fileEnd, []⟩, .control .QUIT [] .NONE]) ∧
      (⟨header, uniq.flatten ++ []⟩ : DataMsg).Carries uniq [] ∧
      fileEnd.dataMsgType = .FILEEND :=
  ⟨_, _, rfl, ⟨rfl, rfl, rfl, rfl⟩, rfl⟩

/-- The hashes of a well-formed read buffer are sent whole. -/
theorem take_hashBuffer {env : Env} {b : ReadBuffer} (h : b.WF env) :
    b.hashBuffer.take (b.chunkNum * HASHSIZE) = (b.chunks.map env.generateHash).flatten := by
  have hlen : (b.chunks.map env.generateHash).flatten.length = b.chunkNum * HASHSIZE := by
    simp [List.length_flatten, List.map_map, Function.comp_def]
  rw [h.hashes, ← hlen, List.take_length]

/-- **There is a next batch**: its hashes are sent behind the selected chunks. -/
theorem sendBatch_cons {env : Env} {c : Client} {b : ReadBuffer} {rest : List ReadBuffer}
    (hq : c.readBufferQueue = b :: rest) (hb : b.WF env) (uniq : List Bytes) :
    ∃ header, c.sendBatch uniq.flatten =
        ({ c with
            readBufferQueue := rest, readBuffer := b, outHeader := header, pc := .awaitBodyRep },
          [.data ⟨header, uniq.flatten ++ (b.chunks.map env.generateHash).flatten⟩]) ∧
      (⟨header, uniq.flatten ++ (b.chunks.map env.generateHash).flatten⟩ : DataMsg).Carries uniq
        (b.chunks.map env.generateHash) := by
  have hne : b.chunks.map env.generateHash ≠ [] := by
    rw [Ne, List.map_eq_nil_iff, ← List.length_eq_zero_iff, ReadBuffer.length_chunks]
    exact hb.pos.ne'
  obtain ⟨header, hsend, hcarries⟩ :=
    sendBody_query { c with readBufferQueue := rest, readBuffer := b } uniq hne
  refine ⟨header, ?_, hcarries⟩
  rw [List.length_map, ReadBuffer.length_chunks, ← take_hashBuffer hb] at hsend
  rw [sendBatch, hq, ← take_hashBuffer hb]
  exact hsend

/-- **There is no next batch**: the upload ends with this message. -/
theorem sendBatch_nil {c : Client} (hq : c.readBufferQueue = []) (uniq : List Bytes) :
    ∃ header fileEnd, c.sendBatch uniq.flatten =
        ({ c with
            readBuffer := { c.readBuffer with chunkNum := 0, dataSize := 0 }
            outHeader := fileEnd, pc := .awaitQuitRep },
          [.data ⟨header, uniq.flatten ++ []⟩, .data ⟨fileEnd, []⟩, .control .QUIT [] .NONE]) ∧
      (⟨header, uniq.flatten ++ []⟩ : DataMsg).Carries uniq [] ∧
      fileEnd.dataMsgType = .FILEEND := by
  obtain ⟨header, fileEnd, hsend, hcarries, hend⟩ :=
    sendBody_last { c with readBuffer := { c.readBuffer with chunkNum := 0, dataSize := 0 } } uniq
  refine ⟨header, fileEnd, ?_, hcarries, hend⟩
  rw [sendBatch, hq]
  simpa only [hq] using hsend

end Client

end DedupServer
