import DedupServer.Threads.Packed

/-! # What the entries of a recipe stand for

A relation `Q` between hashes and addresses that holds of what the index answers, and of the addresses under
which chunks are stored, holds between the hashes that were asked and the recipe entries, one by one
(`Pipeline.Matches`), whatever the writers and the other sessions do in between. All that is needed of the
messages is that they bring chunks that are good for the hashes they were asked for
(`DataMsg.Brings`). -/

namespace DedupServer

open Foundations

/-- **The message brings the chunks** that were asked for, from slot `k` on: each is good for its hash. -/
def DataMsg.Brings (Good : Bytes → Bytes → Prop) (msg : DataMsg) (k : ℕ) (hashes : List Bytes) : Prop :=
  List.Forall₂ (fun hash u => Good hash (chunkSlot msg u) ∧ chunkSlot msg u ≠ []) hashes
    (List.range' k hashes.length)

/-- The next chunk of the message is good for the hash it is stored under. -/
theorem DataMsg.Brings.head {Good : Bytes → Bytes → Prop} {msg : DataMsg} {k : ℕ}
    {hash : Bytes} {hashes : List Bytes}
    (h : msg.Brings Good k (hash :: hashes)) :
    (Good hash (chunkSlot msg k) ∧ chunkSlot msg k ≠ []) ∧ msg.Brings Good (k + 1) hashes := by
  rw [DataMsg.Brings, List.length_cons, List.range'_succ] at h
  exact List.forall₂_cons.mp h

/-- All hashes that the message asks for are whole. -/
def DataMsg.AsksWhole (msg : DataMsg) : Prop := ∀ hash ∈ Conn.queriedHashes msg, hash.length = HASHSIZE

/-- **The index holds good addresses only.** -/
def Server.Indexed (Q : Bytes → ChunkAddr → Prop) (sv : Server) : Prop :=
  ∀ key a, sv.allChunks key = some a →
    ∃ hash, hash.length = HASHSIZE ∧ key = convertArrayHashToString hash ∧ Q hash a

namespace Server.Indexed

variable {Q Q' : Bytes → ChunkAddr → Prop} {sv sv' : Server} {hash : Bytes} {a : ChunkAddr}

theorem mono (h : sv.Indexed Q) (hQ : ∀ hash a, Q hash a → Q' hash a) : sv.Indexed Q' := by
  intro key a hkey
  obtain ⟨hash, hlen, heq, hgood⟩ := h key a hkey
  exact ⟨hash, hlen, heq, hQ hash a hgood⟩

theorem of_eq (h : sv.Indexed Q) (hindex : sv'.allChunks = sv.allChunks) : sv'.Indexed Q := by
  rw [Indexed, hindex]
  exact h

/-- What is found under a whole hash is good for it. -/
theorem lookup (h : sv.Indexed Q) (hlen : hash.length = HASHSIZE)
    (hfound : sv.allChunks (convertArrayHashToString hash) = some a) : Q hash a := by
  obtain ⟨hash', hlen', hkey, hgood⟩ := h _ a hfound
  obtain rfl := convertArrayHashToString_injective hlen hlen' hkey
  exact hgood

/-- **A good address may be published.** -/
theorem addChunk (h : sv.Indexed Q) (hlen : hash.length = HASHSIZE) (hgood : Q hash a) :
    (sv.addChunk (convertArrayHashToString hash) a).Indexed Q := by
  intro key b hkey
  rw [Server.addChunk] at hkey
  split at hkey
  · exact h key b hkey
  · by_cases heq : key = convertArrayHashToString hash
    · subst heq
      obtain rfl : a = b := by simpa using hkey
      exact ⟨hash, hlen, rfl, hgood⟩
    · have hold : sv.allChunks key = some b := by simpa [Function.update_of_ne heq] using hkey
      exact h key b hold

/-- **The answers of the index** are good for the hashes answered with `0`. -/
theorem storedAddrs (h : sv.Indexed Q) {hashes : List Bytes} (hlen : ∀ hash ∈ hashes, hash.length = HASHSIZE) :
    List.Forall₂ Q (picks 0 ((hashes.map (Conn.queryAnswer sv)).zip hashes)) (Conn.storedAddrs sv hashes) := by
  induction hashes with
  | nil => exact .nil
  | cons hash hashes ih =>
    have hrest := ih fun hash' hmem => hlen hash' (List.mem_cons_of_mem _ hmem)
    rw [List.map_cons, List.zip_cons_cons]
    cases hfound : sv.allChunks (convertArrayHashToString hash) with
    | none =>
      have hanswer : Conn.queryAnswer sv hash = 1 := by
        simp [Conn.queryAnswer, Server.isChunkStored, hfound]
      have hnone : Conn.storedAddrs sv (hash :: hashes) = Conn.storedAddrs sv hashes := by
        simp [Conn.storedAddrs, Server.isChunkStored, hfound]
      rw [hanswer, hnone, picks_cons_of_ne (by decide)]
      exact hrest
    | some a =>
      have hanswer : Conn.queryAnswer sv hash = 0 := by
        simp [Conn.queryAnswer, Server.isChunkStored, hfound]
      have hsome : Conn.storedAddrs sv (hash :: hashes) = a :: Conn.storedAddrs sv hashes := by
        simp [Conn.storedAddrs, Server.isChunkStored, hfound]
      rw [hanswer, hsome, picks_cons_self]
      exact .cons (h.lookup (hlen hash List.mem_cons_self) hfound) hrest

end Server.Indexed

namespace Pipeline

variable {env : Env} {σ σ' : Pipeline} {a : PipelineAct} {asked : List Bytes} {Q Q' : Bytes → ChunkAddr → Prop}
  {Good : Bytes → Bytes → Prop}

/-- **The hashes that a step asks for.** -/
def queriedBy (σ : Pipeline) : PipelineAct → List Bytes
  | .receiver =>
    match σ.pc with
    | .querying msg => Conn.queriedHashes msg
    | _ => []
  | _ => []

/-- **The entries match the hashes that were asked**, up to those that are still to be entered: the last
query, or what is left of it in the loop. -/
def Matches (Q : Bytes → ChunkAddr → Prop) (Good : Bytes → Bytes → Prop) (asked : List Bytes)
    (σ : Pipeline) : Prop :=
  match σ.pc with
  | .receiving => ∃ done, asked = done ++ σ.queries.map Prod.snd ∧ List.Forall₂ Q done σ.entries ∧
      List.Forall₂ Q (picks 0 σ.queries) σ.duplicatedChunkAddr
  | .looping loop => ∃ done, asked = done ++ loop.rest.map Prod.snd ∧ List.Forall₂ Q done σ.entries ∧
      List.Forall₂ Q (picks 0 loop.rest) σ.duplicatedChunkAddr ∧
      loop.msg.Brings Good loop.currentUniqueNum (picks 1 loop.rest) ∧ loop.msg.AsksWhole
  | .renewing loop hash | .copying loop hash => ∃ done, asked = done ++ hash :: loop.rest.map Prod.snd ∧
      List.Forall₂ Q done σ.entries ∧ List.Forall₂ Q (picks 0 loop.rest) σ.duplicatedChunkAddr ∧
      loop.msg.Brings Good loop.currentUniqueNum (hash :: picks 1 loop.rest) ∧ loop.msg.AsksWhole
  | .entering loop chunkAddr | .renewingRecipe loop chunkAddr => ∃ done hash,
      asked = done ++ hash :: loop.rest.map Prod.snd ∧ List.Forall₂ Q done σ.entries ∧ Q hash chunkAddr ∧
      List.Forall₂ Q (picks 0 loop.rest) σ.duplicatedChunkAddr ∧
      loop.msg.Brings Good loop.currentUniqueNum (picks 1 loop.rest) ∧ loop.msg.AsksWhole
  | .querying msg => List.Forall₂ Q asked σ.entries ∧ σ.duplicatedChunkAddr = [] ∧ msg.AsksWhole
  | _ => ∃ done, asked = done ++ σ.queries.map Prod.snd ∧ List.Forall₂ Q done σ.entries

/-- What a message must be for the entries to go on matching. -/
def Welcomes (Good : Bytes → Bytes → Prop) (σ : Pipeline) : PipelineAct → Prop
  | .message msg => msg.header.dataMsgType = .FILEEND ∨
      msg.Brings Good 0 (picks 1 σ.queries) ∧ msg.AsksWhole
  | .others _ => False
  | _ => True

/-- A weaker relation. -/
theorem Matches.mono (h : σ.Matches Q Good asked) (hQ : ∀ hash a, Q hash a → Q' hash a) :
    σ.Matches Q' Good asked := by
  have hall : ∀ {hs as}, List.Forall₂ Q hs as → List.Forall₂ Q' hs as := fun h => h.imp fun hash a => hQ hash a
  unfold Matches at h ⊢
  split at h
  · obtain ⟨done, heq, hdone, hdups⟩ := h
    exact ⟨done, heq, hall hdone, hall hdups⟩
  · obtain ⟨done, heq, hdone, hdups, hrest⟩ := h
    exact ⟨done, heq, hall hdone, hall hdups, hrest⟩
  · obtain ⟨done, heq, hdone, hdups, hrest⟩ := h
    exact ⟨done, heq, hall hdone, hall hdups, hrest⟩
  · obtain ⟨done, heq, hdone, hdups, hrest⟩ := h
    exact ⟨done, heq, hall hdone, hall hdups, hrest⟩
  · obtain ⟨done, hash, heq, hdone, hq, hdups, hrest⟩ := h
    exact ⟨done, hash, heq, hall hdone, hQ _ _ hq, hall hdups, hrest⟩
  · obtain ⟨done, hash, heq, hdone, hq, hdups, hrest⟩ := h
    exact ⟨done, hash, heq, hall hdone, hQ _ _ hq, hall hdups, hrest⟩
  · obtain ⟨hall', hrest⟩ := h
    exact ⟨hall hall', hrest⟩
  · obtain ⟨done, heq, hdone⟩ := h
    exact ⟨done, heq, hall hdone⟩

/-- Steps that the serving thread does not notice. -/
theorem Matches.of_eq (h : σ.Matches Q Good asked) (hpc : σ'.pc = σ.pc) (hqueries : σ'.queries = σ.queries)
    (hentries : σ'.entries = σ.entries) (hdups : σ'.duplicatedChunkAddr = σ.duplicatedChunkAddr) :
    σ'.Matches Q Good asked := by
  unfold Matches at h ⊢
  rw [hpc, hqueries, hentries, hdups]
  exact h

/-! ## Steps of the serving thread -/

/-- **A message arrives** that brings what it was asked for, or the end of the file. -/
theorem Matches.message {msg : DataMsg} (h : σ.Matches Q Good asked) (hpc : σ.pc = .receiving)
    (hwelcome : σ.Welcomes Good (.message msg)) : (σ.message msg).Matches Q Good asked := by
  rw [Matches, hpc] at h
  obtain ⟨done, hasked, hdone, hdups⟩ := h
  unfold Pipeline.message
  split
  · exact ⟨done, hasked, hdone⟩
  · rename_i htype
    obtain ⟨hbrings, hwhole⟩ := hwelcome.resolve_left htype
    exact ⟨done, hasked, hdone, hdups, hbrings, hwhole⟩

/-- **The head of the loop**: a chunk to be stored, or an address that the index has answered. -/
theorem Matches.loopHead {loop : HashLoop} (h : σ.Matches Q Good asked) (hreceiving : Receiving σ)
    (hpc : σ.pc = .looping loop) (hstep : σ.loopHead loop = some σ') : σ'.Matches Q Good asked := by
  rw [Matches, hpc] at h
  obtain ⟨done, hasked, hdone, hdups, hbrings, hwhole⟩ := h
  have hready : Ready loop loop.rest σ.duplicatedChunkAddr := by
    have hat := hreceiving.ready
    rw [hpc] at hat
    exact hat
  unfold Pipeline.loopHead at hstep
  split at hstep
  · rename_i hrest
    obtain rfl := Option.some.inj hstep
    rw [hrest, List.map_nil, List.append_nil] at hasked
    rw [hrest, picks_nil, List.forall₂_nil_left_iff] at hdups
    exact ⟨hasked ▸ hdone, hdups, hwhole⟩
  · rename_i answer hash rest hrest
    rw [hrest] at hasked hdups hbrings hready
    rcases hready.answer _ List.mem_cons_self with hzero | hone
    · obtain rfl : answer = 0 := hzero
      dsimp only at hstep
      rw [if_neg (by decide), if_pos rfl] at hstep
      rw [picks_cons_self] at hdups
      rw [picks_cons_of_ne (by decide)] at hbrings
      cases haddrs : σ.duplicatedChunkAddr with
      | nil =>
        rw [haddrs] at hdups
        cases hdups
      | cons chunkAddr addrs =>
        rw [haddrs] at hstep hdups
        obtain rfl := Option.some.inj hstep
        obtain ⟨hgood, hdups⟩ := List.forall₂_cons.mp hdups
        exact ⟨done, hash, hasked, hdone, hgood, hdups, hbrings, hwhole⟩
    · obtain rfl : answer = 1 := hone
      dsimp only at hstep
      rw [if_pos rfl] at hstep
      rw [picks_cons_of_ne (by decide)] at hdups
      rw [picks_cons_self] at hbrings
      split at hstep
      · obtain ⟨q, -, rfl⟩ := Option.map_eq_some_iff.mp hstep
        exact ⟨done, hasked, hdone, hdups, hbrings, hwhole⟩
      · obtain rfl := Option.some.inj hstep
        exact ⟨done, hasked, hdone, hdups, hbrings, hwhole⟩

/-- **A chunk is stored**, under an address that becomes good for its hash. -/
theorem Matches.copyChunk {loop : HashLoop} {hash : Bytes} (h : σ.Matches Q Good asked)
    (hpc : σ.pc = .copying loop hash) (hQ : ∀ hash a, Q hash a → Q' hash a)
    (hnew : ∀ e ∈ σ.handedOut .receiver, e.2 ≠ [] → ∀ hash, Good hash e.2 → Q' hash e.1) :
    (σ.copyChunk loop hash).Matches Q' Good asked := by
  have hlater := h.mono hQ
  rw [Matches, hpc] at hlater
  obtain ⟨done, hasked, hdone, hdups, hbrings, hwhole⟩ := hlater
  rw [handedOut, hpc] at hnew
  unfold Pipeline.copyChunk
  split
  · exact (h.mono hQ).of_eq rfl rfl rfl rfl
  · obtain ⟨⟨hgood, hne⟩, hbrings⟩ := hbrings.head
    have hstored := hnew _ List.mem_cons_self hne hash hgood
    exact ⟨done, hash, hasked, hdone, hstored, hdups, hbrings, hwhole⟩

/-- **An entry is written.** -/
theorem Matches.enterAddr {loop : HashLoop} {chunkAddr : ChunkAddr} (h : σ.Matches Q Good asked)
    (hpc : σ.pc = .entering loop chunkAddr) (hstep : σ.enterAddr loop chunkAddr = some σ') :
    σ'.Matches Q Good asked := by
  have hat := h
  rw [Matches, hpc] at hat
  obtain ⟨done, hash, hasked, hdone, hgood, hdups, hbrings, hwhole⟩ := hat
  unfold Pipeline.enterAddr at hstep
  split at hstep
  · obtain ⟨q, -, rfl⟩ := Option.map_eq_some_iff.mp hstep
    exact ⟨done, hash, hasked, hdone, hgood, hdups, hbrings, hwhole⟩
  · split at hstep
    · obtain rfl := Option.some.inj hstep
      exact h.of_eq rfl rfl rfl rfl
    · obtain rfl := Option.some.inj hstep
      refine ⟨done ++ [hash], ?_, ?_, hdups, hbrings, hwhole⟩
      · rw [hasked, List.append_assoc]
        rfl
      · exact List.rel_append hdone (.cons hgood .nil)

/-- **A query is answered**, with what the index says at this moment. -/
theorem Matches.answerQuery {msg : DataMsg} (h : σ.Matches Q Good asked) (hpc : σ.pc = .querying msg)
    (hindex : σ.server.Indexed Q) :
    (σ.answerQuery msg).Matches Q Good (asked ++ Conn.queriedHashes msg) := by
  rw [Matches, hpc] at h
  obtain ⟨hdone, hdups, hwhole⟩ := h
  refine ⟨asked, ?_, hdone, ?_⟩
  · have hlength : (σ.answerQuery msg).hashList.length = (σ.answerQuery msg).answers.length :=
      List.length_map _ |>.symm
    rw [queries, List.map_snd_zip hlength.le]
    rfl
  · have hstored := hindex.storedAddrs hwhole
    show List.Forall₂ Q _ (σ.duplicatedChunkAddr ++ _)
    rw [hdups, List.nil_append]
    exact hstored

/-- **One step of `receive_file`.** -/
theorem Matches.receiver (h : σ.Matches Q Good asked) (hreceiving : Receiving σ)
    (hindex : σ.server.Indexed Q) (hQ : ∀ hash a, Q hash a → Q' hash a)
    (hnew : ∀ e ∈ σ.handedOut .receiver, e.2 ≠ [] → ∀ hash, Good hash e.2 → Q' hash e.1)
    (hstep : σ.receiverStep = some σ') : σ'.Matches Q' Good (asked ++ σ.queriedBy .receiver) := by
  have hlater := h.mono hQ
  unfold receiverStep at hstep
  split at hstep
  · rename_i loop hpc
    simp only [queriedBy, hpc, List.append_nil]
    exact hlater.loopHead hreceiving hpc hstep
  · rename_i loop hash hpc
    obtain rfl := Option.some.inj hstep
    simp only [queriedBy, hpc, List.append_nil]
    exact h.copyChunk hpc hQ hnew
  · rename_i loop chunkAddr hpc
    simp only [queriedBy, hpc, List.append_nil]
    exact hlater.enterAddr hpc hstep
  · rename_i msg hpc
    obtain rfl := Option.some.inj hstep
    simp only [queriedBy, hpc]
    exact hlater.answerQuery hpc (hindex.mono hQ)
  -- past the last message only the entries matter, and nothing is entered any more
  · rename_i hpc
    simp only [queriedBy, hpc, List.append_nil]
    rw [Matches, hpc] at hlater
    obtain ⟨done, hasked, hdone⟩ := hlater
    split at hstep
    · obtain ⟨q, -, rfl⟩ := Option.map_eq_some_iff.mp hstep
      exact ⟨done, hasked, hdone⟩
    · obtain rfl := Option.some.inj hstep
      exact ⟨done, hasked, hdone⟩
  · rename_i hpc
    obtain ⟨q, -, rfl⟩ := Option.map_eq_some_iff.mp hstep
    simp only [queriedBy, hpc, List.append_nil]
    rw [Matches, hpc] at hlater
    exact hlater
  · rename_i hpc
    obtain rfl := Option.some.inj hstep
    simp only [queriedBy, hpc, List.append_nil]
    rw [Matches, hpc] at hlater
    exact hlater
  · rename_i hpc
    obtain rfl := Option.some.inj hstep
    simp only [queriedBy, hpc, List.append_nil]
    rw [Matches, hpc] at hlater
    exact hlater
  · rename_i hpc
    split at hstep
    · obtain rfl := Option.some.inj hstep
      simp only [queriedBy, hpc, List.append_nil]
      rw [Matches, hpc] at hlater
      exact hlater
    · cases hstep
  · rename_i hpc
    split at hstep
    · obtain rfl := Option.some.inj hstep
      simp only [queriedBy, hpc, List.append_nil]
      rw [Matches, hpc] at hlater
      exact hlater
    · cases hstep
  · cases hstep

/-- **A new buffer.** -/
theorem Matches.malloc {p : ℕ} {block : Block} (h : σ.Matches Q Good asked)
    (hstep : σ.mallocStep env p block = some σ') : σ'.Matches Q Good asked := by
  unfold mallocStep at hstep
  split at hstep
  · rename_i loop hash hpc
    rw [Matches, hpc] at h
    split at hstep
    · obtain ⟨heap, -, rfl⟩ := Option.map_eq_some_iff.mp hstep
      exact h
    · cases hstep
  · rename_i loop chunkAddr hpc
    rw [Matches, hpc] at h
    split at hstep
    · obtain ⟨heap, -, rfl⟩ := Option.map_eq_some_iff.mp hstep
      exact h
    · cases hstep
  · cases hstep

/-! ## Steps of the writers -/

/-- **What no step of an upload touches**: the registry, the recipes of other uploads, how the other sessions
left the containers, and the index, unless a chunk is copied. -/
structure Frame (σ σ' : Pipeline) : Prop where
  foreign : σ'.foreign = σ.foreign := by rfl
  recipeNameHash : σ'.recipeNameHash = σ.recipeNameHash := by rfl
  files : σ'.server.files = σ.server.files := by rfl
  recipes : ∀ path ≠ σ.recipeNameHash,
    σ'.server.recipes.lookup path = σ.server.recipes.lookup path := by exact fun _ _ => rfl
  index : (∀ loop hash, σ.pc ≠ .copying loop hash) →
    σ'.server.allChunks = σ.server.allChunks := by exact fun _ => rfl

/-- **What a writer does not touch** besides: all that the serving thread works on, and the index. -/
structure WriterFrame (σ σ' : Pipeline) : Prop extends Frame σ σ' where
  pc : σ'.pc = σ.pc := by rfl
  queries : σ'.queries = σ.queries := by rfl
  duplicatedChunkAddr : σ'.duplicatedChunkAddr = σ.duplicatedChunkAddr := by rfl
  entries : σ'.entries = σ.entries := by rfl
  allChunks : σ'.server.allChunks = σ.server.allChunks := by rfl

/-- **One step of `write_container`.** -/
theorem writerFrame_container (hstep : σ.containerStep = some σ') : WriterFrame σ σ' := by
  unfold containerStep at hstep
  split at hstep
  · split at hstep
    · cases hstep
    · obtain rfl := Option.some.inj hstep
      exact {}
    · obtain rfl := Option.some.inj hstep
      exact {}
  · obtain rfl := Option.some.inj hstep
    exact {}
  · split at hstep
    · obtain rfl := Option.some.inj hstep
      exact {}
    · obtain rfl := Option.some.inj hstep
      exact {}
  · split at hstep
    · obtain rfl := Option.some.inj hstep
      exact {}
    · obtain rfl := Option.some.inj hstep
      exact {}
  · cases hstep

/-- **One step of `write_recipe`**, which writes to the recipe of its upload. -/
theorem writerFrame_recipe (hstep : σ.recipeStep = some σ') : WriterFrame σ σ' := by
  unfold recipeStep at hstep
  dsimp only at hstep
  split at hstep
  · obtain rfl := Option.some.inj hstep
    exact { recipes := fun path hne => AList.lookup_insert_ne hne }
  · split at hstep
    · cases hstep
    · obtain rfl := Option.some.inj hstep
      exact {}
    · obtain rfl := Option.some.inj hstep
      exact {}
  · split at hstep
    · obtain rfl := Option.some.inj hstep
      exact {}
    · obtain rfl := Option.some.inj hstep
      exact { recipes := fun path hne => AList.lookup_insert_ne hne }
  · split at hstep
    · obtain rfl := Option.some.inj hstep
      exact {}
    · obtain rfl := Option.some.inj hstep
      exact {}
  · obtain rfl := Option.some.inj hstep
    exact { recipes := fun path hne => AList.lookup_insert_ne hne }
  · cases hstep

/-- The entries match as before a step of a writer. -/
theorem WriterFrame.matches (hframe : WriterFrame σ σ') (h : σ.Matches Q Good asked) :
    σ'.Matches Q Good asked :=
  h.of_eq hframe.pc hframe.queries hframe.entries hframe.duplicatedChunkAddr

/-- **A step of `receive_file`** changes nothing on disk. -/
theorem frame_receiver (hstep : σ.receiverStep = some σ') : Frame σ σ' := by
  unfold receiverStep at hstep
  split at hstep
  · rename_i loop hpc
    unfold Pipeline.loopHead at hstep
    split at hstep
    · obtain rfl := Option.some.inj hstep
      exact {}
    · dsimp only at hstep
      split at hstep
      · split at hstep
        · obtain ⟨q, -, rfl⟩ := Option.map_eq_some_iff.mp hstep
          exact {}
        · obtain rfl := Option.some.inj hstep
          exact {}
      · split at hstep
        · split at hstep
          · obtain rfl := Option.some.inj hstep
            exact {}
          · obtain rfl := Option.some.inj hstep
            exact {}
        · split at hstep
          · obtain rfl := Option.some.inj hstep
            exact {}
          · obtain rfl := Option.some.inj hstep
            exact {}
  · rename_i loop hash hpc
    obtain rfl := Option.some.inj hstep
    unfold Pipeline.copyChunk
    split
    · exact {}
    · refine { files := ?_, recipes := fun path hne => ?_, index := fun hnot => ?_ }
      · exact Server.addChunk_files _ _ _
      · dsimp only
        rw [Server.addChunk_recipes]
      · exact absurd hpc (hnot loop hash)
  · rename_i loop chunkAddr hpc
    unfold Pipeline.enterAddr at hstep
    split at hstep
    · obtain ⟨q, -, rfl⟩ := Option.map_eq_some_iff.mp hstep
      exact {}
    · split at hstep
      · obtain rfl := Option.some.inj hstep
        exact {}
      · obtain rfl := Option.some.inj hstep
        exact {}
  · obtain rfl := Option.some.inj hstep
    exact {}
  · split at hstep
    · obtain ⟨q, -, rfl⟩ := Option.map_eq_some_iff.mp hstep
      exact {}
    · obtain rfl := Option.some.inj hstep
      exact {}
  · obtain ⟨q, -, rfl⟩ := Option.map_eq_some_iff.mp hstep
    exact {}
  · obtain rfl := Option.some.inj hstep
    exact {}
  · obtain rfl := Option.some.inj hstep
    exact {}
  · split at hstep
    · obtain rfl := Option.some.inj hstep
      exact {}
    · cases hstep
  · split at hstep
    · obtain rfl := Option.some.inj hstep
      exact {}
    · cases hstep
  · cases hstep

/-! ## Every step -/

/-- **Every step** of an upload leaves that as it is. -/
theorem frame_of_step (hwelcome : σ.Welcomes Good a)
    (hstep : (pipelineMachine env).step σ a = some σ') : Frame σ σ' := by
  cases a with
  | message msg =>
    simp only [pipelineMachine, Pipeline.step] at hstep
    split at hstep
    · obtain rfl := Option.some.inj hstep
      unfold Pipeline.message
      split
      · exact {}
      · exact {}
    · cases hstep
  | receiver => exact frame_receiver hstep
  | malloc p block =>
    simp only [pipelineMachine, Pipeline.step] at hstep
    unfold mallocStep at hstep
    split at hstep
    · split at hstep
      · obtain ⟨heap, -, rfl⟩ := Option.map_eq_some_iff.mp hstep
        exact {}
      · cases hstep
    · split at hstep
      · obtain ⟨heap, -, rfl⟩ := Option.map_eq_some_iff.mp hstep
        exact {}
      · cases hstep
    · cases hstep
  | containerThread => exact (writerFrame_container hstep).toFrame
  | recipeThread => exact (writerFrame_recipe hstep).toFrame
  | others server => exact hwelcome.elim

/-- **Every step keeps the entries matching**, and the hashes that it asks for are among those that were
asked. -/
theorem Matches.step (h : σ.Matches Q Good asked) (hreceiving : Receiving σ)
    (hindex : σ.server.Indexed Q) (hQ : ∀ hash a, Q hash a → Q' hash a)
    (hnew : ∀ e ∈ σ.handedOut a, e.2 ≠ [] → ∀ hash, Good hash e.2 → Q' hash e.1)
    (hwelcome : σ.Welcomes Good a) (hstep : (pipelineMachine env).step σ a = some σ') :
    σ'.Matches Q' Good (asked ++ σ.queriedBy a) := by
  cases a with
  | message msg =>
    simp only [pipelineMachine, Pipeline.step] at hstep
    split at hstep
    · rename_i hpc
      obtain rfl := Option.some.inj hstep
      simp only [queriedBy, List.append_nil]
      exact (h.mono hQ).message hpc hwelcome
    · cases hstep
  | receiver => exact h.receiver hreceiving hindex hQ hnew hstep
  | malloc p block =>
    simp only [queriedBy, List.append_nil]
    exact (h.mono hQ).malloc hstep
  | containerThread =>
    simp only [queriedBy, List.append_nil]
    exact (writerFrame_container hstep).matches (h.mono hQ)
  | recipeThread =>
    simp only [queriedBy, List.append_nil]
    exact (writerFrame_recipe hstep).matches (h.mono hQ)
  | others server => exact hwelcome.elim

/-- **Every step keeps the index good**: only the copy of a chunk adds to it. -/
theorem indexed_of_step (hindex : σ.server.Indexed Q) (h : σ.Matches Q Good asked)
    (hQ : ∀ hash a, Q hash a → Q' hash a) (hwhole : ∀ hash x, Good hash x → hash.length = HASHSIZE)
    (hnew : ∀ e ∈ σ.handedOut a, e.2 ≠ [] → ∀ hash, Good hash e.2 → Q' hash e.1)
    (hwelcome : σ.Welcomes Good a) (hstep : (pipelineMachine env).step σ a = some σ') :
    σ'.server.Indexed Q' := by
  by_cases hcopy : ∃ loop hash, σ.pc = .copying loop hash
  · obtain ⟨loop, hash, hpc⟩ := hcopy
    cases a with
    | receiver =>
      rw [Matches, hpc] at h
      obtain ⟨-, -, -, -, hbrings, -⟩ := h
      obtain ⟨⟨hgood, hne⟩, -⟩ := hbrings.head
      rw [handedOut, hpc] at hnew
      simp only [pipelineMachine, Pipeline.step, receiverStep, hpc, Option.some.injEq] at hstep
      subst hstep
      unfold Pipeline.copyChunk
      split
      · exact hindex.mono hQ
      · exact (hindex.mono hQ).addChunk (hwhole _ _ hgood) (hnew _ List.mem_cons_self hne hash hgood)
    | containerThread => exact (hindex.mono hQ).of_eq (writerFrame_container hstep).allChunks
    | recipeThread => exact (hindex.mono hQ).of_eq (writerFrame_recipe hstep).allChunks
    | message msg => simp [pipelineMachine, Pipeline.step, hpc] at hstep
    | malloc p block => simp [pipelineMachine, Pipeline.step, mallocStep, hpc] at hstep
    | others server => exact hwelcome.elim
  · apply (hindex.mono hQ).of_eq ((frame_of_step hwelcome hstep).index _)
    intro loop hash hpc
    exact hcopy ⟨loop, hash, hpc⟩

/-! ## The names of the containers -/

/-- **A move draws no name**, forgets the last one, or draws the next id. -/
theorem Moves.names (hm : Moves env σ σ') :
    (∃ ids, σ.buffers.map Prod.fst = σ'.buffers.map Prod.fst ++ ids) ∨
      σ'.buffers.map Prod.fst = σ.buffers.map Prod.fst ++ [env.uuid σ.server.drawn] ∧
        σ'.server.drawn = σ.server.drawn + 1 := by
  rw [map_fst_buffers, map_fst_buffers]
  cases hm with
  | newContainer hmalloc hsize hc hc' =>
    right
    refine ⟨?_, rfl⟩
    simp [filling, hc, hc']
  | pushContainer hpush hc hc' =>
    left
    refine ⟨[], ?_⟩
    simp [filling, hc, hc', containerValue]
  | tick _ _ _ hc | pushRecipe _ _ _ hc | enter _ _ _ hc | newRecipe _ _ _ _ hc =>
    left
    refine ⟨[], ?_⟩
    simp only [filling, hc, List.append_nil]
  | drop hc' =>
    left
    refine ⟨σ.filling.map ContainerStruct.containerID, ?_⟩
    simp only [filling, hc', Bool.false_eq_true, if_false, List.map_nil, List.append_nil]
  | copy _ _ _ _ hc hc' =>
    left
    refine ⟨[], ?_⟩
    simp only [filling, hc, hc', if_true, List.append_nil]
    rfl
  | containerDone hpc | recipeDone hpc | joinRecipe hpc | joinData hpc =>
    left
    refine ⟨[], ?_⟩
    simp only [filling, hpc, List.append_nil]
    rfl
  | _ => exact .inl ⟨[], (List.append_nil _).symm⟩

end Pipeline

end DedupServer
