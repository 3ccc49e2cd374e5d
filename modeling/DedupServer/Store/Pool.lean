import DedupServer.Foundations.OwnedLog
import DedupServer.Protocol.Writers

/-! # Containers as owned logs

The abstract view of the store: a container is an append-only log (`Pool`), owned by the session
that created it. The bytes of a container are in one place at a time, in the buffer of its owner,
in a queue, with a writer or on disk; the pool does not tell which, so an address into it keeps
its meaning while the container moves.

* **`Sound`** — the disk and the chunk index agree with the pool.
* **`Owns`** — the containers a session has in memory are its own logs, each once, and none of
  its other logs is lost: they are on disk.
* **`Extends`** — what a session may do to the pool and the server: extend its own logs, save
  them, and publish addresses in them.

The steps that move bytes are lemmas about these: opening a container, appending a chunk, saving
a container, publishing an address. -/

namespace DedupServer

open Foundations

/-- The containers that have been created, each with its owner and all bytes it was given. -/
abbrev Pool := Logs ContainerID ℕ UInt8

namespace Pool

/-- The extent the address stands for holds the chunk `x`. -/
def At (P : Pool) (a : ChunkAddr) (x : Bytes) : Prop :=
  Holds P a.containerID a.offset.toNat a.size.toNat x

/-- Session `i` has created the container. -/
def OwnedBy (P : Pool) (i : ℕ) (id : ContainerID) : Prop := ∃ l, P id = some (i, l)

/-- A container in memory is the log of its owner. -/
structure Backs (P : Pool) (i : ℕ) (C : Container) : Prop where
  log : P C.containerID = some (i, C.data)
  occupied : C.occupied = C.data.length
  capacity : C.occupied + C.capacity = CONTAINERSIZE

/-- **The disk and the chunk index agree with the pool.** `Good h x` is what is known of the chunks
stored under a hash. -/
structure Sound (env : Env) (Good : Bytes → Bytes → Prop) (P : Pool) (sv : Server) : Prop where
  disk : ∀ id data, sv.containers.lookup id = some data → ∃ o, P id = some (o, data)
  drawn : ∀ id o l, P id = some (o, l) → ∃ k < sv.drawn, id = env.uuid k
  index : ∀ k a, sv.allChunks k = some a → ∃ h x, h.length = HASHSIZE ∧
    k = convertArrayHashToString h ∧ x ≠ [] ∧ P.At a x ∧ Good h x

/-- **The containers `live` that session `i` has in memory** are its logs, and its other logs are on
disk, unless they are empty. -/
structure Owns (i : ℕ) (P : Pool) (disk : Directory ContainerID) (live : List Container) :
    Prop where
  backs : ∀ C ∈ live, P.Backs i C
  nodup : (live.map (·.containerID)).Nodup
  offDisk : ∀ C ∈ live, disk.lookup C.containerID = none
  located : ∀ id l, P id = some (i, l) →
    l = [] ∨ disk.lookup id = some l ∨ ∃ C ∈ live, C.containerID = id

/-- **What session `i` may do**: extend its own logs, save them, and add to the index. -/
structure Extends (i : ℕ) (P : Pool) (sv : Server) (P' : Pool) (sv' : Server) : Prop where
  grows : GrowsBy i P P'
  kept : ∀ id data, sv.containers.lookup id = some data → sv'.containers.lookup id = some data
  saved : ∀ id data, sv'.containers.lookup id = some data →
    sv.containers.lookup id = some data ∨ P'.OwnedBy i id
  index : ∀ k a, sv.allChunks k = some a → sv'.allChunks k = some a
  published : ∀ k a, sv'.allChunks k = some a →
    sv.allChunks k = some a ∨ P'.OwnedBy i a.containerID
  drawn : sv.drawn ≤ sv'.drawn

variable {env : Env} {Good : Bytes → Bytes → Prop} {i j : ℕ} {P P' P'' : Pool}
  {sv sv' sv'' : Server} {live : List Container}

/-- The extent an address stands for has the size the address records. -/
theorem At.size {a : ChunkAddr} {x : Bytes} (h : P.At a x) : x.length = a.size.toNat := by
  obtain ⟨o, l, -, hlen, rfl⟩ := h
  rw [List.length_take, List.length_drop]
  omega

/-! ## Extending the store -/

namespace Extends

theorem refl (i : ℕ) (P : Pool) (sv : Server) : Extends i P sv P sv :=
  ⟨.refl i P, fun _ _ h => h, fun _ _ h => .inl h, fun _ _ h => h, fun _ _ h => .inl h, le_rfl⟩

/-- A container stays with its owner. -/
theorem ownedBy (h : GrowsBy i P P') {o : ℕ} {id : ContainerID} (hid : P.OwnedBy o id) :
    P'.OwnedBy o id := by
  obtain ⟨l, hl⟩ := hid
  obtain ⟨l', hl', -⟩ := h.kept id o l hl
  exact ⟨l', hl'⟩

theorem trans (h : Extends i P sv P' sv') (h' : Extends i P' sv' P'' sv'') :
    Extends i P sv P'' sv'' where
  grows := h.grows.trans h'.grows
  kept id data hd := h'.kept id data (h.kept id data hd)
  saved id data hd := by
    rcases h'.saved id data hd with hd | hd
    · rcases h.saved id data hd with hd | hd
      · exact .inl hd
      · exact .inr (ownedBy h'.grows hd)
    · exact .inr hd
  index k a hk := h'.index k a (h.index k a hk)
  published k a hk := by
    rcases h'.published k a hk with hk | hk
    · exact (h.published k a hk).imp_right (ownedBy h'.grows)
    · exact .inr hk
  drawn := h.drawn.trans h'.drawn

/-- A chunk stays where it is. -/
theorem at_ (h : Extends i P sv P' sv') {a : ChunkAddr} {x : Bytes} (ha : P.At a x) : P'.At a x :=
  Holds.mono h.grows ha

end Extends

/-- **The containers in memory of one session do not notice what another session does.** -/
theorem Owns.stable (h : Owns j P sv.containers live) (hne : j ≠ i)
    (hext : Extends i P sv P' sv') : Owns j P' sv'.containers live where
  backs C hC := by
    obtain ⟨hlog, hocc, hcap⟩ := h.backs C hC
    exact ⟨(hext.grows.foreign _ j _ hne).mpr hlog, hocc, hcap⟩
  nodup := h.nodup
  offDisk C hC := by
    cases hd : sv'.containers.lookup C.containerID with
    | none => rfl
    | some data =>
      rcases hext.saved _ data hd with hd | ⟨l, hl⟩
      · rw [h.offDisk C hC] at hd
        cases hd
      · have hlog := (hext.grows.foreign _ j _ hne).mpr (h.backs C hC).log
        rw [hl] at hlog
        exact absurd (Prod.mk.inj (Option.some.inj hlog)).1.symm hne
  located id l hl := by
    rcases h.located id l ((hext.grows.foreign id j l hne).mp hl) with h | h | h
    · exact .inl h
    · exact .inr (.inl (hext.kept id l h))
    · exact .inr (.inr h)

/-- So does a single container that is still referred to. -/
theorem Backs.stable {C : Container} (h : P.Backs j C) (hne : j ≠ i) (hgrows : GrowsBy i P P') :
    P'.Backs j C :=
  ⟨(hgrows.foreign _ j _ hne).mpr h.log, h.occupied, h.capacity⟩

/-! ## Moving bytes -/

/-- What only touches the registry or the recipes does not matter. -/
theorem Sound.of_eq (h : Sound env Good P sv) (hcontainers : sv'.containers = sv.containers)
    (hindex : sv'.allChunks = sv.allChunks) (hdrawn : sv'.drawn = sv.drawn) :
    Sound env Good P sv' :=
  ⟨hcontainers ▸ h.disk, hdrawn ▸ h.drawn, hindex ▸ h.index⟩

theorem Extends.of_eq (i : ℕ) (P : Pool) (hcontainers : sv'.containers = sv.containers)
    (hindex : sv'.allChunks = sv.allChunks) (hdrawn : sv'.drawn = sv.drawn) :
    Extends i P sv P sv' :=
  ⟨.refl i P, fun _ _ h => hcontainers ▸ h, fun _ _ h => .inl (hcontainers ▸ h),
    fun _ _ h => hindex ▸ h, fun _ _ h => .inl (hindex ▸ h), hdrawn ▸ le_rfl⟩

/-- The next id is the name of no container. -/
theorem Sound.fresh (h : Sound env Good P sv) (hfresh : env.FreshUpTo (sv.drawn + 1)) :
    P (env.uuid sv.drawn) = none ∧ sv.containers.lookup (env.uuid sv.drawn) = none := by
  have hnone : P (env.uuid sv.drawn) = none := by
    cases hP : P (env.uuid sv.drawn) with
    | none => rfl
    | some ol =>
      obtain ⟨k, hk, heq⟩ := h.drawn _ ol.1 ol.2 hP
      have := hfresh (Set.mem_Iio.mpr (Nat.lt_succ_self _)) (Set.mem_Iio.mpr (by omega)) heq
      omega
  refine ⟨hnone, ?_⟩
  cases hd : sv.containers.lookup (env.uuid sv.drawn) with
  | none => rfl
  | some data =>
    obtain ⟨o, ho⟩ := h.disk _ data hd
    rw [hnone] at ho
    cases ho

/-- **Opening a container.** -/
theorem Sound.opened (h : Sound env Good P sv) (sv' : Server)
    (hfresh : env.FreshUpTo (sv.drawn + 1))
    (hcontainers : sv'.containers = sv.containers) (hindex : sv'.allChunks = sv.allChunks)
    (hdrawn : sv'.drawn = sv.drawn + 1) (i : ℕ) :
    Sound env Good (P.opened (env.uuid sv.drawn) i) sv' ∧
      Extends i P sv (P.opened (env.uuid sv.drawn) i) sv' := by
  obtain ⟨hnone, -⟩ := h.fresh hfresh
  have hgrows := Logs.growsBy_opened (i := i) hnone
  refine ⟨⟨?_, ?_, ?_⟩, hgrows, ?_, ?_, ?_, ?_, by omega⟩
  · intro id data hd
    rw [hcontainers] at hd
    obtain ⟨o, ho⟩ := h.disk id data hd
    -- the drawn name is new, so no log and no file has it
    have hne : id ≠ env.uuid sv.drawn := by
      rintro rfl
      rw [hnone] at ho
      cases ho
    exact ⟨o, by rw [Logs.opened_of_ne hne, ho]⟩
  · intro id o l hl
    by_cases hid : id = env.uuid sv.drawn
    · exact ⟨sv.drawn, by omega, hid⟩
    · rw [Logs.opened_of_ne hid] at hl
      obtain ⟨k, hk, heq⟩ := h.drawn id o l hl
      exact ⟨k, by omega, heq⟩
  · intro k a hk
    rw [hindex] at hk
    obtain ⟨hash, x, hlen, hkey, hne, hat, hgood⟩ := h.index k a hk
    exact ⟨hash, x, hlen, hkey, hne, hat.mono hgrows, hgood⟩
  · exact fun id data hd => hcontainers ▸ hd
  · exact fun id data hd => .inl (hcontainers ▸ hd)
  · exact fun k a hk => hindex ▸ hk
  · exact fun k a hk => .inl (hindex ▸ hk)

theorem Owns.opened (h : Owns i P sv.containers live) (hs : Sound env Good P sv)
    (hfresh : env.FreshUpTo (sv.drawn + 1)) :
    Owns i (P.opened (env.uuid sv.drawn) i) sv.containers
      (live ++ [⟨env.uuid sv.drawn, 0, CONTAINERSIZE, []⟩]) := by
  obtain ⟨hnone, hdisk⟩ := hs.fresh hfresh
  have hne : ∀ C ∈ live, C.containerID ≠ env.uuid sv.drawn := by
    intro C hC heq
    have hlog := (h.backs C hC).log
    rw [heq, hnone] at hlog
    cases hlog
  refine ⟨?_, ?_, ?_, ?_⟩
  · intro C hC
    rcases List.mem_append.mp hC with hC | hC
    · obtain ⟨hlog, hocc, hcap⟩ := h.backs C hC
      exact ⟨by rw [Logs.opened_of_ne (hne C hC), hlog], hocc, hcap⟩
    · rw [List.mem_singleton.mp hC]
      exact ⟨Logs.opened_self, rfl, Nat.zero_add _⟩
  · rw [List.map_append, List.nodup_append]
    refine ⟨h.nodup, by simp, ?_⟩
    intro id hid id' hid'
    obtain ⟨C, hC, rfl⟩ := List.mem_map.mp hid
    rw [List.map_singleton, List.mem_singleton] at hid'
    rw [hid']
    exact hne C hC
  · intro C hC
    rcases List.mem_append.mp hC with hC | hC
    · exact h.offDisk C hC
    · rw [List.mem_singleton.mp hC]
      exact hdisk
  -- the new container is held, every other one is where it was
  · intro id l hl
    by_cases hid : id = env.uuid sv.drawn
    · exact .inr (.inr ⟨_, List.mem_append_right _ (List.mem_singleton_self _), hid.symm⟩)
    · rw [Logs.opened_of_ne hid] at hl
      rcases h.located id l hl with h | h | ⟨C, hC, hCid⟩
      · exact .inl h
      · exact .inr (.inl h)
      · exact .inr (.inr ⟨C, List.mem_append_left _ hC, hCid⟩)

/-- **Appending to a container in memory.** -/
theorem Sound.appended (h : Sound env Good P sv) {C : Container}
    (hlog : P C.containerID = some (i, C.data))
    (hdisk : sv.containers.lookup C.containerID = none) (x : Bytes) :
    Sound env Good (P.appended C.containerID i C.data x) sv ∧
      Extends i P sv (P.appended C.containerID i C.data x) sv := by
  have hgrows : GrowsBy i P (P.appended C.containerID i C.data x) := Logs.growsBy_appended hlog
  refine ⟨⟨?_, ?_, ?_⟩, hgrows, fun _ _ h => h, fun _ _ h => .inl h, fun _ _ h => h,
    fun _ _ h => .inl h, le_rfl⟩
  · intro id data hd
    have hne : id ≠ C.containerID := by
      rintro rfl
      rw [hdisk] at hd
      cases hd
    obtain ⟨o, ho⟩ := h.disk id data hd
    exact ⟨o, by rw [Logs.appended_of_ne hne, ho]⟩
  · intro id o l hl
    by_cases hid : id = C.containerID
    · subst hid
      exact h.drawn _ i _ hlog
    · rw [Logs.appended_of_ne hid] at hl
      exact h.drawn id o l hl
  · intro k a hk
    obtain ⟨hash, y, hlen, hkey, hne, hat, hgood⟩ := h.index k a hk
    exact ⟨hash, y, hlen, hkey, hne, hat.mono hgrows, hgood⟩

/-- A chunk that fits is appended without any wrap-around. -/
theorem Backs.append {C : Container} (h : P.Backs i C) {x : Bytes} (hx : x.length ≤ C.capacity) :
    C.append x x.length = ⟨C.containerID, C.occupied + x.length, C.capacity - x.length,
      C.data ++ x⟩ :=
  Container.Counted.append ⟨h.occupied, h.capacity⟩ hx

theorem Owns.appended {before : List Container} {C : Container}
    (h : Owns i P sv.containers (before ++ [C])) {x : Bytes} (hx : x.length ≤ C.capacity) :
    Owns i (P.appended C.containerID i C.data x) sv.containers
      (before ++ [C.append x x.length]) := by
  have hC := h.backs C (List.mem_append_right _ (List.mem_singleton_self _))
  have happend := hC.append hx
  have hid : (C.append x x.length).containerID = C.containerID := by rw [happend]
  have hmap : (before ++ [C.append x x.length]).map (·.containerID)
      = (before ++ [C]).map (·.containerID) := by simp [hid]
  -- only the last container grows, and the others have other names
  have hne : ∀ D ∈ before, D.containerID ≠ C.containerID := by
    intro D hD heq
    have hnodup := h.nodup
    rw [List.map_append, List.nodup_append] at hnodup
    exact hnodup.2.2 _ (List.mem_map_of_mem hD) _ (List.mem_singleton_self _) heq
  refine ⟨?_, by rw [hmap]; exact h.nodup, ?_, ?_⟩
  · intro D hD
    rcases List.mem_append.mp hD with hD | hD
    · obtain ⟨hlog, hocc, hcap⟩ := h.backs D (List.mem_append_left _ hD)
      exact ⟨by rw [Logs.appended_of_ne (hne D hD), hlog], hocc, hcap⟩
    · rw [List.mem_singleton.mp hD, happend]
      have hocc := hC.occupied
      have hcap := hC.capacity
      exact ⟨Logs.appended_self, by simp [hocc], by dsimp only; omega⟩
  · intro D hD
    rcases List.mem_append.mp hD with hD | hD
    · exact h.offDisk D (List.mem_append_left _ hD)
    · rw [List.mem_singleton.mp hD, hid]
      exact h.offDisk C (List.mem_append_right _ (List.mem_singleton_self _))
  · intro id l hl
    by_cases hid' : id = C.containerID
    · exact .inr (.inr ⟨_, List.mem_append_right _ (List.mem_singleton_self _),
        hid.trans hid'.symm⟩)
    · rw [Logs.appended_of_ne hid'] at hl
      rcases h.located id l hl with h | h | ⟨D, hD, hDid⟩
      · exact .inl h
      · exact .inr (.inl h)
      · rcases List.mem_append.mp hD with hD | hD
        · exact .inr (.inr ⟨D, List.mem_append_left _ hD, hDid⟩)
        · rw [List.mem_singleton.mp hD] at hDid
          exact absurd hDid.symm hid'

/-- **Saving a container.** -/
theorem Sound.saved (h : Sound env Good P sv) {C : Container} (hC : P.Backs i C)
    (hdisk : sv.containers.lookup C.containerID = none) :
    Sound env Good P (Conn.saveContainer sv C) ∧ Extends i P sv P (Conn.saveContainer sv C) := by
  have htake : C.data.take C.occupied = C.data := by rw [hC.occupied, List.take_length]
  -- after the save the file is what the container held, the other files are as before
  have hlookup : ∀ id data, (Conn.saveContainer sv C).containers.lookup id = some data →
      (id = C.containerID ∧ data = C.data) ∨
        (id ≠ C.containerID ∧ sv.containers.lookup id = some data) := by
    intro id data hd
    by_cases hid : id = C.containerID
    · subst hid
      rw [Conn.saveContainer, AList.lookup_insert, htake] at hd
      exact .inl ⟨rfl, (Option.some.inj hd).symm⟩
    · rw [Conn.saveContainer, AList.lookup_insert_ne hid] at hd
      exact .inr ⟨hid, hd⟩
  refine ⟨⟨?_, h.drawn, h.index⟩, .refl i P, ?_, ?_, fun _ _ h => h, fun _ _ h => .inl h, le_rfl⟩
  · intro id data hd
    rcases hlookup id data hd with ⟨rfl, rfl⟩ | ⟨-, hd⟩
    · exact ⟨i, hC.log⟩
    · exact h.disk id data hd
  · intro id data hd
    -- the container was not on the disk, so no file is overwritten
    have hid : id ≠ C.containerID := by
      rintro rfl
      rw [hdisk] at hd
      cases hd
    rw [Conn.saveContainer, AList.lookup_insert_ne hid, hd]
  · intro id data hd
    rcases hlookup id data hd with ⟨rfl, -⟩ | ⟨-, hd⟩
    · exact .inr ⟨C.data, hC.log⟩
    · exact .inl hd

theorem Owns.saved {C : Container} (h : Owns i P sv.containers (C :: live)) :
    Owns i P (Conn.saveContainer sv C).containers live := by
  have hC := h.backs C List.mem_cons_self
  have htake : C.data.take C.occupied = C.data := by rw [hC.occupied, List.take_length]
  have hnodup := h.nodup
  rw [List.map_cons, List.nodup_cons] at hnodup
  refine ⟨fun D hD => h.backs D (List.mem_cons_of_mem _ hD), hnodup.2, ?_, ?_⟩
  · intro D hD
    have hne : D.containerID ≠ C.containerID := fun heq =>
      hnodup.1 (heq ▸ List.mem_map_of_mem hD)
    rw [Conn.saveContainer, AList.lookup_insert_ne hne]
    exact h.offDisk D (List.mem_cons_of_mem _ hD)
  · intro id l hl
    -- the log moves from the held containers to the saved ones
    by_cases hid : id = C.containerID
    · subst hid
      rw [hC.log] at hl
      obtain ⟨-, rfl⟩ := Prod.mk.inj (Option.some.inj hl)
      exact .inr (.inl (by rw [Conn.saveContainer, AList.lookup_insert, htake]))
    · rw [Conn.saveContainer, AList.lookup_insert_ne hid]
      rcases h.located id l hl with h | h | ⟨D, hD, hDid⟩
      · exact .inl h
      · exact .inr (.inl h)
      · rcases List.mem_cons.mp hD with rfl | hD
        · exact absurd hDid.symm hid
        · exact .inr (.inr ⟨D, hD, hDid⟩)

/-- An empty container in memory may be dropped. -/
theorem Owns.dropped {before : List Container} {C : Container}
    {disk : Directory ContainerID} (h : Owns i P disk (before ++ [C])) (hC : C.occupied = 0) :
    Owns i P disk before := by
  have hback := h.backs C (List.mem_append_right _ (List.mem_singleton_self _))
  have hnodup := h.nodup
  rw [List.map_append, List.nodup_append] at hnodup
  refine ⟨fun D hD => h.backs D (List.mem_append_left _ hD), hnodup.1,
    fun D hD => h.offDisk D (List.mem_append_left _ hD), ?_⟩
  intro id l hl
  rcases h.located id l hl with h | h | ⟨D, hD, hDid⟩
  · exact .inl h
  · exact .inr (.inl h)
  · rcases List.mem_append.mp hD with hD | hD
    · exact .inr (.inr ⟨D, hD, hDid⟩)
    · rw [List.mem_singleton.mp hD] at hDid
      subst hDid
      rw [hback.log] at hl
      obtain ⟨-, rfl⟩ := Prod.mk.inj (Option.some.inj hl)
      exact .inl (List.length_eq_zero_iff.mp (hback.occupied ▸ hC))

/-- **Publishing an address** of bytes that are in the pool. -/
theorem Sound.published (h : Sound env Good P sv) {hash x : Bytes} {a : ChunkAddr}
    (hlen : hash.length = HASHSIZE) (hx : x ≠ []) (hat : P.At a x) (hgood : Good hash x)
    (hown : P.OwnedBy i a.containerID) :
    Sound env Good P (sv.addChunk (convertArrayHashToString hash) a) ∧
      Extends i P sv P (sv.addChunk (convertArrayHashToString hash) a) := by
  -- `insert` of a map keeps what is there: an old key is not overwritten
  have hnew : ∀ k b, (sv.addChunk (convertArrayHashToString hash) a).allChunks k = some b →
      sv.allChunks k = some b ∨ (k = convertArrayHashToString hash ∧ b = a) := by
    intro k b hk
    rw [Server.addChunk_allChunks] at hk
    cases hold : sv.allChunks k with
    | some b' =>
      rw [hold, Option.some_or] at hk
      exact .inl hk
    | none =>
      rw [hold, Option.none_or] at hk
      split at hk
      · rename_i hkey
        exact .inr ⟨hkey, (Option.some.inj hk).symm⟩
      · cases hk
  refine ⟨⟨by simpa using h.disk, by simpa using h.drawn, ?_⟩,
    .refl i P, by simp, fun id data hd => .inl (by simpa using hd), ?_, ?_, by simp⟩
  · intro k b hk
    rcases hnew k b hk with hk | ⟨hkey, rfl⟩
    · exact h.index k b hk
    · exact ⟨hash, x, hlen, hkey, hx, hat, hgood⟩
  · intro k b hk
    rw [Server.addChunk_allChunks, hk, Option.some_or]
  · intro k b hk
    rcases hnew k b hk with hk | ⟨-, rfl⟩
    · exact .inl hk
    · exact .inr hown

end Pool

end DedupServer
