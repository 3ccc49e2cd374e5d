import DedupServer.Store.Retrieve

/-! # What recipe files consist of

Two uploads with the same recipe file write to it at the same time, and neither notices. Even then
the file is a count followed by records (`Records`): every record is the address of an extent
in some container, or a hole, which reads as an empty extent. So what `send_file` sends depends on
the containers of the records only (`Conn.sentBytes_of_records`). -/

namespace DedupServer

open Foundations

variable {env : Env} {S : Set Bytes} {hcf : env.CollisionFreeOn S} {s s' : Session}
  {sv sv' : Server} {P P' : Pool} {Q Q' : ChunkAddr → Prop} {file : Bytes}

/-! ## Records -/

/-- The record a hole in a recipe file reads as. -/
def holeAddr : ChunkAddr := ⟨⟨[], List.not_mem_nil, by decide⟩, 0, 0⟩

theorem encodeEntries_holes (n : ℕ) :
    encodeEntries (List.replicate n holeAddr) = List.replicate (sizeofChunkAddr * n) 0 := by
  induction n with
  | zero => rfl
  | succ n ih =>
    have hhole : encodeChunkAddr holeAddr = List.replicate sizeofChunkAddr 0 := by decide
    rw [List.replicate_succ, encodeEntries, List.flatMap_cons, hhole]
    rw [encodeEntries] at ih
    rw [ih, ← List.replicate_add, Nat.mul_succ, Nat.add_comm]

/-- **A recipe file**: a count and records that satisfy `Q`. -/
def Records (Q : ChunkAddr → Prop) (file : Bytes) : Prop :=
  ∃ n as, file = encodeTotalChunkNum n ++ encodeEntries as ∧ ∀ a ∈ as, Q a

theorem Records.mono (h : Records Q file) (hQ : ∀ a, Q a → Q' a) : Records Q' file := by
  obtain ⟨n, as, rfl, has⟩ := h
  exact ⟨n, as, rfl, fun a ha => hQ a (has a ha)⟩

/-- Writing into a missing file is writing into one with a zero count. -/
theorem writeAt_nil {pos : ℕ} (hpos : 4 ≤ pos) (bs : Bytes) :
    writeAt [] pos bs = writeAt (encodeTotalChunkNum 0) pos bs := by
  have hcount : encodeTotalChunkNum 0 = List.replicate 4 0 := by decide
  have hfill : ([] : Bytes) ++ List.replicate (pos - ([] : Bytes).length) 0
      = encodeTotalChunkNum 0 ++ List.replicate (pos - (encodeTotalChunkNum 0).length) 0 := by
    rw [hcount, List.length_replicate, ← List.replicate_add, List.nil_append, List.length_nil]
    congr 1
    omega
  rw [writeAt, writeAt, hfill]

/-- **Records written at the position of a record** make records, wherever the file ended. -/
theorem Records.writeAt (h : file = [] ∨ Records Q file) (hhole : Q holeAddr) {bs : List ChunkAddr}
    (hbs : ∀ b ∈ bs, Q b) (k : ℕ) :
    Records Q (writeAt file (4 + sizeofChunkAddr * k) (encodeEntries bs)) := by
  -- on a file of records, writing behind its end leaves zeros, which are records of the hole
  have hkey : ∀ n as, (∀ a ∈ as, Q a) → Records Q (DedupServer.writeAt
      (encodeTotalChunkNum n ++ encodeEntries as) (4 + sizeofChunkAddr * k) (encodeEntries bs)) := by
    intro n as has
    let as' := as ++ List.replicate (k - as.length) holeAddr
    have hfill : encodeTotalChunkNum n ++ encodeEntries as ++
        List.replicate (4 + sizeofChunkAddr * k -
          (encodeTotalChunkNum n ++ encodeEntries as).length) 0
          = encodeTotalChunkNum n ++ encodeEntries as' := by
      rw [encodeEntries_append, encodeEntries_holes, List.append_assoc, List.length_append,
        length_encodeTotalChunkNum, length_encodeEntries, Nat.mul_sub, Nat.add_sub_add_left]
    have hlen := length_encodeTotalChunkNum n
    refine ⟨n, as'.take k ++ bs ++ as'.drop (k + bs.length), ?_, fun a ha => ?_⟩
    · rw [DedupServer.writeAt, hfill, overwrite, ← hlen, List.take_length_add_append,
        length_encodeEntries, Nat.add_assoc, List.drop_length_add_append, ← Nat.mul_add,
        Conn.take_encodeEntries, Conn.drop_encodeEntries, encodeEntries_append,
        encodeEntries_append, List.append_assoc, List.append_assoc, List.append_assoc]
    · have has' : ∀ a ∈ as', Q a := by
        intro a ha
        rcases List.mem_append.mp ha with ha | ha
        · exact has a ha
        · rw [(List.mem_replicate.mp ha).2]
          exact hhole
      rcases List.mem_append.mp ha with ha | ha
      · rcases List.mem_append.mp ha with ha | ha
        · exact has' a (List.mem_of_mem_take ha)
        · exact hbs a ha
      · exact has' a (List.mem_of_mem_drop ha)
  -- a file that does not exist yet behaves as one of no records
  rcases h with rfl | ⟨n, as, rfl, has⟩
  · have := hkey 0 [] (by simp)
    rw [writeAt_nil (by omega)]
    simpa using this
  · exact hkey n as has

/-- The count may be patched. -/
theorem Records.patched (h : file = [] ∨ Records Q file) (n : ℕ) :
    Records Q (DedupServer.writeAt file 0 (encodeTotalChunkNum n)) := by
  rcases h with rfl | ⟨m, as, rfl, has⟩
  · exact ⟨n, [], by simp [DedupServer.writeAt, overwrite], by simp⟩
  · exact ⟨n, as, writeAt_zero (by simp), has⟩

/-! ## What is sent -/

namespace Conn

variable {name : Bytes} {as : List ChunkAddr}

/-- **The loop of `send_file` depends on the extents of the records only.** -/
theorem sendLoop_of_records (hfile : sv.recipes.lookup name = some file)
    (hfile' : sv'.recipes.lookup name = some file)
    (h : ∀ a ∈ as, extentOnDisk sv' a = extentOnDisk sv a) {pos : ℕ}
    (hpos : file.drop pos = encodeEntries as) (n : ℕ) (outData : Bytes)
    (outHeader : DataMsgHeader) :
    sendLoop sv' name n outData outHeader (some pos)
      = sendLoop sv name n outData outHeader (some pos) := by
  induction n generalizing as pos outData outHeader with
  | zero => rfl
  | succ n ih =>
    have hblock : ∀ sv : Server, sv.recipes.lookup name = some file →
        readRecipe sv name (some pos) = encodeEntries (as.take BATCHSIZE) := by
      intro sv hfile
      rw [readRecipe, hfile, Option.getD_some, hpos, recipeBlockSize, take_encodeEntries]
    have hfold : ∀ (bs : List ChunkAddr) (st : Bytes × ℕ), (∀ b ∈ bs, b ∈ as) →
        bs.foldl (readExtent sv') st = bs.foldl (readExtent sv) st := by
      intro bs
      induction bs with
      | nil => exact fun _ _ => rfl
      | cons b bs ihb =>
        intro st hbs
        rw [List.foldl_cons, List.foldl_cons, ihb _ fun c hc => hbs c (List.mem_cons_of_mem _ hc)]
        congr 1
        rw [readExtent, readExtent, h b (hbs b List.mem_cons_self)]
    have hsame : sendBlock sv' name outData outHeader (some pos)
        = sendBlock sv name outData outHeader (some pos) := by
      unfold sendBlock
      rw [hblock sv' hfile', hblock sv hfile]
      dsimp only
      rw [blockEntries_encodeEntries, hfold _ _ fun b hb => List.mem_of_mem_take hb]
    simp only [sendLoop, hsame]
    cases hs : sendBlock sv name outData outHeader (some pos) with
    | none => rfl
    | some r =>
      obtain ⟨outData', outHeader', next, msg⟩ := r
      simp only [List.cons.injEq, true_and]
      -- the rest of the recipe, if there is one
      simp only [sendBlock, hblock sv hfile] at hs
      split at hs
      · cases hs
      · simp only [Option.some.injEq, Prod.mk.injEq] at hs
        obtain ⟨-, -, rfl, -⟩ := hs
        split_ifs
        · have hdrop : ∀ a ∈ as.drop BATCHSIZE, extentOnDisk sv' a = extentOnDisk sv a :=
            fun a ha => h a (List.mem_of_mem_drop ha)
          refine ih hdrop ?_ _ _
          rw [← List.drop_drop, hpos, recipeBlockSize, drop_encodeEntries]
        · simp

/-- **`send_file` sends the same bytes** when the recipe and the extents of its records are the
same. -/
theorem sentBytes_of_records (hfile : sv.recipes.lookup name = some file)
    (hfile' : sv'.recipes.lookup name = some file)
    (h : Records (fun a => extentOnDisk sv' a = extentOnDisk sv a) file) (outData : Bytes) :
    sentBytes sv' name outData = sentBytes sv name outData := by
  obtain ⟨n, as, rfl, has⟩ := h
  have hopen : ∀ sv : Server, sv.recipes.lookup name
      = some (encodeTotalChunkNum n ++ encodeEntries as) → openRecipe sv name = some 4 := by
    intro sv hfile
    rw [openRecipe, hfile]
    simp
  have hrest : recipeRest sv' name (some 4) = recipeRest sv name (some 4) := by
    rw [recipeRest, recipeRest, hfile, hfile']
  rw [sentBytes, sentBytes, remaining, remaining, hopen sv hfile, hopen sv' hfile', hrest,
    sendLoop_of_records hfile hfile' has (List.drop_left' (by simp))]

end Conn

/-! ## The recipes of a sound store -/

/-- The address is that of an extent in some container, or of a hole. -/
def Pool.Knows (P : Pool) (a : ChunkAddr) : Prop :=
  a.size = 0 ∨ ∃ o l, P a.containerID = some (o, l)

/-- **All recipe files consist of records the pool knows.** -/
def Pool.Recipes (P : Pool) (sv : Server) : Prop :=
  ∀ path file, sv.recipes.lookup path = some file → Records P.Knows file

/-- Only the recipe writer changes recipe files. -/
theorem Moves.recipes_or (h : Moves env sv s sv' s') :
    sv'.recipes = sv.recipes ∨
      ∃ c, s' = { s with conn := c } ∧ s.conn.recipeWriterStep sv = some (sv', c) := by
  cases h with
  | client => exact .inl rfl
  | server hserved =>
    cases hserved with
    | quiet | unique | refuse | accept | register | fileEnd | reset => exact .inl rfl
    | body hpc hup hupl hfits honest hrun =>
      obtain ⟨st', new, hrun', hext, -⟩ := Conn.exists_receiveBody env sv hupl.asked hfits
      obtain rfl := Option.some.inj (hrun.symm.trans hrun')
      exact .inl hext.recipes
  | dataWriter hstep =>
    obtain ⟨-, -, -, -, rfl, -⟩ | ⟨-, -, -, rfl, -⟩ | ⟨-, -, rfl, -⟩ :=
      Conn.dataWriterStep_cases hstep
    all_goals exact .inl rfl
  | recipeWriter hstep => exact .inr ⟨_, rfl, hstep⟩

/-- **The recipe writer writes records**: if `Q` holds of holes and of the entries of the upload, it
still holds of all records. -/
theorem Records.recipeWriter (h : ∀ path file, sv.recipes.lookup path = some file → Records Q file)
    (hhole : Q holeAddr) (hphase : Phase env s) (hentries : s.Accepted → ∀ a ∈ s.conn.entries, Q a)
    {c : Conn} (hstep : s.conn.recipeWriterStep sv = some (sv', c)) :
    ∀ path file, sv'.recipes.lookup path = some file → Records Q file := by
  obtain ⟨hidle, hjoined⟩ := Conn.not_dormant_of_recipeWriterStep hstep
  obtain ⟨hwriting, -, hacc⟩ := hphase.writing hidle hjoined
  obtain ⟨fileEnd, hwriting⟩ : ∃ fileEnd, s.conn.Writing fileEnd := by
    rcases hwriting with ⟨-, hw⟩ | ⟨-, hw⟩
    · exact ⟨_, hw⟩
    · exact ⟨_, hw⟩
  have hold : (sv.recipes.lookup s.conn.recipeNameHash).getD [] = [] ∨
      Records Q ((sv.recipes.lookup s.conn.recipeNameHash).getD []) := by
    cases hl : sv.recipes.lookup s.conn.recipeNameHash with
    | none => exact .inl rfl
    | some file => exact .inr (h _ _ hl)
  -- saving under the connection's own name leaves the other files as they were
  have hsaved : ∀ content, Records Q content → ∀ path file,
      (Conn.saveRecipe sv s.conn.recipeNameHash content).recipes.lookup path = some file →
        Records Q file := by
    intro content hcontent path file hfile
    by_cases hpath : path = s.conn.recipeNameHash
    · subst hpath
      rw [Conn.saveRecipe, AList.lookup_insert] at hfile
      obtain rfl := Option.some.inj hfile
      exact hcontent
    · rw [Conn.saveRecipe, AList.lookup_insert_ne hpath] at hfile
      exact h path file hfile
  have hrec := hwriting.recipe
  obtain ⟨hw, rfl, rfl⟩ | ⟨pos, total, r, rest, hw, -, rfl, rfl⟩ | ⟨pos, total, hw, -, -, rfl, rfl⟩ |
    ⟨pos, total, r, hw, rfl, rfl⟩ := Conn.recipeWriterStep_cases hstep
  -- the four steps of the writer: create the file, fetch a block, patch the count, write a block
  · exact hsaved _ ⟨0, [], by simp, by simp⟩
  · exact h
  · exact hsaved _ (Records.patched hold total)
  · rw [hw] at hrec
    obtain ⟨rfl, -⟩ := hrec
    refine hsaved _ (Records.writeAt hold hhole (fun b hb => hentries hacc b ?_) _)
    simp [Conn.entries, hw, RecipeWriter.held, hb]

/-- The entries of a tracked session are addresses in containers. -/
theorem Policy.Local.knows {π : Policy env} {i : ℕ} (h : π.Local i P sv s) (ht : i ∈ π.tracked)
    (hacc : s.Accepted) : ∀ a ∈ s.conn.entries, P.Knows a := by
  intro a ha
  obtain ⟨n, hn⟩ := List.mem_iff_getElem?.mp ha
  obtain ⟨x, -, ⟨o, l, hl, -⟩, -⟩ := exists_getElem?_of_forall₂ (h.refs ht hacc).entries hn
  exact .inr ⟨o, l, hl⟩

/-- The pool does not forget. -/
theorem Pool.Recipes.mono (h : P.Recipes sv)
    (hlogs : ∀ id o l, P id = some (o, l) → ∃ l', P' id = some (o, l')) : P'.Recipes sv :=
  fun path file hfile => (h path file hfile).mono fun _ ha => ha.imp_right fun ⟨o, l, hl⟩ =>
    ⟨o, hlogs _ o l hl⟩

/-- **The recipes are records in every state that honest clients can reach.** -/
theorem State.exists_recipes (hcf : env.CollisionFreeOn S) {τ : State}
    (hr : Reaches (sessions env) (DedupServer.honest env S) State.init τ)
    (hfresh : env.FreshUpTo τ.shared.drawn) :
    ∃ P, (Policy.honest hcf).ownership.Inv P τ ∧ P.Recipes τ.shared := by
  have hallows := (Policy.honest hcf).reaches_allows
    -- the pool and the files are carried along the run together, each extension keeps the old logs
    (I := fun σ : State => σ.InPhase env ∧ σ.Honest env S)
    (fun σ ℓ υ h hs hok => ⟨h.1.step hs, h.2.step h.1 hs hok⟩) (fun _ _ _ _ => Set.mem_univ _)
    (fun σ υ i a s h _ hs => h.2.admits hcf hs) (State.inPhase_init env)
    ⟨State.inPhase_init env, fun i s hs => by cases hs⟩ hr hfresh
  refine hallows.invariant
    (I := fun σ : State => ∃ P, (Policy.honest hcf).ownership.Inv P σ ∧ P.Recipes σ.shared)
    (fun σ ℓ υ h hs hok => ?_) ⟨_, Policy.inv_init _, fun _ _ hfile => by cases hfile⟩
  obtain ⟨P, hinv, hrec⟩ := h
  obtain ⟨P', hext, hinv'⟩ := hinv.step hs hok
  have hlogs : ∀ id o l, P id = some (o, l) → ∃ l', P' id = some (o, l') := fun id o l hl =>
    (hext.grows.kept id o l hl).imp fun _ h => h.1
  refine ⟨P', hinv', ?_⟩
  cases hs with
  | spawn hnone => exact hrec.mono hlogs
  | @act i a l l' sh hl hact =>
    obtain ⟨hphase, -⟩ := hok.2.2 i a rfl l hl
    -- either the files are untouched or the recipe writer of one connection has written its own
    rcases (hphase.act hact).2.recipes_or with hsame | ⟨c, -, hstep⟩
    · intro path file hfile
      rw [Config.moved_shared, hsame] at hfile
      exact hrec.mono hlogs path file hfile
    · have hsaved : P.Recipes _ := Records.recipeWriter hrec (.inl rfl) hphase
        (fun hacc => (hinv.loc i l hl).knows (Set.mem_univ i) hacc) hstep
      exact hsaved.mono hlogs

end DedupServer
