import DedupServer.Alone.Download
import DedupServer.Store.Returned

/-! # An upload that runs alone

An honest client uploads a file while nobody else does anything. What it finds on the server may be
the work of anybody, finished or abandoned, honest or not: all that matters is that the addresses
the index has for chunks of the file are addresses of these chunks on disk (`Server.Keeps`). Then
the recipe of the upload is complete (`Completes.upload`), and a download gives the file back
(`Completes.downloaded`). -/

namespace DedupServer

open Foundations

variable {env : Env} {i j : ℕ} {arg arg' : Arg} {σ τ υ : State} {s : Session} {P : Pool}
  {X : Set Bytes}

/-! ## Trusting nobody but one session -/

/-- **The policy that trusts nobody**: anything may be stored under any hash. -/
def Policy.lax (env : Env) : Policy env where
  Good _ _ := True
  movers := Set.univ
  tracked := ∅
  chunks := ∅
  good_of_mem _ _ := trivial
  eq_of_good _ hx := hx.elim

/-- **The policy of a session that runs alone**: no other chunk is stored under the hash of one of
its own. -/
def Policy.alone (i : ℕ) (hcf : env.CollisionFreeOn X) : Policy env where
  Good h x := ∀ y ∈ X, env.generateHash y = h → x = y
  movers := {i}
  tracked := {i}
  chunks := X
  good_of_mem _ hx _ hy heq := (hcf hy hx heq).symm
  eq_of_good x hx _ hgood := hgood x hx rfl

/-- **The containers belong to their sessions** in every state that can be reached, whatever the
clients do. -/
theorem State.exists_lax {ok : Condition} (hr : Reaches (sessions env) ok State.init σ)
    (hfresh : env.FreshUpTo σ.shared.drawn) : ∃ P, (Policy.lax env).ownership.Inv P σ := by
  have hallows := (Policy.lax env).reaches_allows (I := fun _ => True) (fun _ _ _ _ _ _ => trivial)
    (fun _ _ _ _ => Set.mem_univ _)
    (fun _ _ i _ _ _ _ _ => ⟨fun h => h.elim, fun h => h.elim, fun _ _ _ => trivial⟩)
    (State.inPhase_init env) trivial hr hfresh
  obtain ⟨P, -, hinv⟩ := (Policy.inv_init (Policy.lax env)).reaches
    (r := fun _ _ _ _ => True) (fun _ _ => trivial) (fun _ _ => trivial) (fun _ _ => trivial) hallows
  exact ⟨P, hinv⟩

/-- **What the index has for a chunk of `X` is that chunk**, on disk. -/
def Server.Keeps (env : Env) (X : Set Bytes) (sv : Server) : Prop :=
  ∀ x ∈ X, ∀ a, sv.allChunks (convertArrayHashToString (env.generateHash x)) = some a →
    Conn.OnDisk sv a ∧ Conn.extentOnDisk sv a = x

/-- An extent that is not empty is in a container on disk. -/
theorem Conn.mem_containers_of_extentOnDisk {sv : Server} {a : ChunkAddr}
    (h : Conn.extentOnDisk sv a ≠ []) : a.containerID ∈ sv.containers := by
  rw [← AList.lookup_isSome]
  cases hl : sv.containers.lookup a.containerID with
  | some data => rfl
  | none => simp [Conn.extentOnDisk, hl] at h

/-- **A new session can be trusted** with chunks that are kept. -/
theorem Policy.alone_inv (hcf : env.CollisionFreeOn X) (h : (Policy.lax env).ownership.Inv P σ)
    (hfresh : σ.locals i = none) (hkeeps : σ.shared.Keeps env X) :
    (Policy.alone i hcf).ownership.Inv P σ where
  glob := by
    refine ⟨h.glob.disk, h.glob.drawn, fun k a hk => ?_⟩
    obtain ⟨hash, x, hlen, hkey, hx, hat, -⟩ := h.glob.index k a hk
    refine ⟨hash, x, hlen, hkey, hx, hat, fun y hy heq => ?_⟩
    rw [hkey, ← heq] at hk
    obtain ⟨hdisk, hextent⟩ := hkeeps y hy a hk
    have hne : Conn.extentOnDisk σ.shared a ≠ [] := by
      rw [← List.length_pos_iff, hdisk, ← Pool.At.size hat, List.length_pos_iff]
      exact hx
    rw [← hextent]
    exact (h.glob.extentOnDisk_eq hat (Conn.mem_containers_of_extentOnDisk hne)).2.symm
  loc j t ht := by
    have hne : j ≠ i := by
      rintro rfl
      rw [hfresh] at ht
      cases ht
    obtain ⟨howns, hbuffer, -, -⟩ := h.loc j t ht
    exact ⟨howns, hbuffer, fun hj => absurd hj hne, fun hj => absurd hj hne⟩
  idle := h.idle

/-- **A lone upload keeps to the policy.** -/
theorem Completes.allows (h : Completes env i arg σ τ) (hphase : σ.InPhase env)
    (hrogue : arg.rogue = false) (hop : arg.op = 117) (hcf : env.CollisionFreeOn X)
    (hX : ∀ x ∈ fileChunks env arg.file, x ∈ X) (hfresh : env.FreshUpTo τ.shared.drawn) :
    Reaches (sessions env) (Policy.alone i hcf).allows σ τ := by
  obtain ⟨-, -, hrogue', hupl, -⟩ := Session.connect_client env σ.shared arg
  refine .head ⟨.spawn i arg, .spawn h.fresh, ?_⟩ ?_
  · have hphase' : (σ.joined env i arg).InPhase env := hphase.step (.spawn h.fresh)
    refine ⟨hfresh.mono (hphase'.grows h.run).drawn, rfl, ?_⟩
    rintro j a ⟨⟩
  · have hphase' : (σ.joined env i arg).InPhase env := hphase.step (.spawn h.fresh)
    -- the invariant says that the session is still the one that has joined, with its file
    refine (Policy.alone i hcf).reaches_allows
      (I := fun υ : State => υ.InPhase env ∧ ∃ t, υ.locals i = some t ∧
        (Session.connect env σ.shared arg).2.Kept t)
      (fun υ ℓ υ' hυ hs hok => ?_) (fun υ ℓ υ' hok => ?_) (fun υ υ' j a t hυ hok ht => ?_) hphase'
      ⟨hphase', _, Config.moved_locals_self _ _ _ _, .refl _⟩ h.run hfresh
    · obtain ⟨hphase, t, ht, hkept⟩ := hυ
      obtain ⟨t', ht', hkept'⟩ := hphase.kept_step hs ht
      exact ⟨hphase.step hs, t', ht', hkept.trans hkept'⟩
    · obtain ⟨a, rfl⟩ := hok
      exact rfl
    · obtain ⟨hphase, t', ht', hkept⟩ := hυ
      obtain ⟨b, hb⟩ := hok
      cases hb
      obtain rfl := Option.some.inj (ht.symm.trans ht')
      refine ⟨fun _ => (hkept.rogue.trans hrogue').trans hrogue, fun _ _ x hx => hX x ?_,
        fun hj => absurd rfl hj⟩
      rw [hkept.file (hupl hop).1, (hupl hop).2] at hx
      exact hx

/-! ## The upload and the download -/

/-- **The file is on the server**: it is registered, and its recipe and the extents of its chunks
are on disk. -/
structure Server.HasFile (env : Env) (sv : Server) (client_id : Int) (fileName file : Bytes) :
    Prop where
  exist : sv.isFileExist client_id fileName = true
  recipe : ∃ as, sv.recipes.lookup (env.recipeNameHash client_id fileName)
      = some (encodeTotalChunkNum as.length ++ encodeEntries as) ∧
    List.Forall₂ (fun a x => Conn.OnDisk sv a ∧ Conn.extentOnDisk sv a = x) as
      (fileChunks env file)

/-- `send_file` sends a file that is on the server. -/
theorem Server.HasFile.sentBytes {sv : Server} {client_id : Int} {fileName file : Bytes}
    (h : sv.HasFile env client_id fileName file) (outData : Bytes) :
    Conn.sentBytes sv (env.recipeNameHash client_id fileName) outData = file := by
  obtain ⟨as, hfile, hextents⟩ := h.recipe
  exact Conn.sentBytes_of_extents hfile hextents outData

/-- **After an upload that runs alone the file is on the server.** -/
theorem Completes.upload (h : Completes env i arg σ τ) (hphase : σ.InPhase env)
    (hlax : (Policy.lax env).ownership.Inv P σ) (hreg : σ.Registered) (hrogue : arg.rogue = false)
    (hop : arg.op = 117)
    (hnew : (arg.client_id, getFileName arg.file_path) ∉ σ.shared.files)
    (hcf : env.CollisionFreeOn {x | x ∈ fileChunks env arg.file})
    (hkeeps : σ.shared.Keeps env {x | x ∈ fileChunks env arg.file})
    (hfresh : env.FreshUpTo τ.shared.drawn) :
    τ.shared.HasFile env arg.client_id (getFileName arg.file_path) arg.file := by
  obtain ⟨s, hs, hclosed, hsphase, hkept⟩ := h.session hphase
  obtain ⟨hid, hpath, hrogue', hupl, -⟩ := Session.connect_client env σ.shared arg
  have hacc := h.accepted hphase hop hnew hs
  obtain ⟨hjoined, -, hlisted⟩ := ((hsphase.over hclosed).2).resolve_left fun h => h.2 hacc
  have hpc : s.conn.pc ≠ .join := by simp [hclosed.2]
  have hfile : s.client.file = arg.file := (hkept.file (hupl hop).1).trans (hupl hop).2
  have hid' : s.client.client_id = arg.client_id := hkept.client_id.trans hid
  have hname : s.client.fileName = getFileName arg.file_path := by
    rw [Client.fileName, hkept.file_path, hpath]
  -- the ownership argument for this session alone
  have hallows := h.allows hphase hrogue hop hcf (fun _ hx => hx) hfresh
  obtain ⟨P', hext, hinv⟩ := (Policy.alone_inv hcf hlax h.fresh hkeeps).reaches
    (r := Pool.Extends i) (Pool.Extends.refl i) (fun h h' => h.trans h')
    (fun hok hguar => (show _ = i from hok.2.1) ▸ hguar) hallows
  have hlocal := hinv.loc i s hs
  have hanswered : ∀ a ∈ s.conn.answered, a.containerID ∈ τ.shared.containers := by
    intro a ha
    obtain ⟨x, hx, hindex⟩ := hlocal.answered rfl hacc a ha
    obtain ⟨hash, y, -, -, hy, hat, -⟩ := hinv.glob.index _ a hindex
    rcases hext.published _ a hindex with hold | hown
    · -- an address that was there before
      rw [hfile] at hx
      obtain ⟨-, hextent⟩ := hkeeps x hx a hold
      have hmem := Conn.mem_containers_of_extentOnDisk
        (hextent ▸ ne_nil_of_mem_fileChunks hx)
      obtain ⟨data, hdata⟩ := Option.isSome_iff_exists.mp (AList.lookup_isSome.mpr hmem)
      rw [← AList.lookup_isSome, hext.kept _ data hdata]
      rfl
    · exact hlocal.onDisk hjoined hpc hown hat hy
  have hextents := hlocal.forall₂_extentOnDisk hinv.glob rfl hacc hjoined hpc
    (hlisted ((hkept.rogue.trans hrogue').trans hrogue)) hanswered
  have hrecipe := h.recipeKept hphase hs hacc _ (by rw [Conn.recipeFile, hjoined.recipeWriter])
  rw [Session.recipePath, hid', hname] at hrecipe
  rw [hfile] at hextents
  refine ⟨?_, s.conn.written, hrecipe, hextents⟩
  have hexist := (hreg.reaches hphase h.reaches).isFileExist (hphase.reaches h.reaches) hs
    hjoined.dataWriter
  rwa [hid', hname] at hexist

/-- **A file that is on the server can be downloaded**, by a session that runs alone. -/
theorem Completes.downloaded (h : Completes env j arg' σ τ) (hphase : σ.InPhase env)
    (hrogue : arg'.rogue = false) (hop : arg'.op = 100) {file : Bytes}
    (hfile : σ.shared.HasFile env arg'.client_id (getFileName arg'.file_path) file) :
    ∃ s, τ.locals j = some s ∧ s.client.file = file := by
  obtain ⟨-, s, hs, hgot⟩ := h.download hphase hop hrogue hfile.exist
  exact ⟨s, hs, hgot.trans (hfile.sentBytes _)⟩

end DedupServer
