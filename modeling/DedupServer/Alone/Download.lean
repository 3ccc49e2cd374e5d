import DedupServer.Alone.Complete

/-! # A download that runs alone

`send_file` and `download_file` step by step, over messages, give the client what
`Conn.sentBytes` says (`Completes.download`): what the client has written, what is in flight, and
what is still to be read from the recipe are together always the same bytes. -/

namespace DedupServer

open Foundations

variable {env : Env} {i : ℕ} {arg : Arg} {σ τ : State} {s s' : Session} {sv sv' : Server}
  {path total : Bytes}

/-- The bytes of the file in a message. -/
def Msg.payload : Msg → Bytes
  | .data msg => if msg.header.dataMsgType = .FILEEND then [] else msg.data
  | _ => []

/-- What the client has got, or will get from the messages in flight. -/
def Session.got (s : Session) : Bytes := s.client.file ++ s.down.flatMap Msg.payload

/-- **Where a download is**: before its request is answered, in the loop of `send_file`, or after
it. -/
inductive Session.Downloading (sv : Server) (path total : Bytes) (s : Session) : Prop
  | asking (hcl : s.client.pc = .awaitDownloadRep) (hdown : s.down = [])
      (hfile : s.client.file = []) (htotal : Conn.sentBytes sv path s.conn.outData = total)
  | sending {recipe : Option ℕ} (hpc : s.conn.pc = .sending recipe)
      (hgot : s.got ++ Conn.remaining sv path s.conn.outData recipe = total)
  | sent (hpc : ∀ recipe, s.conn.pc ≠ .sending recipe)
      (hup : ∀ m ∈ s.up, m = .control .QUIT [] .NONE)
      (hasked : ∀ fileName, s.conn.pc ≠ .exist fileName) (hgot : s.got = total)

/-- A session that uploads nothing has no writers. -/
theorem Phase.dormant (h : Phase env s) (hdownload : ¬ s.Uploader) : s.conn.Dormant := by
  have hacc : ¬ s.Accepted := fun h => hdownload h.uploader
  cases h with
  | login hreq hpc hup hdown hd | order hreq hpc hup hdown hd | lookup hcl hpc hup hdown hd
  | reply hcl hpc hup hdown hd | refused hcl hpc hup hdown hd | exist hcl hpc hup hdown hd
  | notExist hcl hpc hup hdown hd | sending hpc hup hdown htype hd
  | sent hpc hup hdown hend hd => exact hd
  | accepted hcl h | asking hcl h | last hcl h | answered hcl hpc h | ending hcl hpc h =>
    exact absurd h.accepted hacc
  | joining hcl hpc hserves h => exact absurd h hacc
  | quitting hcl hpc hup hdown h | left hcl hpc hup hdown h | closed hcl hpc hup hdown h =>
    exact h.elim (·.1) fun h => absurd h.2.1 hacc

/-- A client that leaves the download takes a message without bytes. -/
theorem Session.got_quit {m : Msg} {rest : List Msg} (hd : s.down = m :: rest)
    (hm : m.payload = []) : (s.clientMoved rest s.client.quit).got = s.got := by
  simp [Session.got, Session.clientMoved, Client.quit, hd, hm]

/-- **The client takes a message of a download**: nothing is lost, and it sends nothing, except that
it quits at the end of the file. -/
theorem Session.Receives.got_client {tail : List Msg} (h : s.Receives tail)
    (htail : ∀ m ∈ tail, ∃ fileEnd : DataMsg, m = .data fileEnd ∧
      fileEnd.header.dataMsgType = .FILEEND) {m : Msg} {rest : List Msg} (hd : s.down = m :: rest)
    {r : Client × List Msg} (hr : s.client.react env m = some r) :
    (s.clientMoved rest r).got = s.got ∧ (r.2 = [] ∨ r.2 = [.control .QUIT [] .NONE]) := by
  obtain ⟨bodies, hbodies, ⟨hcl, hdown⟩ | ⟨hcl, hdown⟩⟩ := h
  · obtain ⟨rfl, rfl⟩ := List.cons.inj (hd.symm.trans hdown)
    obtain rfl : ({ s.client with pc := .awaitBody }, []) = r := by
      simpa [Client.react, hcl] using hr
    exact ⟨by simp [Session.got, Session.clientMoved, hd, Msg.payload], .inl rfl⟩
  · cases bodies with
    | nil =>
      -- only the end of the file can be left
      rw [List.map_nil, List.nil_append] at hdown
      obtain ⟨fileEnd, rfl, hend⟩ := htail m (by rw [← hdown, hd]; exact List.mem_cons_self)
      obtain rfl : s.client.quit = r := by simpa [Client.react, hcl, hend] using hr
      exact ⟨Session.got_quit hd (by simp [Msg.payload, hend]), .inr rfl⟩
    | cons b bodies =>
      obtain ⟨rfl, rfl⟩ := List.cons.inj (hd.symm.trans hdown)
      obtain ⟨htype, hsize⟩ := hbodies b List.mem_cons_self
      simp only [Client.react, hcl, htype, reduceCtorEq, if_false, Option.some.injEq] at hr
      subst hr
      exact ⟨by simp [Session.got, Session.clientMoved, hd, Msg.payload, htype,
        List.take_of_length_le hsize], .inl rfl⟩

/-- **A step of the client** of a download loses nothing. -/
theorem Session.Downloading.client (h : s.Downloading sv path total) (hphase : Phase env s)
    (hdownload : ¬ s.Uploader) {m : Msg} {rest : List Msg} (hd : s.down = m :: rest)
    {r : Client × List Msg} (hr : s.client.react env m = some r) :
    (s.clientMoved rest r).Downloading sv path total := by
  have hupl : s.client.pc ≠ .awaitUploadRep := fun h => hdownload (.inl h)
  have hacc : ¬ s.Accepted := fun h => hdownload h.uploader
  -- once the loop of `send_file` is left, the client has got everything
  have hsent : (∀ recipe, s.conn.pc ≠ .sending recipe) →
      (∀ fileName, s.conn.pc ≠ .exist fileName) → (s.clientMoved rest r).got = s.got →
      (∀ m ∈ r.2, m = .control .QUIT [] .NONE) →
      (s.clientMoved rest r).Downloading sv path total := by
    intro hpc hasked hgot hquit
    cases h with
    | asking hcl hdown => simp [hdown] at hd
    | sending hpc' => exact absurd hpc' (hpc _)
    | sent hpc' hup hasked' hgot' =>
      refine .sent hpc (fun m hm => ?_) hasked (hgot.trans hgot')
      rcases List.mem_append.mp hm with hm | hm
      · exact hup m hm
      · exact hquit m hm
  cases hphase with
  | sending hpc hup hdown =>
    obtain ⟨hgot', -⟩ := hdown.got_client (by simp) hd hr
    cases h with
    | asking hcl hdown' => simp [hdown'] at hd
    | sent hpc' => exact absurd hpc (hpc' _)
    | sending hpc' hgot =>
      refine .sending hpc' ?_
      rw [hgot']
      exact hgot
  | sent hpc hup hdown hend =>
    obtain ⟨hgot, hquit⟩ := hdown.got_client (by simpa using hend) hd hr
    refine hsent (by simp [hpc]) (by simp [hpc]) hgot fun m hm => ?_
    rcases hquit with hquit | hquit <;> rw [hquit] at hm
    · cases hm
    · exact List.mem_singleton.mp hm
  | notExist hcl hpc hup hdown =>
    obtain ⟨rfl, rfl⟩ := List.cons.inj (hd.symm.trans hdown)
    obtain rfl : s.client.quit = r := by simpa [Client.react, hcl] using hr
    exact hsent (by simp [hpc]) (by simp [hpc]) (Session.got_quit hd rfl) (by simp [Client.quit])
  | left hcl hpc hup hdown =>
    obtain ⟨rfl, rfl⟩ := List.cons.inj (hd.symm.trans hdown)
    obtain rfl : ({ s.client with pc := .closed }, []) = r := by simpa [Client.react, hcl] using hr
    exact hsent (by simp [hpc]) (by simp [hpc])
      (by simp [Session.got, Session.clientMoved, hd, Msg.payload]) (by simp)
  | refused hcl | accepted hcl => exact absurd hcl hupl
  | answered hcl hpc h => exact absurd h.accepted hacc
  | login hreq hpc hup hdown | order hreq hpc hup hdown | lookup hcl hpc hup hdown
  | reply hcl hpc hup hdown | asking hcl hupl hup hdown | last hcl hupl hup hdown
  | ending hcl hpc hupl hup hdown | joining hcl hpc hserves hacc hwriting hup hdown
  | quitting hcl hpc hup hdown | closed hcl hpc hup hdown | exist hcl hpc hup hdown =>
    rw [hdown] at hd
    cases hd

/-- Until its request is answered a download has got nothing. -/
theorem Session.Downloading.asked (h : s.Downloading sv path total)
    (hpc : ∀ recipe, s.conn.pc ≠ .sending recipe)
    (hrequest : (∃ m ∈ s.up, m ≠ .control .QUIT [] .NONE) ∨ ∃ fileName, s.conn.pc = .exist fileName) :
    s.client.pc = .awaitDownloadRep ∧ s.down = [] ∧ s.client.file = [] ∧
      Conn.sentBytes sv path s.conn.outData = total := by
  cases h with
  | asking hcl hdown hfile htotal => exact ⟨hcl, hdown, hfile, htotal⟩
  | sending hpc' => exact absurd hpc' (hpc _)
  | sent hpc' hup hasked =>
    exfalso
    rcases hrequest with ⟨m, hm, hne⟩ | ⟨fileName, hexist⟩
    · exact hne (hup m hm)
    · exact hasked fileName hexist

/-- `QUIT` is answered without bytes of the file. -/
theorem Session.Downloading.quitted (h : s.Downloading sv path total)
    (hcl : s.client.pc = .awaitQuitRep) (hpc : s.conn.pc = .order) :
    (s.serverMoved [] { s.conn with pc := .closed } [.control .QUITREP [] .NONE]).Downloading sv path
      total := by
  cases h with
  | asking hcl' => simp [hcl] at hcl'
  | sending hpc' => simp [hpc] at hpc'
  | sent hpc' hup hasked hgot =>
    refine .sent (by simp [Session.serverMoved]) (by simp [Session.serverMoved])
      (by simp [Session.serverMoved]) ?_
    simpa [Session.got, Session.serverMoved, Msg.payload] using hgot

/-- **The loop of `send_file`** sends the next bytes, or has sent them all. -/
theorem Session.Downloading.sendBlock (h : s.Downloading sv path total) {recipe : Option ℕ}
    (hpc : s.conn.pc = .sending recipe) (hup : s.up = []) (hdown : s.Receives [])
    (htype : s.conn.outHeader.dataMsgType = .DOWNLOADBODY) (hname : s.conn.recipeNameHash = path)
    (hact : Session.act env sv s .server = some (sv', s')) :
    sv' = sv ∧ s'.Downloading sv path total := by
  -- what has arrived and what is left of the recipe make up the file, before the step
  have hgot : s.got ++ Conn.remaining sv path s.conn.outData recipe = total := by
    cases h with
    | asking hcl hdown' =>
      obtain ⟨_, -, ⟨-, hd'⟩ | ⟨hcl', -⟩⟩ := hdown
      · simp [hdown'] at hd'
      · simp [hcl] at hcl'
    | sent hpc' => exact absurd hpc (hpc' _)
    | sending hpc' hgot =>
      obtain rfl := ConnPc.sending.inj (hpc.symm.trans hpc')
      exact hgot
  rw [Session.act_server_of_not_receives (by simp [Conn.receives, hpc])] at hact
  simp only [Conn.proceed, hpc] at hact
  rw [hname] at hact
  -- a block is sent, or the recipe is at its end
  split at hact <;>
    simp only [Option.map_some, Option.some.injEq, Prod.mk.injEq] at hact <;>
    obtain ⟨rfl, rfl⟩ := hact <;> refine ⟨rfl, ?_⟩
  · rename_i outData outHeader next msg hblock
    obtain ⟨htype', hheader, -⟩ := Conn.sendBlock_header hblock
    have hbody : msg.header.dataMsgType ≠ .FILEEND := by
      rw [hheader, htype', htype]
      simp
    refine .sending rfl ?_
    rw [Conn.remaining_of_some hblock] at hgot
    simpa [Session.got, Session.serverMoved, Msg.payload, hbody] using hgot
  · rename_i hblock
    rw [Conn.remaining_of_none hblock, List.append_nil] at hgot
    refine .sent (by simp [Session.serverMoved]) (by simp [Session.serverMoved, hup])
      (by simp [Session.serverMoved]) ?_
    simpa [Session.got, Session.serverMoved, Msg.payload] using hgot

/-- **A step of the serving thread** of a download changes nothing on the server, and sends the next
bytes. -/
theorem Session.Downloading.server (h : s.Downloading sv path total) (hphase : Phase env s)
    (hdownload : ¬ s.Uploader) (hpath : s.recipePath env = path)
    (hexist : sv.isFileExist s.client.client_id s.client.fileName = true)
    (hact : Session.act env sv s .server = some (sv', s')) :
    sv' = sv ∧ s'.Downloading sv path total := by
  have hupl : s.client.pc ≠ .awaitUploadRep := fun h => hdownload (.inl h)
  have hacc : ¬ s.Accepted := fun h => hdownload h.uploader
  -- only the phases of a download are left; in each the message or the program point fixes the step
  cases hphase with
  | login hreq hpc hup hdown =>
    rw [Session.act_server_of_receives (by simp [Conn.receives, hpc]) hup] at hact
    simp only [Conn.receive, hpc, Option.map_some, Option.some.injEq, Prod.mk.injEq] at hact
    obtain ⟨rfl, rfl⟩ := hact
    obtain ⟨hcl, hdown', hfile, htotal⟩ :=
      h.asked (by simp [hpc]) (.inl ⟨.login s.client.client_id, by simp [hup], by simp⟩)
    exact ⟨rfl, .asking hcl (by simp [Session.serverMoved, hdown']) hfile htotal⟩
  | order hreq hpc hup hdown =>
    rw [Session.act_server_of_receives (by simp [Conn.receives, hpc]) hup] at hact
    rcases hreq with ⟨hcl, -⟩ | ⟨hcl, rfl⟩ | ⟨hcl, rfl⟩
    · exact absurd hcl hupl
    · simp only [Conn.receive, hpc, Option.map_some, Option.some.injEq, Prod.mk.injEq] at hact
      obtain ⟨rfl, rfl⟩ := hact
      obtain ⟨hcl, hdown', hfile, htotal⟩ :=
        h.asked (by simp [hpc]) (.inl ⟨.control .DOWNLOAD s.client.fileName .NONE, by simp [hup], by simp⟩)
      exact ⟨rfl, .asking hcl (by simp [Session.serverMoved, hdown']) hfile htotal⟩
    · simp only [Conn.receive, hpc, Option.map_some, Option.some.injEq, Prod.mk.injEq] at hact
      obtain ⟨rfl, rfl⟩ := hact
      exact ⟨rfl, h.quitted hcl hpc⟩
  | exist hcl hpc hup hdown hd hrep hserves =>
    rw [Session.act_server_of_not_receives (by simp [Conn.receives, hpc])] at hact
    simp only [Conn.proceed, hpc, hserves.client_id, hexist, if_true, Option.map_some,
      Option.some.injEq, Prod.mk.injEq] at hact
    obtain ⟨rfl, rfl⟩ := hact
    obtain ⟨-, hdown', hfile, htotal⟩ := h.asked (by simp [hpc]) (.inr ⟨_, hpc⟩)
    refine ⟨rfl, .sending rfl ?_⟩
    simpa [Session.got, Session.serverMoved, Msg.payload, hdown', hfile, hserves.path, hpath,
      Conn.sentBytes] using htotal
  | sending hpc hup hdown htype hd hrep hserves =>
    exact h.sendBlock hpc hup hdown htype (hserves.path.trans hpath) hact
  | quitting hcl hpc hup hdown =>
    rw [Session.act_server_of_receives (by simp [Conn.receives, hpc]) hup] at hact
    simp only [Conn.receive, hpc, Option.map_some, Option.some.injEq, Prod.mk.injEq] at hact
    obtain ⟨rfl, rfl⟩ := hact
    exact ⟨rfl, h.quitted hcl hpc⟩
  -- the thread waits, and there is nothing for it to take
  | notExist hcl hpc hup | sent hpc hup =>
    rw [Session.act_server_of_nil (by simp [Conn.receives, hpc]) hup] at hact
    cases hact
  | left hcl hpc | closed hcl hpc =>
    rw [Session.act_server_of_not_receives (by simp [Conn.receives, hpc])] at hact
    simp [Conn.proceed, hpc] at hact
  -- the phases of an upload
  | lookup hcl | reply hcl | refused hcl | accepted hcl => exact absurd hcl hupl
  | asking hcl h | last hcl h | answered hcl hpc h | ending hcl hpc h =>
    exact absurd h.accepted hacc
  | joining hcl hpc hserves h => exact absurd h hacc

/-- **A step of a download** changes nothing on the server and loses nothing. -/
theorem Session.Downloading.act (h : s.Downloading sv path total) (hphase : Phase env s)
    (hdownload : ¬ s.Uploader) (hpath : s.recipePath env = path)
    (hexist : sv.isFileExist s.client.client_id s.client.fileName = true) {a : Act}
    (hrogue : s.client.rogue = false) (hact : Session.act env sv s a = some (sv', s')) :
    sv' = sv ∧ s'.Downloading sv path total := by
  have hdormant := hphase.dormant hdownload
  -- a download leaves the writers idle, so that they have no step
  cases a with
  | dataWriter =>
    simp [Session.act, Conn.dataWriterStep_eq_none (.inl hdormant.dataWriter)] at hact
  | recipeWriter =>
    simp [Session.act, Conn.recipeWriterStep_eq_none (.inl hdormant.recipeWriter)] at hact
  | rogue chunkData hashes =>
    simp only [Session.act] at hact
    split at hact
    on_goal 2 => cases hact
    obtain ⟨r, hr, -⟩ := Option.map_eq_some_iff.mp hact
    simp [Client.rogueReact, hrogue] at hr
  | client =>
    simp only [Session.act] at hact
    split at hact
    on_goal 2 => cases hact
    rename_i m rest hd
    obtain ⟨r, hr, heq⟩ := Option.map_eq_some_iff.mp hact
    obtain ⟨rfl, rfl⟩ := Prod.mk.inj heq
    exact ⟨rfl, h.client hphase hdownload hd hr⟩
  | server => exact h.server hphase hdownload hpath hexist hact

/-- **A download that runs alone gets what `send_file` sends**, and leaves the server as it is but
for the container its connection was created with. -/
theorem Completes.download (h : Completes env i arg σ τ) (hphase : σ.InPhase env)
    (hop : arg.op = 100) (hrogue : arg.rogue = false)
    (hexist : σ.shared.isFileExist arg.client_id (getFileName arg.file_path) = true) :
    τ.shared = { σ.shared with drawn := σ.shared.drawn + 1 } ∧
      ∃ s, τ.locals i = some s ∧ s.client.file = Conn.sentBytes σ.shared
        (env.recipeNameHash arg.client_id (getFileName arg.file_path)) arg.junk := by
  have hphase' : (σ.joined env i arg).InPhase env := hphase.step (.spawn h.fresh)
  obtain ⟨hid, hpath, hrogue', -, hnot⟩ := Session.connect_client env σ.shared arg
  have hdownload : ¬ (Session.connect env σ.shared arg).2.Uploader := hnot (by rw [hop]; decide)
  have hshared : (σ.joined env i arg).shared = { σ.shared with drawn := σ.shared.drawn + 1 } := rfl
  -- on joining, nothing has been received and all of the file is left
  have hstart : (Session.connect env σ.shared arg).2.Downloading (σ.joined env i arg).shared
      (env.recipeNameHash arg.client_id (getFileName arg.file_path))
      (Conn.sentBytes σ.shared
        (env.recipeNameHash arg.client_id (getFileName arg.file_path)) arg.junk) := by
    have hconnect : (Session.connect env σ.shared arg).2.client.pc = .awaitDownloadRep ∧
        (Session.connect env σ.shared arg).2.client.file = [] := by
      simp [Session.connect, Client.start, hop]
    exact .asking hconnect.1 rfl hconnect.2
      (Conn.sentBytes_congr (by rw [hshared]) (by rw [hshared]) _ _)
  -- the invariant: nobody else acts, so the server stays as it is while the session downloads
  have hinv := h.run.invariant
    (I := fun υ : State => υ.InPhase env ∧ υ.shared = (σ.joined env i arg).shared ∧
      ∃ t, υ.locals i = some t ∧ (Session.connect env σ.shared arg).2.Kept t ∧
        t.Downloading (σ.joined env i arg).shared
          (env.recipeNameHash arg.client_id (getFileName arg.file_path))
          (Conn.sentBytes σ.shared
            (env.recipeNameHash arg.client_id (getFileName arg.file_path)) arg.junk))
    (fun υ ℓ υ' hυ hstep hok => ?_)
    ⟨hphase', rfl, _, Config.moved_locals_self _ _ _ _, .refl _, hstart⟩
  · obtain ⟨-, hsv, t, ht, -, hdl⟩ := hinv
    refine ⟨hsv.trans hshared, t, ht, ?_⟩
    obtain ⟨s, hs, hclosed, hphase, -⟩ := h.session hphase
    obtain rfl := Option.some.inj (ht.symm.trans hs)
    -- at the end nothing is in flight, so what has been received is all there is
    have hdown := (hphase.over hclosed).1
    cases hdl with
    | asking hcl => simp [hclosed.1] at hcl
    | sending hpc => simp [hclosed.2] at hpc
    | sent hpc hup hasked hgot => rwa [Session.got, hdown, List.flatMap_nil, List.append_nil] at hgot
  · obtain ⟨hphase, hsv, t, ht, hkept, hdl⟩ := hυ
    obtain ⟨a, rfl⟩ := hok
    cases hstep with
    | act hl hact =>
      obtain rfl := Option.some.inj (ht.symm.trans hl)
      have hmoves := ((hphase _ _ hl).act hact).2
      have hname : t.client.client_id = arg.client_id ∧
          t.client.fileName = getFileName arg.file_path := by
        rw [Client.fileName, hkept.client_id, hkept.file_path, hid, hpath]
        exact ⟨rfl, rfl⟩
      -- the step is one on the server as it was when the session joined
      rw [hsv] at hact
      obtain ⟨hsame, hdl'⟩ := hdl.act (hphase _ _ hl)
        (fun hu => hdownload (hkept.uploader.mp hu))
        (by rw [Session.recipePath, hname.1, hname.2]) (by rw [hname.1, hname.2]; exact hexist)
        ((hkept.rogue.trans hrogue').trans hrogue) hact
      exact ⟨hphase.step (.act hl (hsv ▸ hact)), hsame, _, Config.moved_locals_self _ _ _ _,
        hkept.trans hmoves.kept, hdl'⟩

end DedupServer
