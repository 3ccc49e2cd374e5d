import DedupServer.Protocol.Progress
import DedupServer.Store.Extents

/-! # Every message fits into the buffer it is received into

Control and data messages share one stream, and `receive_data` writes as many bytes as the sender has
announced. `Conn.waits` and `Client.waits` say what each side waits for and how large its buffer
is, `Msg.Suits` when a message is what is waited for and fits. -/

namespace DedupServer

open Foundations

variable {env : Env} {s s' : Session} {sv sv' : Server} {σ τ : State}

/-! ## What is waited for -/

/-- `sizeof(LoginInfo_t)`. -/
def sizeofLoginInfo : ℕ := 4

/-- **What a side waits for**: `receive_control_msg`, or `receive_data` into a buffer of a size. -/
inductive Waits
  | control
  | data (size : ℕ)
  deriving DecidableEq

/-- The size of `m_inMsgBuffer` of `ClientConn`. -/
def Conn.inMsgBufferSize : ℕ := sizeofDataMsg + (CHUNKSIZE + HASHSIZE) * BATCHSIZE

/-- The size of `m_inMsgBuffer` of `DedupClient`. -/
def Client.inMsgBufferSize : ℕ := sizeofDataMsg + CHUNKSIZE * BATCHSIZE

/-- What the serving thread waits for, if it waits for a message. -/
def Conn.waits (c : Conn) : Option Waits :=
  match c.pc with
  | .login => some (.data (sizeofDataMsg + sizeofLoginInfo))
  | .order => some .control
  | .body => some (.data inMsgBufferSize)
  | _ => none

/-- What the client waits for. -/
def Client.waits (c : Client) : Option Waits :=
  match c.pc with
  | .awaitUploadRep | .awaitDownloadRep | .awaitQuitRep => some .control
  | .awaitBodyRep | .awaitBody => some (.data inMsgBufferSize)
  | .closed => none

/-- The number of bytes `send_data` is called with for a data message. -/
def DataMsg.wireSize (msg : DataMsg) : ℕ := sizeofDataMsg + msg.data.length

/-- **A message is what is waited for**, and fits into the buffer. -/
def Msg.Suits : Msg → Waits → Prop
  | .control _ _ _, .control => True
  | .login _, .data n => sizeofDataMsg + sizeofLoginInfo ≤ n
  | .data msg, .data n => msg.wireSize ≤ n
  | _, _ => False

/-! ## Sizes in flight -/

/-- **What keeps messages small**: the reply buffer has its full size, a data message to the server
carries a body or nothing, and one to the client has no more data than the reply buffer. -/
structure Session.Sized (s : Session) : Prop where
  room : s.conn.outData.length = CHUNKSIZE * BATCHSIZE
  at_record : ∀ recipe, s.conn.pc = .sending recipe → Conn.AtRecord recipe
  up : ∀ msg, .data msg ∈ s.up → msg.header.dataMsgType = .UPLOADBODY ∨ msg.data = []
  down : ∀ msg, .data msg ∈ s.down → msg.data.length ≤ CHUNKSIZE * BATCHSIZE

/-- What the client sends in a pass of `upload_file`. -/
theorem Client.sendBody_up (c : Client) (chunkData hashes : Bytes) (queryNum : ℕ) :
    ∀ msg, .data msg ∈ (c.sendBody chunkData hashes queryNum).2 →
      msg.header.dataMsgType = .UPLOADBODY ∨ msg.data = [] := by
  intro msg hmsg
  unfold sendBody at hmsg
  split at hmsg
  · simp only [quit, List.mem_cons, Msg.data.injEq, reduceCtorEq, List.not_mem_nil, or_false]
      at hmsg
    rcases hmsg with rfl | rfl
    · exact .inl rfl
    · exact .inr rfl
  · simp only [List.mem_singleton, Msg.data.injEq] at hmsg
    exact .inl (hmsg ▸ rfl)

theorem Client.sendBatch_up (c : Client) (chunkData : Bytes) :
    ∀ msg, .data msg ∈ (c.sendBatch chunkData).2 →
      msg.header.dataMsgType = .UPLOADBODY ∨ msg.data = [] := by
  unfold sendBatch
  split
  · exact sendBody_up _ _ _ _
  · exact sendBody_up _ _ _ _

/-- **All that a client sends** in reaction to a message. -/
theorem Client.react_up {c : Client} {m : Msg} {r : Client × List Msg}
    (h : c.react env m = some r) :
    ∀ msg, .data msg ∈ r.2 → msg.header.dataMsgType = .UPLOADBODY ∨ msg.data = [] := by
  -- one branch for each state of the client: only `sendBatch` puts a data message on the way
  unfold react at h
  split at h
  · split at h
    · split at h
      · split at h
        · cases h
        · obtain rfl := Option.some.inj h
          exact sendBatch_up _ _
      · obtain rfl := Option.some.inj h
        simp [quit]
    · split at h <;> obtain rfl := Option.some.inj h <;> simp [quit]
    · obtain rfl := Option.some.inj h
      simp
    · cases h
  · split at h
    · split at h
      · cases h
      · obtain rfl := Option.some.inj h
        exact sendBatch_up _ _
    · split at h <;> obtain rfl := Option.some.inj h <;> simp [quit]
    · cases h
  · cases h

/-- So do rogues. -/
theorem Client.rogueReact_up {c : Client} {chunkData hashes : List Bytes} {m : Msg}
    {r : Client × List Msg} (h : c.rogueReact chunkData hashes m = some r) :
    ∀ msg, .data msg ∈ r.2 → msg.header.dataMsgType = .UPLOADBODY ∨ msg.data = [] := by
  unfold rogueReact at h
  split at h
  · split at h
    · split at h
      · obtain rfl := Option.some.inj h
        exact sendBody_up _ _ _ _
      · cases h
    · split at h
      · obtain rfl := Option.some.inj h
        exact sendBody_up _ _ _ _
      · cases h
    · cases h
  · cases h

/-- The client moves: its messages are added, and one to it is taken. -/
theorem Session.Sized.client (h : s.Sized) {m : Msg} {rest : List Msg} (hdown : s.down = m :: rest)
    {r : Client × List Msg} (hup : ∀ msg, .data msg ∈ r.2 →
      msg.header.dataMsgType = .UPLOADBODY ∨ msg.data = []) : (s.clientMoved rest r).Sized where
  room := h.room
  at_record := h.at_record
  up := by
    intro msg hmsg
    rcases List.mem_append.mp hmsg with hmsg | hmsg
    · exact h.up msg hmsg
    · exact hup msg hmsg
  down := by
    intro msg hmsg
    apply h.down msg
    rw [hdown]
    exact List.mem_cons_of_mem _ hmsg

/-- The serving thread moves, and replies with small messages. -/
theorem Session.Sized.serverMoved (h : s.Sized) {c : Conn} {rest reply : List Msg}
    (hrest : rest <:+ s.up) (hroom : c.outData.length = CHUNKSIZE * BATCHSIZE)
    (hat : ∀ recipe, c.pc = .sending recipe → Conn.AtRecord recipe)
    (hreply : ∀ msg, .data msg ∈ reply → msg.data.length ≤ CHUNKSIZE * BATCHSIZE) :
    (s.serverMoved rest c reply).Sized where
  room := hroom
  at_record := hat
  up msg hmsg := h.up msg (hrest.subset hmsg)
  down := by
    intro msg hmsg
    rcases List.mem_append.mp hmsg with hmsg | hmsg
    · exact h.down msg hmsg
    · exact hreply msg hmsg

/-- A step of a writer. -/
theorem Session.Sized.alike (h : s.Sized) {c : Conn} (ha : s.conn.Alike c) :
    ({ s with conn := c } : Session).Sized where
  room := ha.outData ▸ h.room
  at_record recipe hpc := h.at_record recipe (ha.pc ▸ hpc)
  up := h.up
  down := h.down

/-- **The message the server takes during an upload** is a body that fits what was asked, with a query
if the client waits for the reply, or `FILEEND`. -/
theorem Phase.body (h : Phase env s) (hpc : s.conn.pc = .body) {msg : DataMsg} {rest : List Msg}
    (hup : s.up = .data msg :: rest) :
    (msg.header.dataMsgType = .FILEEND ∧ s.client.pc ≠ .awaitBodyRep) ∨
      ∃ uniq next, s.Uploading env ∧ s.conn.Fits msg uniq next ∧
        (next ≠ [] ↔ s.client.pc = .awaitBodyRep) ∧ (s.client.rogue = false →
          ∃ stored pending batch rest, s.Sends env stored pending batch rest uniq next) := by
  cases h with
  | asking hcl hupl hup' hdown hfits hnext honest =>
    obtain ⟨rfl, -⟩ : _ = msg ∧ _ := by simpa [hup'] using hup
    refine .inr ⟨_, _, hupl, hfits, ⟨fun _ => hcl, fun _ => hnext⟩, fun hrogue => ?_⟩
    obtain ⟨stored, pending, batch, rest, hsends, -⟩ := honest hrogue
    exact ⟨stored, pending, batch, rest, hsends⟩
  | last hcl hupl hup' hdown hfits hend honest =>
    obtain ⟨rfl, -⟩ : _ = msg ∧ _ := by simpa [hup'] using hup
    refine .inr ⟨_, _, hupl, hfits, by simp [hcl], fun hrogue => ?_⟩
    obtain ⟨stored, pending, hsends⟩ := honest hrogue
    exact ⟨stored, pending, _, _, hsends⟩
  | ending hcl hpc' hupl hup' hdown hend =>
    obtain ⟨rfl, -⟩ : _ = msg ∧ _ := by simpa [hup'] using hup
    exact .inl ⟨hend, by simp [hcl]⟩
  | accepted hcl hupl hup' | answered hcl hpc' hupl hup' => simp [hup'] at hup
  | login hreq hpc' | order hreq hpc' | lookup hcl hpc' | reply hcl hpc' | refused hcl hpc'
  | joining hcl hpc' | quitting hcl hpc' | left hcl hpc' | closed hcl hpc' | exist hcl hpc'
  | notExist hcl hpc' | sending hpc' | sent hpc' => simp [hpc'] at hpc

/-- **The reply to a body**: it is sent if and only if the client waits for it, and is one message with
an answer to each hash. -/
theorem Phase.reply_iff (h : Phase env s) (hpc : s.conn.pc = .body) {msg : DataMsg}
    {rest : List Msg} (hup : s.up = .data msg :: rest)
    (hact : Session.act env sv s .server = some (sv', s')) :
    (s.client.pc = .awaitBodyRep ∧ ∃ reply, s'.down = s.down ++ [.data reply] ∧
      reply.data.length ≤ CHUNKSIZE * BATCHSIZE) ∨
    (s.client.pc ≠ .awaitBodyRep ∧ s'.down = s.down) := by
  rcases h.body hpc hup with ⟨hend, hcl⟩ | ⟨uniq, next, hupl, hfits, hnext, honest⟩
  · refine .inr ⟨hcl, ?_⟩
    rw [Session.act_server_of_receives (by simp [Conn.receives, hpc]) hup] at hact
    simp only [Conn.receive, hpc, hend, if_true, Option.map_some, Option.some.injEq,
      Prod.mk.injEq] at hact
    obtain ⟨-, rfl⟩ := hact
    exact List.append_nil _
  · obtain ⟨st, rfl, -, hupl', -⟩ := hupl.body hpc hup hfits honest hact
    have hreply := Conn.bodyReply_answerQuery hfits st
    by_cases hne : next = []
    · refine .inr ⟨fun hcl => hnext.mpr hcl hne, ?_⟩
      rw [Session.serverMoved, hreply, if_pos hne, List.append_nil]
    · refine .inl ⟨hnext.mp hne, _, by rw [Session.serverMoved, hreply, if_neg hne], ?_⟩
      rw [← hupl'.asked.room]
      exact List.length_take_le' _ _

/-- The serving thread does something that leaves the reply buffer alone and sends no data. -/
theorem Session.Sized.quiet (h : s.Sized) {c : Conn} {rest reply : List Msg} (hrest : rest <:+ s.up)
    (hout : c.outData = s.conn.outData)
    (hat : ∀ recipe, c.pc = .sending recipe → Conn.AtRecord recipe)
    (hreply : ∀ msg, Msg.data msg ∉ reply) : (s.serverMoved rest c reply).Sized :=
  h.serverMoved hrest (hout ▸ h.room) hat fun msg hmsg => absurd hmsg (hreply msg)

/-- The serving thread takes a message of an upload. -/
theorem Session.Sized.body (h : s.Sized) (hphase : Phase env s) (hpc : s.conn.pc = .body)
    {m : Msg} {rest : List Msg} (hup : s.up = m :: rest)
    (hact : Session.act env sv s .server = some (sv', s')) : s'.Sized := by
  have hrest : rest <:+ s.up := hup ▸ List.suffix_cons m rest
  have hrec : s.conn.receives = true := by simp [Conn.receives, hpc]
  have hact' := hact
  rw [Session.act_server_of_receives hrec hup] at hact'
  cases m with
  | control order fileName status => simp [Conn.receive, hpc] at hact'
  | login client_id => simp [Conn.receive, hpc] at hact'
  | data msg =>
    -- a body message either ends the file or carries a batch within the limits of the honest client
    rcases hphase.body hpc hup with ⟨hend, -⟩ | ⟨uniq, next, hupl, hfits, -, honest⟩
    · simp only [Conn.receive, hpc, hend, if_true, Option.map_some, Option.some.injEq,
        Prod.mk.injEq] at hact'
      obtain ⟨-, rfl⟩ := hact'
      exact h.quiet hrest rfl (by simp [Conn.receiveFileEnd]) (by simp)
    · obtain ⟨st, rfl, -, hupl', -⟩ := hupl.body hpc hup hfits honest hact
      have hroom : (s.conn.answerQuery msg st).outData.length = CHUNKSIZE * BATCHSIZE :=
        hupl'.asked.room
      have hpc' : (s.conn.answerQuery msg st).pc = .body := hpc
      refine h.serverMoved hrest hroom (by simp [hpc']) fun reply hreply => ?_
      rw [Conn.bodyReply_answerQuery hfits st] at hreply
      -- no reply is sent when the message asks about no hash
      split at hreply
      · cases hreply
      · rw [List.mem_singleton, Msg.data.injEq] at hreply
        rw [hreply, ← hroom]
        exact List.length_take_le' _ _

/-- **A step of the serving thread** keeps messages small. -/
theorem Session.Sized.server (h : s.Sized) (hphase : Phase env s) (hsv : sv.Bounded)
    (hact : Session.act env sv s .server = some (sv', s')) : s'.Sized := by
  cases hrec : s.conn.receives with
  | true =>
    cases hup : s.up with
    | nil =>
      rw [Session.act_server_of_nil hrec hup] at hact
      cases hact
    | cons m rest =>
      have hrest : rest <:+ s.up := hup ▸ List.suffix_cons m rest
      cases hpc : s.conn.pc with
      | body => exact h.body hphase hpc hup hact
      | login =>
        rw [Session.act_server_of_receives hrec hup] at hact
        cases m with
        | login client_id =>
          simp only [Conn.receive, hpc, Option.map_some, Option.some.injEq, Prod.mk.injEq] at hact
          obtain ⟨-, rfl⟩ := hact
          exact h.quiet hrest rfl (by simp) (by simp)
        | control order fileName status => simp [Conn.receive, hpc] at hact
        | data msg => simp [Conn.receive, hpc] at hact
      | order =>
        rw [Session.act_server_of_receives hrec hup] at hact
        cases m with
        | control order fileName status =>
          simp only [Conn.receive, hpc] at hact
          split at hact <;> simp only [Option.map_some, Option.some.injEq, Prod.mk.injEq] at hact <;>
            obtain ⟨-, rfl⟩ := hact <;> exact h.quiet hrest rfl (by simp [hpc]) (by simp)
        | login client_id => simp [Conn.receive, hpc] at hact
        | data msg => simp [Conn.receive, hpc] at hact
      | lookup | reply | register | join | exist | sending | closed =>
        simp [Conn.receives, hpc] at hrec
  | false =>
    rw [Session.act_server_of_not_receives hrec] at hact
    obtain ⟨r, hr, heq⟩ := Option.map_eq_some_iff.mp hact
    obtain ⟨-, rfl⟩ := Prod.mk.inj heq
    have hup : s.up <:+ s.up := List.suffix_rfl
    cases hpc : s.conn.pc with
    | login | order | body | closed => simp [Conn.proceed, hpc] at hr
    | lookup fileName =>
      simp only [Conn.proceed, hpc] at hr
      split at hr <;> obtain rfl := Option.some.inj hr <;> exact h.quiet hup rfl (by simp) (by simp)
    | reply fileName | register fileName =>
      simp only [Conn.proceed, hpc] at hr
      obtain rfl := Option.some.inj hr
      exact h.quiet hup rfl (by simp) (by simp)
    | join =>
      simp only [Conn.proceed, hpc] at hr
      split at hr
      · obtain rfl := Option.some.inj hr
        exact h.quiet hup rfl (by simp [Conn.resetUpload]) (by simp)
      · cases hr
    | exist fileName =>
      simp only [Conn.proceed, hpc] at hr
      split at hr <;> obtain rfl := Option.some.inj hr
      · refine h.quiet hup rfl (fun recipe hrecipe pos hpos => ?_) (by simp)
        -- the recipe is read from its first record on
        obtain rfl := ConnPc.sending.inj hrecipe
        unfold Conn.openRecipe at hpos
        split at hpos
        · split at hpos
          · cases hpos
          · exact ⟨0, (Option.some.inj hpos).symm⟩
        · cases hpos
      · exact h.quiet hup rfl (by simp) (by simp)
    | sending recipe =>
      simp only [Conn.proceed, hpc] at hr
      split at hr
      · rename_i outData outHeader next msg hblock
        obtain rfl := Option.some.inj hr
        obtain ⟨hroom, hsent, hat⟩ :=
          Conn.sendBlock_bounded hsv.recipes h.room (h.at_record recipe hpc) hblock
        refine h.serverMoved hup hroom (fun recipe' hrecipe' => ?_) (fun msg' hmsg' => ?_)
        · obtain rfl := ConnPc.sending.inj hrecipe'
          exact hat
        · rw [List.mem_singleton, Msg.data.injEq] at hmsg'
          rw [hmsg']
          exact hsent
      · obtain rfl := Option.some.inj hr
        refine h.serverMoved hup h.room (by simp) fun msg' hmsg' => ?_
        rw [List.mem_singleton, Msg.data.injEq] at hmsg'
        rw [hmsg']
        exact Nat.zero_le _

/-- **Every step** keeps messages small. -/
theorem Session.Sized.act (h : s.Sized) (hphase : Phase env s) (hsv : sv.Bounded) {a : Act}
    (hact : Session.act env sv s a = some (sv', s')) : s'.Sized := by
  cases a with
  -- the client's side, honest or not, only takes a message away and adds what it may send
  | client =>
    simp only [Session.act] at hact
    split at hact
    on_goal 2 => cases hact
    rename_i m rest hdown
    obtain ⟨r, hr, heq⟩ := Option.map_eq_some_iff.mp hact
    obtain ⟨-, rfl⟩ := Prod.mk.inj heq
    exact h.client hdown (Client.react_up hr)
  | rogue chunkData hashes =>
    simp only [Session.act] at hact
    split at hact
    on_goal 2 => cases hact
    rename_i m rest hdown
    obtain ⟨r, hr, heq⟩ := Option.map_eq_some_iff.mp hact
    obtain ⟨-, rfl⟩ := Prod.mk.inj heq
    exact h.client hdown (Client.rogueReact_up hr)
  | server => exact h.server hphase hsv hact
  -- the two writer threads touch no message and no buffer that is measured here
  | dataWriter =>
    obtain ⟨r, hr, heq⟩ := Option.map_eq_some_iff.mp hact
    obtain ⟨-, rfl⟩ := Prod.mk.inj heq
    exact h.alike (Conn.alike_dataWriterStep hr)
  | recipeWriter =>
    obtain ⟨r, hr, heq⟩ := Option.map_eq_some_iff.mp hact
    obtain ⟨-, rfl⟩ := Prod.mk.inj heq
    exact h.alike (hphase.alike_recipeWriterStep hr)

/-- A new session has sent its login and its request. -/
theorem Session.sized_connect (env : Env) (sv : Server) (arg : Arg) :
    (Session.connect env sv arg).2.Sized where
  room := arg.junk_length
  at_record := by simp [Session.connect, Conn.init]
  up := by
    intro msg hmsg
    simp only [Session.connect, Client.start] at hmsg
    split_ifs at hmsg <;> simp [Client.quit] at hmsg
  down := by simp [Session.connect]

/-- **In every state that can be reached** messages are small, whatever clients send. -/
theorem State.sized {ok : Condition} (hr : Reaches (sessions env) ok State.init σ) {i : ℕ}
    (hi : σ.locals i = some s) : s.Sized := by
  have hstep : ∀ (σ : State) ℓ (τ : State), (σ.InPhase env ∧ σ.Bounded ∧
      ∀ i s, σ.locals i = some s → s.Sized) → Step (sessions env) σ ℓ τ → ok σ ℓ τ →
      τ.InPhase env ∧ τ.Bounded ∧ ∀ i s, τ.locals i = some s → s.Sized := by
    rintro σ ℓ τ ⟨hphase, hbounded, hsized⟩ hs -
    refine ⟨hphase.step hs, hbounded.step hphase hs, fun j t ht => ?_⟩
    by_cases hj : j = ℓ.owner
    · subst hj
      cases hs with
      | spawn hnone =>
        obtain rfl := Option.some.inj ((Config.moved_locals_self _ _ _ _).symm.trans ht)
        exact Session.sized_connect env _ _
      | act hl hact =>
        obtain rfl := Option.some.inj ((Config.moved_locals_self _ _ _ _).symm.trans ht)
        exact (hsized _ _ hl).act (hphase _ _ hl) hbounded.shared hact
    · exact hsized j t (hs.locals_of_ne hj ▸ ht)
  have hinit : State.init.InPhase env ∧ State.init.Bounded ∧
      ∀ i s, State.init.locals i = some s → s.Sized :=
    ⟨State.inPhase_init env, State.bounded_init, fun i s hs => by cases hs⟩
  exact (hr.invariant hstep hinit).2.2 i s hi

/-! ## What is received suits -/

/-- A body that fits what was asked fits into the buffer of the server. -/
theorem Conn.Fits.suits {c : Conn} {msg : DataMsg} {uniq next : List Bytes}
    (h : c.Fits msg uniq next) (hasked : c.Asked) :
    (Msg.data msg).Suits (.data Conn.inMsgBufferSize) := by
  have huniq := h.ragged.length_flatten_le
  have hcount := h.length_uniq_le hasked
  have hnext : next.flatten.length = HASHSIZE * next.length := by
    rw [List.length_flatten, List.map_congr_left h.next_length]
    simp [Nat.mul_comm]
  have hle := h.next_le
  simp only [Msg.Suits, DataMsg.wireSize, h.data, List.length_append, hnext,
    Conn.inMsgBufferSize, CHUNKSIZE, HASHSIZE, BATCHSIZE] at *
  omega

/-- **The server gets what it waits for.** -/
theorem Phase.suits_server (h : Phase env s) (hsized : s.Sized) {w : Waits} {m : Msg}
    {rest : List Msg} (hw : s.conn.waits = some w) (hup : s.up = m :: rest) : m.Suits w := by
  have hbody : s.Uploading env → s.conn.pc = .body ∧ w = .data Conn.inMsgBufferSize := by
    intro hupl
    rcases hupl.stage with ⟨hpc, -⟩ | ⟨hpc, -⟩
    · simp [Conn.waits, hpc] at hw
    · exact ⟨hpc, by simpa [Conn.waits, hpc, eq_comm] using hw⟩
  cases h with
  | login hreq hpc hup' =>
    obtain ⟨rfl, -⟩ := List.cons.inj (hup'.symm.trans hup)
    obtain rfl : w = .data (sizeofDataMsg + sizeofLoginInfo) := by
      simpa [Conn.waits, hpc, eq_comm] using hw
    exact Nat.le_refl _
  | order hreq hpc hup' =>
    obtain ⟨rfl, -⟩ := List.cons.inj (hup'.symm.trans hup)
    obtain rfl : w = .control := by simpa [Conn.waits, hpc, eq_comm] using hw
    rcases hreq with ⟨-, rfl⟩ | ⟨-, rfl⟩ | ⟨-, rfl⟩ <;> trivial
  | asking hcl hupl hup' hdown hfits | last hcl hupl hup' hdown hfits =>
    obtain ⟨rfl, -⟩ := List.cons.inj (hup'.symm.trans hup)
    obtain ⟨-, rfl⟩ := hbody hupl
    exact hfits.suits hupl.asked
  | ending hcl hpc hupl hup' hdown hend =>
    obtain ⟨rfl, -⟩ := List.cons.inj (hup'.symm.trans hup)
    obtain ⟨-, rfl⟩ := hbody hupl
    -- a `FILEEND` carries nothing
    have hnil := (hsized.up _ (by rw [hup']; exact List.mem_cons_self)).resolve_left
      (by rw [hend]; decide)
    simp only [Msg.Suits, DataMsg.wireSize, hnil, Conn.inMsgBufferSize, List.length_nil]
    omega
  | quitting hcl hpc hup' =>
    obtain ⟨rfl, -⟩ := List.cons.inj (hup'.symm.trans hup)
    obtain rfl : w = .control := by simpa [Conn.waits, hpc, eq_comm] using hw
    trivial
  | joining hcl hpc => simp [Conn.waits, hpc] at hw
  | lookup hcl hpc hup' | reply hcl hpc hup' | refused hcl hpc hup' | accepted hcl hupl hup'
  | answered hcl hpc hupl hup' | left hcl hpc hup' | closed hcl hpc hup' | exist hcl hpc hup'
  | notExist hcl hpc hup' | sending hpc hup' | sent hpc hup' => simp [hup'] at hup

/-- A client that downloads gets what it waits for. -/
theorem Session.Receives.suits {tail : List Msg} (h : s.Receives tail) (hsized : s.Sized)
    (htail : ∀ m ∈ tail, ∃ msg, m = .data msg) {w : Waits} {m : Msg} {rest : List Msg}
    (hw : s.client.waits = some w) (hdown : s.down = m :: rest) : m.Suits w := by
  obtain ⟨bodies, -, ⟨hcl, hd⟩ | ⟨hcl, hd⟩⟩ := h
  · obtain ⟨rfl, -⟩ := List.cons.inj (hd.symm.trans hdown)
    obtain rfl : w = .control := by simpa [Client.waits, hcl, eq_comm] using hw
    trivial
  · obtain rfl : w = .data Client.inMsgBufferSize := by
      simpa [Client.waits, hcl, eq_comm] using hw
    have hm : m ∈ s.down := by
      rw [hdown]
      exact List.mem_cons_self
    obtain ⟨msg, rfl⟩ : ∃ msg, m = .data msg := by
      rw [hd] at hm
      rcases List.mem_append.mp hm with hm | hm
      · obtain ⟨b, -, rfl⟩ := List.mem_map.mp hm
        exact ⟨b, rfl⟩
      · exact htail m hm
    have hle := hsized.down msg hm
    simp only [Msg.Suits, DataMsg.wireSize, Client.inMsgBufferSize]
    omega

/-- **The client gets what it waits for.** -/
theorem Phase.suits_client (h : Phase env s) (hsized : s.Sized) {w : Waits} {m : Msg}
    {rest : List Msg} (hw : s.client.waits = some w) (hdown : s.down = m :: rest) :
    m.Suits w := by
  cases h with
  | refused hcl hpc hup hd | accepted hcl hupl hup hd | notExist hcl hpc hup hd
  | left hcl hpc hup hd =>
    obtain ⟨rfl, -⟩ := List.cons.inj (hd.symm.trans hdown)
    obtain rfl : w = .control := by simpa [Client.waits, hcl, eq_comm] using hw
    trivial
  | answered hcl hpc hupl hup hd =>
    obtain ⟨rfl, -⟩ := List.cons.inj (hd.symm.trans hdown)
    obtain rfl : w = .data Client.inMsgBufferSize := by
      simpa [Client.waits, hcl, eq_comm] using hw
    have hle := hsized.down _ (by rw [hd]; exact List.mem_cons_self)
    simp only [Msg.Suits, DataMsg.wireSize, Client.inMsgBufferSize]
    omega
  | sending hpc hup hd => exact hd.suits hsized (by simp) hw hdown
  | sent hpc hup hd => exact hd.suits hsized (by simp) hw hdown
  | login hreq hpc hup hd | order hreq hpc hup hd | lookup hcl hpc hup hd | reply hcl hpc hup hd
  | asking hcl hupl hup hd | last hcl hupl hup hd | ending hcl hpc hupl hup hd
  | joining hcl hpc hserves hacc hwriting hup hd | quitting hcl hpc hup hd
  | closed hcl hpc hup hd | exist hcl hpc hup hd => simp [hd] at hdown

/-- **The two sides never wait for each other** with nothing in flight. -/
theorem Phase.not_stuck (h : Phase env s) :
    ¬ (s.conn.waits ≠ none ∧ s.client.waits ≠ none ∧ s.up = [] ∧ s.down = []) := by
  rintro ⟨hconn, hclient, hup, hdown⟩
  cases h with
  | lookup hcl hpc | reply hcl hpc | exist hcl hpc => simp [Conn.waits, hpc] at hconn
  | sending hpc => simp [Conn.waits, hpc] at hconn
  | closed hcl => simp [Client.waits, hcl] at hclient
  | sent hpc hup' hd =>
    obtain ⟨bodies, -, ⟨-, hd⟩ | ⟨-, hd⟩⟩ := hd
    · simp [hd] at hdown
    · simp [hd] at hdown
  | login hreq hpc hup' | order hreq hpc hup' | asking hcl hupl hup' | last hcl hupl hup'
  | ending hcl hpc hupl hup' | joining hcl hpc hserves hacc hwriting hup'
  | quitting hcl hpc hup' => simp [hup'] at hup
  | refused hcl hpc hup' hd | accepted hcl hupl hup' hd | answered hcl hpc hupl hup' hd
  | left hcl hpc hup' hd | notExist hcl hpc hup' hd => simp [hd] at hdown

/-- A closed session has nothing in flight. -/
theorem Phase.nothing_in_flight (h : Phase env s) (hclosed : s.Closed) :
    s.up = [] ∧ s.down = [] := by
  obtain ⟨hcl', hpc'⟩ := hclosed
  cases h with
  | closed hcl hpc hup hdown => exact ⟨hup, hdown⟩
  | login hreq hpc | order hreq hpc | sending hpc | sent hpc => simp [hpc] at hpc'
  | lookup hcl | reply hcl | refused hcl | accepted hcl | asking hcl | answered hcl | last hcl
  | ending hcl | joining hcl | quitting hcl | left hcl | exist hcl | notExist hcl =>
    simp [hcl] at hcl'

end DedupServer
