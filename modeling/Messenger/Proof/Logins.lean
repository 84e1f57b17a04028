import Messenger.Model.Network
import Messenger.Proof.Client.Crypto
import Messenger.Proof.Client.Handling
import Messenger.Proof.Server.Bytes
import Messenger.Proof.Server.Leaving

/-!
# Who is logged in, according to the client and to the server

A client takes a name when it asks for it, and never gives it up. The server may refuse, and
says so in a text that the client shows and does not read. So the two agree as long as the
server has no reason to refuse: the request that it handles last finds the connection
without a session and the name free, or the connection logged in under that very name
(`logins_agree_iff`).

Two invariants carry the runs. `Network.Coherent` is about what is on its way: requests in one
direction, texts in the other, and the last request of a client that is connected asks for the name
it has. It holds always. `Network.Agrees` is the agreement itself, and whether a step keeps it is
what the theorem decides.

A step concerns the connection of one client, though in principle the server could send packets to
any in it. `Network.Coherent.of_channel` and `Network.Agrees.iff_at` say once, for either
invariant, that only this connection has to be looked at.

The hard case of the agreement is the last request of a client. Before it there is nothing to agree
on, as something is still on its way; with it there is, and then the name that was asked for is the
name that the client has, by coherence. So the step decides exactly whether the server binds it,
and `step_login_binds_iff` says when the server does.
-/

set_option autoImplicit false

namespace Messenger

open Messenger.Lib

/-! ## Requests and replies -/

/-- The bytes are a `LOGIN` for `u`. -/
def AsksLogin (raw : Bytes) (u : Name) : Prop :=
  ∃ msg, Serializer.deserialize raw = .ok msg ∧ msg.IsLogin ∧ msg.getMeta 1 = u

/-- The bytes are an `EXIT`. -/
def AsksExit (raw : Bytes) : Prop :=
  ∃ msg, Serializer.deserialize raw = .ok msg ∧ msg.IsCommand .exit

/-- The bytes are a text, which a client shows. -/
def IsText (raw : Bytes) : Prop :=
  ∃ msg, Serializer.deserialize raw = .ok msg ∧ msg.getType = .text

/-- The server's fixed replies are texts, which is checked for each of them. -/
theorem static_isText (r : StaticResponse) : IsText (Packet.static r).bytes := by
  cases r <;> exact ⟨_, rfl, rfl⟩

section Client

variable {ssl : OpenSSL} {c : ClientContext}

/-- A text changes what is shown and nothing else. So a refusal has no effect on the name. -/
theorem received_text (ssl : OpenSSL) {raw : Bytes} (h : IsText raw) (c : ClientContext) :
    ∃ ui, finalState (MessagingClient.onTcpDataReceived ssl raw) c = { c with ui := ui } := by
  obtain ⟨msg, hmsg, htype⟩ := h
  rw [received_ok hmsg, clientDispatch_of_handler (by rw [htype]; rfl)]
  exact ⟨_, rfl⟩

/-- What a `/login` sends, if there is a connection. The name is set before anything is sent, and
    also if there is none. -/
theorem login_asks (hssl : ssl.Correct) {u : Name} (hu : u.length ≤ 65535) (c : ClientContext) :
    ∃ raw, AsksLogin raw u ∧ finalState (LoginCommand.executeOnClient ssl u) c
      = ClientContext.afterSend { c with myUsername := u } raw := by
  obtain ⟨msg, hsend, hcontent, hbuilt⟩ := login_eq hssl hu c
  have hdh : (c.encryption.getDHBytes ssl).length = 32 := hssl.dh_length _
  have hed : (c.encryption.getIdentityBytes ssl).length = 32 := hssl.ed_length _
  have hsig : (c.encryption.sign ssl).length = 64 := hssl.signature_length _ _
  have hfits : msg.content.FitsCompact := by
    rw [hcontent]
    exact Content.plain_fits (by decide) (by simp) (by simp [hdh, hed, hsig, hu]) (by simp [hsig])
  obtain ⟨m, hm, hcarried⟩ := (hbuilt.fitsWire hfits).carries
  obtain ⟨htype, hmeta, -⟩ := Message.of_content (hcarried.trans hcontent)
  refine ⟨_, ⟨m, hm, ⟨htype, by rw [hmeta 0]; rfl⟩, hmeta 1⟩, ?_⟩
  exact (finalState_congr hsend).trans (finalState_sendToServer _ _)

/-- What an `/exit` sends. The connection is given up at once. -/
theorem exit_asks (c : ClientContext) :
    ∃ raw, AsksExit raw ∧ finalState ExitCommand.executeOnClient c
      = { c.afterSend raw with connected := false } := by
  obtain ⟨msg, hfinal, hcontent, hbuilt⟩ := exit_finalState c
  have hfits : msg.content.FitsCompact := by
    rw [hcontent]
    exact Content.plain_fits (by decide) (by simp) (by simp) (by simp)
  obtain ⟨m, hm, hcarried⟩ := (hbuilt.fitsWire hfits).carries
  obtain ⟨htype, hmeta, -⟩ := Message.of_content (hcarried.trans hcontent)
  exact ⟨_, ⟨m, hm, ⟨htype, by rw [hmeta 0]; rfl⟩⟩, hfinal⟩

end Client

section Server

variable {s : ServerContext} {msg : Message} {fd : Fd}

/-- An event on one connection leaves the sessions of the others alone. -/
theorem step_session_other {e : ServerEvent} {g : Fd} (hg : g ≠ e.fd) (s : ServerContext) :
    (s.step e).sessions.fdToName g = s.sessions.fdToName g := by
  cases step_directory s e with
  | keeps _ hsessions => rw [hsessions]
  | login now fd msg he _ _ _ _ hsessions =>
    subst he
    rw [hsessions]
    exact Table.insert_of_ne hg ..
  | exits u hu _ hsessions =>
    rw [hsessions]
    unfold SessionManager.unbind
    rw [hu]
    exact Table.erase_of_ne hg _

/-- **When a `LOGIN` has the connection bound to its name**: the connection is without a session and
    the name free, or it was bound to it before. In the latter case the server refuses the login,
    and what the client believes is right nevertheless. -/
theorem step_login_binds_iff (h : msg.IsLogin) (s : ServerContext) (now : UInt64) (fd : Fd) :
    (s.step (.message now fd msg)).sessions.fdToName fd = some (msg.getMeta 1) ↔
      s.sessions.fdToName fd = none ∧ s.users (msg.getMeta 1) = none ∨
        s.sessions.fdToName fd = some (msg.getMeta 1) := by
  constructor
  · intro hbound
    rcases step_registers h s now fd with hsame | ⟨hfree, hfresh, -⟩
    · have hsessions := congrArg ServiceState.sessions hsame
      exact .inr ((congrArg (SessionManager.fdToName · fd) hsessions).symm.trans hbound)
    · exact .inl ⟨hfree, hfresh⟩
  · rintro (⟨hfree, hfresh⟩ | hbound)
    · have hlogin := login_run (s := { s with now := now, fd := fd }) (msg.getMeta 2)
        (msg.getMeta 3) (msg.getMeta 4) hfree hfresh
      rw [step_command h.type, h.dispatch .login rfl, ServerCommand.execute,
        finalState_congr hlogin]
      have hsends := (OnlySends.sendText fd (bytes "Hello, " ++ msg.getMeta 1 ++ bytes "!") { s with
        now := now
        fd := fd
        users := s.users.insert (msg.getMeta 1) msg.loginKeys
        sessions := s.sessions.bind fd (msg.getMeta 1) }).state.services
      have hsessions := congrArg ServiceState.sessions hsends
      exact (congrArg (SessionManager.fdToName · fd) hsessions).trans (Table.insert_self ..)
    · rcases step_registers h s now fd with hsame | ⟨hfree, -, -⟩
      · have hsessions := congrArg ServiceState.sessions hsame
        exact (congrArg (SessionManager.fdToName · fd) hsessions).trans hbound
      · rw [show s.sessions.fdToName fd = none from hfree] at hbound
        cases hbound

/-- What the server adds to its outbox are texts. -/
def TellsTexts (s s' : ServerContext) : Prop :=
  ∀ x ∈ s'.outbox, x ∈ s.outbox ∨ IsText x.2.bytes

theorem TellsTexts.of_append {s' : ServerContext} (g : Fd) (packet : Packet)
    (h : s'.outbox = s.outbox ++ [(g, packet)]) (htext : IsText packet.bytes) :
    TellsTexts s s' := by
  intro x hx
  rw [h, List.mem_append, List.mem_singleton] at hx
  rcases hx with hx | rfl
  · exact .inl hx
  · exact .inr htext

/-- The greeting with a name that fits into an entry is small enough for a message. -/
theorem greeting_carried {u : Name} (hu : u.length ≤ 65535) :
    (Content.plain .text [] (bytes "Hello, " ++ u ++ bytes "!")).FitsCompact := by
  have hhello : (bytes "Hello, ").length ≤ 64 := by decide
  have hmark : (bytes "!").length ≤ 64 := by decide
  refine Content.plain_fits (by decide) (by simp) (by simp) ?_
  simp only [List.length_append]
  omega

/-- A login is answered with a text: one of the refusals, or the greeting. For the greeting it has
    to be followed over the wire, as the client will decode it. -/
theorem login_tellsTexts {u : Name} (hu : u.length ≤ 65535) (dh identity sig : Bytes)
    (s : ServerContext) :
    TellsTexts s (finalState (ServerApplicationService.login u dh identity sig) s) := by
  unfold ServerApplicationService.login
  rw [finalState_get_bind]
  split
  · exact .of_append s.fd (.static _) rfl (static_isText _)
  · split
    · exact .of_append s.fd (.static _) rfl (static_isText _)
    · rename_i users _
      obtain ⟨m, hconstruct, hcarries⟩ := construct_carries 0
        { s with users := users, sessions := s.sessions.bind s.fd u } (greeting_carried hu)
      obtain ⟨m', hm', hcontent⟩ := hcarries
      have hgreets : sendText s.fd (bytes "Hello, " ++ u ++ bytes "!") { s with
          users := users
          sessions := s.sessions.bind s.fd u } = .ok () { s with
          users := users
          sessions := s.sessions.bind s.fd u
          outbox := s.outbox ++ [(s.fd, .serialized m)] } := bind_ok hconstruct
      exact .of_append s.fd (.serialized m) (congrArg ServerContext.outbox (finalState_ok hgreets))
        ⟨m', hm', (Message.of_content hcontent).1⟩

theorem exit_tellsTexts (s : ServerContext) :
    TellsTexts s (finalState ServerApplicationService.exitCurrentSession s) := by
  intro x hx
  unfold ServerApplicationService.exitCurrentSession at hx
  rw [finalState_get_bind] at hx
  split at hx
  · exact .inl hx
  · exact .inl hx

theorem onTcpDataReceived_eq_step {raw : Bytes} (hmsg : Serializer.deserialize raw = .ok msg)
    (s : ServerContext) (now : UInt64) (fd : Fd) :
    finalState (MessagingServer.onTcpDataReceived fd raw) { s with now := now }
      = s.step (.message now fd msg) :=
  finalState_congr (onTcpDataReceived_ok hmsg fd _)

theorem step_exit_tellsTexts (h : msg.IsCommand .exit) (s : ServerContext) (now : UInt64)
    (fd : Fd) :
    TellsTexts s (s.step (.message now fd msg)) := by
  rw [step_command h.type, h.dispatch .exit rfl]
  exact exit_tellsTexts { s with now := now, fd := fd }

/-- All that clients send here is answered with texts, or not at all. -/
theorem request_tellsTexts {raw : Bytes} (h : (∃ u, AsksLogin raw u) ∨ AsksExit raw)
    (s : ServerContext) (now : UInt64) (fd : Fd) :
    TellsTexts s (finalState (MessagingServer.onTcpDataReceived fd raw) { s with now := now }) := by
  rcases h with ⟨u, msg, hmsg, hlogin, rfl⟩ | ⟨msg, hmsg, hexit⟩
  · rw [onTcpDataReceived_eq_step hmsg, step_command hlogin.type, hlogin.dispatch .login rfl]
    exact login_tellsTexts (deserialize_entry_fits hmsg 1) _ _ _ { s with now := now, fd := fd }
  · rw [onTcpDataReceived_eq_step hmsg]
    exact step_exit_tellsTexts hexit s now fd

/-- The end of a connection is handled as an exit. -/
theorem disconnect_tellsTexts (s : ServerContext) (now : UInt64) (fd : Fd) :
    TellsTexts s (s.step (.disconnect now fd)) := by
  obtain ⟨msg, hexit, hstep⟩ := step_disconnect_eq s now fd
  rw [hstep]
  exact step_exit_tellsTexts hexit s now fd

end Server

/-! ## Along a run -/

section Runs

variable {ι : Type} [DecidableEq ι] {ssl : OpenSSL} {fd : ι → Fd} {s : Network ι}

/-- What a turn of a client does: nothing that the server hears of, or a `LOGIN` for the name that
    the client then has, or nothing but an `EXIT`, without a connection afterwards. The conditions
    are those that `Channel` needs to be kept. -/
inductive Turn (c c' : ClientContext) : Prop
  | silent (hconnected : c'.connected = c.connected) (husername : c'.myUsername = c.myUsername)
      (houtgoing : c'.outgoing = [])
  | login (raw : Bytes) (hconnected : c.connected = true) (houtgoing : c'.outgoing = [raw])
      (hasks : AsksLogin raw c'.myUsername)
  | off (hconnected : c'.connected = false) (hexit : ∀ raw ∈ c'.outgoing, AsksExit raw)
      (hquiet : c.connected = false → c'.outgoing = [])

/-- What has been sent before and the time are not part of it. -/
theorem Turn.of_start {c c' : ClientContext} {now : UInt64}
    (h : Turn { c with now := now, outgoing := [] } c') : Turn c c' := by
  cases h with
  | silent hconnected husername houtgoing => exact .silent hconnected husername houtgoing
  | login raw hconnected houtgoing hasks => exact .login raw hconnected houtgoing hasks
  | off hconnected hexit hquiet => exact .off hconnected hexit hquiet

/-- A `/login` without a connection sends nothing, and the name is changed all the same; the
    agreement does not look at clients without one. -/
theorem login_turn (hssl : ssl.Correct) {u : Name} (hu : u.length ≤ 65535) {c : ClientContext}
    (hc : c.outgoing = []) : Turn c (finalState (LoginCommand.executeOnClient ssl u) c) := by
  obtain ⟨raw, hasks, hfinal⟩ := login_asks hssl hu c
  rw [hfinal]
  by_cases hconnected : c.connected = true
  · rw [afterSend_connected (c := { c with myUsername := u }) hconnected]
    refine .login raw hconnected ?_ hasks
    dsimp only
    rw [hc]
    rfl
  · have hdisconnected : c.connected = false := Bool.not_eq_true _ ▸ hconnected
    rw [afterSend_disconnected (c := { c with myUsername := u }) hdisconnected]
    exact .off hdisconnected (by simp [hc]) fun _ => hc

theorem exit_turn {c : ClientContext} (hc : c.outgoing = []) :
    Turn c (finalState ExitCommand.executeOnClient c) := by
  obtain ⟨raw, hasks, hfinal⟩ := exit_asks c
  rw [hfinal]
  refine .off rfl ?_ ?_
  · intro raw' hraw'
    dsimp only at hraw'
    rw [afterSend_outgoing, hc] at hraw'
    split at hraw'
    · obtain rfl := List.mem_singleton.mp hraw'
      exact hasks
    · cases hraw'
  · intro hconnected
    dsimp only
    rw [afterSend_disconnected hconnected, hc]

theorem text_turn (ssl : OpenSSL) {raw : Bytes} (h : IsText raw) {c : ClientContext}
    (hc : c.outgoing = []) : Turn c (finalState (MessagingClient.onTcpDataReceived ssl raw) c) := by
  obtain ⟨ui, hfinal⟩ := received_text ssl h c
  rw [hfinal]
  exact .silent rfl rfl hc

/-- One client and its connection: what is on its way, and that the last word of the client to
    the server is its name. -/
structure Channel (c : ClientContext) (toServer fromServer : List Bytes) (closed : Bool) :
    Prop where
  asked : ∀ raw ∈ toServer, (∃ u, AsksLogin raw u) ∨ AsksExit raw
  last : ∀ raw, c.connected = true → toServer.getLast? = some raw → AsksLogin raw c.myUsername
  told : ∀ raw ∈ fromServer, IsText raw
  closed : closed = true → c.connected = false ∧ toServer = []

/-- All connections are as `Channel` says. -/
def Network.Coherent (s : Network ι) : Prop :=
  ∀ p, Channel (s.client p) (s.toServer p) (s.fromServer p) (s.closed p)

/-- A client that is connected and has asked for nothing that has not been handled is logged in
    under the name it has. -/
def Network.AgreesAt (fd : ι → Fd) (s : Network ι) (p : ι) : Prop :=
  (s.client p).connected = true → s.toServer p = [] → (s.client p).myUsername ≠ [] →
    s.server.sessions.getUsername (fd p) = .ok (s.client p).myUsername

/-- **Client and server agree** on who is logged in. -/
def Network.Agrees (fd : ι → Fd) (s : Network ι) : Prop := ∀ p, s.AgreesAt fd p

/-- When the server handles the last request of a client that is connected, the client's
    connection has no session and its name is free, or it is logged in under that name. -/
def Network.Welcome (fd : ι → Fd) (s : Network ι) : NetworkAction ι → Prop
  | .serve _ p => ∀ raw, s.toServer p = [raw] → (s.client p).connected = true →
      (s.client p).myUsername ≠ [] →
      s.server.sessions.fdToName (fd p) = none ∧ s.server.users (s.client p).myUsername = none ∨
        s.server.sessions.fdToName (fd p) = some (s.client p).myUsername
  | _ => True

/-- A name that the wire can carry. -/
def NetworkAction.NameFits : NetworkAction ι → Prop
  | .login _ _ username => username.length ≤ 65535
  | _ => True

variable {p q : ι} {now : UInt64} {x : ClientM Unit}

theorem Network.runClient_self (s : Network ι) (now : UInt64) (p : ι) (x : ClientM Unit) :
    (s.runClient now p x).client p = finalState x { s.client p with now := now, outgoing := [] } ∧
      (s.runClient now p x).toServer p = s.toServer p ++
        (finalState x { s.client p with now := now, outgoing := [] }).outgoing :=
  ⟨Function.update_self .., Function.update_self ..⟩

theorem Network.runClient_other (h : q ≠ p) :
    (s.runClient now p x).client q = s.client q ∧
      (s.runClient now p x).toServer q = s.toServer q :=
  ⟨Function.update_of_ne h .., Function.update_of_ne h ..⟩

section

variable {c c' : ClientContext} {raw : Bytes} {out more heard : List Bytes} {closed : Bool}

/-- The client's turn. In the case of a `LOGIN` the last request is the new one, and it asks for the
    name that the client has taken. In the case of an exit the condition on the last request is
    void, because the client is no longer connected. -/
theorem Channel.turn (h : Channel c out heard closed) (hturn : Turn c c') :
    Channel c' (out ++ c'.outgoing) heard closed := by
  cases hturn with
  | silent hconnected husername houtgoing =>
    rw [houtgoing, List.append_nil]
    refine ⟨h.asked, fun raw hc hlast => ?_, h.told, fun hclosed => ?_⟩
    · rw [husername]
      exact h.last raw (hconnected ▸ hc) hlast
    · rw [hconnected]
      exact h.closed hclosed
  | login raw hconnected houtgoing hasks =>
    rw [houtgoing]
    refine ⟨fun raw' hraw' => ?_, fun raw' _ hlast => ?_, h.told, fun hclosed => ?_⟩
    · rw [List.mem_append, List.mem_singleton] at hraw'
      rcases hraw' with hraw' | rfl
      · exact h.asked raw' hraw'
      · exact .inl ⟨_, hasks⟩
    · rw [List.getLast?_append_of_ne_nil _ (List.cons_ne_nil _ _)] at hlast
      obtain rfl := Option.some.inj hlast
      exact hasks
    · rw [(h.closed hclosed).1] at hconnected
      cases hconnected
  | off hconnected hexit hquiet =>
    refine ⟨fun raw' hraw' => ?_, fun raw' hc _ => ?_, h.told, fun hclosed => ?_⟩
    · rw [List.mem_append] at hraw'
      rcases hraw' with hraw' | hraw'
      · exact h.asked raw' hraw'
      · exact .inr (hexit raw' hraw')
    · rw [hconnected] at hc
      cases hc
    · obtain ⟨hoff, hnil⟩ := h.closed hclosed
      rw [hnil, hquiet hoff]
      exact ⟨hconnected, rfl⟩

/-- The server takes the first request. If others remain, the last one is the same as before. -/
theorem Channel.tail (h : Channel c (raw :: out) heard closed) : Channel c out heard closed := by
  refine ⟨fun raw' hraw' => h.asked raw' (List.mem_cons_of_mem raw hraw'),
    fun raw' hc hlast => h.last raw' hc ?_, h.told, fun hclosed => ?_⟩
  · rw [List.getLast?_cons, hlast]
    rfl
  · cases (h.closed hclosed).2

theorem Channel.tell (h : Channel c out heard closed) (hmore : ∀ raw ∈ more, IsText raw) :
    Channel c out (heard ++ more) closed := by
  refine ⟨h.asked, h.last, fun raw hraw => ?_, h.closed⟩
  rcases List.mem_append.mp hraw with hraw | hraw
  · exact h.told raw hraw
  · exact hmore raw hraw

theorem Channel.hear (h : Channel c out (raw :: heard) closed) : Channel c out heard closed :=
  ⟨h.asked, h.last, fun raw' hraw' => h.told raw' (List.mem_cons_of_mem raw hraw'), h.closed⟩

/-- The server has noticed that the connection has ended, and the queues are gone. -/
theorem Channel.hungUp (hoff : c.connected = false) : Channel c [] [] true :=
  ⟨by simp, by simp, by simp, fun _ => ⟨hoff, rfl⟩⟩

theorem Channel.reopen (h : Channel c out heard true) (c' : ClientContext) :
    Channel c' out heard false := by
  obtain ⟨-, rfl⟩ := h.closed rfl
  exact ⟨by simp, by simp, h.told, by simp⟩

end

theorem Network.Coherent.of_channel {s' : Network ι} (h : s.Coherent)
    (hchannel : Channel (s'.client p) (s'.toServer p) (s'.fromServer p) (s'.closed p))
    (hclient : ∀ q ≠ p, s'.client q = s.client q)
    (htoServer : ∀ q ≠ p, s'.toServer q = s.toServer q)
    (hfromServer : ∀ q ≠ p, s'.fromServer q = s.fromServer q)
    (hclosed : ∀ q ≠ p, s'.closed q = s.closed q) : s'.Coherent := by
  intro q
  by_cases hqp : q = p
  · rw [hqp]
    exact hchannel
  · rw [hclient q hqp, htoServer q hqp, hfromServer q hqp, hclosed q hqp]
    exact h q

/-- **A turn of a client** keeps the queues coherent. -/
theorem Network.Coherent.runClient (h : s.Coherent)
    (hturn : Turn (s.client p) (finalState x { s.client p with now := now, outgoing := [] })) :
    (s.runClient now p x).Coherent := by
  obtain ⟨hclient, hqueue⟩ := s.runClient_self now p x
  rw [← hclient] at hqueue hturn
  refine h.of_channel (p := p) ?_ (fun q hq => (Network.runClient_other hq).1)
    (fun q hq => (Network.runClient_other hq).2) (fun _ _ => rfl) (fun _ _ => rfl)
  rw [hqueue]
  exact (h p).turn hturn

omit [DecidableEq ι] in
/-- **A turn of the server** that tells only texts does so, too. Its packets may go to any
    client. -/
theorem Network.Coherent.runServer (h : s.Coherent) {y : ServerM Unit}
    (htexts : TellsTexts { s.server with outbox := [] }
      (finalState y { s.server with now := now, outbox := [] })) :
    (Network.runServer fd s now y).Coherent := by
  intro q
  refine (h q).tell fun raw hraw => ?_
  obtain ⟨⟨g, packet⟩, hsent, hpacket⟩ := List.mem_filterMap.mp hraw
  dsimp only at hpacket
  split at hpacket
  · obtain rfl := Option.some.inj hpacket
    rcases htexts _ hsent with hold | htext
    · cases hold
    · exact htext
  · cases hpacket

theorem Network.Coherent.taken (h : s.Coherent) {raw : Bytes} {rest : List Bytes}
    (hqueue : s.toServer p = raw :: rest) :
    Network.Coherent { s with toServer := Function.update s.toServer p rest } := by
  have hchannel := h p
  rw [hqueue] at hchannel
  refine h.of_channel (p := p) ?_ (fun _ _ => rfl) (fun q hq => Function.update_of_ne hq ..)
    (fun _ _ => rfl) (fun _ _ => rfl)
  dsimp only
  rw [Function.update_self]
  exact hchannel.tail

theorem Network.Coherent.heard (h : s.Coherent) {raw : Bytes} {rest : List Bytes}
    (hqueue : s.fromServer p = raw :: rest) :
    Network.Coherent { s with fromServer := Function.update s.fromServer p rest } := by
  have hchannel := h p
  rw [hqueue] at hchannel
  refine h.of_channel (p := p) ?_ (fun _ _ => rfl) (fun _ _ => rfl)
    (fun q hq => Function.update_of_ne hq ..) (fun _ _ => rfl)
  dsimp only
  rw [Function.update_self]
  exact hchannel.hear

/-- **One step** keeps the queues coherent, whatever it is. The server's turn is where the two
    directions meet: that it answers with texts rests on what it was asked, and that the client
    reads nothing but texts is what makes its next turn silent. -/
theorem Network.Coherent.step (hssl : ssl.Correct) (h : s.Coherent) {action : NetworkAction ι}
    (hname : action.NameFits) : (s.step ssl fd action).Coherent := by
  cases action with
  | login now p username => exact h.runClient (login_turn hssl hname rfl).of_start
  | exit now p => exact h.runClient (exit_turn rfl).of_start
  | serve now p =>
    cases hqueue : s.toServer p with
    | nil =>
      rw [Network.step_serve_nil ssl fd hqueue]
      exact h
    | cons raw rest =>
      rw [Network.step_serve ssl fd hqueue]
      have hasked := (h p).asked raw (hqueue ▸ List.mem_cons_self)
      exact (h.taken hqueue).runServer
        (request_tellsTexts hasked { s.server with outbox := [] } now (fd p))
  | deliver now p =>
    cases hqueue : s.fromServer p with
    | nil =>
      rw [Network.step_deliver_nil ssl fd hqueue]
      exact h
    | cons raw rest =>
      rw [Network.step_deliver ssl fd hqueue]
      have htold := (h p).told raw (hqueue ▸ List.mem_cons_self)
      exact (h.heard hqueue).runClient (text_turn ssl htold rfl).of_start
  | hangUp now p =>
    unfold Network.step
    dsimp only
    split
    · exact h
    · rename_i hoff
      have hserver :
          (Network.runServer fd s now (MessagingServer.onDisconnected (fd p))).Coherent :=
        h.runServer (disconnect_tellsTexts { s.server with outbox := [] } now (fd p))
      refine hserver.of_channel (p := p) ?_ (fun _ _ => rfl)
        (fun q hq => Function.update_of_ne hq ..)
        (fun q hq => Function.update_of_ne hq ..) (fun q hq => Function.update_of_ne hq ..)
      dsimp only
      rw [Function.update_self, Function.update_self, Function.update_self]
      exact .hungUp (Bool.not_eq_true _ ▸ hoff)
  | connect p encryption =>
    unfold Network.step
    dsimp only
    split
    · rename_i hclosed
      have hchannel := h p
      rw [hclosed] at hchannel
      refine h.of_channel (p := p) ?_ (fun q hq => Function.update_of_ne hq ..) (fun _ _ => rfl)
        (fun _ _ => rfl) (fun q hq => Function.update_of_ne hq ..)
      dsimp only
      rw [Function.update_self, Function.update_self]
      exact hchannel.reopen _
    · exact h

/-! ## The agreement -/

/-- Only the connection of `p` is different, so only there can the agreement be lost. -/
theorem Network.Agrees.iff_at {s' : Network ι} (h : s.Agrees fd)
    (hclient : ∀ q ≠ p, s'.client q = s.client q) (hqueue : ∀ q ≠ p, s'.toServer q = s.toServer q)
    (hsession : ∀ q ≠ p,
      s'.server.sessions.fdToName (fd q) = s.server.sessions.fdToName (fd q)) :
    s'.Agrees fd ↔ s'.AgreesAt fd p := by
  refine ⟨fun h' => h' p, fun hp q => ?_⟩
  by_cases hqp : q = p
  · rw [hqp]
    exact hp
  · unfold Network.AgreesAt SessionManager.getUsername
    rw [hclient q hqp, hqueue q hqp, hsession q hqp]
    exact h q

theorem Network.Agrees.of_at {s' : Network ι} (h : s.Agrees fd) (hp : s'.AgreesAt fd p)
    (hclient : ∀ q ≠ p, s'.client q = s.client q) (hqueue : ∀ q ≠ p, s'.toServer q = s.toServer q)
    (hsession : ∀ q ≠ p,
      s'.server.sessions.fdToName (fd q) = s.server.sessions.fdToName (fd q)) : s'.Agrees fd :=
  (h.iff_at hclient hqueue hsession).mpr hp

/-- A turn of a client keeps the agreement: either the client has something to wait for now, or
    nothing has changed. -/
theorem Network.Agrees.runClient (h : s.Agrees fd)
    (hturn : Turn (s.client p) (finalState x { s.client p with now := now, outgoing := [] })) :
    (s.runClient now p x).Agrees fd := by
  obtain ⟨hclient, hqueue⟩ := s.runClient_self now p x
  rw [← hclient] at hqueue hturn
  refine h.of_at (p := p) ?_ (fun q hq => (Network.runClient_other hq).1)
    (fun q hq => (Network.runClient_other hq).2) fun _ _ => rfl
  intro hconnected hnil hname
  rw [hqueue, List.append_eq_nil_iff] at hnil
  cases hturn with
  | silent hsame husername _ =>
    rw [husername] at hname ⊢
    exact h p (hsame ▸ hconnected) hnil.1 hname
  | login raw _ houtgoing _ =>
    rw [houtgoing] at hnil
    cases hnil.2
  | off hoff _ _ =>
    rw [hoff] at hconnected
    cases hconnected

/-- **The server handles a request.** If more requests of the client are on their way, there is
    nothing to agree on yet. The last one is a `LOGIN` for the client's name, by coherence, so that
    whether the server binds the name is `step_login_binds_iff`. Other clients are not affected: an
    event changes the session of its own connection only. -/
theorem Network.Agrees.serve_iff (hfd : Function.Injective fd) (hcoherent : s.Coherent)
    (h : s.Agrees fd) {raw : Bytes} {rest : List Bytes} (hqueue : s.toServer p = raw :: rest) :
    (Network.runServer fd { s with toServer := Function.update s.toServer p rest } now
      (MessagingServer.onTcpDataReceived (fd p) raw)).Agrees fd ↔ s.Welcome fd (.serve now p) := by
  have hchannel := hcoherent p
  rw [hqueue] at hchannel
  have hdecoded : ∃ msg, Serializer.deserialize raw = .ok msg := by
    rcases hchannel.asked raw List.mem_cons_self with ⟨u, msg, hmsg, -, -⟩ | ⟨msg, hmsg, -⟩
    · exact ⟨msg, hmsg⟩
    · exact ⟨msg, hmsg⟩
  obtain ⟨msg, hmsg⟩ := hdecoded
  generalize hs' : Network.runServer fd { s with toServer := Function.update s.toServer p rest } now
    (MessagingServer.onTcpDataReceived (fd p) raw) = s'
  have hclient : s'.client = s.client := by
    rw [← hs']
    rfl
  have hrest : s'.toServer = Function.update s.toServer p rest := by
    rw [← hs']
    rfl
  have hserver : s'.server
      = ServerContext.step { s.server with outbox := [] } (.message now (fd p) msg) := by
    rw [← hs']
    exact onTcpDataReceived_eq_step hmsg { s.server with outbox := [] } now (fd p)
  have hothers : ∀ q ≠ p,
      s'.server.sessions.fdToName (fd q) = s.server.sessions.fdToName (fd q) := by
    intro q hq
    rw [hserver]
    exact step_session_other (fun heq => hq (hfd heq)) { s.server with outbox := [] }
  have honly : s'.Agrees fd ↔ s'.AgreesAt fd p := h.iff_at (fun q _ => congrFun hclient q)
    (fun q hq => (congrFun hrest q).trans (Function.update_of_ne hq ..)) hothers
  rw [honly]
  unfold Network.AgreesAt Network.Welcome
  dsimp only
  rw [hclient, hrest, Function.update_self, hqueue]
  -- with requests left both sides hold without a reason
  cases rest with
  | cons next rest => simp
  | nil =>
    have hbinds (hconnected : (s.client p).connected = true) :
        s'.server.sessions.getUsername (fd p) = .ok (s.client p).myUsername ↔
          s.server.sessions.fdToName (fd p) = none ∧
              s.server.users (s.client p).myUsername = none ∨
            s.server.sessions.fdToName (fd p) = some (s.client p).myUsername := by
      obtain ⟨msg', hmsg', hlogin, hu⟩ := hchannel.last raw hconnected rfl
      obtain rfl := Except.ok.inj (hmsg.symm.trans hmsg')
      rw [← hu, getUsername_ok_iff, hserver]
      exact step_login_binds_iff hlogin { s.server with outbox := [] } now (fd p)
    constructor
    · intro hagrees raw' _ hconnected hname
      exact (hbinds hconnected).mp (hagrees hconnected rfl hname)
    · intro hwelcome hconnected _ hname
      exact (hbinds hconnected).mpr (hwelcome raw rfl hconnected hname)

/-- **One step.** The agreement is kept exactly by the steps that are welcome. All but a turn of the
    server are welcome and keep it; a new client in the place of one that has gone has no name
    yet. -/
theorem Network.Agrees.step_iff (hssl : ssl.Correct) (hfd : Function.Injective fd)
    (hcoherent : s.Coherent) (h : s.Agrees fd) {action : NetworkAction ι}
    (hname : action.NameFits) : (s.step ssl fd action).Agrees fd ↔ s.Welcome fd action := by
  cases action with
  | login now p username =>
    exact iff_of_true (h.runClient (login_turn hssl hname rfl).of_start) trivial
  | exit now p => exact iff_of_true (h.runClient (exit_turn rfl).of_start) trivial
  | serve now p =>
    cases hqueue : s.toServer p with
    | nil =>
      rw [Network.step_serve_nil ssl fd hqueue]
      refine iff_of_true h fun raw hraw => ?_
      rw [hqueue] at hraw
      cases hraw
    | cons raw rest =>
      rw [Network.step_serve ssl fd hqueue]
      exact h.serve_iff hfd hcoherent hqueue
  | deliver now p =>
    cases hqueue : s.fromServer p with
    | nil =>
      rw [Network.step_deliver_nil ssl fd hqueue]
      exact iff_of_true h trivial
    | cons raw rest =>
      rw [Network.step_deliver ssl fd hqueue]
      have htext : IsText raw := (hcoherent p).told raw (hqueue ▸ List.mem_cons_self)
      have hbefore : Network.Agrees fd { s with
        fromServer := Function.update s.fromServer p rest } := h
      exact iff_of_true (hbefore.runClient (text_turn ssl htext rfl).of_start) trivial
  | hangUp now p =>
    refine iff_of_true ?_ trivial
    unfold Network.step
    dsimp only
    split
    · exact h
    · rename_i hoff
      refine h.of_at (p := p) (fun hconnected => absurd hconnected hoff) (fun _ _ => rfl)
        (fun q hq => Function.update_of_ne hq ..) fun q hq => ?_
      exact step_session_other (e := .disconnect now (fd p)) (fun heq => hq (hfd heq))
        { s.server with outbox := [] }
  | connect p encryption =>
    refine iff_of_true ?_ trivial
    unfold Network.step
    dsimp only
    split
    · refine h.of_at (p := p) (fun _ _ hname => ?_) (fun q hq => Function.update_of_ne hq ..)
        (fun _ _ => rfl) fun _ _ => rfl
      dsimp only at hname
      rw [Function.update_self] at hname
      exact absurd rfl hname
    · exact h

/-- Every step of the run is welcome when it is taken. -/
def Network.WelcomeRun (ssl : OpenSSL) (fd : ι → Fd) : Network ι → List (NetworkAction ι) → Prop
  | _, [] => True
  | s, action :: actions => s.Welcome fd action ∧ WelcomeRun ssl fd (s.step ssl fd action) actions

/-- Clients that have not asked for a name, and nothing on its way. The server may be in any state,
    with sessions of others on it. -/
structure Network.Fresh (s : Network ι) : Prop where
  username : ∀ p, (s.client p).myUsername = []
  toServer : ∀ p, s.toServer p = []
  fromServer : ∀ p, s.fromServer p = []
  closed : ∀ p, s.closed p = true → (s.client p).connected = false

omit [DecidableEq ι] in
theorem Network.Fresh.coherent (h : s.Fresh) : s.Coherent := by
  intro p
  rw [h.toServer, h.fromServer]
  exact ⟨by simp, by simp, by simp, fun hclosed => ⟨h.closed p hclosed, rfl⟩⟩

omit [DecidableEq ι] in
theorem Network.Fresh.agrees (h : s.Fresh) : s.Agrees fd :=
  fun p _ _ hname => absurd (h.username p) hname

/-- **A run.** By induction on the actions. For the one direction the agreement after the first step
    has to be read off the prefix of length one; for the other it comes from the step being
    welcome. -/
theorem Network.Agrees.run_iff (hssl : ssl.Correct) (hfd : Function.Injective fd)
    {actions : List (NetworkAction ι)} (hnames : ∀ action ∈ actions, action.NameFits)
    (hcoherent : s.Coherent) (h : s.Agrees fd) :
    (∀ reached, reached <+: actions → (s.run ssl fd reached).Agrees fd) ↔
      s.WelcomeRun ssl fd actions := by
  induction actions generalizing s with
  | nil =>
    refine iff_of_true (fun reached hreached => ?_) trivial
    obtain rfl := List.prefix_nil.mp hreached
    exact h
  | cons action actions ih =>
    have hname := hnames action List.mem_cons_self
    have hlater : ∀ action ∈ actions, action.NameFits :=
      fun a ha => hnames a (List.mem_cons_of_mem action ha)
    have hstep := h.step_iff hssl hfd hcoherent hname
    constructor
    · intro hall
      have hnext : (s.step ssl fd action).Agrees fd :=
        hall [action] (List.cons_prefix_cons.mpr ⟨rfl, List.nil_prefix⟩)
      refine ⟨hstep.mp hnext, (ih hlater (hcoherent.step hssl hname) hnext).mp ?_⟩
      intro reached hreached
      exact hall (action :: reached) (List.cons_prefix_cons.mpr ⟨rfl, hreached⟩)
    · rintro ⟨hwelcome, hrun⟩ reached hreached
      have hnext := hstep.mpr hwelcome
      cases reached with
      | nil => exact h
      | cons first reached =>
        obtain ⟨rfl, hrest⟩ := List.cons_prefix_cons.mp hreached
        exact (ih hlater (hcoherent.step hssl hname) hnext).mpr hrun reached hrest

end Runs

/-- **Client and server agree on who is logged in**, in every state of a run, exactly if the
    last request of a client always finds its connection without a session and its name free,
    or the connection logged in under that name already. -/
theorem logins_agree_iff {ι : Type} [DecidableEq ι] {ssl : OpenSSL} (hssl : ssl.Correct)
    {fd : ι → Fd} (hfd : Function.Injective fd) {s : Network ι} (hs : s.Fresh)
    {actions : List (NetworkAction ι)} (hnames : ∀ action ∈ actions, action.NameFits) :
    (∀ reached, reached <+: actions → (s.run ssl fd reached).Agrees fd) ↔
      s.WelcomeRun ssl fd actions :=
  hs.agrees.run_iff hssl hfd hnames hs.coherent

/-! ## Two clients and one name -/

/-- The descriptors of the two connections. -/
def loginFds (p : Bool) : Fd := if p then 6 else 5

theorem loginFds_injective : Function.Injective loginFds := by
  intro p q h
  cases p <;> cases q <;> first | rfl | exact absurd h (by decide)

/-- Two clients with keys of their own. -/
def twoClients : Network Bool where
  client p := { encryption := {
    dhKey := [if p then 1 else 3]
    identityKey := [if p then 2 else 4]
    entropy := zeroEntropy } }

theorem twoClients_fresh : twoClients.Fresh where
  username _ := rfl
  toServer _ := rfl
  fromServer _ := rfl
  closed _ h := by cases h

/-- One client asks for a name that is free. -/
theorem one_login_agrees :
    let actions := [.login 1 false (bytes "alice"), .serve 2 false, .deliver 3 false]
    (twoClients.run clearSSL loginFds actions).server.sessions.getUsername 5 = .ok (bytes "alice") ∧
      ∀ reached, reached <+: actions →
        (twoClients.run clearSSL loginFds reached).Agrees loginFds := by
  intro actions
  refine ⟨by decide +kernel, (logins_agree_iff clearSSL_correct loginFds_injective
    twoClients_fresh ?_).mpr ⟨trivial, fun _ _ _ _ => .inl ⟨rfl, rfl⟩, trivial, trivial⟩⟩
  intro action haction
  simp only [actions, List.mem_cons, List.not_mem_nil, or_false] at haction
  rcases haction with rfl | rfl | rfl
  · show (bytes "alice").length ≤ 65535
    decide
  · trivial
  · trivial

/-- The other asks for it, too. The server refuses, the reply has been shown, nothing is on its
    way, and the client has the name. -/
theorem two_logins_disagree :
    let s := twoClients.run clearSSL loginFds [.login 1 false (bytes "alice"), .serve 2 false,
      .deliver 3 false, .login 4 true (bytes "alice"), .serve 5 true, .deliver 6 true]
    (s.client true).connected = true ∧ s.toServer true = [] ∧ s.fromServer true = [] ∧
      (s.client true).myUsername = bytes "alice" ∧
      s.server.sessions.getUsername 6 = .error .userNotFound ∧ ¬s.Agrees loginFds := by
  intro s
  have hconnected : (s.client true).connected = true := by decide +kernel
  have hqueue : s.toServer true = [] := by decide +kernel
  have hname : (s.client true).myUsername = bytes "alice" := by decide +kernel
  have hsession : s.server.sessions.getUsername 6 = .error .userNotFound := by decide +kernel
  refine ⟨hconnected, hqueue, by decide +kernel, hname, hsession, fun hagrees => ?_⟩
  have hbound := hagrees true hconnected hqueue (by rw [hname]; decide)
  cases hsession.symm.trans hbound

end Messenger
