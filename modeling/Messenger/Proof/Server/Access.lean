import Messenger.Proof.Server.Lobby
import Messenger.Proof.Server.Requests

/-!
# Who may reach whom

Every operation of `ServerApplicationService` that reaches another client asks the session
manager first who is speaking. Two things are not asked. The three file handlers look up
the recipient only, so a connection that never logged in can send files. And the name in a
private message is the one the client wrote there, next to keys that are looked up under
the name of the session.

Both come out below as the exact condition on the request under which nothing is wrong.

For the first question it is shown what each handler does when the session manager has no name for
the connection. There are few answers, a fixed text or nothing, and of keys only those of others;
`AnswersAt` covers them all, and is kept by sequencing. Two handlers get further. `LOGIN` is meant
to. `FileStart`, `FileChunk` and `FileEnd` are not, and go to whoever is named in them.

For the second the content of what is sent on is computed (`deliverCipherMessage_forwards`), since
a condition on the name alone would not say that the keys next to it are those of the session.
-/

set_option autoImplicit false

namespace Messenger

open Messenger.Lib

/-- Every packet sent between `s` and `s'` is as `P` says. That the outbox has only grown is part of
    it. -/
def AllSent (P : Fd → Packet → Prop) (s s' : ServerContext) : Prop :=
  ∃ sent, s'.outbox = s.outbox ++ sent ∧ ∀ g packet, (g, packet) ∈ sent → P g packet

theorem AllSent.refl (P : Fd → Packet → Prop) (s : ServerContext) : AllSent P s s :=
  ⟨[], (List.append_nil _).symm, fun _ _ h => by cases h⟩

theorem AllSent.trans {P : Fd → Packet → Prop} {s s' s'' : ServerContext} (h : AllSent P s s')
    (h' : AllSent P s' s'') : AllSent P s s'' := by
  obtain ⟨sent, hsent, hP⟩ := h
  obtain ⟨sent', hsent', hP'⟩ := h'
  refine ⟨sent ++ sent', by rw [hsent', hsent, List.append_assoc], fun g packet hmem => ?_⟩
  rcases List.mem_append.mp hmem with hmem | hmem
  · exact hP g packet hmem
  · exact hP' g packet hmem

theorem AllSent.one {P : Fd → Packet → Prop} {s s' : ServerContext} {g : Fd} {packet : Packet}
    (hsent : s'.outbox = s.outbox ++ [(g, packet)]) (h : P g packet) : AllSent P s s' := by
  refine ⟨[(g, packet)], hsent, fun g' packet' hmem => ?_⟩
  obtain ⟨rfl, rfl⟩ : g' = g ∧ packet' = packet := by simpa using hmem
  exact h

theorem AllSent.of_one {P : Fd → Packet → Prop} {s s' : ServerContext} {g : Fd} {packet : Packet}
    (h : AllSent P s s') (hsent : s'.outbox = s.outbox ++ [(g, packet)]) : P g packet := by
  obtain ⟨sent, hsent', hP⟩ := h
  obtain rfl : sent = [(g, packet)] := List.append_cancel_left (hsent'.symm.trans hsent)
  exact hP g packet (List.mem_singleton.mpr rfl)

/-! ## Connections without a name -/

/-- Nothing but answers to the current connection. -/
structure Answered (s s' : ServerContext) : Prop where
  services : s'.services = s.services
  fd : s'.fd = s.fd
  sent : AllSent (fun g _ => g = s.fd) s s'

theorem Answered.refl (s : ServerContext) : Answered s s := ⟨rfl, rfl, .refl _ s⟩

theorem Answered.trans {s s' s'' : ServerContext} (h : Answered s s') (h' : Answered s' s'') :
    Answered s s'' := by
  have hsent := h'.sent
  rw [h.fd] at hsent
  exact ⟨h'.services.trans h.services, h'.fd.trans h.fd, h.sent.trans hsent⟩

/-- From `s`, the computation only answers. -/
abbrev AnswersAt {α : Type} (x : ServerM α) (s : ServerContext) : Prop :=
  Respects Answered (fun _ => True) x s

theorem AnswersAt.send (packet : Packet) (s : ServerContext) :
    AnswersAt (Messenger.send s.fd packet) s :=
  .modify ⟨rfl, rfl, .one rfl rfl⟩

theorem AnswersAt.bind {α β : Type} {x : ServerM α} {f : α → ServerM β} {s : ServerContext}
    (hx : AnswersAt x s) (hf : ∀ a s', Answered s s' → AnswersAt (f a) s') :
    AnswersAt (x >>= f) s :=
  Respects.bind hx hf (fun _ h => h) fun _ _ h h' => h.trans h'

theorem AnswersAt.liftExcept {α : Type} (x : Except Failure α) (s : ServerContext) :
    AnswersAt (Messenger.liftExcept x) s := by
  cases x with
  | ok a => exact .pure a (.refl s)
  | error e => exact .throw (.refl s) trivial

theorem AnswersAt.construct (payload : Bytes) (metalen : UInt8) (metadata : List Bytes)
    (type : MessageType) (s : ServerContext) :
    AnswersAt (Messenger.construct payload metalen metadata type) s :=
  .get_bind (AnswersAt.liftExcept _ s)

/-- A text for the current connection. The connection is the one at the start, and constructing the
    text does not change it. -/
theorem AnswersAt.sendText (text : Bytes) (s : ServerContext) :
    AnswersAt (Messenger.sendText s.fd text) s := by
  refine AnswersAt.bind (.construct _ _ _ _ s) fun msg s' h => ?_
  rw [← h.fd]
  exact AnswersAt.send _ s'

theorem getUsername_of_none {m : SessionManager} {fd : Fd} (h : m.fdToName fd = none) :
    m.getUsername fd = .error .userNotFound := by
  unfold SessionManager.getUsername
  rw [h]

/-- A request for keys is answered to the one who asks, with the keys or with a refusal. -/
theorem sendPubkey_answers (username : Bytes) (s : ServerContext) :
    AnswersAt (ServerApplicationService.sendPubkey username) s := by
  refine .get_bind ?_
  split
  · exact AnswersAt.send _ s
  · split
    · exact AnswersAt.send _ s
    · refine AnswersAt.bind (.construct _ _ _ _ s) fun msg s' h => ?_
      rw [← h.fd]
      exact AnswersAt.send _ s'

section Anonymous

variable {s : ServerContext}

theorem sendGroupMessage_anonymous (h : s.sessions.fdToName s.fd = none) (c : Name)
    (message : Message) : AnswersAt (ServerApplicationService.sendGroupMessage c message) s := by
  apply Respects.get_bind
  rw [getUsername_of_none h]
  exact AnswersAt.send _ s

theorem deliverCipherMessage_anonymous (h : s.sessions.fdToName s.fd = none) (msg : Message) :
    AnswersAt (ServerApplicationService.deliverCipherMessage s.fd msg) s := by
  apply Respects.get_bind
  rw [getUsername_of_none h]
  exact AnswersAt.send _ s

/-- A login is answered too, after the services have taken it in. -/
theorem login_answers (username dh identity sig : Bytes) (s : ServerContext) :
    AllSent (fun g _ => g = s.fd) s
      (finalState (ServerApplicationService.login username dh identity sig) s) := by
  have hrespects : Respects (fun s s' => AllSent (fun g _ => g = s.fd) s s') (fun _ => True)
      (ServerApplicationService.login username dh identity sig) s := by
    apply Respects.get_bind
    split
    · exact (AnswersAt.send _ s).mono fun _ h => h.sent
    · split
      · exact (AnswersAt.send _ s).mono fun _ h => h.sent
      · rename_i users _
        exact Respects.set_bind
          (AnswersAt.sendText _
            { s with users := users, sessions := s.sessions.bind s.fd username })
          fun _ h => h.sent
  exact hrespects.state

/-- Whatever a connection without a name asks for, short of a login, is refused with an answer. Each
    handler asks the session manager first; `getpub` and `sendfile` do not, and only answer, and
    `help` does nothing. -/
theorem execute_anonymous (h : s.sessions.fdToName s.fd = none) {cmd : ServerCommand}
    (hcmd : cmd ≠ .login) (msg : Message) : AnswersAt (cmd.execute msg) s := by
  cases cmd with
  | exit =>
    apply Respects.get_bind
    rw [getUsername_of_none h]
    exact .pure _ (.refl s)
  | login => exact absurd rfl hcmd
  | room =>
    apply Respects.get_bind
    rw [getUsername_of_none h]
    exact AnswersAt.send _ s
  | send =>
    refine AnswersAt.bind (.construct _ _ _ _ s) fun message s' hs' => ?_
    have hsessions : s'.sessions = s.sessions := congrArg ServiceState.sessions hs'.services
    apply sendGroupMessage_anonymous
    rw [hsessions, hs'.fd]
    exact h
  | join =>
    apply Respects.get_bind
    rw [getUsername_of_none h]
    exact AnswersAt.send _ s
  | getpub => exact sendPubkey_answers _ s
  | help => exact .pure _ (.refl s)
  | sendfile => exact .get_bind (AnswersAt.sendText _ s)

theorem forwardFile_absent {e : ServiceError} {msg : Message}
    (h : s.sessions.getFd (msg.getMeta 0) = .error e) : AnswersAt (forwardFile msg) s := by
  apply Respects.get_bind
  rw [h]
  exact AnswersAt.send _ s

/-- A file message goes on to its recipient. Who sent it is not asked. -/
theorem forwardFile_run {g : Fd} {msg : Message} (h : s.sessions.getFd (msg.getMeta 0) = .ok g) :
    forwardFile msg s = .ok () { s with outbox := s.outbox ++ [(g, .serialized msg)] } := by
  unfold forwardFile
  rw [get_bind_run, h]
  rfl

end Anonymous

/-- A `LOGIN` command. -/
abbrev Message.IsLogin (msg : Message) : Prop := msg.IsCommand .login

/-- The request of `fd` reaches no other connection, and the services only by a login. -/
structure Confined (fd : Fd) (msg : Message) (s s' : ServerContext) : Prop where
  sent : AllSent (fun g _ => g = fd) s s'
  services : ¬msg.IsLogin → s'.services = s.services

/-- A command of a connection without a name. The cases are those of the command bus: no code, a
    code without a handler, the login, another command. -/
theorem busDispatch_anonymous {s : ServerContext} (h : s.sessions.fdToName s.fd = none)
    {msg : Message} (hmsg : msg.getType = .command) :
    Confined s.fd msg s (finalState (ServerCommandBus.dispatch msg) s) := by
  rw [busDispatch_eq]
  cases hcode : (msg.getMeta 0).head? with
  | none => exact ⟨.refl _ s, fun _ => rfl⟩
  | some code =>
    rw [Option.bind_some]
    cases hcmd : (CommandType.ofByte code).onServer with
    | none => exact ⟨.refl _ s, fun _ => rfl⟩
    | some cmd =>
      by_cases hlogin : cmd = .login
      · subst hlogin
        refine ⟨login_answers _ _ _ _ s, fun hnot => absurd ⟨hmsg, ?_⟩ hnot⟩
        rw [hcode, onServer_login code hcmd]
      · have hanswers := (execute_anonymous h hlogin msg).state
        exact ⟨hanswers.sent, fun _ => hanswers.services⟩

/-- What comes from a connection without a name, file messages apart, is answered to that
    connection, and only a login gets through to the services. The hypothesis is about file messages
    because their handlers do not look at the session; to a recipient who is not there nothing can
    be sent. -/
theorem step_anonymous {s : ServerContext} {fd : Fd} (h : s.sessions.fdToName fd = none)
    (now : UInt64) {msg : Message}
    (hfile : msg.getType.IsFile → ∃ e, s.sessions.getFd (msg.getMeta 0) = .error e) :
    Confined fd msg s (s.step (.message now fd msg)) := by
  -- a handler that only answers, run in the context of the event
  have hanswered : ∀ handle, ServerMessageDispatcher.handler msg.getType = some handle →
      AnswersAt (handle msg) { s with now := now, fd := fd } →
      Confined fd msg s (s.step (.message now fd msg)) := by
    intro handle hhandle hanswers
    rw [step_of_handler hhandle]
    exact ⟨hanswers.state.sent, fun _ => hanswers.state.services⟩
  have hforward : msg.getType.IsFile → Confined fd msg s (s.step (.message now fd msg)) := by
    intro htype
    obtain ⟨e, he⟩ := hfile htype
    exact hanswered forwardFile htype.handler (forwardFile_absent he)
  cases htype : msg.getType with
  | text => exact hanswered ServerTextHandler.handleMessage (by rw [htype]; rfl) (.pure _ (.refl _))
  | command =>
    rw [step_command htype]
    have hbus := busDispatch_anonymous (s := { s with now := now, fd := fd }) h htype
    exact ⟨hbus.sent, hbus.services⟩
  | cipherMessage =>
    exact hanswered ServerCipherHandler.handleMessage (by rw [htype]; rfl)
      (.get_bind (deliverCipherMessage_anonymous (s := { s with now := now, fd := fd }) h msg))
  | fileStart => exact hforward (htype ▸ .start)
  | fileChunk => exact hforward (htype ▸ .chunk)
  | fileEnd => exact hforward (htype ▸ .stop)
  | handShake | response | other =>
    rw [step_unhandled (by rw [htype]; rfl)]
    exact ⟨.refl _ s, fun _ => rfl⟩

/-- **What a connection without a name can reach.** In every state of a running server it
    reaches nobody else, and changes nothing without a login, unless what it sends is a file
    message to someone who is online. -/
theorem anonymous_reaches_nobody_iff (events : List ServerEvent) (now : UInt64) (fd : Fd)
    (msg : Message) (hanonymous : ∀ u, (serverAfter events).sessions.getUsername fd ≠ .ok u) :
    let s := serverAfter events
    Confined fd msg s (s.step (.message now fd msg)) ↔
      ¬(msg.getType.IsFile ∧ ∃ g, s.sessions.getFd (msg.getMeta 0) = .ok g) := by
  intro s
  obtain ⟨L, -, hrep⟩ := represents_run events
  constructor
  · rintro hconfined ⟨hfile, g, hg⟩
    have hs' : (s.step (.message now fd msg)).outbox = s.outbox ++ [(g, .serialized msg)] := by
      have hrun := forwardFile_run (s := { s with now := now, fd := fd }) hg
      rw [step_file hfile, finalState_ok hrun]
    -- the recipient has a name, so it is not the connection the message came from
    obtain rfl : g = fd := hconfined.sent.of_one hs'
    exact hanonymous _ (hrep.sessions_inverse.mpr hg)
  · intro hnot
    have hfd : s.sessions.fdToName fd = none := by
      cases hname : s.sessions.fdToName fd with
      | none => rfl
      | some u => exact absurd (getUsername_ok_iff.mpr hname) (hanonymous u)
    refine step_anonymous hfd now fun hfile => ?_
    cases hg : s.sessions.getFd (msg.getMeta 0) with
    | error e => exact ⟨e, rfl⟩
    | ok g => exact absurd ⟨hfile, g, hg⟩ hnot

/-- Two users come online, with keys of one byte. -/
def aliceAndBob : List ServerEvent :=
  let login (name : Bytes) (keys : List Bytes) : Message :=
    { header := { type := .command }, metadata := [CommandType.login.toByte] :: name :: keys }
  [.message 1 5 (login (bytes "alice") [[0xA1], [0xA2], [0xA3]]),
    .message 2 6 (login (bytes "bob") [[0xB1], [0xB2], [0xB3]])]

theorem anonymous_send_reaches_nobody :
    ∃ msg, Serializer.deserialize (bytes "\x01\x02\x00\x01\x01\x00\x03den\x00\x00\x00\x02hi")
        = .ok msg ∧
      Confined 7 msg (serverAfter aliceAndBob)
        ((serverAfter aliceAndBob).step (.message 3 7 msg)) := by
  refine ⟨_, rfl, (anonymous_reaches_nobody_iff aliceAndBob 3 7 _ ?_).mpr ?_⟩
  · intro u h
    cases h
  · rintro ⟨hfile, -⟩
    cases hfile

/-- A connection that never logged in opens a file at the other end. -/
theorem anonymous_file_reaches_alice :
    ∃ msg, Serializer.deserialize (bytes "\x05\x01\x00\x05alice\x00\x00\x00\x00") = .ok msg ∧
      (∀ u, (serverAfter aliceAndBob).sessions.getUsername 7 ≠ .ok u) ∧
      ((serverAfter aliceAndBob).step (.message 3 7 msg)).outbox
        = (serverAfter aliceAndBob).outbox ++ [(5, .serialized msg)] := by
  refine ⟨_, rfl, ?_, rfl⟩
  intro u h
  cases h

/-! ## Names on private messages -/

/-- The entries of the message that is sent on: recipient and sender as the client wrote them, and
    the keys of the session. -/
def Message.forwardedEntries (msg : Message) (sender : User) : List Bytes :=
  [msg.getMeta 0, msg.getMeta 1, sender.publicDHKey, sender.publicIdentityKey, sender.signature]

/-- The recipient is online, and what is to be sent on is not too large for a message. -/
structure Message.Forwardable (msg : Message) (s : ServerContext) (sender : User) : Prop where
  recipient : ∃ g, s.sessions.getFd (msg.getMeta 0) = .ok g
  fits : compactSize (msg.forwardedEntries sender) msg.getPayload < 2 ^ 32

section Cipher

variable {s : ServerContext} {fd g : Fd} {u : Name} {sender : User} {msg : Message}

/-- A private message that is sent on. Its content is known exactly, the name in it included. -/
theorem deliverCipherMessage_forwards (hu : s.sessions.getUsername fd = .ok u)
    (hsender : s.users.findUser u = .ok sender) (hg : s.sessions.getFd (msg.getMeta 0) = .ok g)
    (hfits : compactSize (msg.forwardedEntries sender) msg.getPayload < 2 ^ 32) :
    ∃ m, ServerApplicationService.deliverCipherMessage fd msg s
        = .ok () { s with outbox := s.outbox ++ [(g, .serialized m)] } ∧
      m.content = .plain .cipherMessage (msg.forwardedEntries sender) msg.getPayload := by
  obtain ⟨m, hconstruct, hcontent⟩ := construct_ok 5 .cipherMessage s
    (show (msg.forwardedEntries sender).length < 256 from by simp [Message.forwardedEntries]) hfits
  refine ⟨m, ?_, hcontent⟩
  unfold ServerApplicationService.deliverCipherMessage
  rw [get_bind_run, hu, hg]
  dsimp only
  rw [hsender]
  exact bind_ok hconstruct

theorem construct_too_large {payload : Bytes} {metadata : List Bytes} (metalen : UInt8)
    (type : MessageType) (s : ServerContext) (h : ¬compactSize metadata payload < 2 ^ 32) :
    ∃ x, construct payload metalen metadata type s = .error x s := by
  unfold construct
  rw [get_bind_run]
  cases hnew : Message.new s.now payload metalen metadata type with
  | error x => exact ⟨x, rfl⟩
  | ok m => exact absurd (new_size hnew) h

/-- The exception of the constructor ends the call before anything is sent. -/
theorem deliverCipherMessage_too_large (hu : s.sessions.getUsername fd = .ok u)
    (hsender : s.users.findUser u = .ok sender) (hg : s.sessions.getFd (msg.getMeta 0) = .ok g)
    (hlarge : ¬compactSize (msg.forwardedEntries sender) msg.getPayload < 2 ^ 32) :
    ∃ x, ServerApplicationService.deliverCipherMessage fd msg s = .error x s := by
  obtain ⟨x, hx⟩ := construct_too_large 5 .cipherMessage s hlarge
  refine ⟨x, ?_⟩
  unfold ServerApplicationService.deliverCipherMessage
  rw [get_bind_run, hu, hg]
  dsimp only
  rw [hsender]
  exact bind_error hx

theorem deliverCipherMessage_refuses (hu : s.sessions.getUsername fd = .ok u)
    (hsender : s.users.findUser u = .ok sender) (h : ¬msg.Forwardable s sender) :
    AllSent (fun _ packet => ∀ m, packet ≠ .serialized m) s
      (finalState (ServerApplicationService.deliverCipherMessage fd msg) s) := by
  cases hg : s.sessions.getFd (msg.getMeta 0) with
  | error e =>
    have hrun : ServerApplicationService.deliverCipherMessage fd msg s
        = .ok () { s with outbox := s.outbox ++ [(fd, .static .userNotFound)] } := by
      unfold ServerApplicationService.deliverCipherMessage
      rw [get_bind_run, hu, hg]
      rfl
    rw [finalState_ok hrun]
    exact .one rfl fun m hm => by cases hm
  | ok g =>
    obtain ⟨x, hrun⟩ :=
      deliverCipherMessage_too_large hu hsender hg fun hfits => h ⟨⟨g, hg⟩, hfits⟩
    rw [finalState_error hrun]
    exact .refl _ s

end Cipher

/-- The message names `u` as its sender, and the keys in it are those of `u`. -/
structure Message.AuthenticFrom (m : Message) (users : UserService) (u : Name) : Prop where
  sender : m.getMeta 1 = u
  keys : ∃ user, users.findUser u = .ok user ∧ m.getMeta 2 = user.publicDHKey ∧
    m.getMeta 3 = user.publicIdentityKey ∧ m.getMeta 4 = user.signature

/-- **Whose name is on a private message.** What the server sends on for a connection is under the
    name of that connection exactly when the client wrote that name, or when nothing is sent on.

    That the session has a user in the directory, and so keys to send, is the lobby's doing. -/
theorem forwarded_sender_authentic_iff (events : List ServerEvent) (now : UInt64) (fd : Fd)
    (u : Name) (msg : Message) (hu : (serverAfter events).sessions.getUsername fd = .ok u)
    (hmsg : msg.getType = .cipherMessage) :
    let s := serverAfter events
    AllSent (fun _ packet => ∀ m, packet = .serialized m → m.AuthenticFrom s.users u) s
        (s.step (.message now fd msg)) ↔
      msg.getMeta 1 = u ∨
        ¬∃ sender, s.users.findUser u = .ok sender ∧ msg.Forwardable s sender := by
  intro s
  obtain ⟨L, -, hrep⟩ := represents_run events
  obtain ⟨sender, hsender⟩ := hrep.registered_iff.mpr ⟨fd, hu⟩
  rw [step_cipherMessage hmsg]
  -- if the message is sent on, its name is read off the one packet; otherwise there is none to ask
  -- about
  by_cases hforward : msg.Forwardable s sender
  · obtain ⟨⟨g, hg⟩, hfits⟩ := hforward
    obtain ⟨m, hrun, hcontent⟩ := deliverCipherMessage_forwards
      (s := { s with now := now, fd := fd }) hu hsender hg hfits
    obtain ⟨-, hmeta, -⟩ := Message.of_content hcontent
    rw [finalState_ok hrun]
    constructor
    · intro hsent
      have hname := (hsent.of_one rfl m rfl).sender
      exact .inl ((hmeta 1).symm.trans hname)
    · rintro (hname | hnot)
      · refine .one rfl fun m' hm' => ?_
        obtain rfl := Packet.serialized.inj hm'
        exact ⟨(hmeta 1).trans hname, sender, hsender, hmeta 2, hmeta 3, hmeta 4⟩
      · exact absurd ⟨sender, hsender, ⟨g, hg⟩, hfits⟩ hnot
  · have hrefused := deliverCipherMessage_refuses (s := { s with now := now, fd := fd }) hu hsender
      fun h => hforward ⟨h.recipient, h.fits⟩
    constructor
    · intro _
      refine .inr ?_
      rintro ⟨sender', hsender', hforward'⟩
      obtain rfl := Except.ok.inj (hsender.symm.trans hsender')
      exact hforward hforward'
    · intro _
      obtain ⟨sent, hsent, hnone⟩ := hrefused
      exact ⟨sent, hsent, fun g packet hmem m hm => absurd hm (hnone g packet hmem m)⟩

theorem forwarded_sender_bob :
    let s := serverAfter aliceAndBob
    let msg : Message :=
      { header := { type := .cipherMessage }, metadata := [bytes "alice", bytes "bob"] }
    AllSent (fun _ packet => ∀ m, packet = .serialized m → m.AuthenticFrom s.users (bytes "bob")) s
      (s.step (.message 3 6 msg)) :=
  (forwarded_sender_authentic_iff aliceAndBob 3 6 (bytes "bob")
    { header := { type := .cipherMessage }, metadata := [bytes "alice", bytes "bob"] } rfl rfl).mpr
    (.inl rfl)

/-- The connection of `bob` writes to `alice` as `root`, and the server sends that on with
    the keys of `bob`. -/
theorem forwarded_sender_forged :
    ∃ msg m, Serializer.deserialize (bytes "\x03\x02\x00\x05alice\x00\x04root\x00\x00\x00\x00")
        = .ok msg ∧
      (serverAfter aliceAndBob).sessions.getUsername 6 = .ok (bytes "bob") ∧
      ((serverAfter aliceAndBob).step (.message 3 6 msg)).outbox
        = (serverAfter aliceAndBob).outbox ++ [(5, .serialized m)] ∧
      m.metadata = [bytes "alice", bytes "root", [0xB1], [0xB2], [0xB3]] :=
  ⟨_, _, rfl, rfl, rfl, rfl⟩

end Messenger
