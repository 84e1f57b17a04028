import Messenger.Proof.Server.Lobby

/-!
# Group messages

A `SEND` command posts to a room and sends a copy to each member who has a connection. In
a server that represents a lobby every member has one, and no two members share one, so
the copies go to the room: one for each connection, none missing, none elsewhere.

The loop of the source goes through the members and looks each of them up. What it sends is
computed first, as a list of connections (`sendToMembers_run`), for any state. The lobby is needed
only afterwards, to see that this list has every member's connection once: without it a member
without a connection would be passed over in silence, and two members on one connection would make
two copies.
-/

set_option autoImplicit false

namespace Messenger

open Messenger.Lib

/-! ## The loop over the members -/

/-- The connections of those of `members` who have one, in order. -/
def ServerContext.connections (s : ServerContext) (members : List Name) : List Fd :=
  members.filterMap s.sessions.nameToFd

/-- The context with a copy of `message` sent to each of `fds`. -/
def ServerContext.sendCopies (s : ServerContext) (message : Message) (fds : List Fd) :
    ServerContext :=
  { s with outbox := s.outbox ++ fds.map fun g => (g, .serialized message) }

/-- A member without a connection gets nothing, and nothing is said about it. -/
theorem sendToMember_run (message : Message) (u : Name) (s : ServerContext) :
    ServerApplicationService.sendToMember message u s
      = .ok () (s.sendCopies message (s.connections [u])) := by
  unfold ServerApplicationService.sendToMember SessionManager.getFd ServerContext.sendCopies
    ServerContext.connections
  rw [get_bind_run]
  cases hu : s.sessions.nameToFd u with
  | none =>
    simp [hu]
    rfl
  | some g =>
    simp [hu]
    rfl

/-- The copies go out in the order of the members. The induction is on the members; the sends do not
    change the sessions, so where a copy goes does not depend on those before it. -/
theorem sendToMembers_run (message : Message) (members : List Name) (s : ServerContext) :
    members.forM (ServerApplicationService.sendToMember message) s
      = .ok () (s.sendCopies message (s.connections members)) := by
  induction members generalizing s with
  | nil =>
    simp [ServerContext.sendCopies, ServerContext.connections]
    rfl
  | cons u members ih =>
    have hfirst : (u :: members).forM (ServerApplicationService.sendToMember message) s
        = members.forM (ServerApplicationService.sendToMember message)
            (s.sendCopies message (s.connections [u])) := bind_ok (sendToMember_run message u s)
    have hsplit : s.connections (u :: members) = s.connections [u] ++ s.connections members :=
      List.filterMap_append (l := [u])
    rw [hfirst, ih, hsplit]
    simp [ServerContext.sendCopies, ServerContext.connections]

/-! ## Posting -/

/-- Someone in the room posts: the history has one message more, and the copies are out. -/
theorem sendGroupMessage_member {c u : Name} {chat : Chat} {s : ServerContext}
    (hu : s.sessions.getUsername s.fd = .ok u) (hchat : s.chats c = some chat)
    (hmember : u ∈ chat.getMembers) (message : Message) :
    ServerApplicationService.sendGroupMessage c message s
      = .ok () (ServerContext.sendCopies
        { s with chats := s.chats.insert c (chat.addMessage message) }
          message (s.connections chat.getMembers)) := by
  have hpost : s.chats.postMessage c u message
      = .ok (chat.getMembers, s.chats.insert c (chat.addMessage message)) := by
    unfold ChatService.postMessage
    rw [hchat]
    simp only [Chat.isMember, show u ∈ chat.members.val from hmember, decide_true, if_true]
    rfl
  unfold ServerApplicationService.sendGroupMessage
  rw [get_bind_run, hu]
  dsimp only
  rw [hpost]
  exact sendToMembers_run message chat.getMembers _

/-- Whoever is not logged in, or not in the room, gets one of the fixed replies. -/
theorem sendGroupMessage_refused {c : Name} {s : ServerContext}
    (h : ∀ u chat, s.sessions.getUsername s.fd = .ok u → s.chats c = some chat →
      u ∉ chat.getMembers) (message : Message) :
    ∃ r, ServerApplicationService.sendGroupMessage c message s
      = .ok () { s with outbox := s.outbox ++ [(s.fd, .static r)] } := by
  unfold ServerApplicationService.sendGroupMessage
  rw [get_bind_run]
  cases hu : s.sessions.getUsername s.fd with
  | error e => exact ⟨.youNeedToLogin, rfl⟩
  | ok u =>
    dsimp only
    unfold ChatService.postMessage
    cases hchat : s.chats c with
    | none => exact ⟨.chatNotFound, rfl⟩
    | some chat =>
      have hnot : u ∉ chat.members.val := h u chat hu hchat
      simp only [Chat.isMember, hnot, decide_false, Bool.false_eq_true, if_false]
      exact ⟨.youAreNotMember, rfl⟩

/-! ## The command -/

/-- A `SEND` command, as the dispatcher recognises it. -/
structure Message.IsSend (msg : Message) : Prop where
  type : msg.getType = .command
  code : (msg.getMeta 0).head? = some CommandType.send.toByte

theorem Message.IsSend.find {msg : Message} (h : msg.IsSend) :
    ServerCommandRegistry.find (Parser.makeStructFromCommand msg).name = some .send := by
  have hcode := h.code
  unfold Parser.makeStructFromCommand
  cases hmeta : msg.getMeta 0 with
  | nil =>
    rw [hmeta] at hcode
    cases hcode
  | cons code rest =>
    rw [hmeta] at hcode
    cases hcode
    rfl

/-- A payload that came in a frame is small enough to be sent on. The frame it came in had at least
    as many bytes. -/
theorem deserialize_payload_fits {raw : Bytes} {msg : Message} (hraw : raw.length < 2 ^ 32)
    (hmsg : Serializer.deserialize raw = .ok msg) : compactSize [] msg.getPayload < 2 ^ 32 := by
  obtain ⟨f, t, rfl, hcontent⟩ := deserialize_sound hmsg
  have hfits := f.compactSize_lt hraw
  have hpayload : msg.getPayload = f.body.payload := by
    have h : msg.content.payload = f.content.payload := congrArg Content.payload hcontent
    cases f with
    | compact f => exact h
    | extended f => exact h
  rw [hpayload]
  unfold compactSize at hfits ⊢
  simp only [List.map_nil, List.sum_nil]
  omega

/-- What the server does with a `SEND` is `send_group_message` with a text made of the payload. -/
theorem step_send {msg : Message} (hsend : msg.IsSend)
    (hfits : compactSize [] msg.getPayload < 2 ^ 32) (s : ServerContext) (now : UInt64) (fd : Fd) :
    ∃ message, message.content = .plain .text [] msg.getPayload ∧
      ∀ s', ServerApplicationService.sendGroupMessage (msg.getMeta 1) message
          { s with now := now, fd := fd } = .ok () s' →
        s.step (.message now fd msg) = s' := by
  obtain ⟨message, hconstruct, hcontent⟩ := construct_ok 0 .text { s with now := now, fd := fd }
    (show ([] : List Bytes).length < 256 by decide) hfits
  refine ⟨message, hcontent, fun s' hrun => ?_⟩
  have hhandler : ServerMessageDispatcher.handler msg.getType
      = some ServerCommandHandler.handleMessage := by
    rw [hsend.type]
    rfl
  have hbus : ServerCommandHandler.handleMessage msg { s with now := now, fd := fd }
      = .ok () s' := by
    unfold ServerCommandHandler.handleMessage ServerCommandBus.dispatch
    rw [hsend.find]
    exact (bind_ok hconstruct).trans hrun
  have hhandle := handleMessage_of_handler (s := { s with now := now }) hhandler hbus
  exact finalState_ok hhandle

/-! ## Exactly the room -/

variable {s : ServerContext} {L : Lobby Fd Name} {c : Name} {chat : Chat}

theorem mem_connections {members : List Name} {g : Fd} :
    g ∈ s.connections members ↔ ∃ u ∈ members, s.sessions.getFd u = .ok g := by
  unfold ServerContext.connections
  simp only [List.mem_filterMap, getFd_ok_iff]

/-- Two names with one connection would be one name, so no connection occurs twice. -/
theorem Represents.connections_nodup (h : Represents s.services L) {members : List Name}
    (hmembers : members.Nodup) : (s.connections members).Nodup := by
  apply hmembers.filterMap
  intro u v g hu hv
  have hu' : L.online.symm u = some g := (h.connection u).trans hu
  have hv' : L.online.symm v = some g := (h.connection v).trans hv
  exact L.connection_unique hu' hv'

theorem Represents.member_reached (h : Represents s.services L) (hchat : s.chats c = some chat)
    {u : Name} (hu : u ∈ chat.getMembers) :
    ∃ g ∈ s.connections chat.getMembers, s.sessions.getFd u = .ok g := by
  obtain ⟨g, hg⟩ := h.member_online hchat hu
  have hfd : s.sessions.getFd u = .ok g := h.sessions_inverse.mp hg
  exact ⟨g, mem_connections.mpr ⟨u, hu, hfd⟩, hfd⟩

/-- `message` has been posted to the room `c`, held by `chat` before: a copy has gone to each of the
    connections `fds`, which are those of the members, and nothing else has happened. -/
structure Broadcasts (s s' : ServerContext) (c : Name) (chat : Chat) (message : Message)
    (fds : List Fd) : Prop where
  once : fds.Nodup
  reached : ∀ u ∈ chat.getMembers, ∃ g ∈ fds, s.sessions.getFd u = .ok g
  only : ∀ g ∈ fds, ∃ u ∈ chat.getMembers, s.sessions.getFd u = .ok g
  sent : s'.outbox = s.outbox ++ fds.map fun g => (g, .serialized message)
  posted : s'.chats = s.chats.insert c { chat with messages := chat.messages ++ [message] }
  users : s'.users = s.users
  sessions : s'.sessions = s.sessions

/-- **A group message reaches exactly the room.** In every state a server can reach, the
    `SEND` of a member goes to the connection of each member, once, as a text with the
    payload of the command. Anyone else gets a fixed reply and nothing happens. -/
theorem send_reaches_exactly_the_room (events : List ServerEvent) (now : UInt64) (fd : Fd)
    {raw : Bytes} {msg : Message} (hraw : raw.length < 2 ^ 32)
    (hmsg : Serializer.deserialize raw = .ok msg) (hsend : msg.IsSend) :
    let s := serverAfter events
    let s' := s.step (.message now fd msg)
    (∀ u chat, s.sessions.getUsername fd = .ok u → s.chats (msg.getMeta 1) = some chat →
      u ∈ chat.getMembers → ∃ message fds, message.content = .plain .text [] msg.getPayload ∧
        Broadcasts s s' (msg.getMeta 1) chat message fds) ∧
    ((∀ u chat, s.sessions.getUsername fd = .ok u → s.chats (msg.getMeta 1) = some chat →
      u ∉ chat.getMembers) →
        ∃ r, s'.outbox = s.outbox ++ [(fd, .static r)] ∧ s'.services = s.services) := by
  intro s s'
  obtain ⟨L, -, hrep⟩ := represents_run events
  have hfits := deserialize_payload_fits hraw hmsg
  obtain ⟨message, hcontent, hstep⟩ := step_send hsend hfits s now fd
  refine ⟨?_, ?_⟩
  · -- what a member says: the sends are a matter of the run, who is reached is the lobby's
    intro u chat hu hchat hmember
    have hs' : s' = _ := hstep _
      (sendGroupMessage_member (s := { s with now := now, fd := fd }) hu hchat hmember message)
    refine ⟨message, s.connections chat.getMembers, hcontent, ?_⟩
    rw [hs']
    exact {
      once := hrep.connections_nodup chat.members.property
      reached := fun u hu => hrep.member_reached hchat hu
      only := fun g hg => mem_connections.mp hg
      sent := rfl
      posted := rfl
      users := rfl
      sessions := rfl }
  · intro hnot
    obtain ⟨r, hrun⟩ := sendGroupMessage_refused (s := { s with now := now, fd := fd }) hnot message
    have hs' : s' = _ := hstep _ hrun
    rw [hs']
    exact ⟨r, rfl, rfl⟩

/-- Two users come online, one opens a room, the other joins it. -/
def twoInARoom : List ServerEvent :=
  let command (code : CommandType) (args : List Bytes) : Message :=
    { header := { type := .command }, metadata := [code.toByte] :: args }
  [.message 1 5 (command .login [bytes "alice"]), .message 2 6 (command .login [bytes "bob"]),
    .message 3 5 (command .makeRoom [bytes "den"]), .message 4 6 (command .join [bytes "den"])]

theorem send_reaches_two_in_a_room :
    ∃ msg message fds,
      Serializer.deserialize (bytes "\x01\x02\x00\x01\x01\x00\x03den\x00\x00\x00\x02hi") = .ok msg ∧
      message.content = .plain .text [] (bytes "hi") ∧
      Broadcasts (serverAfter twoInARoom) ((serverAfter twoInARoom).step (.message 5 6 msg))
        (bytes "den") { type := .group, members := ⟨[bytes "bob", bytes "alice"], by decide⟩ }
        message fds := by
  obtain ⟨msg, hmsg, hsend, hroom, hpayload⟩ : ∃ msg : Message,
      Serializer.deserialize (bytes "\x01\x02\x00\x01\x01\x00\x03den\x00\x00\x00\x02hi") = .ok msg ∧
      msg.IsSend ∧ msg.getMeta 1 = bytes "den" ∧ msg.getPayload = bytes "hi" :=
    ⟨_, rfl, ⟨rfl, rfl⟩, rfl, rfl⟩
  have h := (send_reaches_exactly_the_room twoInARoom 5 6 (by decide) hmsg hsend).1
  rw [hroom, hpayload] at h
  obtain ⟨message, fds, hcontent, hbroadcasts⟩ :=
    h (bytes "bob") { type := .group, members := ⟨[bytes "bob", bytes "alice"], by decide⟩ }
      rfl rfl (by decide)
  exact ⟨msg, message, fds, hmsg, hcontent, hbroadcasts⟩

end Messenger
