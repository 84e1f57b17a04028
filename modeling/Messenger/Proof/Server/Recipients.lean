import Messenger.Proof.Server.Access
import Messenger.Proof.Server.Broadcast
import Messenger.Proof.Server.Leaving

/-!
# Where packets go

Whatever a message makes the server send goes to the connection it has come on or to one that
somebody is logged in on (`message_recipients`); a disconnect makes it send nothing. The handlers
find the other connections in one way only, by a name in the session manager.

A handler that answers with one packet has this at once. Three look for somebody else: a private
message and a file for a name, and a post for each member of a room. They go through
`ReachesAt.send`, in which the lookup is a hypothesis. The state in which a name is looked up is
the one before the event, also for handlers that write before they send, since what they write does
not take a connection away from anybody.
-/

set_option autoImplicit false

namespace Messenger

open Messenger.Lib

/-- The current connection, or one that somebody is logged in on. -/
def ServerContext.Recipient (s : ServerContext) (g : Fd) : Prop :=
  g = s.fd ∨ ∃ u, s.sessions.nameToFd u = some g

/-- From `s` to `s'`, everything went to recipients. -/
abbrev SentToRecipients (s s' : ServerContext) : Prop := AllSent (fun g _ => s.Recipient g) s s'

abbrev ReachesAt {α : Type} (x : ServerM α) (s : ServerContext) : Prop :=
  Respects SentToRecipients (fun _ => True) x s

variable {s s' : ServerContext}

theorem AllSent.mono {P Q : Fd → Packet → Prop} (h : AllSent P s s')
    (hPQ : ∀ g packet, P g packet → Q g packet) : AllSent Q s s' := by
  obtain ⟨sent, hsent, hP⟩ := h
  exact ⟨sent, hsent, fun g packet hmem => hPQ g packet (hP g packet hmem)⟩

theorem Answered.sentToRecipients (h : Answered s s') : SentToRecipients s s' :=
  h.sent.mono fun _ _ hg => .inl hg

theorem AnswersAt.reaches {α : Type} {x : ServerM α} (h : AnswersAt x s) : ReachesAt x s :=
  h.mono fun _ h => h.sentToRecipients

/-- The services are written, and then the current connection is answered. The recipients are those
    of the context before the write, which the write may have changed; an answer goes to the current
    connection, for which that does not matter. -/
theorem ReachesAt.set_bind {α : Type} {f : PUnit → ServerM α} (h : AnswersAt (f ⟨⟩) s')
    (hfd : s'.fd = s.fd) (houtbox : s'.outbox = s.outbox) :
    ReachesAt (set s' >>= f) s := by
  refine Respects.set_bind h fun t ht => ?_
  obtain ⟨sent, hsent, hP⟩ := ht.sent
  exact ⟨sent, houtbox ▸ hsent, fun g packet hmem => .inl ((hP g packet hmem).trans hfd)⟩

theorem ReachesAt.send {u : Name} {g : Fd} (hu : s.sessions.getFd u = .ok g) (packet : Packet) :
    ReachesAt (Messenger.send g packet) s :=
  .modify (.one rfl (.inr ⟨u, getFd_ok_iff.mp hu⟩))

/-! ## The operations -/

theorem login_reaches (username dh identity sig : Bytes) (s : ServerContext) :
    ReachesAt (ServerApplicationService.login username dh identity sig) s :=
  ⟨(login_answers username dh identity sig s).mono fun _ _ hg => .inl hg, fun _ => trivial⟩

theorem joinRoom_reaches (chatName : Name) (s : ServerContext) :
    ReachesAt (ServerApplicationService.joinRoom chatName) s := by
  refine .get_bind ?_
  split
  · exact (AnswersAt.send _ s).reaches
  · split
    · exact (AnswersAt.send _ s).reaches
    · split
      · exact (AnswersAt.send _ s).reaches
      · exact (AnswersAt.send _ s).reaches
      · exact (AnswersAt.sendText _ s).reaches
      · rename_i chats _
        exact ReachesAt.set_bind (AnswersAt.sendText _ { s with chats := chats }) rfl rfl

theorem createRoom_reaches (chatName : Name) (s : ServerContext) :
    ReachesAt (ServerApplicationService.createRoom chatName) s := by
  refine .get_bind ?_
  split
  · exact (AnswersAt.send _ s).reaches
  · split
    · exact (AnswersAt.send _ s).reaches
    · split
      · exact (AnswersAt.send _ s).reaches
      · rename_i chats _
        exact ReachesAt.set_bind (AnswersAt.sendText _ { s with chats := chats }) rfl rfl

theorem sendGroupMessage_reaches (chatName : Name) (message : Message) (s : ServerContext) :
    ReachesAt (ServerApplicationService.sendGroupMessage chatName message) s := by
  -- either the sender is in the room and the loop runs, or there is one fixed reply
  by_cases hmember : ∃ u chat, s.sessions.getUsername s.fd = .ok u ∧ s.chats chatName = some chat ∧
      u ∈ chat.getMembers
  · obtain ⟨u, chat, hu, hchat, hmem⟩ := hmember
    refine .of_ok (sendGroupMessage_member hu hchat hmem message) ⟨_, rfl, ?_⟩
    intro g packet hsent
    obtain ⟨g', hg', heq⟩ := List.mem_map.mp hsent
    cases heq
    obtain ⟨v, -, hv⟩ := List.mem_filterMap.mp hg'
    exact .inr ⟨v, hv⟩
  · obtain ⟨r, hrun⟩ := sendGroupMessage_refused (s := s) (c := chatName)
      (fun u chat hu hchat hmem => hmember ⟨u, chat, hu, hchat, hmem⟩) message
    exact .of_ok hrun (.one rfl (.inl rfl))

/-- A private message goes to the recipient that was looked up, or the sender gets a reply. Between
    the lookup and the send a message is constructed, so it has to be said that the sessions have
    not changed by then. -/
theorem deliverCipherMessage_reaches (msg : Message) (s : ServerContext) :
    ReachesAt (ServerApplicationService.deliverCipherMessage s.fd msg) s := by
  refine .get_bind ?_
  split
  · exact (AnswersAt.send _ s).reaches
  · split
    · exact (AnswersAt.send _ s).reaches
    · rename_i recipientFd hrecipient
      split
      · exact (AnswersAt.send _ s).reaches
      · refine Respects.bind (AnswersAt.construct _ _ _ _ s) (fun m s₁ h₁ => ?_)
          (fun _ h => h.sentToRecipients) ?_
        · refine ReachesAt.send (u := msg.getMeta 0) ?_ _
          rw [show s₁.sessions = s.sessions from congrArg ServiceState.sessions h₁.services]
          exact hrecipient
        · intro s₁ t h₁ ht
          have hsessions : s₁.sessions = s.sessions := congrArg ServiceState.sessions h₁.services
          refine h₁.sentToRecipients.trans (ht.mono fun g _ hg => ?_)
          rcases hg with hg | ⟨u, hu⟩
          · exact .inl (hg.trans h₁.fd)
          · exact .inr ⟨u, hsessions ▸ hu⟩

theorem exitCurrentSession_silent (s : ServerContext) :
    (finalState ServerApplicationService.exitCurrentSession s).outbox = s.outbox := by
  unfold ServerApplicationService.exitCurrentSession
  rw [finalState_get_bind]
  cases s.sessions.getUsername s.fd with
  | error e => rfl
  | ok u => rfl

theorem forwardFile_reaches (msg : Message) (s : ServerContext) :
    ReachesAt (forwardFile msg) s := by
  cases hrecipient : s.sessions.getFd (msg.getMeta 0) with
  | error e => exact (forwardFile_absent hrecipient).reaches
  | ok g =>
    exact .of_ok (forwardFile_run hrecipient) (.one rfl (.inr ⟨_, getFd_ok_iff.mp hrecipient⟩))

/-- All commands. A room message is the only one for which more is needed than that the answer goes
    back: its text is constructed first. -/
theorem execute_reaches (cmd : ServerCommand) (msg : Message) (s : ServerContext) :
    ReachesAt (cmd.execute msg) s := by
  cases cmd with
  | exit =>
    refine ⟨⟨[], ?_, fun _ _ h => by cases h⟩, fun _ => trivial⟩
    rw [List.append_nil]
    exact exitCurrentSession_silent s
  | login => exact login_reaches _ _ _ _ s
  | room => exact createRoom_reaches _ s
  | send =>
    refine Respects.bind (AnswersAt.construct _ _ _ _ s)
      (fun message s₁ _ => sendGroupMessage_reaches _ message s₁) (fun _ h => h.sentToRecipients) ?_
    intro s₁ t h₁ ht
    have hsessions : s₁.sessions = s.sessions := congrArg ServiceState.sessions h₁.services
    refine h₁.sentToRecipients.trans (ht.mono fun g _ hg => ?_)
    rcases hg with hg | ⟨u, hu⟩
    · exact .inl (hg.trans h₁.fd)
    · exact .inr ⟨u, hsessions ▸ hu⟩
  | join => exact joinRoom_reaches _ s
  | getpub => exact (sendPubkey_answers _ s).reaches
  | help => exact .pure _ (.refl _ s)
  | sendfile => exact .get_bind (AnswersAt.sendText _ s).reaches

theorem handler_reaches {type : MessageType} {handle : Message → ServerM Unit}
    (h : ServerMessageDispatcher.handler type = some handle) (msg : Message) (s : ServerContext) :
    ReachesAt (handle msg) s := by
  cases type <;> cases h
  · exact .pure _ (.refl _ s)
  · unfold ServerCommandHandler.handleMessage ServerCommandBus.dispatch
    split
    · exact .pure _ (.refl _ s)
    · exact execute_reaches _ msg s
  · exact .get_bind (deliverCipherMessage_reaches msg s)
  · exact forwardFile_reaches msg s
  · exact forwardFile_reaches msg s
  · exact forwardFile_reaches msg s

/-! ## Events -/

/-- **Where an event's packets go**: to the connection the message came from, or to one that a name
    led to before the event. -/
theorem message_recipients (s : ServerContext) (now : UInt64) (fd : Fd) (msg : Message) :
    AllSent (fun g _ => g = fd ∨ ∃ u, s.sessions.nameToFd u = some g) s
      (s.step (.message now fd msg)) := by
  cases hhandler : ServerMessageDispatcher.handler msg.getType with
  | none =>
    rw [step_unhandled hhandler]
    exact .refl _ s
  | some handle =>
    rw [step_of_handler hhandler]
    exact (handler_reaches hhandler msg { s with now := now, fd := fd }).state

/-- A connection that ends is told nothing, and nobody else is. -/
theorem disconnect_silent (s : ServerContext) (now : UInt64) (fd : Fd) :
    (s.step (.disconnect now fd)).outbox = s.outbox := by
  obtain ⟨msg, hexit, hstep⟩ := step_disconnect_eq s now fd
  rw [hstep, step_command hexit.type, hexit.dispatch .exit rfl]
  exact exitCurrentSession_silent _

/-- Afterwards nobody is logged in on it, whether somebody was before or not. -/
theorem disconnect_unbinds (s : ServerContext) (now : UInt64) (fd : Fd) :
    (s.step (.disconnect now fd)).sessions.fdToName fd = none := by
  cases hu : s.sessions.getUsername fd with
  | ok u =>
    have hleaves : ServerEvent.Leaves fd (.disconnect now fd) := .disconnect
    have hservices := step_leaves hleaves hu
    show (s.step (.disconnect now fd)).services.sessions.fdToName fd = none
    rw [hservices, without_sessions hu]
    exact Table.erase_self ..
  | error e =>
    have hnone := getUsername_error hu
    obtain ⟨msg, hexit, hstep⟩ := step_disconnect_eq s now fd
    rw [hstep, step_command hexit.type, hexit.dispatch .exit rfl]
    show (finalState ServerApplicationService.exitCurrentSession
      { s with now := now, fd := fd }).sessions.fdToName fd = none
    unfold ServerApplicationService.exitCurrentSession
    rw [finalState_get_bind]
    dsimp only
    rw [hu]
    exact hnone

end Messenger
