import Messenger.Lib.Depends
import Messenger.Proof.Server.Changes

/-!
# What the server does depends on its services

No handler looks at what has been sent before. So a context can be replaced by one with the same
services: the same event leads to the same services again (`step_services_congr`), which is what
lets a run of the event loop be compared with a run of the server on its own.

All of it is one relation between two runs of the same handler, from contexts that differ in the
outbox only: both return the same or throw the same, and the contexts afterwards differ in the
outbox only. It is kept by sequencing, so for a handler that is a sequence of calls nothing has to
be proved but that each call has it. Handlers that look something up are split on what they find,
which is the same in both runs because it is in the services.
-/

set_option autoImplicit false

namespace Messenger

open Messenger.Lib

/-- All of the context but the outbox. -/
def ServerContext.view (s : ServerContext) : ServiceState × Fd × UInt64 := (s.services, s.fd, s.now)

/-- The computation does not see the outbox. -/
abbrev SeesServices {α : Type} (x : ServerM α) : Prop := DependsOn ServerContext.view x

theorem eq_of_view {s t : ServerContext} (h : s.view = t.view) :
    s = { t with outbox := s.outbox } := by
  obtain ⟨users, chats, sessions, fd, now, outbox⟩ := s
  obtain ⟨users', chats', sessions', fd', now', outbox'⟩ := t
  cases h
  rfl

namespace SeesServices

variable {α : Type}

/-- It is enough to compare contexts that have different outboxes. Everything else of the two is the
    same term then, so a case distinction on what a handler reads is made once for both. -/
theorem of_outbox {x : ServerM α}
    (h : ∀ (s : ServerContext) (sent : List (Fd × Packet)),
      EndAlike ServerContext.view (x { s with outbox := sent }) (x s)) : SeesServices x := by
  intro s t hview
  rw [eq_of_view hview]
  exact h t s.outbox

theorem liftExcept (x : Except Failure α) : SeesServices (Messenger.liftExcept x) := by
  cases x with
  | ok a => exact .pure a
  | error e => exact .throw e

theorem send (fd : Fd) (packet : Packet) : SeesServices (Messenger.send fd packet) :=
  .modify fun _ _ h => h

theorem construct (payload : Bytes) (metalen : UInt8) (metadata : List Bytes)
    (type : MessageType) : SeesServices (Messenger.construct payload metalen metadata type) :=
  of_outbox fun s sent => .get_bind (liftExcept _ { s with outbox := sent } s rfl)

theorem sendText (fd : Fd) (text : Bytes) : SeesServices (Messenger.sendText fd text) :=
  .bind (construct _ _ _ _) fun _ => send _ _

/-- A `try` around the computation: both runs throw the same, or neither does. -/
theorem catchException {x : ServerM Bool} (h : SeesServices x) :
    SeesServices (Messenger.catchException x) := by
  intro s t hview
  have hx := h s t hview
  unfold Messenger.catchException catchWith
  generalize x s = rs at hx ⊢
  generalize x t = rt at hx ⊢
  cases hx with
  | ok h => exact .ok h
  | @error e s' t' h =>
    cases e with
    | thrown exn => exact .ok h
    | outOfBounds => exact .error h
    | killed => exact .error h

end SeesServices

/-! ## The operations -/

/-- The pattern of all these proofs: what the handler reads is the same in both runs, so the cases
    are gone through once, and in each of them the two runs send the same. -/
theorem login_seesServices (username dh identity sig : Bytes) :
    SeesServices (ServerApplicationService.login username dh identity sig) := by
  refine .of_outbox fun s sent => .get_bind ?_
  dsimp only
  cases s.sessions.getUsername s.fd with
  | ok u => exact SeesServices.send _ _ _ _ rfl
  | error e =>
    dsimp only
    cases s.users.registerUser username dh identity sig with
    | error e => exact SeesServices.send _ _ _ _ rfl
    | ok users => exact .set_bind (SeesServices.sendText _ _ _ _ rfl)

/-- Joining reads the room service and the session of the one who joins, which are among the
    services. -/
theorem joinRoom_seesServices (chatName : Name) :
    SeesServices (ServerApplicationService.joinRoom chatName) := by
  refine .of_outbox fun s sent => .get_bind ?_
  dsimp only
  cases s.sessions.getUsername s.fd with
  | error e => exact SeesServices.send _ _ _ _ rfl
  | ok u =>
    cases chatName.isEmpty with
    | true => exact SeesServices.send _ _ _ _ rfl
    | false =>
      dsimp only
      cases s.chats.addMember chatName u with
      | error e =>
        cases e <;> first
          | exact SeesServices.send _ _ _ _ rfl
          | exact SeesServices.sendText _ _ _ _ rfl
      | ok chats => exact .set_bind (SeesServices.sendText _ _ _ _ rfl)

/-- A room is made if its name is free; the reply says which. -/
theorem createRoom_seesServices (chatName : Name) :
    SeesServices (ServerApplicationService.createRoom chatName) := by
  refine .of_outbox fun s sent => .get_bind ?_
  dsimp only
  cases s.sessions.getUsername s.fd with
  | error e => exact SeesServices.send _ _ _ _ rfl
  | ok u =>
    cases chatName.isEmpty with
    | true => exact SeesServices.send _ _ _ _ rfl
    | false =>
      dsimp only
      cases s.chats.createChat chatName u with
      | error e => exact SeesServices.send _ _ _ _ rfl
      | ok chats => exact .set_bind (SeesServices.sendText _ _ _ _ rfl)

theorem sendToMember_seesServices (message : Message) (username : Name) :
    SeesServices (ServerApplicationService.sendToMember message username) := by
  refine .of_outbox fun s sent => .get_bind ?_
  dsimp only
  cases s.sessions.getFd username with
  | error e => exact .ok rfl
  | ok fd => exact SeesServices.send _ _ _ _ rfl

/-- The members are read from the services, so both runs send to the same connections. -/
theorem sendGroupMessage_seesServices (chatName : Name) (message : Message) :
    SeesServices (ServerApplicationService.sendGroupMessage chatName message) := by
  refine .of_outbox fun s sent => .get_bind ?_
  dsimp only
  cases s.sessions.getUsername s.fd with
  | error e => exact SeesServices.send _ _ _ _ rfl
  | ok u =>
    dsimp only
    cases s.chats.postMessage chatName u message with
    | error e => cases e <;> first | exact SeesServices.send _ _ _ _ rfl | exact .error rfl
    | ok posted => exact .set_bind (DependsOn.forM (sendToMember_seesServices message) _ _ _ rfl)

/-- The recipient is looked up by name, and the message is passed on or answered with an error. -/
theorem deliverCipherMessage_seesServices (fd : Fd) (msg : Message) :
    SeesServices (ServerApplicationService.deliverCipherMessage fd msg) := by
  refine .of_outbox fun s sent => .get_bind ?_
  dsimp only
  cases s.sessions.getUsername fd with
  | error e => exact SeesServices.send _ _ _ _ rfl
  | ok u =>
    dsimp only
    cases s.sessions.getFd (msg.getMeta 0) with
    | error e => exact SeesServices.send _ _ _ _ rfl
    | ok recipientFd =>
      dsimp only
      cases s.users.findUser u with
      | error e => exact SeesServices.send _ _ _ _ rfl
      | ok sender =>
        exact DependsOn.bind (SeesServices.construct _ _ _ _)
          (fun _ => SeesServices.send _ _) _ _ rfl

theorem exitCurrentSession_seesServices :
    SeesServices ServerApplicationService.exitCurrentSession := by
  refine .of_outbox fun s sent => .get_bind ?_
  dsimp only
  cases s.sessions.getUsername s.fd with
  | error e => exact .ok rfl
  | ok u => exact .ok rfl

theorem sendPubkey_seesServices (username : Bytes) :
    SeesServices (ServerApplicationService.sendPubkey username) := by
  refine .of_outbox fun s sent => .get_bind ?_
  dsimp only
  cases username.isEmpty with
  | true => exact SeesServices.send _ _ _ _ rfl
  | false =>
    cases s.users.findUser username with
    | error e => exact SeesServices.send _ _ _ _ rfl
    | ok user =>
      exact DependsOn.bind (SeesServices.construct _ _ _ _) (fun _ => SeesServices.send _ _) _ _ rfl

theorem forwardFile_seesServices (msg : Message) : SeesServices (forwardFile msg) := by
  refine .of_outbox fun s sent => .get_bind ?_
  dsimp only
  cases s.sessions.getFd (msg.getMeta 0) with
  | error e => exact SeesServices.send _ _ _ _ rfl
  | ok recipientFd => exact SeesServices.send _ _ _ _ rfl

/-! ## Events -/

theorem execute_seesServices (cmd : ServerCommand) (msg : Message) :
    SeesServices (cmd.execute msg) := by
  cases cmd with
  | exit => exact exitCurrentSession_seesServices
  | login => exact login_seesServices _ _ _ _
  | room => exact createRoom_seesServices _
  | send =>
    exact .bind (SeesServices.construct _ _ _ _) fun message =>
      sendGroupMessage_seesServices _ message
  | join => exact joinRoom_seesServices _
  | getpub => exact sendPubkey_seesServices _
  | help => exact .pure _
  | sendfile => exact .of_outbox fun s sent => .get_bind (SeesServices.sendText _ _ _ _ rfl)

theorem handler_seesServices {type : MessageType} {handle : Message → ServerM Unit}
    (h : ServerMessageDispatcher.handler type = some handle) (msg : Message) :
    SeesServices (handle msg) := by
  cases type <;> cases h
  · exact .pure _
  · unfold ServerCommandHandler.handleMessage ServerCommandBus.dispatch
    split
    · exact .pure _
    · exact execute_seesServices _ msg
  · exact .of_outbox fun s sent => .get_bind
      (deliverCipherMessage_seesServices s.fd msg { s with outbox := sent } s rfl)
  · exact forwardFile_seesServices msg
  · exact forwardFile_seesServices msg
  · exact forwardFile_seesServices msg

theorem dispatch_seesServices (msg : Message) :
    SeesServices (ServerMessageDispatcher.dispatch msg) := by
  unfold ServerMessageDispatcher.dispatch
  split
  · exact .pure _
  · rename_i handle hhandler
    exact SeesServices.catchException (.bind (handler_seesServices hhandler msg) fun _ => .pure _)

/-- An event sets the current connection before anything looks at it. -/
theorem setFd_bind_congr {α : Type} (fd : Fd) {x : ServerM α} (hx : SeesServices x)
    {s t : ServerContext} (h : s.services = t.services) (hnow : s.now = t.now) :
    EndAlike ServerContext.view (((modify fun s => { s with fd := fd }) >>= fun _ => x) s)
      (((modify fun s => { s with fd := fd }) >>= fun _ => x) t) := by
  refine hx { s with fd := fd } { t with fd := fd } ?_
  show (s.services, fd, s.now) = (t.services, fd, t.now)
  rw [h, hnow]

/-- **The same services and the same event lead to the same services.** What the server has sent so
    far, and which connection it last served, make no difference. -/
theorem step_services_congr {s t : ServerContext} (h : s.services = t.services) (e : ServerEvent) :
    (s.step e).services = (t.step e).services := by
  have hview (x : ServerM Unit) (now : UInt64) (hx : EndAlike ServerContext.view
      (x { s with now := now }) (x { t with now := now })) :
      (finalState x { s with now := now }).services
        = (finalState x { t with now := now }).services :=
    congrArg Prod.fst hx.finalState
  cases e with
  | message now fd msg =>
    exact hview _ now
      (setFd_bind_congr fd (.bind (dispatch_seesServices msg) fun _ => .pure _) h rfl)
  | disconnect now fd =>
    exact hview _ now (setFd_bind_congr fd (.bind (SeesServices.construct _ _ _ _) fun msg =>
      .bind (dispatch_seesServices msg) fun _ => .pure _) h rfl)

end Messenger
