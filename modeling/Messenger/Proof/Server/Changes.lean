import Messenger.Model.Server
import Messenger.Proof.Wire.Encode

/-!
# What an event can do to the services

The services' maps are written in five places: login, room creation, joining, posting and
exit. `Change fd` lists these with the guards that come before each write, and
`step_change` says that an event makes one of them, or none. Everything else about the
services along a run is derived from this list, without looking at a handler again.

The handlers that write nothing are `OnlySends`: they read the context, append to the
outbox and may throw.

That a handler makes at most one of these changes is what makes the list complete. It writes after
all of its checks, and what can still throw comes after the writing; so an exception never leaves
half a change.
-/

set_option autoImplicit false

namespace Messenger

open Messenger.Lib

/-- The maps of the three services. -/
structure ServiceState where
  users : UserService
  chats : ChatService
  sessions : SessionManager

/-- What is left of the context when the current connection, the clock and the outbox are
    forgotten. -/
def ServerContext.services (s : ServerContext) : ServiceState := ⟨s.users, s.chats, s.sessions⟩

/-- The changes that an event of the connection `fd` can make. The guards are part of it: whoever
    uses a change may rely on what was checked before it, such as that the name was free at a
    login. -/
inductive Change (fd : Fd) (s : ServiceState) : ServiceState → Prop
  | none : Change fd s s
  | login {u : Name} {user : User} :
      s.sessions.fdToName fd = .none → s.users u = .none →
        Change fd s { s with users := s.users.insert u user, sessions := s.sessions.bind fd u }
  | createRoom {c u : Name} :
      s.sessions.fdToName fd = some u → s.chats c = .none →
        Change fd s { s with chats := s.chats.insert c (Chat.addMember { type := .group } u).2 }
  | joinRoom {c u : Name} {chat : Chat} :
      s.sessions.fdToName fd = some u → s.chats c = some chat → u ∉ chat.members.val →
        Change fd s { s with chats := s.chats.insert c (chat.addMember u).2 }
  | post {c u : Name} {chat : Chat} {message : Message} :
      s.sessions.fdToName fd = some u → s.chats c = some chat → u ∈ chat.members.val →
        Change fd s { s with chats := s.chats.insert c (chat.addMessage message) }
  | exit {u : Name} :
      s.sessions.fdToName fd = some u →
        Change fd s {
          users := s.users.removeUser u
          chats := s.chats.removeUserFromAllChats u
          sessions := s.sessions.unbind fd }

/-! ## Reading the services -/

/-- The lookups of the session manager wrap a table in a result; below they are unwrapped. -/
theorem getUsername_ok_iff {m : SessionManager} {fd : Fd} {u : Name} :
    m.getUsername fd = .ok u ↔ m.fdToName fd = some u := by
  unfold SessionManager.getUsername
  cases m.fdToName fd with
  | none => simp
  | some v => simp

theorem getUsername_error {m : SessionManager} {fd : Fd} {e : ServiceError}
    (h : m.getUsername fd = .error e) : m.fdToName fd = none := by
  unfold SessionManager.getUsername at h
  split at h
  · assumption
  · cases h

/-- A user that is accepted had no entry, and has the keys of the call as they are. The setters
    append to the keys that are there, and a user that has just been made has none. -/
theorem registerUser_ok {users users' : UserService} {name : Name} {pubkey identity sig : Bytes}
    (h : users.registerUser name pubkey identity sig = .ok users') :
    users name = none ∧ users' = users.insert name
      { publicDHKey := pubkey, publicIdentityKey := identity, signature := sig } := by
  unfold UserService.registerUser at h
  split at h
  · cases h
  · rename_i hfree
    cases h
    refine ⟨hfree, ?_⟩
    unfold UserService.setPublicKey
    rw [Table.insert_self]
    exact Table.insert_insert ..

theorem createChat_ok {chats chats' : ChatService} {c u : Name}
    (h : chats.createChat c u = .ok chats') :
    chats c = none ∧ chats' = chats.insert c (Chat.addMember { type := .group } u).2 := by
  unfold ChatService.createChat at h
  split at h
  · cases h
  · cases h
    exact ⟨‹_›, rfl⟩

/-- A join that is accepted: the room is there, and the user was not in it. -/
theorem addMember_ok {chats chats' : ChatService} {c u : Name}
    (h : chats.addMember c u = .ok chats') :
    ∃ chat, chats c = some chat ∧ u ∉ chat.members.val ∧
      chats' = chats.insert c (chat.addMember u).2 := by
  unfold ChatService.addMember at h
  split at h
  · cases h
  · rename_i chat hchat
    split at h
    · cases h
    · rename_i hmember
      cases h
      exact ⟨chat, hchat, by simpa [Chat.isMember] using hmember, rfl⟩

/-- A post that is accepted: the room is there, the user is in it, and the members are those of the
    room. -/
theorem postMessage_ok {chats chats' : ChatService} {c u : Name} {message : Message}
    {members : List Name} (h : chats.postMessage c u message = .ok (members, chats')) :
    ∃ chat, chats c = some chat ∧ u ∈ chat.members.val ∧ members = chat.members.val ∧
      chats' = chats.insert c (chat.addMessage message) := by
  unfold ChatService.postMessage at h
  split at h
  · cases h
  · rename_i chat hchat
    split at h
    · rename_i hmember
      cases h
      exact ⟨chat, hchat, by simpa [Chat.isMember] using hmember, rfl, rfl⟩
    · cases h

/-- The source handles these two errors, and there are no others. That closes the branch in which it
    would dereference a result that has no value. -/
theorem postMessage_error {chats : ChatService} {c u : Name} {message : Message}
    {e : ServiceError} (h : chats.postMessage c u message = .error e) :
    e = .chatNotFound ∨ e = .accessDenied := by
  unfold ChatService.postMessage at h
  split at h
  · cases h
    exact .inl rfl
  · split at h
    · cases h
    · cases h
      exact .inr rfl

/-! ## Computations that only send -/

/-- The services and the current connection are the same, and the outbox has at most grown. -/
structure SameServices (s s' : ServerContext) : Prop where
  services : s'.services = s.services
  fd : s'.fd = s.fd
  now : s'.now = s.now
  outbox : s.outbox <+: s'.outbox

theorem SameServices.refl (s : ServerContext) : SameServices s s :=
  ⟨rfl, rfl, rfl, List.prefix_refl _⟩

theorem SameServices.trans {s s' s'' : ServerContext} (h : SameServices s s')
    (h' : SameServices s' s'') : SameServices s s'' :=
  ⟨h'.services.trans h.services, h'.fd.trans h.fd, h'.now.trans h.now, h.outbox.trans h'.outbox⟩

/-- The computation leaves the services alone, and fails only by throwing. It is said of every
    context, as a frame is: the handlers that only send do so wherever they are called. -/
def OnlySends {α : Type} (x : ServerM α) : Prop :=
  ∀ s, Respects SameServices Failure.IsThrown x s

theorem OnlySends.pure {α : Type} (a : α) : OnlySends (Pure.pure a : ServerM α) :=
  fun s => .pure a (.refl s)

theorem OnlySends.send (fd : Fd) (packet : Packet) : OnlySends (Messenger.send fd packet) :=
  fun _ => .modify ⟨rfl, rfl, rfl, List.prefix_append _ _⟩

theorem OnlySends.get_bind {α : Type} {f : ServerContext → ServerM α}
    (h : ∀ s, OnlySends (f s)) : OnlySends (get >>= f) := fun s => .get_bind (h s s)

theorem OnlySends.bind {α β : Type} {x : ServerM α} {f : α → ServerM β} (hx : OnlySends x)
    (hf : ∀ a, OnlySends (f a)) : OnlySends (x >>= f) := fun s =>
  (hx s).bind (fun a s' _ => hf a s') (fun _ h => h) (fun _ _ h h' => h.trans h')

theorem OnlySends.liftExcept {α : Type} {x : Except Failure α}
    (hx : ∀ e, x = .error e → e.IsThrown) : OnlySends (Messenger.liftExcept x) := by
  cases x with
  | ok a => exact .pure a
  | error e => exact fun s => .throw (.refl s) (hx e rfl)

theorem OnlySends.construct (payload : Bytes) (metalen : UInt8) (metadata : List Bytes)
    (type : MessageType) : OnlySends (Messenger.construct payload metalen metadata type) :=
  .get_bind fun _ => .liftExcept fun _ => new_isThrown

theorem OnlySends.sendText (fd : Fd) (text : Bytes) : OnlySends (Messenger.sendText fd text) :=
  .bind (.construct _ _ _ _) fun _ => .send _ _

theorem OnlySends.forM {α : Type} {f : α → ServerM PUnit} (hf : ∀ a, OnlySends (f a)) :
    ∀ l : List α, OnlySends (l.forM f)
  | [] => .pure _
  | a :: l => .bind (hf a) fun _ => OnlySends.forM hf l

/-- Passing a private message on is a lookup and a send, whatever the lookup finds. -/
theorem deliverCipherMessage_onlySends (fd : Fd) (msg : Message) :
    OnlySends (ServerApplicationService.deliverCipherMessage fd msg) := by
  refine .get_bind fun s => ?_
  split
  · exact .send _ _
  · split
    · exact .send _ _
    · split
      · exact .send _ _
      · exact .bind (.construct _ _ _ _) fun _ => .send _ _

theorem sendPubkey_onlySends (username : Bytes) :
    OnlySends (ServerApplicationService.sendPubkey username) := by
  refine .get_bind fun s => ?_
  split
  · exact .send _ _
  · split
    · exact .send _ _
    · exact .bind (.construct _ _ _ _) fun _ => .send _ _

theorem forwardFile_onlySends (msg : Message) : OnlySends (forwardFile msg) := by
  refine .get_bind fun s => ?_
  split
  · exact .send _ _
  · exact .send _ _

theorem sendToMember_onlySends (message : Message) (username : Name) :
    OnlySends (ServerApplicationService.sendToMember message username) := by
  refine .get_bind fun s => ?_
  split
  · exact .pure _
  · exact .send _ _

/-! ## Computations that may write -/

/-- The services have undergone one change on behalf of the current connection, or none. -/
structure Changed (s s' : ServerContext) : Prop where
  change : Change s.fd s.services s'.services
  fd : s'.fd = s.fd

/-- From `s`, the computation makes one change or none, and fails only by throwing. -/
abbrev ChangesAt {α : Type} (x : ServerM α) (s : ServerContext) : Prop :=
  Respects Changed Failure.IsThrown x s

theorem SameServices.changed {s s' : ServerContext} (h : SameServices s s') : Changed s s' :=
  ⟨h.services ▸ .none, h.fd⟩

theorem SameServices.trans_changed {s s' s'' : ServerContext} (h : SameServices s s')
    (h' : Changed s' s'') : Changed s s'' := by
  obtain ⟨hchange, hfd⟩ := h'
  rw [h.services, h.fd] at hchange
  exact ⟨hchange, hfd.trans h.fd⟩

theorem OnlySends.changesAt {α : Type} {x : ServerM α} (h : OnlySends x) (s : ServerContext) :
    ChangesAt x s :=
  (h s).mono fun _ => SameServices.changed

/-- One write, after which the computation only sends. Every handler that writes has this form. -/
theorem ChangesAt.set_bind {α : Type} {f : PUnit → ServerM α} {s s' : ServerContext}
    (hchange : Change s.fd s.services s'.services) (hfd : s'.fd = s.fd) (hf : OnlySends (f ⟨⟩)) :
    ChangesAt (set s' >>= f) s :=
  Respects.set_bind (hf s') fun _ h => ⟨h.services ▸ hchange, h.fd.trans hfd⟩

/-- A login. The two refusals send a reply, and the rest is one write with the greeting after it.
    Its guards are what `registerUser` and the session manager have found. -/
theorem login_changes (username dh identity sig : Bytes) (s : ServerContext) :
    ChangesAt (ServerApplicationService.login username dh identity sig) s := by
  apply Respects.get_bind
  split
  · exact (OnlySends.send _ _).changesAt s
  · rename_i hfree
    split
    · exact (OnlySends.send _ _).changesAt s
    · rename_i users hregister
      obtain ⟨hfresh, rfl⟩ := registerUser_ok hregister
      exact ChangesAt.set_bind (.login (getUsername_error hfree) hfresh) rfl (.sendText _ _)

/-- Joining. Of the errors, the one without a reply of its own does not occur, but the branch is
    there and sends. -/
theorem joinRoom_changes (chatName : Name) (s : ServerContext) :
    ChangesAt (ServerApplicationService.joinRoom chatName) s := by
  apply Respects.get_bind
  split
  · exact (OnlySends.send _ _).changesAt s
  · rename_i username hname
    split
    · exact (OnlySends.send _ _).changesAt s
    · split
      · exact (OnlySends.send _ _).changesAt s
      · exact (OnlySends.send _ _).changesAt s
      · exact (OnlySends.sendText _ _).changesAt s
      · rename_i chats hadd
        obtain ⟨chat, hchat, hnot, rfl⟩ := addMember_ok hadd
        exact ChangesAt.set_bind (.joinRoom (getUsername_ok_iff.mp hname) hchat hnot) rfl
          (.sendText _ _)

/-- A new room changes the table of rooms, and a name that is taken changes nothing. -/
theorem createRoom_changes (chatName : Name) (s : ServerContext) :
    ChangesAt (ServerApplicationService.createRoom chatName) s := by
  apply Respects.get_bind
  split
  · exact (OnlySends.send _ _).changesAt s
  · rename_i username hname
    split
    · exact (OnlySends.send _ _).changesAt s
    · split
      · exact (OnlySends.send _ _).changesAt s
      · rename_i chats hcreate
        obtain ⟨hfresh, rfl⟩ := createChat_ok hcreate
        exact ChangesAt.set_bind (.createRoom (getUsername_ok_iff.mp hname) hfresh) rfl
          (.sendText _ _)

/-- Posting to a room. The branch for other errors, in which the source uses a result without a
    value, is impossible by `postMessage_error`; without that lemma the handler could fail out of
    bounds. -/
theorem sendGroupMessage_changes (chatName : Name) (message : Message) (s : ServerContext) :
    ChangesAt (ServerApplicationService.sendGroupMessage chatName message) s := by
  apply Respects.get_bind
  split
  · exact (OnlySends.send _ _).changesAt s
  · rename_i username hname
    split
    · exact (OnlySends.send _ _).changesAt s
    · exact (OnlySends.send _ _).changesAt s
    · rename_i e haccess hnotFound hpost
      rcases postMessage_error hpost with rfl | rfl
      · exact absurd rfl hnotFound
      · exact absurd rfl haccess
    · rename_i members chats hpost
      obtain ⟨chat, hchat, hmember, rfl, rfl⟩ := postMessage_ok hpost
      exact ChangesAt.set_bind (.post (getUsername_ok_iff.mp hname) hchat hmember) rfl
        (.forM (sendToMember_onlySends message) _)

theorem exitCurrentSession_changes (s : ServerContext) :
    ChangesAt ServerApplicationService.exitCurrentSession s := by
  apply Respects.get_bind
  split
  · exact (OnlySends.pure _).changesAt s
  · rename_i username hname
    exact ChangesAt.set_bind (f := Pure.pure) (.exit (getUsername_ok_iff.mp hname)) rfl (.pure _)

/-! ## From handlers to events -/

theorem ChangesAt.bind {α β : Type} {x : ServerM α} {f : α → ServerM β} {s : ServerContext}
    (hx : OnlySends x) (hf : ∀ a s, ChangesAt (f a) s) : ChangesAt (x >>= f) s :=
  Respects.bind (hx s) (fun a s' _ => hf a s') (fun _ h => h.changed)
    (fun _ _ h h' => h.trans_changed h')

/-- Each command is a call of the application service, after at most the construction of a
    message. -/
theorem execute_changes (cmd : ServerCommand) (msg : Message) (s : ServerContext) :
    ChangesAt (cmd.execute msg) s := by
  cases cmd with
  | exit => exact exitCurrentSession_changes s
  | login => exact login_changes _ _ _ _ s
  | room => exact createRoom_changes _ s
  | send => exact ChangesAt.bind (.construct _ _ _ _) fun _ s => sendGroupMessage_changes _ _ s
  | join => exact joinRoom_changes _ s
  | getpub => exact (sendPubkey_onlySends _).changesAt s
  | help => exact (OnlySends.pure _).changesAt s
  | sendfile => exact (OnlySends.get_bind fun _ => .sendText _ _).changesAt s

theorem busDispatch_changes (msg : Message) (s : ServerContext) :
    ChangesAt (ServerCommandBus.dispatch msg) s := by
  unfold ServerCommandBus.dispatch
  split
  · exact (OnlySends.pure _).changesAt s
  · exact execute_changes _ msg s

/-- Each handler makes one change or none. Only commands make one. -/
theorem handler_changes {type : MessageType} {handle : Message → ServerM Unit}
    (h : ServerMessageDispatcher.handler type = some handle) (msg : Message) (s : ServerContext) :
    ChangesAt (handle msg) s := by
  unfold ServerMessageDispatcher.handler at h
  split at h
  · cases h
    exact (OnlySends.pure _).changesAt s
  · cases h
    exact busDispatch_changes msg s
  · cases h
    exact (OnlySends.get_bind fun _ => deliverCipherMessage_onlySends _ msg).changesAt s
  · cases h
    exact (forwardFile_onlySends msg).changesAt s
  · cases h
    exact (forwardFile_onlySends msg).changesAt s
  · cases h
    exact (forwardFile_onlySends msg).changesAt s
  · cases h

/-- Caught exceptions do not undo what was done, and no other failure happens. -/
theorem catchException_returns {x : ServerM Bool} {s : ServerContext} (h : ChangesAt x s) :
    ∃ b s', catchException x s = .ok b s' ∧ Changed s s' := by
  have hstate := h.state
  cases hr : x s with
  | ok b s' =>
    rw [finalState_ok hr] at hstate
    exact ⟨b, s', catchWith_ok hr _, hstate⟩
  | error e s' =>
    rw [finalState_error hr] at hstate
    obtain ⟨exn, rfl⟩ := (h.fails hr).exn
    exact ⟨false, s', catchWith_thrown hr _, hstate⟩

/-- **The dispatcher always returns**, with one change or none. -/
theorem dispatch_returns (msg : Message) (s : ServerContext) :
    ∃ b s', ServerMessageDispatcher.dispatch msg s = .ok b s' ∧ Changed s s' := by
  unfold ServerMessageDispatcher.dispatch
  cases hhandler : ServerMessageDispatcher.handler msg.getType with
  | none => exact ⟨false, s, rfl, .none, rfl⟩
  | some handle =>
    exact catchException_returns ((handler_changes hhandler msg s).bind_pure fun _ => true)

/-- The connection an event is about. -/
def ServerEvent.fd : ServerEvent → Fd
  | .message _ fd _ => fd
  | .disconnect _ fd => fd

theorem handleMessage_returns (fd : Fd) (msg : Message) (s : ServerContext) :
    ∃ s', MessagingServer.handleMessage fd msg s = .ok () s' ∧
      Change fd s.services s'.services := by
  obtain ⟨b, s', hdispatch, hchanged⟩ := dispatch_returns msg { s with fd := fd }
  exact ⟨s', bind_ok hdispatch, hchanged.change⟩

theorem handleMessage_of_handler {msg : Message} {handle : Message → ServerM Unit}
    {s s' : ServerContext} {fd : Fd}
    (hhandler : ServerMessageDispatcher.handler msg.getType = some handle)
    (hrun : handle msg { s with fd := fd } = .ok () s') :
    MessagingServer.handleMessage fd msg s = .ok () s' := by
  have hdispatch : ServerMessageDispatcher.dispatch msg { s with fd := fd } = .ok true s' := by
    unfold ServerMessageDispatcher.dispatch
    rw [hhandler]
    show catchWith false (handle msg >>= fun _ => Pure.pure true) _ = _
    apply catchWith_ok
    exact bind_ok hrun
  exact bind_ok hdispatch

/-- A message with few enough entries and bytes can be constructed, and says what it was made of. -/
theorem construct_ok (metalen : UInt8) (type : MessageType) (s : ServerContext)
    {metadata : List Bytes} {payload : Bytes} (hcount : metadata.length < 256)
    (hsize : compactSize metadata payload < 2 ^ 32) :
    ∃ msg, construct payload metalen metadata type s = .ok msg s ∧
      msg.content = .plain type metadata payload := by
  obtain ⟨msg, hmsg, hcontent⟩ := new_ok s.now metalen type hcount hsize
  refine ⟨msg, ?_, hcontent⟩
  show liftExcept (Message.new s.now payload metalen metadata type) s = _
  rw [hmsg]
  rfl

/-- The same for what is to be serialized: the other side reads it as it was meant. -/
theorem construct_carries (metalen : UInt8) (s : ServerContext) {type : MessageType}
    {metadata : List Bytes} {payload : Bytes}
    (h : (Content.plain type metadata payload).FitsCompact) :
    ∃ msg, construct payload metalen metadata type s = .ok msg s ∧
      Carries (Serializer.serialize msg) (.plain type metadata payload) := by
  obtain ⟨msg, hmsg, hcarries⟩ := new_carries s.now metalen h
  refine ⟨msg, ?_, hcarries⟩
  show liftExcept (Message.new s.now payload metalen metadata type) s = _
  rw [hmsg]
  rfl

/-- The `EXIT` command of the disconnect callback is far below any size limit. -/
theorem onDisconnected_returns (fd : Fd) (s : ServerContext) :
    ∃ s', MessagingServer.onDisconnected fd s = .ok () s' ∧ Change fd s.services s'.services := by
  obtain ⟨msg, hconstruct, -⟩ := construct_ok 1 .command { s with fd := fd }
    (show [[CommandType.exit.toByte]].length < 256 by decide)
    (show compactSize [[CommandType.exit.toByte]] [] < 2 ^ 32 by decide)
  obtain ⟨b, s', hdispatch, hchanged⟩ := dispatch_returns msg { s with fd := fd }
  refine ⟨s', ?_, hchanged.change⟩
  calc MessagingServer.onDisconnected fd s
      = (construct [] 1 [[CommandType.exit.toByte]] .command >>= fun msg =>
          ServerMessageDispatcher.dispatch msg >>= fun _ => Pure.pure ()) { s with fd := fd } := rfl
    _ = (ServerMessageDispatcher.dispatch msg >>= fun _ => Pure.pure ()) { s with fd := fd } :=
        bind_ok hconstruct
    _ = .ok () s' := bind_ok hdispatch

/-- The context after a message is the one its handling returns in: no event of this kind throws. -/
theorem step_message (s : ServerContext) (now : UInt64) (fd : Fd) (msg : Message) :
    ∃ s', MessagingServer.handleMessage fd msg { s with now := now } = .ok () s' ∧
      s.step (.message now fd msg) = s' ∧ Change fd s.services s'.services := by
  obtain ⟨s', hrun, hchange⟩ := handleMessage_returns fd msg { s with now := now }
  exact ⟨s', hrun, finalState_ok hrun, hchange⟩

theorem step_disconnect (s : ServerContext) (now : UInt64) (fd : Fd) :
    ∃ s', MessagingServer.onDisconnected fd { s with now := now } = .ok () s' ∧
      s.step (.disconnect now fd) = s' ∧ Change fd s.services s'.services := by
  obtain ⟨s', hrun, hchange⟩ := onDisconnected_returns fd { s with now := now }
  exact ⟨s', hrun, finalState_ok hrun, hchange⟩

/-- **An event makes one change, or none.** -/
theorem step_change (s : ServerContext) (e : ServerEvent) :
    Change e.fd s.services (s.step e).services := by
  cases e with
  | message now fd msg =>
    obtain ⟨s', -, hstep, hchange⟩ := step_message s now fd msg
    rw [hstep]
    exact hchange
  | disconnect now fd =>
    obtain ⟨s', -, hstep, hchange⟩ := step_disconnect s now fd
    rw [hstep]
    exact hchange

end Messenger
