import Messenger.Lib.Action
import Messenger.Model.Command
import Messenger.Model.Services

/-!
# The server: from bytes to services

`application/services/server_application_service.cpp` on top of the three services, the
commands of `application/commands/impl` as the server runs them, the message handlers and
the dispatcher, and `MessagingServer` above them.

A handler runs in `ServerM`: it changes the context as it goes and may throw. An
exception does not undo what was done before it, so the context at the throw is the
context afterwards. `transport_server->send` is the outbox; it remembers whether a packet
is one of the fixed replies or a serialized message. The clock (`now`) is part of the
context, set when an event comes in.

The pointers `fd_ref_`, `serializer_` and `transport_server_` are set by `ServerContext`
and never null.
-/

set_option autoImplicit false

namespace Messenger

open Messenger.Lib

/-- What is passed to `transport_server->send`. The fixed replies are bytes that the program has
    ready made and never decodes; everything else is a message that it serializes. -/
inductive Packet
  | static (r : StaticResponse)
  | serialized (msg : Message)
  deriving DecidableEq, Repr

def Packet.bytes : Packet → Bytes
  | .static r => r.bytes
  | .serialized msg => Serializer.serialize msg

/-- The three services, the connection whose message is being handled, and what stands for the
    surroundings: the clock and the packets sent. -/
structure ServerContext where
  users : UserService := .empty
  chats : ChatService := .empty
  sessions : SessionManager := {}
  fd : Fd := 0
  now : UInt64 := 0
  outbox : List (Fd × Packet) := []

/-- A handler of the server. An exception keeps the changes made before it. -/
abbrev ServerM := EStateM Failure ServerContext

/-- `transport_server->send(fd, …)`. -/
def send (fd : Fd) (packet : Packet) : ServerM Unit :=
  modify fun s => { s with outbox := s.outbox ++ [(fd, packet)] }

/-- `Message(payload, metalen, metadata, type)`, at the current time. It throws for more than 255
    entries or for 4 GB, and then nothing is sent. -/
def construct (payload : Bytes) (metalen : UInt8) (metadata : List Bytes) (type : MessageType) :
    ServerM Message := do
  let s ← get
  liftExcept (Message.new s.now payload metalen metadata type)

/-- `send(fd, serializer.serialize(Message(text, 0, {}, MessageType::Text)))`. -/
def sendText (fd : Fd) (text : Bytes) : ServerM Unit := do
  let msg ← construct text 0 [] .text
  send fd (.serialized msg)

/-! ## `ServerApplicationService` -/

namespace ServerApplicationService

/-- A connection that has a name keeps it, and a name that is in use is refused. The user is
    registered and bound before the greeting is constructed. -/
def login (username dhPubkey identityPub signature : Bytes) : ServerM Unit := do
  let s ← get
  match s.sessions.getUsername s.fd with
  | .ok _ => send s.fd (.static .youAreLoggedIn)
  | .error _ =>
    match s.users.registerUser username dhPubkey identityPub signature with
    | .error _ => send s.fd (.static .publicKeyHasNotSet)
    | .ok users =>
      set { s with users := users, sessions := s.sessions.bind s.fd username }
      sendText s.fd (bytes "Hello, " ++ username ++ bytes "!")

/-- Of the errors of `add_member`, two have a reply. No other one occurs. -/
def joinRoom (chatName : Name) : ServerM Unit := do
  let s ← get
  match s.sessions.getUsername s.fd with
  | .error _ => send s.fd (.static .youNeedToLogin)
  | .ok username =>
    if chatName.isEmpty then send s.fd (.static .emptyChatName)
    else
      match s.chats.addMember chatName username with
      | .error .chatNotFound => send s.fd (.static .chatNotFound)
      | .error .alreadyMember => send s.fd (.static .youAreAlreadyMember)
      | .error _ => sendText s.fd (bytes "You joined the room " ++ chatName)
      | .ok chats =>
        set { s with chats := chats }
        sendText s.fd (bytes "You joined the room " ++ chatName)

/-- The creator is the first member. The name of a room that exists is refused, whoever made it. -/
def createRoom (chatName : Name) : ServerM Unit := do
  let s ← get
  match s.sessions.getUsername s.fd with
  | .error _ => send s.fd (.static .youNeedToLogin)
  | .ok username =>
    if chatName.isEmpty then send s.fd (.static .emptyChatName)
    else
      match s.chats.createChat chatName username with
      | .error _ => send s.fd (.static .chatAlreadyExists)
      | .ok chats =>
        set { s with chats := chats }
        sendText s.fd (bytes "Room " ++ chatName ++ bytes " was created!")

/-- One turn of the loop over the members of a chat. A member without a connection is skipped. -/
def sendToMember (message : Message) (username : Name) : ServerM Unit := do
  let s ← get
  match s.sessions.getFd username with
  | .error _ => pure ()
  | .ok hisFd => send hisFd (.serialized message)

/-- `post_message` fails only with `AccessDenied` and `ChatNotFound`; the source dereferences
    the result after any other error, which the language leaves undefined. -/
def sendGroupMessage (chatName : Name) (message : Message) : ServerM Unit := do
  let s ← get
  match s.sessions.getUsername s.fd with
  | .error _ => send s.fd (.static .youNeedToLogin)
  | .ok username =>
    match s.chats.postMessage chatName username message with
    | .error .accessDenied => send s.fd (.static .youAreNotMember)
    | .error .chatNotFound => send s.fd (.static .chatNotFound)
    | .error _ => throw .outOfBounds
    | .ok (members, chats) =>
      set { s with chats := chats }
      members.forM (sendToMember message)

/-- A private message goes on with the sender's keys and signature as the server has them, in place
    of whatever the sender put there. The name of the sender is taken from the message, and is not
    compared with the one they are logged in under. -/
def deliverCipherMessage (fd : Fd) (msg : Message) : ServerM Unit := do
  let s ← get
  match s.sessions.getUsername fd with
  | .error _ => send fd (.static .youNeedToLogin)
  | .ok username =>
    match s.sessions.getFd (msg.getMeta 0) with
    | .error _ => send fd (.static .userNotFound)
    | .ok recipientFd =>
      match s.users.findUser username with
      | .error _ => send fd (.static .youNeedToLogin)
      | .ok sender =>
        let msgToSend ← construct msg.getPayload 5 [msg.getMeta 0, msg.getMeta 1,
          sender.publicDHKey, sender.publicIdentityKey, sender.signature] .cipherMessage
        send recipientFd (.serialized msgToSend)

/-- The other way to drop a user, by name. No command leads here. Other than `exit_current_session`
    it leaves the user in their rooms. -/
def disconnectUsername (username : Name) : ServerM Unit := do
  let s ← get
  match s.sessions.getFd username with
  | .error _ => pure ()
  | .ok hisFd =>
    set { s with
      users := s.users.removeUser username
      sessions := s.sessions.unbind hisFd }

/-- The user is gone from all three services, rooms included. For a connection that has not logged
    in there is nothing to do. -/
def exitCurrentSession : ServerM Unit := do
  let s ← get
  match s.sessions.getUsername s.fd with
  | .error _ => pure ()
  | .ok username =>
    set { s with
      users := s.users.removeUser username
      chats := s.chats.removeUserFromAllChats username
      sessions := s.sessions.unbind s.fd }

/-- Anyone may ask for the keys of a user, logged in or not. -/
def sendPubkey (username : Bytes) : ServerM Unit := do
  let s ← get
  if username.isEmpty then send s.fd (.static .wrongCommandUsage)
  else
    match s.users.findUser username with
    | .error _ => send s.fd (.static .userNotFound)
    | .ok user =>
      let msg ← construct user.publicDHKey 4 [[CommandType.getPubkey.toByte], username,
        user.publicIdentityKey, user.signature] .response
      send s.fd (.serialized msg)

end ServerApplicationService

/-- A call of `ServerApplicationService`. -/
inductive ServerOperation
  | login (username dhPubkey identityPub signature : Bytes)
  | joinRoom (chatName : Name)
  | createRoom (chatName : Name)
  | sendGroupMessage (chatName : Name) (message : Message)
  | deliverCipherMessage (fd : Fd) (msg : Message)
  | disconnectUsername (username : Name)
  | exitCurrentSession
  | sendPubkey (username : Bytes)

/-- The call itself. -/
def ServerOperation.run : ServerOperation → ServerM Unit
  | .login username dhPubkey identityPub signature =>
    ServerApplicationService.login username dhPubkey identityPub signature
  | .joinRoom chatName => ServerApplicationService.joinRoom chatName
  | .createRoom chatName => ServerApplicationService.createRoom chatName
  | .sendGroupMessage chatName message => ServerApplicationService.sendGroupMessage chatName message
  | .deliverCipherMessage fd msg => ServerApplicationService.deliverCipherMessage fd msg
  | .disconnectUsername username => ServerApplicationService.disconnectUsername username
  | .exitCurrentSession => ServerApplicationService.exitCurrentSession
  | .sendPubkey username => ServerApplicationService.sendPubkey username

/-- A call with `fd` as the current connection. -/
structure ServiceRequest where
  now : UInt64
  fd : Fd
  operation : ServerOperation

/-- The context after a call, also when it has thrown. -/
def ServerContext.call (s : ServerContext) (request : ServiceRequest) : ServerContext :=
  finalState request.operation.run { s with now := request.now, fd := request.fd }

/-- The context after a run of calls, from an empty server. -/
def contextAfter (requests : List ServiceRequest) : ServerContext :=
  requests.foldl ServerContext.call {}

/-! ## Commands -/

/-- The handlers that `ServerCommandHandler` registers. -/
inductive ServerCommand
  | exit
  | login
  | room
  | send
  | join
  | getpub
  | help
  | sendfile
  deriving DecidableEq, Repr

/-- `ServerCommandRegistry::find`. -/
def ServerCommandRegistry.find (name : Bytes) : Option ServerCommand :=
  [(bytes "exit", ServerCommand.exit), (bytes "login", .login), (bytes "room", .room),
    (bytes "send", .send), (bytes "join", .join), (bytes "getpub", .getpub),
    (bytes "help", .help), (bytes "sendfile", .sendfile)].lookup name

/-- `handler->fromMessage(msg); handler->execeuteOnServer(context);`. The arguments are read off the
    metadata by their place, and one that is missing is empty. -/
def ServerCommand.execute (cmd : ServerCommand) (msg : Message) : ServerM Unit :=
  match cmd with
  | .exit => ServerApplicationService.exitCurrentSession
  | .login =>
    ServerApplicationService.login (msg.getMeta 1) (msg.getMeta 2) (msg.getMeta 3) (msg.getMeta 4)
  | .room => ServerApplicationService.createRoom (msg.getMeta 1)
  | .send => do
    let message ← construct msg.getPayload 0 [] .text
    ServerApplicationService.sendGroupMessage (msg.getMeta 1) message
  | .join => ServerApplicationService.joinRoom (msg.getMeta 1)
  | .getpub => ServerApplicationService.sendPubkey (msg.getMeta 1)
  | .help => pure ()
  | .sendfile => do
    let s ← get
    let filename := msg.getMeta 2
    let recipient := msg.getMeta 1
    sendText s.fd
      (bytes "Server should send a file '" ++ filename ++ bytes "' to " ++ recipient)

/-- The command is found by its name, for which its code was translated. A command without a handler
    is ignored. -/
def ServerCommandBus.dispatch (msg : Message) : ServerM Unit :=
  match ServerCommandRegistry.find (Parser.makeStructFromCommand msg).name with
  | none => pure ()
  | some cmd => cmd.execute msg

/-! ## Message handlers -/

/-- `ServerFileStartHandler`, `ServerFileChunkHandler` and `ServerFileEndHandler` are the same: the
    message goes on to its recipient as it is. The sender need not be logged in. -/
def forwardFile (msg : Message) : ServerM Unit := do
  let s ← get
  match s.sessions.getFd (msg.getMeta 0) with
  | .error _ => send s.fd (.static .userNotFound)
  | .ok recipientFd => send recipientFd (.serialized msg)

def ServerFileStartHandler.handleMessage (msg : Message) : ServerM Unit := forwardFile msg
def ServerFileChunkHandler.handleMessage (msg : Message) : ServerM Unit := forwardFile msg
def ServerFileEndHandler.handleMessage (msg : Message) : ServerM Unit := forwardFile msg

/-- Prints the payload. -/
def ServerTextHandler.handleMessage (_msg : Message) : ServerM Unit := pure ()

def ServerCommandHandler.handleMessage (msg : Message) : ServerM Unit :=
  ServerCommandBus.dispatch msg

def ServerCipherHandler.handleMessage (msg : Message) : ServerM Unit := do
  let s ← get
  ServerApplicationService.deliverCipherMessage s.fd msg

/-- The handlers that `MessagingServer` registers. There is none for responses. -/
def ServerMessageDispatcher.handler : MessageType → Option (Message → ServerM Unit)
  | .text => some ServerTextHandler.handleMessage
  | .command => some ServerCommandHandler.handleMessage
  | .cipherMessage => some ServerCipherHandler.handleMessage
  | .fileStart => some ServerFileStartHandler.handleMessage
  | .fileChunk => some ServerFileChunkHandler.handleMessage
  | .fileEnd => some ServerFileEndHandler.handleMessage
  | _ => none

/-- `try { x; return true; } catch (std::exception &) { return false; }`. -/
def catchException (x : ServerM Bool) : ServerM Bool := catchWith false x

/-- What a handler throws ends here. The value says whether there was a handler and it returned. -/
def ServerMessageDispatcher.dispatch (msg : Message) : ServerM Bool :=
  match ServerMessageDispatcher.handler msg.getType with
  | none => return false
  | some handleMessage => catchException do
    handleMessage msg
    return true

/-- The dispatcher's own way from bytes to a handler. `MessagingServer` does not use it. -/
def ServerMessageDispatcher.dispatchFromRawBytes (raw : Bytes) : ServerM Bool :=
  catchException do
    let msg ← liftExcept (Serializer.deserialize raw)
    ServerMessageDispatcher.dispatch msg

/-! ## `MessagingServer` -/

namespace MessagingServer

/-- A decoded message from a connection: `server_context->fd = fd;` and the dispatch. -/
def handleMessage (fd : Fd) (msg : Message) : ServerM Unit := do
  modify fun s => { s with fd := fd }
  let _handled ← ServerMessageDispatcher.dispatch msg
  return ()

/-- The decoder runs outside any `try`, so one malformed message ends the server. -/
def onTcpDataReceived (fd : Fd) (raw : Bytes) : ServerM Unit := do
  let msg ← liftExcept (Serializer.deserialize raw)
  handleMessage fd msg

/-- The disconnect callback: an `EXIT` command on behalf of the connection, as if its user had sent
    it. -/
def onDisconnected (fd : Fd) : ServerM Unit := do
  modify fun s => { s with fd := fd }
  let msg ← construct [] 1 [[CommandType.exit.toByte]] .command
  let _handled ← ServerMessageDispatcher.dispatch msg
  return ()

end MessagingServer

/-! ## Events -/

/-- What happens to the server, each at its own time. The messages are decoded already, so these
    runs are those in which the decoder does not throw. -/
inductive ServerEvent
  | message (now : UInt64) (fd : Fd) (msg : Message)
  | disconnect (now : UInt64) (fd : Fd)

/-- The context after an event, also when the handling of it has thrown. -/
def ServerContext.step (s : ServerContext) : ServerEvent → ServerContext
  | .message now fd msg => finalState (MessagingServer.handleMessage fd msg) { s with now := now }
  | .disconnect now fd => finalState (MessagingServer.onDisconnected fd) { s with now := now }

/-- The context after a run of events, from an empty server. -/
def serverAfter (events : List ServerEvent) : ServerContext := events.foldl ServerContext.step {}

end Messenger
