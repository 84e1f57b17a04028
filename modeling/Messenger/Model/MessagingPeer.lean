import Messenger.Model.Crypto
import Messenger.Model.Parser
import Messenger.Model.Peer

/-!
# The application of a peer: `messaging_peer.cpp`, `peer_*_handler.cpp` and the commands

A `MessagingPeer` is a node and a context. What a peer sends comes to `on_data_callback`, which
decodes it and dispatches it to a handler; a handler works on the context, and of the node it
uses `send_to_peer` only. What the user types is dispatched to the same handlers' other side,
which works on the node.

A handler of what is received runs in `PeerContextM`, with what it passes to `send_to_peer` as
`sent`. `shown` are the lines with which a message is printed; the other output is left out.

The fields of the commands are set by `fromMessage` before each use, so a command keeps nothing
from one use to the next.
-/

set_option autoImplicit false

namespace Messenger

open Messenger.Lib

/-- `struct PeerContext`, but for the node. It has the users and sessions of a server, and the keys
    and counters of a client. -/
structure PeerContext where
  users : UserService := .empty
  sessions : SessionManager := {}
  encryption : EncryptionService
  myUsername : Bytes := []
  messagesCounter : Table Bytes UInt64 := .empty
  fd : Fd := 0
  now : UInt64 := 0
  sent : List (Fd × Bytes) := []
  shown : List Bytes := []

abbrev PeerContextM := EStateM Failure PeerContext

/-- The digits up to the first character that is none. -/
def stoiDigits (negative : Bool) (text : Bytes) : Except Failure Int :=
  let digits := text.takeWhile fun c => 0x30 ≤ c && c ≤ 0x39
  let magnitude : Nat := digits.foldl (fun n c => 10 * n + (c.toNat - 0x30)) 0
  let value : Int := if negative then -magnitude else magnitude
  if digits.isEmpty then .error (runtimeError "stoi")
  else if -2 ^ 31 ≤ value ∧ value < 2 ^ 31 then .ok value
  else .error (runtimeError "stoi")

/-- `std::stoi`: white space, a sign, digits. The two exceptions differ in their type, which nobody
    looks at. What follows the digits is ignored. -/
def stoi (text : Bytes) : Except Failure Int :=
  match text.dropWhile Parser.isSpace with
  | 0x2D :: text => stoiDigits true text
  | 0x2B :: text => stoiDigits false text
  | text => stoiDigits false text

section

variable (ssl : OpenSSL)

namespace PeerContext

/-- `send_to_peer(*context->peer_node, fd, data)`. The node queues it when the handler has returned,
    which makes no difference to the handler. -/
def sendToPeer (fd : Fd) (data : Bytes) : PeerContextM Unit :=
  modify fun c => { c with sent := c.sent ++ [(fd, data)] }

/-- `send_to_peer(…, fd, serializer->serialize({payload, metalen, metadata, Response}))`. -/
def sendResponse (fd : Fd) (payload : Bytes) (metalen : UInt8) (metadata : List Bytes) :
    PeerContextM Unit := do
  let c ← get
  let msg ← liftExcept (Message.new c.now payload metalen metadata .response)
  sendToPeer fd (Serializer.serialize msg)

/-- `encryption_service->cache_public_key(…)`. -/
def cachePublicKey (username pubkey identityKey : Bytes) : PeerContextM Unit := do
  let c ← get
  let (result, encryption) := c.encryption.cachePublicKey ssl username pubkey identityKey
  set { c with encryption := encryption }
  liftExcept result

end PeerContext

/-! ## The commands, as a peer receives them -/

/-- The fields of the command, as `fromMessage` takes them from a message. The side that sends uses
    the address and the port, and the side that receives the keys and the name. -/
structure ConnectCommand where
  ip : Bytes
  port : Int
  dhBytes : Bytes
  identityBytes : Bytes
  signature : Bytes
  username : Bytes

namespace ConnectCommand

/-- The port is converted on the side that receives the command, too, although nothing there uses
    it. One that is not a number makes it throw. -/
def fromMessage (msg : Message) : Except Failure ConnectCommand := do
  let port ← stoi (msg.getMeta 2)
  return {
    ip := msg.getMeta 1
    port := port
    dhBytes := msg.getMeta 3
    identityBytes := msg.getMeta 4
    signature := msg.getMeta 5
    username := msg.getPayload }

/-- The name is registered: it is bound, its keys are cached, and the own keys are the reply. If the
    keys are refused, the name is bound nevertheless and there is no reply. -/
def accept (cmd : ConnectCommand) (fd : Fd) (users : UserService) : PeerContextM Unit := do
  modify fun c => { c with users := users, sessions := c.sessions.bind fd cmd.username }
  PeerContext.cachePublicKey ssl cmd.username cmd.dhBytes cmd.identityBytes
  let c ← get
  PeerContext.sendResponse fd c.myUsername 4 [[CommandType.connect.toByte],
    c.encryption.getDHBytes ssl, c.encryption.getIdentityBytes ssl, c.encryption.sign ssl]

/-- Of the errors only `AlreadyExists` makes it return. No other one occurs. -/
def recvOnPeer (cmd : ConnectCommand) (fd : Fd) : PeerContextM Unit := do
  let c ← get
  match c.users.registerUser cmd.username cmd.dhBytes cmd.identityBytes cmd.signature with
  | .ok users => cmd.accept ssl fd users
  | .error .alreadyExists => return
  | .error _ => cmd.accept ssl fd c.users

end ConnectCommand

/-- The own keys are the answer, under the name that was asked with. -/
def LoginCommand.recvOnPeer (username : Bytes) (fd : Fd) : PeerContextM Unit := do
  let c ← get
  PeerContext.sendResponse fd (c.encryption.getDHBytes ssl) 4 [[CommandType.getPubkey.toByte],
    username, c.encryption.getIdentityBytes ssl, c.encryption.sign ssl]

/-- `*session_manager->get_username(fd)` is not checked: where there is no name, the value of a
    `std::expected` is used that has none. -/
def DisconnectCommand.recvOnPeer (fd : Fd) : PeerContextM Unit := do
  let c ← get
  match c.sessions.getUsername fd with
  | .error _ => throw .outOfBounds
  | .ok username =>
    set { c with users := c.users.removeUser username, sessions := c.sessions.unbind fd }

/-- The commands that `PeerCommandHandler` registers. -/
inductive PeerCommand
  | exit
  | connect
  | disconnect
  | pmess
  | login
  deriving DecidableEq, Repr

def PeerCommandRegistry.find (name : Bytes) : Option PeerCommand :=
  [(bytes "exit", PeerCommand.exit), (bytes "connect", .connect),
    (bytes "disconnect", .disconnect), (bytes "pmess", .pmess), (bytes "login", .login)].lookup name

/-- `handler->fromMessage(msg); handler->recv_on_peer(fd, context);`. -/
def PeerCommand.receive (cmd : PeerCommand) (msg : Message) (fd : Fd) : PeerContextM Unit :=
  match cmd with
  | .exit => pure ()
  | .connect => do
    let cmd ← liftExcept (ConnectCommand.fromMessage msg)
    cmd.recvOnPeer ssl fd
  | .disconnect => DisconnectCommand.recvOnPeer fd
  | .pmess => pure ()
  | .login => LoginCommand.recvOnPeer ssl (msg.getMeta 1) fd

/-- A command is handled for the connection it came on, which the callback has put into the
    context. -/
def PeerCommandBus.dispatchReceiving (msg : Message) : PeerContextM Unit :=
  match PeerCommandRegistry.find (Parser.makeStructFromCommand msg).name with
  | none => pure ()
  | some cmd => do
    let c ← get
    cmd.receive ssl msg c.fd

/-! ## The handlers of what is received -/

/-- A text is printed as it is. -/
def PeerTextHandler.handleReceiving (msg : Message) : PeerContextM Unit :=
  modify fun c => { c with shown := c.shown ++ [bytes "Peer got message " ++ msg.getPayload] }

/-- `messages_counter[sender]`, which makes an entry where there is none, is never counted up. So
    the same message is shown as often as it comes, and one with another counter never. -/
def PeerCipherHandler.handleReceiving (msg : Message) : PeerContextM Unit := do
  let sender := msg.getMeta 0
  let c ← get
  let counter := (c.messagesCounter sender).getD 0
  set { c with messagesCounter := c.messagesCounter.insert sender counter }
  let text ← liftExcept (c.encryption.decryptFor ssl sender c.myUsername msg.getPayload
    (msg.getMeta 1) counter)
  modify fun c => { c with shown := c.shown ++ [c.myUsername ++ bytes " got message: [Private from "
    ++ sender ++ bytes "]: " ++ text] }

namespace PeerResponseHandler

/-- The answer to the own `CONNECT`, or to none: it is not asked whether one was sent. -/
def handleConnectResponse (msg : Message) : PeerContextM Unit := do
  let c ← get
  match c.users.registerUser msg.getPayload (msg.getMeta 1) (msg.getMeta 2) (msg.getMeta 3) with
  | .error _ => return
  | .ok users =>
    set { c with users := users, sessions := c.sessions.bind c.fd msg.getPayload }
    PeerContext.cachePublicKey ssl msg.getPayload (msg.getMeta 1) (msg.getMeta 2)

def handleReceiving (msg : Message) : PeerContextM Unit :=
  match msg.getMeta 0 with
  | [] => pure ()
  | code :: _ =>
    match CommandType.ofByte code with
    | .connect => handleConnectResponse ssl msg
    | _ => pure ()

end PeerResponseHandler

/-- `handleReceiving` of the handlers that `MessagingPeer` registers. Those for files are empty. -/
def PeerMessageDispatcher.receivingHandler : MessageType → Option (Message → PeerContextM Unit)
  | .text => some PeerTextHandler.handleReceiving
  | .command => some (PeerCommandBus.dispatchReceiving ssl)
  | .cipherMessage => some (PeerCipherHandler.handleReceiving ssl)
  | .response => some (PeerResponseHandler.handleReceiving ssl)
  | .fileStart => some fun _ => pure ()
  | .fileChunk => some fun _ => pure ()
  | .fileEnd => some fun _ => pure ()
  | _ => none

/-- What a handler throws ends here; a failure that is no exception does not. -/
def PeerMessageDispatcher.dispatchReceiving (msg : Message) : PeerContextM Bool :=
  match PeerMessageDispatcher.receivingHandler ssl msg.getType with
  | none => return false
  | some handleReceiving => catchWith false do
    handleReceiving msg
    return true

/-- `on_data_callback`. The decoder runs outside any `try`, so what it throws goes up to the event
    loop of the node. -/
def PeerContext.onData (fd : Fd) (rawData : Bytes) : PeerContextM Unit := do
  let msg ← liftExcept (Serializer.deserialize rawData)
  modify fun c => { c with fd := fd }
  let _handled ← PeerMessageDispatcher.dispatchReceiving ssl msg
  return ()

/-! ## The node -/

namespace PeerNode

/-- `peerFds` are the keys of `by_fd`, in the order in which the map is iterated. The text goes into
    the send buffer of each. -/
def broadcast (peerFds : List Fd) (data : Bytes) : PeerM Unit :=
  peerFds.forM fun fd => do
    let session ← sessionAt fd
    modify fun s =>
      s.setSession fd { session with out := FramerMessage.formMessage data session.out }
    enableWrite fd

/-- `connected` is the descriptor of the new socket, if `setup_connection` has not failed. What
    `register_peer_connection` returns is not looked at. A failure is the descriptor 0. -/
def connectToPeer (peerIp : Bytes) (connected : Option Fd) : PeerM Fd :=
  match connected with
  | none => return 0
  | some fd => do
    let _result ← registerPeerConnection { fd := fd, ip := peerIp, transport := .stream (.tcp {}) }
    return fd

end PeerNode

/-- What the system answers while a line is handled. -/
structure LineAnswer where
  -- Of `setup_connection`.
  connected : Option Fd := none
  -- The keys of `by_fd`, in the order in which the map is iterated.
  peerFds : List Fd := []

/-- A node and the context that its callback works on. -/
structure MessagingPeer where
  node : PeerNode
  context : PeerContext

abbrev MessagingPeerM := EStateM PeerFailure MessagingPeer

namespace MessagingPeer

/-- A call that works on the node. -/
def onNode {α : Type} (x : PeerM α) : MessagingPeerM α := fun s =>
  match x s.node with
  | .ok a node => .ok a { s with node := node }
  | .error e node => .error e { s with node := node }

def liftFailure {α : Type} (x : Except Failure α) : MessagingPeerM α :=
  match x with
  | .ok a => pure a
  | .error e => throw (.failed e)

/-- `try { return x; } catch (std::exception &) { return b; }`. The call of an empty `std::function`
    throws an exception too; the use of a session that is gone is no exception. -/
def catchException {α : Type} (b : α) (x : MessagingPeerM α) : MessagingPeerM α := fun s =>
  match x s with
  | .ok a s => .ok a s
  | .error (.failed (.thrown _)) s => .ok b s
  | .error .badFunctionCall s => .ok b s
  | .error e s => .error e s

/-! ## What the user types -/

/-- `ConnectCommand::toMessage`, with the fields that `send_from_peer` has set. -/
def connectMessage (c : PeerContext) (cmd : ConnectCommand) : Except Failure Message :=
  Message.new c.now c.myUsername 6 [[CommandType.connect.toByte], cmd.ip,
    bytes (toString cmd.port), c.encryption.getDHBytes ssl, c.encryption.getIdentityBytes ssl,
    c.encryption.sign ssl] .command

/-- `ConnectCommand::send_from_peer`. A peer that has no name yet connects to nobody. -/
def connectFromPeer (answer : LineAnswer) (cmd : ConnectCommand) : MessagingPeerM Unit := do
  let s ← get
  if s.context.myUsername.isEmpty then return
  else
    let fd ← onNode (PeerNode.connectToPeer cmd.ip answer.connected)
    if fd = 0 then return
    else
      let msg ← liftFailure (connectMessage ssl s.context cmd)
      onNode (PeerNode.sendToPeer fd (Serializer.serialize msg))

/-- `handler->fromMessage(msg); handler->send_from_peer(context);`. What `/disconnect` and
    `/pmess` call in `PeerApplicationService` is empty. -/
def sendCommand (answer : LineAnswer) (msg : Message) : PeerCommand → MessagingPeerM Unit
  | .exit => onNode (PeerNode.stop answer.peerFds)
  | .connect => do
    let cmd ← liftFailure (ConnectCommand.fromMessage msg)
    connectFromPeer ssl answer cmd
  | .disconnect => pure ()
  | .pmess => pure ()
  | .login =>
    modify fun s => { s with context := { s.context with myUsername := msg.getMeta 1 } }

/-- `handleSending` of the handlers that `MessagingPeer` registers. -/
def sendingHandler (answer : LineAnswer) : MessageType → Option (Message → MessagingPeerM Unit)
  | .text => some fun msg =>
      onNode (PeerNode.broadcast answer.peerFds (Serializer.serialize msg))
  | .command => some fun msg =>
      match PeerCommandRegistry.find (Parser.makeStructFromCommand msg).name with
      | none => pure ()
      | some cmd => sendCommand ssl answer msg cmd
  | .cipherMessage => some fun _ => pure ()
  | .response => some fun _ => pure ()
  | .fileStart => some fun _ => pure ()
  | .fileChunk => some fun _ => pure ()
  | .fileEnd => some fun _ => pure ()
  | _ => none

/-- A line has been parsed; its message goes to the sending side of a handler. -/
def dispatchSending (answer : LineAnswer) (msg : Message) : MessagingPeerM Bool :=
  match sendingHandler ssl answer msg.getType with
  | none => return false
  | some handleSending => catchException false do
    handleSending msg
    return true

/-- The parser runs outside any `try`. -/
def sendMsg (answer : LineAnswer) (line : Bytes) : MessagingPeerM Unit := do
  let s ← get
  let msg ← liftFailure (Parser.parse s.context.now line)
  let _handled ← dispatchSending ssl answer msg
  return ()

/-! ## Events -/

/-- The context after calls of `on_data_callback`, whether they have failed or not. -/
def afterCalls (c : PeerContext) (calls : List (Fd × Bytes)) : PeerContext :=
  calls.foldl (fun c call => finalState (PeerContext.onData ssl call.1 call.2) c) c

/-- `on_data_callback` for a node that has made `before` calls of it when the context is `c`: what
    the last of `calls` does. The node's model wants a function of all calls, since it does not know
    the context; this function replays them. -/
def onDataCallback (c : PeerContext) (before : Nat) (calls : List (Fd × Bytes)) :
    PeerNode.DataAnswer :=
  match (calls.drop before).getLast? with
  | none => {}
  | some (fd, rawData) =>
    let c := afterCalls ssl c (calls.drop before).dropLast
    match PeerContext.onData ssl fd rawData { c with sent := [] } with
    | .ok _ c => { sent := c.sent }
    | .error e c => { sent := c.sent, failure := some e }

/-- The node handles an event, with its callback set to this application's. The context afterwards
    is that after the calls the node has made of it. -/
def handleEvent (s : MessagingPeer) (e : PeerEvent) : MessagingPeer :=
  let callback := onDataCallback ssl s.context s.node.handedOn.length
  let node := finalState (PeerEventHandler.handleEvent e)
    { s.node with callbacks := { s.node.callbacks with onData := some callback } }
  { node := node
    context := afterCalls ssl s.context (node.handedOn.drop s.node.handedOn.length) }

/-- What happens to a peer, each at its own time. -/
inductive Event
  -- A line from the user.
  | line (now : UInt64) (text : Bytes) (answer : LineAnswer)
  -- `PeerAcceptHandler` has accepted a connection.
  | accepted (session : PeerNode.Session)
  | event (now : UInt64) (e : PeerEvent)

/-- The peer after an event, also when the handling of it has failed. -/
def step (s : MessagingPeer) : Event → MessagingPeer
  | .line now text answer =>
    finalState (sendMsg ssl answer text) { s with context := { s.context with now := now } }
  | .accepted session =>
    { s with node := finalState (PeerNode.registerPeerConnection session) s.node }
  | .event now e => handleEvent ssl { s with context := { s.context with now := now } } e

def run (s : MessagingPeer) (events : List Event) : MessagingPeer := events.foldl (step ssl) s

/-- The constructor: the node listens, and `on_peer_disconnected` is not set. So an event for a
    session that is gone calls a function that is not there. -/
def new (encryption : EncryptionService) : MessagingPeer where
  node := { running := true, initialized := true, callbacks := { onPeerConnected := true } }
  context := { encryption := encryption }

end MessagingPeer

end

end Messenger
