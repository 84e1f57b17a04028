import Messenger.Lib.Action
import Messenger.Model.Crypto
import Messenger.Model.Parser
import Messenger.Model.Queue

/-!
# The client

`MessagingClient` with its message handlers and the commands as the client runs them.
A handler runs in `ClientM`: it changes the context as it goes and may throw. The calls of
`client->send_to_server` are `outgoing`, those of `ui_callback` are `ui`. What becomes of a packet
is the transport's business, and `send_to_server` does not look at the answer. The clock is part
of the context, set when an event comes in.

A path is opened as a C string, so a zero byte ends it, and two paths that are different
strings may lead to one file. The tables of the program are kept by the whole string, the disk by
the file. A file that is being received is an open stream over it. What is written to the
stream is on disk when the stream is closed, from the start of the file on.
-/

set_option autoImplicit false

namespace Messenger

open Messenger.Lib

/-- A `std::ofstream` that has been opened, over the file that its path led to. -/
structure OutFile where
  file : Bytes
  written : Bytes := []
  deriving DecidableEq, Repr

/-- What the handlers and commands of a client share. The keys, the queue, the files and the
    counters are the program's; the disk, the clock and the two lists of what was shown and sent
    stand for what is around it. -/
structure ClientContext where
  encryption : EncryptionService
  mq : MessageQueue := .empty
  pendingFiles : Table Bytes OutFile := .empty
  pendingMessages : Table Bytes (List Bytes) := .empty
  myUsername : Bytes := []
  messagesCounter : Table Bytes UInt64 := .empty
  -- The file that a path leads to. More than one may lead to the same: `d/a` and `d//a`.
  resolves : Bytes → Bytes := id
  -- What is in the files.
  disk : Table Bytes Bytes := .empty
  -- The files that can be opened for reading, if they are there.
  readable : Bytes → Bool := fun _ => true
  -- The files that can be opened for writing.
  writable : Bytes → Bool := fun _ => true
  -- The files that have been opened for reading.
  opened : List Bytes := []
  connected : Bool := true
  now : UInt64 := 0
  ui : List Bytes := []
  outgoing : List Bytes := []

/-- A handler of the client. An exception keeps the changes made before it. -/
abbrev ClientM := EStateM Failure ClientContext

/-- `client->send_to_server(data)`. The transport is handed the packet, and its answer is dropped.
    After `disconnect` the socket has been shut down, and the first write to it ends the client. -/
def sendToServer (data : Bytes) : ClientM Unit := do
  let c ← get
  if c.connected then set { c with outgoing := c.outgoing ++ [data] }
  else throw .killed

/-- `context->ui_callback(text)`, which is all that the user sees. -/
def uiCallback (text : Bytes) : ClientM Unit :=
  modify fun c => { c with ui := c.ui ++ [text] }

/-- `Message(payload, metalen, metadata, type)`, at the current time. -/
def constructMessage (payload : Bytes) (metalen : UInt8) (metadata : List Bytes)
    (type : MessageType) : ClientM Message := do
  let c ← get
  liftExcept (Message.new c.now payload metalen metadata type)

/-- `send_to_server(serializer.serialize(Message(payload, metalen, metadata, type)))`. If the
    message cannot be constructed, nothing is sent. -/
def sendMessage (payload : Bytes) (metalen : UInt8) (metadata : List Bytes) (type : MessageType) :
    ClientM Unit := do
  let msg ← constructMessage payload metalen metadata type
  sendToServer (Serializer.serialize msg)

/-- `send_to_server(serializer.serialize(parser.make_command_from_struct(cmd)))`. -/
def sendCommand (cmd : ParsedCommand) : ClientM Unit := do
  let c ← get
  let msg ← liftExcept (Parser.makeCommandFromStruct c.now cmd)
  sendToServer (Serializer.serialize msg)

/-- `if (messages_counter.find(peer) == messages_counter.end()) messages_counter[peer] = 0;` and
    then `messages_counter[peer]`. The entry that is made stays, also if what comes next throws. -/
def counterFor (peer : Bytes) : ClientM UInt64 := do
  let c ← get
  match c.messagesCounter peer with
  | some n => return n
  | none =>
    set { c with messagesCounter := c.messagesCounter.insert peer 0 }
    return 0

/-- `++messages_counter[peer]`. There is one counter for each peer, for both directions. -/
def advanceCounter (peer : Bytes) : ClientM Unit :=
  modify fun c => { c with
    messagesCounter := c.messagesCounter.insert peer ((c.messagesCounter peer).getD 0 + 1) }

section

variable (ssl : OpenSSL)

/-! ## The encryption service of a client -/

/-- `cache_public_key`. The keys that were cached before it threw stay in the service. -/
def cachePublicKey (username pubkey identityKey : Bytes) : ClientM Unit := do
  let c ← get
  let (result, encryption) := c.encryption.cachePublicKey ssl username pubkey identityKey
  set { c with encryption := encryption }
  liftExcept result

/-- `encrypt_for`. A nonce that has been drawn is gone, also when the encryption fails. -/
def encryptFor (sender username plaintext : Bytes) (counter : UInt64) : ClientM Bytes := do
  let c ← get
  let (result, encryption) := c.encryption.encryptFor ssl sender username plaintext counter
  set { c with encryption := encryption }
  liftExcept result

/-- `decrypt_for`, which leaves the service as it is. -/
def decryptFor (sender username ciphertext signature : Bytes) (counter : UInt64) :
    ClientM Bytes := do
  let c ← get
  liftExcept (c.encryption.decryptFor ssl sender username ciphertext signature counter)

/-! ## Texts and private messages -/

/-- A text is shown as it is, whoever it is from. -/
def ClientTextHandler.handleIncoming (msg : Message) : ClientM Unit := uiCallback msg.getPayload

/-- What is shown of a private message. -/
def privateText (sender plaintext : Bytes) : Bytes :=
  bytes "[Личное от " ++ sender ++ bytes "]: " ++ plaintext

namespace CipherMessageHandler

/-- The body of the `try` block. The keys that come with the message replace those that are cached,
    before anything has been verified with them. The counter moves on only after the decryption. -/
def showEncryptedMessage (sender recipient pubkeyBytes payload identityKey signature : Bytes) :
    ClientM Unit := do
  cachePublicKey ssl sender pubkeyBytes identityKey
  let counter ← counterFor sender
  let plaintext ← decryptFor ssl sender recipient payload signature counter
  advanceCounter sender
  uiCallback (privateText sender plaintext)

/-- If any of that throws, a line goes to the error output and the user sees nothing of the
    message. -/
def processEncryptedMessage (sender recipient pubkeyBytes payload identityKey signature : Bytes) :
    ClientM Unit :=
  catchWith () (showEncryptedMessage ssl sender recipient pubkeyBytes payload identityKey signature)

/-- Who the message is from, and with which keys, is what its metadata says. -/
def handleIncoming (msg : Message) : ClientM Unit :=
  processEncryptedMessage ssl (msg.getMeta 1) (msg.getMeta 0) (msg.getMeta 2) msg.getPayload
    (msg.getMeta 3) (msg.getMeta 4)

end CipherMessageHandler

/-! ## Key responses -/

namespace ResponseMessageHandler

/-- One turn of the loop over the queued messages. The counter moves after the message is sent, so
    one that could not be sent leaves its number to the next. -/
def sendPendingMessage (username : Bytes) (msgToSend : OutgoingMessage) : ClientM Unit := do
  let c ← get
  let counter ← counterFor username
  let ciphertext ← encryptFor ssl c.myUsername username msgToSend.bytes counter
  sendMessage ciphertext 2 [username, c.myUsername] .cipherMessage
  advanceCounter username

/-- `while (pending_it) { …; pending_it = mq->find_pending(username); }`, for a number of turns. No
    queue holds more than 4095 messages, so 4096 turns are more than there can be. A message is out
    of the queue before it is encrypted: the first one that cannot be sent is lost, and the ones
    behind it stay. -/
def sendPending (username : Bytes) : Nat → ClientM Unit
  | 0 => pure ()
  | turns + 1 => do
    let c ← get
    let (pending, mq) := c.mq.findPending username
    set { c with mq := mq }
    match pending with
    | none => pure ()
    | some msgToSend =>
      sendPendingMessage ssl username msgToSend
      sendPending username turns

/-- `messages_counter.find(username)->second`: there may be no entry to dereference. -/
def counterEntry (username : Bytes) : ClientM UInt64 := do
  let c ← get
  match c.messagesCounter username with
  | some n => return n
  | none => throw .outOfBounds

/-- The messages that were waiting for the key, decrypted and printed. They are decrypted as if they
    were the client's own, and nothing in the program ever puts a message into this table. -/
def printPendingReceived (username : Bytes) : ClientM Unit := do
  let c ← get
  let pendingReceived := (c.pendingMessages username).getD []
  set { c with pendingMessages := c.pendingMessages.erase username }
  pendingReceived.forM fun pendingCiphertext => do
    let counter ← counterEntry username
    let _plaintext ← decryptFor ssl c.myUsername c.myUsername pendingCiphertext
      (c.encryption.sign ssl) counter
    return ()

/-- A key has come. It is cached under the name that the response gives, and whatever was queued for
    that name goes out at once, encrypted with it. Nobody has verified the key by then. -/
def handleGetPubkeyResponse (msg : Message) : ClientM Unit := do
  let username := msg.getMeta 1
  cachePublicKey ssl username msg.getPayload (msg.getMeta 2)
  sendPending ssl username 4096
  printPendingReceived ssl username

/-- Only responses with a key are acted on. For an id, a line is printed. -/
def handleIncoming (msg : Message) : ClientM Unit :=
  match msg.getMeta 0 with
  | [] => pure ()
  | code :: _ =>
    match CommandType.ofByte code with
    | .getPubkey => handleGetPubkeyResponse ssl msg
    | _ => pure ()

end ResponseMessageHandler

/-! ## Files -/

/-- What `c_str()` is to the system: the bytes before the first zero. -/
def cString (s : Bytes) : Bytes := s.takeWhile (· ≠ 0)

/-- The file that a stream over `path` opens. -/
def ClientContext.fileAt (c : ClientContext) (path : Bytes) : Bytes := c.resolves (cString path)

/-- What a `std::ifstream` over `path` reads, if it can be opened. -/
def ClientContext.contentAt (c : ClientContext) (path : Bytes) : Option Bytes :=
  if c.readable (c.fileAt path) then c.disk (c.fileAt path) else none

/-- `recipient_username_str + " " + name`, the path and the key of a file. -/
def fileKey (msg : Message) : Bytes := msg.getMeta 0 ++ bytes " " ++ msg.getMeta 1

/-- The stream's bytes are written from the start of the file on. -/
def OutFile.close (file : OutFile) (disk : Table Bytes Bytes) : Table Bytes Bytes :=
  disk.insert file.file (file.written ++ ((disk file.file).getD []).drop file.written.length)

/-- `from_bytes(msg.get_meta(2))`, which reads eight bytes whatever there is. The stream is
    opened, and so the file emptied, before the one it replaces is closed. The one it replaces has
    the same key; another stream over the same file stays open. -/
def ClientFileStartHandler.handleIncoming (msg : Message) : ClientM Unit := do
  let _fileSize ← liftExcept (readU64 (msg.getMeta 2) 0)
  let c ← get
  let key := fileKey msg
  let file := c.fileAt key
  if !c.writable file then pure ()
  else
    let disk := c.disk.insert file []
    let disk := match c.pendingFiles key with
      | none => disk
      | some replaced => replaced.close disk
    set { c with disk := disk, pendingFiles := c.pendingFiles.insert key { file := file } }

/-- A chunk for a file that is not being received is ignored. The counter is looked up by the
    recipient, which for the one who receives the chunk is their own name, and it is not advanced.
    What is decrypted is appended to the stream. -/
def ClientFileChunkHandler.handleIncoming (msg : Message) : ClientM Unit := do
  let c ← get
  let key := fileKey msg
  match c.pendingFiles key with
  | none => pure ()
  | some file =>
    let counter ← counterFor (msg.getMeta 0)
    cachePublicKey ssl (msg.getMeta 2) (msg.getMeta 3) (msg.getMeta 4)
    let payload ← decryptFor ssl (msg.getMeta 2) (msg.getMeta 0) msg.getPayload (msg.getMeta 5)
      counter
    modify fun c => { c with
      pendingFiles := c.pendingFiles.insert key { file with written := file.written ++ payload } }

/-- The stream is closed, and with that its bytes are on disk. -/
def ClientFileEndHandler.handleIncoming (msg : Message) : ClientM Unit := do
  let c ← get
  let key := fileKey msg
  match c.pendingFiles key with
  | none => pure ()
  | some file => set { c with disk := file.close c.disk, pendingFiles := c.pendingFiles.erase key }

/-! ## Commands -/

/-- The goodbye goes out before the client disconnects. -/
def ExitCommand.executeOnClient : ClientM Unit := do
  sendMessage [] 1 [[CommandType.exit.toByte]] .command
  modify fun c => { c with connected := false }

/-- The client takes the name for its own before the server has answered, and keeps it if the server
    refuses it. -/
def LoginCommand.executeOnClient (username : Bytes) : ClientM Unit := do
  let c ← get
  set { c with myUsername := username }
  sendCommand { name := bytes "login", args := [username, c.encryption.getDHBytes ssl,
    c.encryption.getIdentityBytes ssl, c.encryption.sign ssl] }

def MakeRoomCommand.executeOnClient (chatName : Bytes) : ClientM Unit :=
  sendCommand { name := bytes "room", args := [chatName] }

def JoinCommand.executeOnClient (chatName : Bytes) : ClientM Unit :=
  sendCommand { name := bytes "join", args := [chatName] }

def SendGroupMessageCommand.executeOnClient (chatName payload : Bytes) : ClientM Unit :=
  sendMessage payload 2 [[CommandType.send.toByte], chatName] .command

/-- Ask the server for the key of a user. -/
def GetPubkeyCommand.executeOnClient (username : Bytes) : ClientM Unit :=
  sendMessage [] 2 [[CommandType.getPubkey.toByte], username] .command

/-- The request for the key goes out before the text is queued. -/
def PrivateMessageCommand.executeOnClient (recipient payload : Bytes) : ClientM Unit :=
  if recipient.isEmpty || payload.isEmpty then pure ()
  else do
    GetPubkeyCommand.executeOnClient recipient
    modify fun c => { c with mq := c.mq.push recipient payload }

/-- One turn of the loop over the chunks of a file. The counter moves before the chunk is sent,
    unlike in `sendPendingMessage`. -/
def SendFileCommand.sendChunk (recipient filename chunk : Bytes) : ClientM Unit := do
  let counter ← counterFor recipient
  let c ← get
  let cipherBytes ← encryptFor ssl c.myUsername recipient chunk counter
  advanceCounter recipient
  sendMessage cipherBytes 6 [recipient, filename, c.myUsername, c.encryption.getDHBytes ssl,
    c.encryption.getIdentityBytes ssl, c.encryption.sign ssl] .fileChunk

/-- A file goes out as a start, its chunks of 16 KiB and an end, without waiting for an answer. The
    first chunk already needs the key of the recipient, and if there is none, the start has been
    sent and the rest is not. -/
def SendFileCommand.executeOnClient (recipient filename : Bytes) : ClientM Unit := do
  let c ← get
  match c.contentAt filename with
  | none => pure ()
  | some content =>
    set { c with opened := c.opened ++ [c.fileAt filename] }
    let fileSize := UInt64.ofNat content.length
    sendMessage [] 6 [recipient, filename, writeU64 [] fileSize, c.encryption.getDHBytes ssl,
      c.encryption.getIdentityBytes ssl, c.encryption.sign ssl] .fileStart
    (content.toChunks (16 * 1024)).forM (sendChunk ssl recipient filename)
    sendMessage [] 2 [recipient, filename] .fileEnd

/-- The handlers that `ClientCommandHandler` registers. -/
inductive ClientCommand
  | exit
  | login
  | room
  | send
  | join
  | getpub
  | pmess
  | help
  | sendfile
  deriving DecidableEq, Repr

/-- `ClientCommandRegistry::find`. -/
def ClientCommandRegistry.find (name : Bytes) : Option ClientCommand :=
  [(bytes "exit", ClientCommand.exit), (bytes "login", .login), (bytes "room", .room),
    (bytes "send", .send), (bytes "join", .join), (bytes "getpub", .getpub),
    (bytes "pmess", .pmess), (bytes "help", .help), (bytes "sendfile", .sendfile)].lookup name

/-- `handler->fromMessage(msg); handler->executeOnClient(context);`. The arguments are taken from
    the metadata, and the text from the payload, which is the last argument. -/
def ClientCommand.execute (cmd : ClientCommand) (msg : Message) : ClientM Unit :=
  match cmd with
  | .exit => ExitCommand.executeOnClient
  | .login => LoginCommand.executeOnClient ssl (msg.getMeta 1)
  | .room => MakeRoomCommand.executeOnClient (msg.getMeta 1)
  | .send => SendGroupMessageCommand.executeOnClient (msg.getMeta 1) msg.getPayload
  | .join => JoinCommand.executeOnClient (msg.getMeta 1)
  | .getpub => GetPubkeyCommand.executeOnClient (msg.getMeta 1)
  | .pmess => PrivateMessageCommand.executeOnClient (msg.getMeta 1) msg.getPayload
  | .help => pure ()
  | .sendfile => SendFileCommand.executeOnClient ssl (msg.getMeta 1) (msg.getMeta 2)

/-- A command that has no handler is ignored. -/
def ClientCommandBus.dispatch (msg : Message) : ClientM Unit :=
  match ClientCommandRegistry.find (Parser.makeStructFromCommand msg).name with
  | none => pure ()
  | some cmd => cmd.execute ssl msg

/-! ## The dispatcher -/

/-- `handleOutgoing` of the handlers that `MessagingClient` registers: the dispatcher calls no other
    method, whether a message was typed or received. So the server can have a client run any command
    that its user could type. -/
def ClientMessageDispatcher.handler : MessageType → Option (Message → ClientM Unit)
  | .text => some ClientTextHandler.handleIncoming
  | .command => some (ClientCommandBus.dispatch ssl)
  | .response => some (ResponseMessageHandler.handleIncoming ssl)
  | .cipherMessage => some (CipherMessageHandler.handleIncoming ssl)
  | .fileStart => some ClientFileStartHandler.handleIncoming
  | .fileChunk => some (ClientFileChunkHandler.handleIncoming ssl)
  | .fileEnd => some ClientFileEndHandler.handleIncoming
  | _ => none

/-- What a handler throws ends here. The value says whether there was a handler and it returned. -/
def ClientMessageDispatcher.dispatch (msg : Message) : ClientM Bool :=
  match ClientMessageDispatcher.handler ssl msg.getType with
  | none => return false
  | some handleOutgoing => catchWith false do
    handleOutgoing msg
    return true

/-- The decoder runs outside any `try`, so malformed bytes from the server end the thread, and with
    it the process. -/
def MessagingClient.onTcpDataReceived (rawData : Bytes) : ClientM Unit := do
  let msg ← liftExcept (Serializer.deserialize rawData)
  let _handled ← ClientMessageDispatcher.dispatch ssl msg
  return ()

/-- A line from the user. A line that the parser throws at is not caught here. -/
def MessagingClient.getData (data : Bytes) : ClientM Unit := do
  let c ← get
  let msg ← liftExcept (Parser.parse c.now data)
  let _handled ← ClientMessageDispatcher.dispatch ssl msg
  return ()

/-! ## Events -/

/-- What happens to a client, each at its own time. -/
inductive ClientEvent
  -- Bytes from the server.
  | received (now : UInt64) (rawData : Bytes)
  -- A line from the user.
  | typed (now : UInt64) (line : Bytes)
  -- Something else has written a file.
  | written (path content : Bytes)
  deriving DecidableEq, Repr

/-- The context after an event, also when the handling of it has thrown. For an event that ends the
    process this is the state it dies in. -/
def ClientContext.step (c : ClientContext) : ClientEvent → ClientContext
  | .received now rawData =>
    finalState (MessagingClient.onTcpDataReceived ssl rawData) { c with now := now }
  | .typed now line => finalState (MessagingClient.getData ssl line) { c with now := now }
  | .written path content => { c with disk := c.disk.insert (c.fileAt path) content }

def ClientContext.run (c : ClientContext) (events : List ClientEvent) : ClientContext :=
  events.foldl (ClientContext.step ssl) c

end

end Messenger
