import Messenger.Model.Client
import Messenger.Proof.Wire.Command

/-!
# How a client handles a message

The dispatcher catches exceptions and undoes nothing, so the context afterwards is the one
that the handler leaves; a line or bytes that do not become a message change nothing. A
command is recognised by one byte, as on the server (`CommandType.onClient`).

The rest are the pieces that all handlers are made of: what is sent, and the counters.

A handler is a sequence of calls that may throw, and what is proved elsewhere about clients is
proved handler by handler. So each piece has two kinds of lemmas here. One says what it comes to
when it returns, for those who follow a handler to its end (`sendMessage_run`, `counterFor_run`,
`fileChunk_opened`). The other says what it leaves alone however it ends: it is about `finalState`,
or it is an instance of `Keeps` for any projection that the piece does not write. With the second
kind most handlers need no case split at all in the proofs about counters and keys.

One piece is stranger than it looks: `messages_counter[peer]` inserts a zero where there is no
counter. The table changes and the value that is read from it does not, so results are stated with
`ClientContext.counters`, which is the value.
-/

set_option autoImplicit false

namespace Messenger

open Messenger.Lib

variable {ssl : OpenSSL} {c c' : ClientContext}

/-! ## From an event to a handler -/

/-- What the dispatcher leaves is what the handler leaves, whether it returns or throws. -/
theorem clientDispatch_of_handler {msg : Message} {handle : Message → ClientM Unit}
    (h : ClientMessageDispatcher.handler ssl msg.getType = some handle) (c : ClientContext) :
    finalState (ClientMessageDispatcher.dispatch ssl msg) c = finalState (handle msg) c := by
  unfold ClientMessageDispatcher.dispatch
  rw [h]
  exact (finalState_catchWith ..).trans (finalState_bind_pure ..)

theorem clientDispatch_unhandled {msg : Message}
    (h : ClientMessageDispatcher.handler ssl msg.getType = none) (c : ClientContext) :
    finalState (ClientMessageDispatcher.dispatch ssl msg) c = c := by
  unfold ClientMessageDispatcher.dispatch
  rw [h]
  rfl

theorem received_ok {raw : Bytes} {msg : Message} (h : Serializer.deserialize raw = .ok msg)
    (c : ClientContext) :
    finalState (MessagingClient.onTcpDataReceived ssl raw) c
      = finalState (ClientMessageDispatcher.dispatch ssl msg) c := by
  unfold MessagingClient.onTcpDataReceived
  rw [h]
  exact finalState_bind_pure ..

theorem received_error {raw : Bytes} {x : Failure} (h : Serializer.deserialize raw = .error x)
    (c : ClientContext) : finalState (MessagingClient.onTcpDataReceived ssl raw) c = c := by
  unfold MessagingClient.onTcpDataReceived
  rw [h]
  rfl

theorem getData_ok {line : Bytes} {msg : Message} (h : Parser.parse c.now line = .ok msg) :
    finalState (MessagingClient.getData ssl line) c
      = finalState (ClientMessageDispatcher.dispatch ssl msg) c := by
  have hrun : MessagingClient.getData ssl line c
      = (ClientMessageDispatcher.dispatch ssl msg >>= fun _ => pure ()) c := by
    unfold MessagingClient.getData
    rw [get_bind_run, h]
    rfl
  unfold finalState
  rw [hrun]
  exact finalState_bind_pure ..

theorem getData_error {line : Bytes} {x : Failure} (h : Parser.parse c.now line = .error x) :
    finalState (MessagingClient.getData ssl line) c = c := by
  have hrun : MessagingClient.getData ssl line c = .error x c := by
    unfold MessagingClient.getData
    rw [get_bind_run, h]
    rfl
  exact finalState_error hrun

theorem onTcpDataReceived_of_handler {raw : Bytes} {m : Message} {handle : Message → ClientM Unit}
    (hm : Serializer.deserialize raw = .ok m)
    (hhandler : ClientMessageDispatcher.handler ssl m.getType = some handle)
    (hrun : handle m c = .ok () c') : MessagingClient.onTcpDataReceived ssl raw c = .ok () c' := by
  have hdispatch : ClientMessageDispatcher.dispatch ssl m c = .ok true c' := by
    unfold ClientMessageDispatcher.dispatch
    rw [hhandler]
    show catchWith false (handle m >>= fun _ => Pure.pure true) c = _
    apply catchWith_ok
    exact bind_ok hrun
  unfold MessagingClient.onTcpDataReceived
  rw [hm]
  exact bind_ok hdispatch

/-- A handler that does not return ends the handling, unless the dispatcher catches what it throws.
    Either way the context is the one in which it stopped. -/
theorem onTcpDataReceived_of_error {raw : Bytes} {m : Message} {handle : Message → ClientM Unit}
    {e : Failure} (hm : Serializer.deserialize raw = .ok m)
    (hhandler : ClientMessageDispatcher.handler ssl m.getType = some handle)
    (hrun : handle m c = .error e c') :
    (e.IsThrown → MessagingClient.onTcpDataReceived ssl raw c = .ok () c') ∧
      (¬e.IsThrown → MessagingClient.onTcpDataReceived ssl raw c = .error e c') := by
  have hdispatch : ClientMessageDispatcher.dispatch ssl m c
      = catchWith false (handle m >>= fun _ => pure true) c := by
    unfold ClientMessageDispatcher.dispatch
    rw [hhandler]
  have hbody : (handle m >>= fun _ => pure true) c = .error e c' := bind_error hrun
  have hreceived : MessagingClient.onTcpDataReceived ssl raw c
      = (ClientMessageDispatcher.dispatch ssl m >>= fun _ => pure ()) c := by
    unfold MessagingClient.onTcpDataReceived
    rw [hm]
    rfl
  rw [hreceived]
  constructor
  · intro he
    obtain ⟨x, rfl⟩ := he.exn
    exact bind_ok (hdispatch.trans (catchWith_thrown hbody false))
  · intro he
    refine bind_error (hdispatch.trans ?_)
    unfold catchWith
    rw [hbody]
    cases e with
    | thrown x => exact absurd trivial he
    | outOfBounds => rfl
    | killed => rfl

/-- The message that an event is, with its time. Bytes or a line may be none. -/
def ClientEvent.message : ClientEvent → Option (UInt64 × Message)
  | .received now rawData => (Serializer.deserialize rawData).toOption.map fun msg => (now, msg)
  | .typed now line => (Parser.parse now line).toOption.map fun msg => (now, msg)
  | .written _ _ => none

theorem step_of_message {e : ClientEvent} {now : UInt64} {msg : Message}
    (h : e.message = some (now, msg)) (c : ClientContext) :
    c.step ssl e = finalState (ClientMessageDispatcher.dispatch ssl msg) { c with now := now } := by
  cases e with
  | received now' raw =>
    unfold ClientEvent.message at h
    cases hmsg : Serializer.deserialize raw with
    | error x => simp [hmsg, Except.toOption] at h
    | ok msg' =>
      simp [hmsg, Except.toOption] at h
      obtain ⟨rfl, rfl⟩ := h
      exact received_ok hmsg _
  | typed now' line =>
    unfold ClientEvent.message at h
    cases hmsg : Parser.parse now' line with
    | error x => simp [hmsg, Except.toOption] at h
    | ok msg' =>
      simp [hmsg, Except.toOption] at h
      obtain ⟨rfl, rfl⟩ := h
      exact getData_ok (c := { c with now := now' }) hmsg
  | written path content => cases h

theorem step_without_message {e : ClientEvent} (h : e.message = none) (c : ClientContext) :
    (∃ now, c.step ssl e = { c with now := now }) ∨
      ∃ disk, c.step ssl e = { c with disk := disk } := by
  cases e with
  | received now raw =>
    unfold ClientEvent.message at h
    cases hmsg : Serializer.deserialize raw with
    | ok msg => simp [hmsg, Except.toOption] at h
    | error x => exact .inl ⟨now, received_error hmsg _⟩
  | typed now line =>
    unfold ClientEvent.message at h
    cases hmsg : Parser.parse now line with
    | ok msg => simp [hmsg, Except.toOption] at h
    | error x => exact .inl ⟨now, getData_error (c := { c with now := now }) hmsg⟩
  | written path content => exact .inr ⟨_, rfl⟩

/-- What depends neither on the clock nor on the disk is not changed by such an event. -/
theorem step_of_no_message {τ : Type} {g : ClientContext → τ} {e : ClientEvent}
    (hnow : ∀ c now, g { c with now := now } = g c)
    (hdisk : ∀ c disk, g { c with disk := disk } = g c)
    (h : e.message = none) (c : ClientContext) : g (c.step ssl e) = g c := by
  rcases step_without_message h c with ⟨now, hstep⟩ | ⟨disk, hstep⟩
  · rw [hstep]
    exact hnow c now
  · rw [hstep]
    exact hdisk c disk

/-! ## Commands -/

/-- The handler that a code leads to. Codes without a name lead to none, `HELP` among them. -/
def CommandType.onClient : CommandType → Option ClientCommand
  | .exit => some .exit
  | .login => some .login
  | .makeRoom => some .room
  | .send => some .send
  | .join => some .join
  | .getPubkey => some .getpub
  | .privateMessage => some .pmess
  | .sendFile => some .sendfile
  | _ => none

/-- The command that the client makes of a message. -/
def Message.clientCommand (msg : Message) : Option ClientCommand :=
  (msg.getMeta 0).head?.bind fun code => (CommandType.ofByte code).onClient

/-- The way from a code to a handler goes through a name, as on the server. -/
theorem find_clientCommand (msg : Message) :
    ClientCommandRegistry.find (Parser.makeStructFromCommand msg).name = msg.clientCommand := by
  unfold Parser.makeStructFromCommand Message.clientCommand
  cases msg.getMeta 0 with
  | nil => rfl
  | cons code rest =>
    rw [List.head?_cons, Option.bind_some]
    dsimp only
    cases CommandType.ofByte code <;> rfl

theorem clientBusDispatch_of_command {msg : Message} {cmd : ClientCommand}
    (h : msg.clientCommand = some cmd) :
    ClientCommandBus.dispatch ssl msg = cmd.execute ssl msg := by
  unfold ClientCommandBus.dispatch
  rw [find_clientCommand, h]

theorem clientBusDispatch_of_none {msg : Message} (h : msg.clientCommand = none) :
    ClientCommandBus.dispatch ssl msg = pure () := by
  unfold ClientCommandBus.dispatch
  rw [find_clientCommand, h]

/-! ## Sending -/

theorem sendToServer_run (h : c.connected = true) (raw : Bytes) :
    sendToServer raw c = .ok () { c with outgoing := c.outgoing ++ [raw] } := by
  unfold sendToServer
  rw [get_bind_run, if_pos h]
  rfl

/-- The write to a socket that has been shut down ends the client. -/
theorem sendToServer_killed (h : c.connected = false) (raw : Bytes) :
    sendToServer raw c = .error .killed c := by
  unfold sendToServer
  rw [get_bind_run, h]
  rfl

/-- The context after `send_to_server`. -/
def ClientContext.afterSend (c : ClientContext) (raw : Bytes) : ClientContext :=
  if c.connected then { c with outgoing := c.outgoing ++ [raw] } else c

theorem afterSend_connected (h : c.connected = true) (raw : Bytes) :
    c.afterSend raw = { c with outgoing := c.outgoing ++ [raw] } := by
  unfold ClientContext.afterSend
  rw [if_pos h]

theorem afterSend_disconnected (h : c.connected = false) (raw : Bytes) : c.afterSend raw = c := by
  unfold ClientContext.afterSend
  rw [h]
  rfl

theorem finalState_sendToServer (raw : Bytes) (c : ClientContext) :
    finalState (sendToServer raw) c = c.afterSend raw := by
  cases hconnected : c.connected with
  | true =>
    rw [afterSend_connected hconnected]
    exact finalState_ok (sendToServer_run hconnected raw)
  | false =>
    rw [afterSend_disconnected hconnected]
    exact finalState_error (sendToServer_killed hconnected raw)

theorem afterSend_outgoing (c : ClientContext) (raw : Bytes) :
    (c.afterSend raw).outgoing = if c.connected then c.outgoing ++ [raw] else c.outgoing := by
  unfold ClientContext.afterSend
  split <;> rfl

theorem constructMessage_ok (metalen : UInt8) (type : MessageType) {metadata : List Bytes}
    {payload : Bytes} (hcount : metadata.length < 256)
    (hsize : compactSize metadata payload < 2 ^ 32) :
    ∃ msg, constructMessage payload metalen metadata type c = .ok msg c ∧
      msg.content = .plain type metadata payload ∧ msg.Built := by
  obtain ⟨msg, hmsg, hcontent⟩ := new_ok c.now metalen type hcount hsize
  refine ⟨msg, ?_, hcontent, (new_built hmsg).1⟩
  unfold constructMessage
  rw [get_bind_run, hmsg]
  rfl

theorem sendMessage_eq (metalen : UInt8) (type : MessageType) {metadata : List Bytes}
    {payload : Bytes} (hcount : metadata.length < 256)
    (hsize : compactSize metadata payload < 2 ^ 32) (c : ClientContext) :
    ∃ msg : Message, sendMessage payload metalen metadata type c
        = sendToServer (Serializer.serialize msg) c ∧
      msg.content = .plain type metadata payload ∧ msg.Built := by
  obtain ⟨msg, hconstruct, hcontent, hbuilt⟩ :=
    constructMessage_ok (c := c) metalen type hcount hsize
  exact ⟨msg, bind_ok hconstruct, hcontent, hbuilt⟩

theorem connected_of_sendMessage {payload : Bytes} {metalen : UInt8} {metadata : List Bytes}
    {type : MessageType} {u : Unit} (h : sendMessage payload metalen metadata type c = .ok u c') :
    c.connected = true := by
  obtain ⟨msg, c₁, hconstruct, hsend⟩ := bind_eq_ok h
  have hsame : c₁ = c := by
    unfold constructMessage at hconstruct
    rw [get_bind_run] at hconstruct
    cases hnew : Message.new c.now payload metalen metadata type with
    | error x =>
      rw [hnew] at hconstruct
      cases hconstruct
    | ok m =>
      rw [hnew] at hconstruct
      cases hconstruct
      rfl
  rw [hsame] at hsend
  cases hconnected : c.connected with
  | true => rfl
  | false =>
    rw [sendToServer_killed hconnected] at hsend
    cases hsend

/-- What is too large is refused by the constructor of `Message`, with an exception, and nothing is
    sent. -/
theorem sendMessage_too_large (metalen : UInt8) (type : MessageType) {metadata : List Bytes}
    {payload : Bytes} (hsize : ¬compactSize metadata payload < 2 ^ 32) (c : ClientContext) :
    ∃ e, sendMessage payload metalen metadata type c = .error (.thrown e) c := by
  cases hnew : Message.new c.now payload metalen metadata type with
  | ok msg => exact absurd (new_size hnew) hsize
  | error x =>
    obtain ⟨e, rfl⟩ := (new_isThrown hnew).exn
    have hconstruct : constructMessage payload metalen metadata type c = .error (.thrown e) c := by
      unfold constructMessage
      rw [get_bind_run, hnew]
      rfl
    exact ⟨e, bind_error hconstruct⟩

theorem sendCommand_eq {cmd : ParsedCommand} (hcount : cmd.args.length < 255)
    (hsize : compactSize cmd.content.metadata cmd.content.payload < 2 ^ 32) (c : ClientContext) :
    ∃ msg : Message, sendCommand cmd c = sendToServer (Serializer.serialize msg) c ∧
      msg.content = cmd.content ∧ msg.Built := by
  obtain ⟨msg, hmsg, hbuilt, hcontent⟩ := makeCommandFromStruct_ok c.now hcount hsize
  refine ⟨msg, ?_, hcontent, hbuilt⟩
  unfold sendCommand
  rw [get_bind_run, hmsg]
  rfl

/-- What is sent over an open connection is what the other side will read. -/
theorem sendMessage_run (hconnected : c.connected = true) (metalen : UInt8) {type : MessageType}
    {metadata : List Bytes} {payload : Bytes}
    (h : (Content.plain type metadata payload).FitsCompact) :
    ∃ raw, sendMessage payload metalen metadata type c
        = .ok () { c with outgoing := c.outgoing ++ [raw] } ∧
      Carries raw (.plain type metadata payload) := by
  have hcount : metadata.length ≤ 127 := h.count_fits
  have hsize : compactSize metadata payload < 2 ^ 32 := h.size_fits
  obtain ⟨msg, hsend, hcontent, hbuilt⟩ :=
    sendMessage_eq metalen type (show metadata.length < 256 by omega) hsize c
  rw [← hcontent] at h ⊢
  exact ⟨Serializer.serialize msg, hsend.trans (sendToServer_run hconnected _),
    (hbuilt.fitsWire h).carries⟩

/-- The client sends before it closes the connection. One that is closed already stays so. -/
theorem exit_finalState (c : ClientContext) :
    ∃ msg : Message, finalState ExitCommand.executeOnClient c
        = { c.afterSend (Serializer.serialize msg) with connected := false } ∧
      msg.content = .plain .command [[CommandType.exit.toByte]] [] ∧ msg.Built := by
  obtain ⟨msg, hsend, hcontent, hbuilt⟩ := sendMessage_eq 1 .command
    (show [[CommandType.exit.toByte]].length < 256 by decide)
    (show compactSize [[CommandType.exit.toByte]] [] < 2 ^ 32 by decide) c
  refine ⟨msg, ?_, hcontent, hbuilt⟩
  unfold ExitCommand.executeOnClient
  cases hconnected : c.connected with
  | true =>
    rw [finalState_bind_ok (hsend.trans (sendToServer_run hconnected _)),
      afterSend_connected hconnected]
    rfl
  | false =>
    rw [finalState_bind_error (hsend.trans (sendToServer_killed hconnected _)),
      afterSend_disconnected hconnected, ← hconnected]

/-- The client takes the name, and then asks for it. The signature is sent twice, as an entry and as
    the payload. -/
theorem login_eq (hssl : ssl.Correct) {username : Bytes} (hfits : username.length ≤ 65535)
    (c : ClientContext) :
    ∃ msg : Message, LoginCommand.executeOnClient ssl username c
        = sendToServer (Serializer.serialize msg) { c with myUsername := username } ∧
      msg.content = .plain .command [[CommandType.login.toByte], username,
        c.encryption.getDHBytes ssl, c.encryption.getIdentityBytes ssl, c.encryption.sign ssl]
        (c.encryption.sign ssl) ∧ msg.Built := by
  let cmd : ParsedCommand := {
    name := bytes "login"
    args := [username, c.encryption.getDHBytes ssl, c.encryption.getIdentityBytes ssl,
      c.encryption.sign ssl] }
  have hsize : compactSize cmd.content.metadata cmd.content.payload < 2 ^ 32 := by
    simp [cmd, ParsedCommand.content, Content.plain, compactSize, EncryptionService.getDHBytes,
      EncryptionService.getIdentityBytes, EncryptionService.sign, hssl.dh_length, hssl.ed_length,
      hssl.signature_length]
    omega
  obtain ⟨msg, hsend, hcontent, hbuilt⟩ := sendCommand_eq (show cmd.args.length < 255 by simp [cmd])
    hsize { c with myUsername := username }
  exact ⟨msg, hsend, hcontent, hbuilt⟩

/-! ## Counters -/

/-- The value that `messages_counter[peer]` has, or starts from. -/
def ClientContext.counters (c : ClientContext) (peer : Bytes) : UInt64 :=
  (c.messagesCounter peer).getD 0

/-- A missing counter becomes zero, one that is there stays. `operator[]` inserts, which the table
    shows and the value does not. -/
theorem counterFor_run (peer : Bytes) (c : ClientContext) :
    counterFor peer c = .ok ((c.messagesCounter peer).getD 0) { c with
      messagesCounter := c.messagesCounter.insert peer ((c.messagesCounter peer).getD 0) } := by
  unfold counterFor
  rw [get_bind_run]
  cases hn : c.messagesCounter peer with
  | none => rfl
  | some n =>
    rw [Option.getD_some, Table.insert_eq_self hn]
    rfl

theorem counters_insert (c : ClientContext) (peer : Bytes) (n : UInt64) :
    ClientContext.counters { c with messagesCounter := c.messagesCounter.insert peer n }
      = Function.update c.counters peer n := by
  funext other
  by_cases hother : other = peer
  · subst hother
    simp [ClientContext.counters]
  · simp [ClientContext.counters, hother, Table.insert_of_ne hother]

/-- The default that is inserted is the value that a missing counter had already. -/
theorem counterFor_keeps (peer : Bytes) : Keeps ClientContext.counters (counterFor peer) := by
  intro c
  apply Respects.of_ok (counterFor_run peer c)
  rw [counters_insert]
  exact Function.update_eq_self peer c.counters

theorem counterFor_ok (peer : Bytes) (c : ClientContext) :
    ∃ table, counterFor peer c = .ok (c.counters peer) { c with messagesCounter := table } ∧
      ClientContext.counters { c with messagesCounter := table } = c.counters := by
  refine ⟨_, counterFor_run peer c, ?_⟩
  rw [← finalState_ok (counterFor_run peer c)]
  exact (counterFor_keeps peer).finalState c

/-- The increment happens on the counter as it is by then. -/
theorem advanceCounter_run {peer : Bytes} {n : UInt64} (hn : (c.messagesCounter peer).getD 0 = n) :
    advanceCounter peer c = .ok () { c with
      messagesCounter := c.messagesCounter.insert peer (n + 1) } := by
  subst hn
  rfl

/-! ## Queued messages -/

theorem sendPending_none {username : Bytes} {mq : MessageQueue}
    (h : c.mq.findPending username = (none, mq)) (turns : Nat) :
    ResponseMessageHandler.sendPending ssl username (turns + 1) c = .ok () { c with mq := mq } := by
  unfold ResponseMessageHandler.sendPending
  rw [get_bind_run, h]
  rfl

theorem sendPending_some {username : Bytes} {mq : MessageQueue} {msgToSend : OutgoingMessage}
    (h : c.mq.findPending username = (some msgToSend, mq)) (turns : Nat) :
    ResponseMessageHandler.sendPending ssl username (turns + 1) c
      = (ResponseMessageHandler.sendPendingMessage ssl username msgToSend >>= fun _ =>
          ResponseMessageHandler.sendPending ssl username turns) { c with mq := mq } := by
  rw [ResponseMessageHandler.sendPending, get_bind_run, h]
  rfl

theorem printPendingReceived_nothing {username : Bytes} (h : c.pendingMessages username = none) :
    ResponseMessageHandler.printPendingReceived ssl username c
      = .ok () { c with pendingMessages := c.pendingMessages.erase username } := by
  unfold ResponseMessageHandler.printPendingReceived
  rw [get_bind_run, h]
  rfl

/-! ## Files -/

/-- What `SendFileCommand` does with a file that it could open: the three kinds of messages. -/
def SendFileCommand.sendContent (ssl : OpenSSL) (encryption : EncryptionService)
    (recipient filename content : Bytes) : ClientM Unit := do
  sendMessage [] 6 [recipient, filename, writeU64 [] (UInt64.ofNat content.length),
    encryption.getDHBytes ssl, encryption.getIdentityBytes ssl, encryption.sign ssl] .fileStart
  (content.toChunks (16 * 1024)).forM (SendFileCommand.sendChunk ssl recipient filename)
  sendMessage [] 2 [recipient, filename] .fileEnd

theorem sendFile_of_some {recipient filename content : Bytes}
    (h : c.contentAt filename = some content) :
    SendFileCommand.executeOnClient ssl recipient filename c
      = SendFileCommand.sendContent ssl c.encryption recipient filename content
          { c with opened := c.opened ++ [c.fileAt filename] } := by
  unfold SendFileCommand.executeOnClient
  rw [get_bind_run, h]
  rfl

theorem sendFile_of_none {recipient filename : Bytes} (h : c.contentAt filename = none) :
    SendFileCommand.executeOnClient ssl recipient filename c = .ok () c := by
  unfold SendFileCommand.executeOnClient
  rw [get_bind_run, h]
  rfl

/-- What the payload of a chunk opens to at a counter, with the keys that it brings. -/
def EncryptionService.openChunk (ssl : OpenSSL) (e : EncryptionService) (msg : Message)
    (counter : UInt64) : Except Failure Bytes := do
  let (result, e) := e.cachePublicKey ssl (msg.getMeta 2) (msg.getMeta 3) (msg.getMeta 4)
  result
  e.decryptFor ssl (msg.getMeta 2) (msg.getMeta 0) msg.getPayload (msg.getMeta 5) counter

/-- The context in which a chunk is opened: its recipient has a counter, and its keys have been
    taken in. -/
def ClientContext.withKeysOf (ssl : OpenSSL) (c : ClientContext) (msg : Message) : ClientContext :=
  { c with
    messagesCounter := c.messagesCounter.insert (msg.getMeta 0) (c.counters (msg.getMeta 0))
    encryption :=
      (c.encryption.cachePublicKey ssl (msg.getMeta 2) (msg.getMeta 3) (msg.getMeta 4)).2 }

/-- Only the default of a counter that was missing has been filled in. -/
theorem withKeysOf_counters (ssl : OpenSSL) (c : ClientContext) (msg : Message) :
    (c.withKeysOf ssl msg).counters = c.counters := by
  have hcounters := (counterFor_keeps (msg.getMeta 0)).finalState c
  rw [finalState_ok (counterFor_run (msg.getMeta 0) c)] at hcounters
  exact hcounters

/-- The handler takes in the keys and then decrypts, which is opening the chunk. The keys are kept
    also if it does not open. -/
theorem fileChunk_of_pending {msg : Message} {file : OutFile}
    (hfile : c.pendingFiles (fileKey msg) = some file) :
    ClientFileChunkHandler.handleIncoming ssl msg c
      = (liftExcept (c.encryption.openChunk ssl msg (c.counters (msg.getMeta 0))) >>= fun payload =>
          modify fun c => { c with
            pendingFiles :=
              c.pendingFiles.insert (fileKey msg)
                { file with written := file.written ++ payload } })
          (c.withKeysOf ssl msg) := by
  have hcounter := counterFor_run (msg.getMeta 0) c
  unfold ClientFileChunkHandler.handleIncoming EncryptionService.openChunk ClientContext.withKeysOf
  rw [get_bind_run, hfile]
  dsimp only
  rw [bind_ok hcounter]
  cases hcache : c.encryption.cachePublicKey ssl (msg.getMeta 2) (msg.getMeta 3)
    (msg.getMeta 4) with
  | mk result e =>
    have hcached : cachePublicKey ssl (msg.getMeta 2) (msg.getMeta 3) (msg.getMeta 4)
        { c with messagesCounter :=
          c.messagesCounter.insert (msg.getMeta 0) ((c.messagesCounter (msg.getMeta 0)).getD 0) }
        = liftExcept result { c with
          messagesCounter :=
            c.messagesCounter.insert (msg.getMeta 0) ((c.messagesCounter (msg.getMeta 0)).getD 0)
          encryption := e } := by
      unfold cachePublicKey
      rw [get_bind_run, hcache]
      rfl
    cases result with
    | error x => exact bind_error hcached
    | ok u =>
      rw [bind_ok hcached]
      rfl

/-- A chunk that opens is appended to its file. -/
theorem fileChunk_opened {msg : Message} {file : OutFile} {payload : Bytes}
    (hfile : c.pendingFiles (fileKey msg) = some file)
    (h : c.encryption.openChunk ssl msg (c.counters (msg.getMeta 0)) = .ok payload) :
    ClientFileChunkHandler.handleIncoming ssl msg c = .ok () { c.withKeysOf ssl msg with
      pendingFiles :=
        c.pendingFiles.insert (fileKey msg) { file with written := file.written ++ payload } } := by
  rw [fileChunk_of_pending hfile, h]
  rfl

/-- One that does not is thrown out, after its keys have been taken in. -/
theorem fileChunk_refused {msg : Message} {file : OutFile} {x : Failure}
    (hfile : c.pendingFiles (fileKey msg) = some file)
    (h : c.encryption.openChunk ssl msg (c.counters (msg.getMeta 0)) = .error x) :
    ClientFileChunkHandler.handleIncoming ssl msg c = .error x (c.withKeysOf ssl msg) := by
  rw [fileChunk_of_pending hfile, h]
  rfl

/-- A chunk of a file that nobody has started is dropped without a word, and its keys are not taken
    in. -/
theorem fileChunk_absent {msg : Message} (hfile : c.pendingFiles (fileKey msg) = none) :
    ClientFileChunkHandler.handleIncoming ssl msg c = .ok () c := by
  unfold ClientFileChunkHandler.handleIncoming
  rw [get_bind_run, hfile]
  rfl

/-! ## What the pieces leave alone

Each piece writes one field, so whatever does not depend on that field is kept. -/

section Keeps

variable {τ : Type} {g : ClientContext → τ}

theorem Lib.Keeps.constructMessage (payload : Bytes) (metalen : UInt8) (metadata : List Bytes)
    (type : MessageType) : Keeps g (Messenger.constructMessage payload metalen metadata type) :=
  .get_bind fun _ => .liftExcept _

theorem Lib.Keeps.sendToServer (hg : ∀ c outgoing, g { c with outgoing := outgoing } = g c)
    (data : Bytes) : Keeps g (Messenger.sendToServer data) := by
  refine fun c => .get_bind ?_
  split
  · exact .of_ok rfl (hg c _)
  · exact .throw rfl trivial

theorem Lib.Keeps.sendMessage (hg : ∀ c outgoing, g { c with outgoing := outgoing } = g c)
    (payload : Bytes) (metalen : UInt8) (metadata : List Bytes) (type : MessageType) :
    Keeps g (Messenger.sendMessage payload metalen metadata type) :=
  .bind (.constructMessage _ _ _ _) fun _ => .sendToServer hg _

theorem Lib.Keeps.sendCommand (hg : ∀ c outgoing, g { c with outgoing := outgoing } = g c)
    (cmd : ParsedCommand) : Keeps g (Messenger.sendCommand cmd) :=
  .get_bind fun _ => .bind (.liftExcept _) fun _ => .sendToServer hg _

theorem Lib.Keeps.uiCallback (hg : ∀ c ui, g { c with ui := ui } = g c) (text : Bytes) :
    Keeps g (Messenger.uiCallback text) :=
  .modify fun c => hg c _

theorem Lib.Keeps.cachePublicKey (hg : ∀ c encryption, g { c with encryption := encryption } = g c)
    (username pubkey identityKey : Bytes) :
    Keeps g (Messenger.cachePublicKey ssl username pubkey identityKey) :=
  .get_set_bind (fun c => hg c _) fun _ => .liftExcept _

theorem Lib.Keeps.encryptFor (hg : ∀ c encryption, g { c with encryption := encryption } = g c)
    (sender username plaintext : Bytes) (counter : UInt64) :
    Keeps g (Messenger.encryptFor ssl sender username plaintext counter) :=
  .get_set_bind (fun c => hg c _) fun _ => .liftExcept _

theorem Lib.Keeps.decryptFor (sender username ciphertext signature : Bytes) (counter : UInt64) :
    Keeps g (Messenger.decryptFor ssl sender username ciphertext signature counter) :=
  .get_bind fun _ => .liftExcept _

theorem Lib.Keeps.counterFor (hg : ∀ c table, g { c with messagesCounter := table } = g c)
    (peer : Bytes) : Keeps g (Messenger.counterFor peer) :=
  fun c => .of_ok (counterFor_run peer c) (hg c _)

/-! The handlers that encrypt nothing and take in no keys. -/

theorem Lib.Keeps.printPendingReceived
    (hg : ∀ c pending, g { c with pendingMessages := pending } = g c) (username : Bytes) :
    Keeps g (ResponseMessageHandler.printPendingReceived ssl username) := by
  refine .get_set_bind (fun c => hg c _) ?_
  intro c
  refine .forM ?_ _
  intro ciphertext
  refine .bind (.get_bind fun c => ?_) fun counter => .bind (.decryptFor _ _ _ _ _) fun _ => .pure _
  split
  · exact .pure _
  · exact .throw _

/-- One case for each command that a client can execute; each is made of calls that keep the
    projection. -/
theorem Lib.Keeps.execute (houtgoing : ∀ c outgoing, g { c with outgoing := outgoing } = g c)
    (hname : ∀ c name, g { c with myUsername := name } = g c)
    (hmq : ∀ c mq, g { c with mq := mq } = g c)
    (hconnected : ∀ c connected, g { c with connected := connected } = g c)
    {cmd : ClientCommand} (hcmd : cmd ≠ .sendfile) (msg : Message) :
    Keeps g (cmd.execute ssl msg) := by
  cases cmd with
  | exit => exact .bind (.sendMessage houtgoing _ _ _ _) fun _ => .modify fun c => hconnected c _
  | login => exact .get_set_bind (fun c => hname c _) fun _ => .sendCommand houtgoing _
  | room => exact .sendCommand houtgoing _
  | send => exact .sendMessage houtgoing _ _ _ _
  | join => exact .sendCommand houtgoing _
  | getpub => exact .sendMessage houtgoing _ _ _ _
  | pmess =>
    unfold ClientCommand.execute PrivateMessageCommand.executeOnClient
    dsimp only
    split
    · exact .pure _
    · exact .bind (.sendMessage houtgoing _ _ _ _) fun _ => .modify fun c => hmq c _
  | help => exact .pure _
  | sendfile => exact absurd rfl hcmd

theorem Lib.Keeps.fileStart
    (hg : ∀ c disk files, g { c with disk := disk, pendingFiles := files } = g c) (msg : Message) :
    Keeps g (ClientFileStartHandler.handleIncoming msg) := by
  refine .bind (.liftExcept _) fun _ c => .get_bind ?_
  dsimp only
  split
  · exact .pure _ rfl
  · exact .of_ok rfl (hg c _ _)

theorem Lib.Keeps.fileEnd
    (hg : ∀ c disk files, g { c with disk := disk, pendingFiles := files } = g c) (msg : Message) :
    Keeps g (ClientFileEndHandler.handleIncoming msg) := by
  intro c
  refine .get_bind ?_
  dsimp only
  split
  · exact .pure _ rfl
  · exact .of_ok rfl (hg c _ _)

end Keeps

end Messenger
