import Messenger.Proof.Client.Crypto
import Messenger.Proof.Client.Handling

/-!
# Commands that come from the network

`ClientMessageDispatcher::dispatch` has one method for what the user types and for what the
server sends, and it calls `handleOutgoing`. So a message of type `Command` from the server
is run as if it had been typed. `ClientCommand.Idle` says for each command when that has no
effect.

Nearly all commands send. On a connection that is open this shows in `outgoing`. On one that has
been closed it ends the client: the client does not come out of the handling unharmed, although
its context is as it was (`Sends.not_unharmed`).
-/

set_option autoImplicit false

namespace Messenger

open Messenger.Lib

/-- Everything of the user's that a command could change, read or give away. The screen and the
    clock are not part of it. -/
structure ClientContext.Untouched (c c' : ClientContext) : Prop where
  username : c'.myUsername = c.myUsername
  queues : c'.mq = c.mq
  pendingMessages : c'.pendingMessages = c.pendingMessages
  counters : c'.messagesCounter = c.messagesCounter
  dhKeys : c'.encryption.dhKeys = c.encryption.dhKeys
  identityKeys : c'.encryption.identityKeys = c.encryption.identityKeys
  connected : c'.connected = c.connected
  opened : c'.opened = c.opened
  outgoing : c'.outgoing = c.outgoing

/-- Running the command on `msg` has no effect. A text to a room may be too large for a message,
    and a file may be one that cannot be opened under the name given. -/
def ClientCommand.Idle (cmd : ClientCommand) (c : ClientContext) (msg : Message) : Prop :=
  match cmd with
  | .exit | .login | .room | .join | .getpub => False
  | .send => ¬compactSize [[CommandType.send.toByte], msg.getMeta 1] msg.getPayload < 2 ^ 32
  | .pmess => msg.getMeta 1 = [] ∨ msg.getPayload = []
  | .help => True
  | .sendfile => c.contentAt (msg.getMeta 2) = none

variable {ssl : OpenSSL} {c : ClientContext} {msg : Message}

theorem ClientContext.Untouched.refl (c : ClientContext) : c.Untouched c :=
  ⟨rfl, rfl, rfl, rfl, rfl, rfl, rfl, rfl, rfl⟩

/-- `x` comes to an end, with an exception or without, and has had no effect. A client that is
    killed does not come to an end. -/
def ClientContext.Unharmed (c : ClientContext) (x : ClientM Unit) : Prop :=
  ∃ c', c.Untouched c' ∧ (x c = .ok () c' ∨ ∃ e, x c = .error (.thrown e) c')

theorem ClientContext.Unharmed.of_ok {x : ClientM Unit} (h : x c = .ok () c) : c.Unharmed x :=
  ⟨c, .refl c, .inl h⟩

/-- The effects are those on the context that is left, however it was left. -/
theorem ClientContext.Unharmed.finalState {x : ClientM Unit} (h : c.Unharmed x) :
    c.Untouched (finalState x c) := by
  obtain ⟨c', huntouched, hrun | ⟨e, hrun⟩⟩ := h
  · rw [finalState_ok hrun]
    exact huntouched
  · rw [finalState_error hrun]
    exact huntouched

/-! ## What sends -/

/-- `x` hands something to the transport, or dies of it. -/
structure ClientContext.Sends (c : ClientContext) (x : ClientM Unit) : Prop where
  sent : c.connected = true → (finalState x c).outgoing ≠ c.outgoing
  killed : c.connected = false → ∃ c', x c = .error .killed c'

namespace ClientContext.Sends

variable {x : ClientM Unit}

/-- **Sending is never harmless**, on an open connection because of what is sent, and on a closed
    one because the client is gone. -/
theorem not_unharmed (h : c.Sends x) : ¬c.Unharmed x := by
  intro hunharmed
  cases hconnected : c.connected with
  | true => exact h.sent hconnected hunharmed.finalState.outgoing
  | false =>
    obtain ⟨c₁, hkilled⟩ := h.killed hconnected
    obtain ⟨c', -, hrun | ⟨e, hrun⟩⟩ := hunharmed
    · cases hkilled.symm.trans hrun
    · cases hkilled.symm.trans hrun

theorem of_send {c₁ : ClientContext} {raw : Bytes} (hx : x c = sendToServer raw c₁)
    (hconnected : c₁.connected = c.connected) (houtgoing : c₁.outgoing = c.outgoing) :
    c.Sends x where
  sent h := by
    rw [finalState_congr hx, finalState_ok (sendToServer_run (hconnected.trans h) raw), ← houtgoing]
    simp
  killed h := ⟨c₁, hx.trans (sendToServer_killed (hconnected.trans h) raw)⟩

theorem bind {f : Unit → ClientM Unit} (h : c.Sends x)
    (hf : ∀ u, Keeps ClientContext.outgoing (f u)) : c.Sends (x >>= f) where
  sent hconnected := by
    have hsent := h.sent hconnected
    cases hrun : x c with
    | ok u c₁ =>
      rw [finalState_ok hrun] at hsent
      rw [finalState_bind_ok hrun, (hf u).finalState c₁]
      exact hsent
    | error e c₁ =>
      rw [finalState_error hrun] at hsent
      rw [finalState_bind_error hrun]
      exact hsent
  killed hconnected := by
    obtain ⟨c₁, hkilled⟩ := h.killed hconnected
    exact ⟨c₁, bind_error hkilled⟩

theorem sendMessage (metalen : UInt8) (type : MessageType) {metadata : List Bytes}
    {payload : Bytes} (hcount : metadata.length < 256)
    (hsize : compactSize metadata payload < 2 ^ 32) :
    c.Sends (Messenger.sendMessage payload metalen metadata type) := by
  obtain ⟨m, hsend, -, -⟩ := sendMessage_eq metalen type hcount hsize c
  exact .of_send hsend rfl rfl

theorem sendCommand {cmd : ParsedCommand} (hcount : cmd.args.length < 255)
    (hsize : compactSize cmd.content.metadata cmd.content.payload < 2 ^ 32) :
    c.Sends (Messenger.sendCommand cmd) := by
  obtain ⟨m, hsend, -, -⟩ := sendCommand_eq hcount hsize c
  exact .of_send hsend rfl rfl

end ClientContext.Sends

/-! ## One command at a time -/

/-- The name came over the wire, so it is short enough for the request. -/
theorem getpub_sends {username : Bytes} (hfits : username.length ≤ 65535) :
    c.Sends (GetPubkeyCommand.executeOnClient username) := by
  refine .sendMessage 2 .command (by simp) ?_
  simp [compactSize]
  omega

/-- The request comes first, and the connection is closed after it. -/
theorem exit_sends (c : ClientContext) : c.Sends ExitCommand.executeOnClient :=
  .bind (.sendMessage 1 .command (by decide) (by decide)) fun _ => .modify fun _ => rfl

theorem login_sends (hssl : ssl.Correct) {username : Bytes} (hfits : username.length ≤ 65535) :
    c.Sends (LoginCommand.executeOnClient ssl username) := by
  obtain ⟨m, hsend, -, -⟩ := login_eq hssl hfits c
  exact .of_send hsend rfl rfl

/-- A text to a room is sent, unless no message can carry it; then the exception is caught. -/
theorem send_unharmed_iff {chatName payload : Bytes} :
    c.Unharmed (SendGroupMessageCommand.executeOnClient chatName payload) ↔
      ¬compactSize [[CommandType.send.toByte], chatName] payload < 2 ^ 32 := by
  constructor
  · intro hunharmed hsize
    exact (ClientContext.Sends.sendMessage 2 .command (by simp) hsize).not_unharmed hunharmed
  · intro hsize
    obtain ⟨e, hrun⟩ := sendMessage_too_large 2 .command hsize c
    exact ⟨c, .refl c, .inr ⟨e, hrun⟩⟩

/-- A private message does nothing exactly if its recipient or its text is missing. Otherwise the
    keys of the recipient are asked for, whether they are known or not. -/
theorem pmess_unharmed_iff {recipient payload : Bytes} (hfits : recipient.length ≤ 65535) :
    c.Unharmed (PrivateMessageCommand.executeOnClient recipient payload) ↔
      recipient = [] ∨ payload = [] := by
  unfold PrivateMessageCommand.executeOnClient
  by_cases hempty : recipient = [] ∨ payload = []
  · rw [if_pos (by simpa using hempty)]
    exact ⟨fun _ => hempty, fun _ => .of_ok rfl⟩
  · rw [if_neg (by simpa using hempty)]
    have hsends := (getpub_sends (c := c) hfits).bind
      (f := fun _ => modify fun c => { c with mq := c.mq.push recipient payload })
      fun _ => .modify fun _ => rfl
    exact ⟨fun h => absurd h hsends.not_unharmed, fun h => absurd h hempty⟩

theorem sendChunk_keeps_opened (recipient filename chunk : Bytes) :
    Keeps ClientContext.opened (SendFileCommand.sendChunk ssl recipient filename chunk) := by
  refine .bind (fun c => ?_) fun counter => .get_bind fun c =>
    .bind (.encryptFor (fun _ _ => rfl) _ _ _ _) fun _ => .bind (.modify fun _ => rfl) fun _ =>
      .sendMessage (fun _ _ => rfl) _ _ _ _
  exact .of_ok (counterFor_run recipient c) rfl

/-- A file that can be opened is opened, whatever happens then. So it makes no difference whether
    the sending would have worked. -/
theorem sendfile_unharmed_iff {recipient filename : Bytes} :
    c.Unharmed (SendFileCommand.executeOnClient ssl recipient filename) ↔
      c.contentAt filename = none := by
  cases hfile : c.contentAt filename with
  | none => exact ⟨fun _ => rfl, fun _ => .of_ok (sendFile_of_none hfile)⟩
  | some content =>
    have hkeeps : Keeps ClientContext.opened
        (SendFileCommand.sendContent ssl c.encryption recipient filename content) :=
      .bind (.sendMessage (fun _ _ => rfl) _ _ _ _) fun _ =>
        .bind (.forM (sendChunk_keeps_opened recipient filename) _) fun _ =>
          .sendMessage (fun _ _ => rfl) _ _ _ _
    have hopened : (finalState (SendFileCommand.executeOnClient ssl recipient filename) c).opened
        = c.opened ++ [c.fileAt filename] := by
      unfold finalState
      rw [sendFile_of_some hfile]
      exact hkeeps.finalState _
    refine ⟨fun h => ?_, fun h => by cases h⟩
    rw [h.finalState.opened] at hopened
    simp at hopened

/-! ## Any command -/

/-- One command after the other. The name in the first entry came over the wire, and `hroom` is what
    that gives for the two commands about rooms. -/
theorem execute_unharmed_iff (hssl : ssl.Correct) (cmd : ClientCommand)
    (hfits : (msg.getMeta 1).length ≤ 65535) :
    c.Unharmed (cmd.execute ssl msg) ↔ cmd.Idle c msg := by
  have hroom {name : Bytes} :
      compactSize (ParsedCommand.content { name := name, args := [msg.getMeta 1] }).metadata
        (ParsedCommand.content { name := name, args := [msg.getMeta 1] }).payload < 2 ^ 32 := by
    simp [ParsedCommand.content, Content.plain, compactSize]
    omega
  cases cmd with
  | exit => exact iff_false_intro (exit_sends c).not_unharmed
  | login => exact iff_false_intro (login_sends hssl hfits).not_unharmed
  | room =>
    exact iff_false_intro (ClientContext.Sends.sendCommand (by simp) hroom).not_unharmed
  | send => exact send_unharmed_iff
  | join =>
    exact iff_false_intro (ClientContext.Sends.sendCommand (by simp) hroom).not_unharmed
  | getpub => exact iff_false_intro (getpub_sends hfits).not_unharmed
  | pmess => exact pmess_unharmed_iff hfits
  | help => exact ⟨fun _ => trivial, fun _ => .of_ok rfl⟩
  | sendfile => exact sendfile_unharmed_iff

/-- From the handler to the callback. What the handler throws is caught, so a handler that throws
    without having had an effect is harmless; what is not an exception gets through and ends the
    client. -/
theorem received_unharmed_iff {raw : Bytes} {handle : Message → ClientM Unit}
    (hmsg : Serializer.deserialize raw = .ok msg)
    (hhandler : ClientMessageDispatcher.handler ssl msg.getType = some handle) :
    (∃ c', MessagingClient.onTcpDataReceived ssl raw c = .ok () c' ∧ c.Untouched c') ↔
      c.Unharmed (handle msg) := by
  cases hrun : handle msg c with
  | ok u c₁ =>
    rw [onTcpDataReceived_of_handler hmsg hhandler hrun]
    unfold ClientContext.Unharmed
    rw [hrun]
    constructor
    · rintro ⟨c', hreturns, huntouched⟩
      exact ⟨c', huntouched, .inl hreturns⟩
    · rintro ⟨c', huntouched, hreturns | ⟨e, hfails⟩⟩
      · exact ⟨c', hreturns, huntouched⟩
      · cases hfails
  | error e c₁ =>
    obtain ⟨hcaught, hended⟩ := onTcpDataReceived_of_error hmsg hhandler hrun
    unfold ClientContext.Unharmed
    rw [hrun]
    -- the dispatcher catches exceptions and nothing else
    by_cases he : e.IsThrown
    · obtain ⟨x, rfl⟩ := he.exn
      rw [hcaught he]
      constructor
      · rintro ⟨c', hreturns, huntouched⟩
        cases hreturns
        exact ⟨c₁, huntouched, .inr ⟨x, rfl⟩⟩
      · rintro ⟨c', huntouched, hreturns | ⟨y, hfails⟩⟩
        · cases hreturns
        · cases hfails
          exact ⟨c₁, rfl, huntouched⟩
    · rw [hended he]
      constructor
      · rintro ⟨c', hreturns, -⟩
        cases hreturns
      · rintro ⟨c', -, hreturns | ⟨y, hfails⟩⟩
        · cases hreturns
        · cases hfails
          exact absurd trivial he

/-- **When a command from the server does the client no harm**: when it is none that the client
    knows, or when running it has no effect. To do no harm is also to come to an end. -/
theorem network_command_untouched_iff (hssl : ssl.Correct) (c : ClientContext) (raw : Bytes)
    (msg : Message) (hmsg : Serializer.deserialize raw = .ok msg) (htype : msg.getType = .command) :
    (∃ c', MessagingClient.onTcpDataReceived ssl raw c = .ok () c' ∧ c.Untouched c') ↔
      ∀ cmd, msg.clientCommand = some cmd → cmd.Idle c msg := by
  have hhandler : ClientMessageDispatcher.handler ssl msg.getType
      = some (ClientCommandBus.dispatch ssl) := by
    rw [htype]
    rfl
  rw [received_unharmed_iff hmsg hhandler]
  cases hcmd : msg.clientCommand with
  | none =>
    rw [clientBusDispatch_of_none hcmd]
    exact ⟨fun _ _ h => (by cases h), fun _ => .of_ok rfl⟩
  | some cmd =>
    rw [clientBusDispatch_of_command hcmd,
      execute_unharmed_iff hssl cmd (deserialize_entry_fits hmsg 1)]
    refine ⟨fun h cmd' hcmd' => ?_, fun h => h cmd rfl⟩
    obtain rfl := Option.some.inj hcmd'
    exact h

theorem network_help_untouched :
    let c : ClientContext :=
      { encryption := { dhKey := [1], identityKey := [2], entropy := fun _ => none } }
    ∃ c', MessagingClient.onTcpDataReceived clearSSL
      (bytes "\x01\x01\x00\x01\x0a\x00\x00\x00\x00") c = .ok () c' ∧ c.Untouched c' := by
  intro c
  refine (network_command_untouched_iff clearSSL_correct c _ _ rfl rfl).mpr fun cmd hcmd => ?_
  cases hcmd

/-- A server that knows the name of a file sends `/sendfile` to a client, and gets the file. -/
theorem network_sendfile_sends_file :
    let c : ClientContext := {
      encryption := {
        dhKey := [1], identityKey := [2], entropy := fun _ => some ⟨List.replicate 12 0, rfl⟩
        dhKeys := Table.empty.insert (bytes "bob") (List.replicate 32 0) }
      disk := Table.empty.insert (bytes "notes") (bytes "private") }
    let raw := bytes "\x01\x03\x00\x01\x09\x00\x03bob\x00\x05notes\x00\x00\x00\x00"
    let c' := finalState (MessagingClient.onTcpDataReceived clearSSL raw) c
    c'.opened = [bytes "notes"] ∧ c'.outgoing.length = 3 ∧
      c'.messagesCounter (bytes "bob") = some 1 ∧
      ¬∃ c', MessagingClient.onTcpDataReceived clearSSL raw c = .ok () c' ∧ c.Untouched c' := by
  intro c raw c'
  have hopened : c'.opened = [bytes "notes"] := by decide +kernel +revert
  have hsent : c'.outgoing.length = 3 ∧ c'.messagesCounter (bytes "bob") = some 1 := by
    decide +kernel +revert
  refine ⟨hopened, hsent.1, hsent.2, ?_⟩
  rintro ⟨t, hrun, huntouched⟩
  have hsame : c' = t := finalState_ok hrun
  rw [hsame, huntouched.opened] at hopened
  cases hopened

end Messenger
