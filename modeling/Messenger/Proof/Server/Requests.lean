import Messenger.Proof.Server.Changes

/-!
# What a request asks for

An event on the server is the run of one handler: the dispatcher's `try` keeps what the
handler did before it threw, so the context afterwards is the one the handler leaves. A
command is recognised by the first byte of its first metadata entry, on the way through
the names of `command_names_map`. `CommandType.onServer` is where that way ends.
-/

set_option autoImplicit false

namespace Messenger

open Messenger.Lib

/-! ## An event is its handler -/

theorem step_message_eq_dispatch (s : ServerContext) (now : UInt64) (fd : Fd) (msg : Message) :
    s.step (.message now fd msg)
      = finalState (ServerMessageDispatcher.dispatch msg) { s with now := now, fd := fd } :=
  finalState_bind_pure (ServerMessageDispatcher.dispatch msg) (fun _ => ()) _

/-- The context after a message is the one its handler leaves. The dispatcher's `catch` changes
    nothing about it. -/
theorem step_of_handler {msg : Message} {handle : Message → ServerM Unit}
    (h : ServerMessageDispatcher.handler msg.getType = some handle) (s : ServerContext)
    (now : UInt64) (fd : Fd) :
    s.step (.message now fd msg) = finalState (handle msg) { s with now := now, fd := fd } := by
  rw [step_message_eq_dispatch]
  unfold ServerMessageDispatcher.dispatch
  rw [h]
  exact (finalState_catchWith ..).trans (finalState_bind_pure ..)

/-- A message without a handler sets the clock and the current connection. -/
theorem step_unhandled {msg : Message} (h : ServerMessageDispatcher.handler msg.getType = none)
    (s : ServerContext) (now : UInt64) (fd : Fd) :
    s.step (.message now fd msg) = { s with now := now, fd := fd } := by
  rw [step_message_eq_dispatch]
  unfold ServerMessageDispatcher.dispatch
  rw [h]
  rfl

theorem step_command {msg : Message} (h : msg.getType = .command) (s : ServerContext)
    (now : UInt64) (fd : Fd) :
    s.step (.message now fd msg)
      = finalState (ServerCommandBus.dispatch msg) { s with now := now, fd := fd } := by
  have hhandler : ServerMessageDispatcher.handler msg.getType
      = some ServerCommandHandler.handleMessage := by
    rw [h]
    rfl
  exact step_of_handler hhandler s now fd

theorem step_cipherMessage {msg : Message} (h : msg.getType = .cipherMessage) (s : ServerContext)
    (now : UInt64) (fd : Fd) :
    s.step (.message now fd msg)
      = finalState (ServerApplicationService.deliverCipherMessage fd msg)
          { s with now := now, fd := fd } := by
  have hhandler : ServerMessageDispatcher.handler msg.getType
      = some ServerCipherHandler.handleMessage := by
    rw [h]
    rfl
  exact step_of_handler hhandler s now fd

/-- The types of the messages that make up a file transfer. -/
inductive MessageType.IsFile : MessageType → Prop
  | start : IsFile .fileStart
  | chunk : IsFile .fileChunk
  | stop : IsFile .fileEnd

theorem MessageType.IsFile.handler {type : MessageType} (h : type.IsFile) :
    ServerMessageDispatcher.handler type = some forwardFile := by
  cases h <;> rfl

theorem step_file {msg : Message} (h : msg.getType.IsFile) (s : ServerContext) (now : UInt64)
    (fd : Fd) :
    s.step (.message now fd msg) = finalState (forwardFile msg) { s with now := now, fd := fd } :=
  step_of_handler h.handler s now fd

/-! ## Commands -/

/-- A command with this code, as the dispatcher recognises it. -/
structure Message.IsCommand (msg : Message) (code : CommandType) : Prop where
  type : msg.getType = .command
  code : (msg.getMeta 0).head? = some code.toByte

/-- The handler that a code leads to. `HELP` has a handler but no name, and private messages go
    through another dispatcher. -/
def CommandType.onServer : CommandType → Option ServerCommand
  | .exit => some .exit
  | .login => some .login
  | .makeRoom => some .room
  | .send => some .send
  | .join => some .join
  | .getPubkey => some .getpub
  | .sendFile => some .sendfile
  | _ => none

/-- The way from a code to a handler goes through a name. It ends where `onServer` says. -/
theorem find_commandName (code : CommandType) :
    ServerCommandRegistry.find ((commandNamesMap code).getD (bytes "unknown")) = code.onServer := by
  cases code <;> rfl

/-- **The command bus looks at one byte.** The rest of the first entry, and the payload, play no
    part in which handler is chosen. -/
theorem busDispatch_eq (msg : Message) :
    ServerCommandBus.dispatch msg =
      ((msg.getMeta 0).head?.bind fun code => (CommandType.ofByte code).onServer).elim (pure ())
        fun cmd => cmd.execute msg := by
  unfold ServerCommandBus.dispatch Parser.makeStructFromCommand
  cases msg.getMeta 0 with
  | nil => rfl
  | cons code rest =>
    dsimp only
    rw [find_commandName]
    cases h : (CommandType.ofByte code).onServer with
    | none => simp [h]
    | some cmd => simp [h]

theorem Message.IsCommand.dispatch {msg : Message} {code : CommandType} (h : msg.IsCommand code)
    (cmd : ServerCommand) (hcmd : (CommandType.ofByte code.toByte).onServer = some cmd) :
    ServerCommandBus.dispatch msg = cmd.execute msg := by
  rw [busDispatch_eq, h.code]
  simp [hcmd]

/-- Only one code leads to the login. Checked for all 256. -/
theorem onServer_login (code : UInt8) :
    (CommandType.ofByte code).onServer = some .login → code = CommandType.login.toByte := by
  revert code
  exact forall_byte (by decide +kernel)

end Messenger
