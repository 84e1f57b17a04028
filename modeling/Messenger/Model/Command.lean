import Messenger.Model.Message

/-!
# Commands as messages

The two conversions of `protocol/parser.cpp` between a command and the message that
carries it: the code of the command is the first metadata entry, its arguments are the
others, and the last argument is the payload as well.
-/

set_option autoImplicit false

namespace Messenger

/-- A command as the user means it: its name and its arguments, in order. -/
structure ParsedCommand where
  name : Bytes := []
  args : List Bytes := []
  deriving DecidableEq, Repr

/-- `command_names_map()`. The enumerators `getUsername`, `getId`, `help` and `unknown` are not in
    it, although they have codes. -/
def commandNamesMap : CommandType → Option Bytes
  | .login => bytes "login"
  | .makeRoom => bytes "room"
  | .join => bytes "join"
  | .send => bytes "send"
  | .privateMessage => bytes "pmess"
  | .getPubkey => bytes "getpub"
  | .sendFile => bytes "sendfile"
  | .connect => bytes "connect"
  | .disconnect => bytes "disconnect"
  | .exit => bytes "exit"
  | _ => none

/-- The arguments are the entries from 1 to `meta_count()`, which are all but the first. A code
    without a name reads as `unknown`; so does a message without entries. -/
def Parser.makeStructFromCommand (msg : Message) : ParsedCommand :=
  match msg.getMeta 0 with
  | [] => { name := bytes "unknown" }
  | code :: _ =>
    { name := (commandNamesMap (.ofByte code)).getD (bytes "unknown"), args := msg.metadata.tail }

/-- `command_types_map()`, the same table the other way around. -/
def commandTypesMap (name : Bytes) : Option CommandType :=
  [(bytes "login", CommandType.login), (bytes "room", .makeRoom), (bytes "join", .join),
    (bytes "send", .send), (bytes "pmess", .privateMessage), (bytes "getpub", .getPubkey),
    (bytes "sendfile", .sendFile), (bytes "connect", .connect),
    (bytes "disconnect", .disconnect), (bytes "exit", .exit)].lookup name

/-- The code is the first entry and the arguments the others, and the last argument is the payload
    as well. So it is sent twice. Too many arguments make `insert_metadata` throw. -/
def Parser.makeCommandFromStruct (now : UInt64) (cmd : ParsedCommand) : Except Failure Message := do
  let msg : Message :=
    { header := { type := .command, protocolVersion := 1, timestamp := now } }
  let commandType := (commandTypesMap cmd.name).getD .unknown
  let msg ← msg.insertMetadata [commandType.toByte]
  let msg ← cmd.args.foldlM Message.insertMetadata msg
  msg.setPayload (cmd.args.getLast?.getD [])

end Messenger
