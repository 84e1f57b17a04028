import Messenger.Model.Server
import Messenger.Spec.Conversation

/-!
# A file transfer

One client sends a file to another and nothing else happens: what the sender puts out is
handled by the server, and what the server puts out for the recipient is handled by the
recipient, all of it and in order. Every message is handled at a time of its own.

The stream that the recipient has open when the last message comes, the `FileEnd`, has the
bytes that it has written.
-/

set_option autoImplicit false

namespace Messenger

open Messenger.Lib

/-- A client of `a` that is online and holds the keys of `b`. -/
structure ClientContext.Knows (ssl : OpenSSL) (c : ClientContext) (a b : Account) : Prop where
  encryption : c.encryption.IsOf a
  holds : c.encryption.Holds ssl b
  username : c.myUsername = a.name
  connected : c.connected = true

/-- Names that the wire can carry. -/
structure NamesFit (a b : Account) (filename : Bytes) : Prop where
  sender : a.name.length ≤ 65535
  recipient : b.name.length ≤ 65535
  filename : filename.length ≤ 65535

/-- Where the recipient writes the file. The name of the recipient, not of the sender, comes first:
    it is what the message has in its first entry. -/
def filePath (recipient : Account) (filename : Bytes) : Bytes :=
  recipient.name ++ bytes " " ++ filename

/-- What a transfer starts from: who sends which file to whom, and the three programs. -/
structure Transfer where
  sender : Account
  recipient : Account
  filename : Bytes
  content : Bytes
  source : ClientContext
  server : ServerContext
  target : ClientContext
  sourceFd : Fd
  targetFd : Fd

/-- A message and the time at which it is handled. -/
abbrev Timed := UInt64 × Bytes

/-- The server handles messages of one connection. -/
def ServerContext.relay (fd : Fd) (s : ServerContext) (messages : List Timed) : ServerContext :=
  messages.foldl (fun s m => finalState (MessagingServer.onTcpDataReceived fd m.2)
    { s with now := m.1 }) s

/-- What waits for a connection. -/
def ServerContext.packetsFor (s : ServerContext) (fd : Fd) : List Bytes :=
  s.outbox.filterMap fun (g, packet) => if g = fd then some packet.bytes else none

/-- A client handles messages from the server. -/
def ClientContext.receive (ssl : OpenSSL) (c : ClientContext) (messages : List Timed) :
    ClientContext :=
  c.run ssl (messages.map fun m => .received m.1 m.2)

namespace Transfer

variable (ssl : OpenSSL) (t : Transfer)

def path : Bytes := filePath t.recipient t.filename

/-- The conditions for a transfer: each has the keys of the other, they agree on the counter, the
    file is there and can be written, and the recipient is online. -/
structure Ready : Prop where
  source : t.source.Knows ssl t.sender t.recipient
  target : t.target.Knows ssl t.recipient t.sender
  counters : (t.source.messagesCounter t.recipient.name).getD 0
    = (t.target.messagesCounter t.sender.name).getD 0
  names : NamesFit t.sender t.recipient t.filename
  file : t.source.contentAt t.filename = some t.content
  writable : t.target.writable (t.target.fileAt t.path) = true
  session : t.server.sessions.getFd t.recipient.name = .ok t.targetFd

/-- The sender, when the whole file has been sent. -/
def sent : ClientContext :=
  finalState (SendFileCommand.executeOnClient ssl t.recipient.name t.filename)
    { t.source with outgoing := [] }

/-- The server handles what was sent, the recipient what the server has for it. The times are
    open. -/
structure Carried (handled received : List Timed) : Prop where
  sent : handled.map Prod.snd = (t.sent ssl).outgoing
  relayed : received.map Prod.snd
    = (ServerContext.relay t.sourceFd { t.server with outbox := [] } handled).packetsFor t.targetFd

/-- The recipient, when everything has been received. -/
def done (received : List Timed) : ClientContext := t.target.receive ssl received

/-- The bytes written to the stream that the last message closes. -/
def written (received : List Timed) : Option Bytes :=
  ((t.target.receive ssl received.dropLast).pendingFiles t.path).map OutFile.written

/-- The recipient has written the file, and the two can go on. What is on disk is said only if no
    stream of an earlier transfer was open, which would be closed into the same file. -/
structure Delivered (received : List Timed) : Prop where
  written : t.written ssl received = some t.content
  saved : t.target.pendingFiles t.path = none →
    (t.done ssl received).disk (t.target.fileAt t.path) = some t.content
  counters : ((t.sent ssl).messagesCounter t.recipient.name).getD 0
    = ((t.done ssl received).messagesCounter t.sender.name).getD 0

end Transfer

end Messenger
