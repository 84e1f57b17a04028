import Messenger.Lib.Exchange
import Messenger.Model.Client
import Messenger.Model.Server

/-!
# Two clients and a server

The whole way of a private message: a client asks the server for a key and queues the
text, the server answers, the client encrypts what it has queued and sends it, the server
passes it on, the other client decrypts it. Between each client and the server there is a
queue of messages in each direction, none of which is lost or overtaken; everything else
may happen in any order.

`sent` is a record of the texts that a client has taken from its queue. Nothing in the
program reads it.
-/

set_option autoImplicit false

namespace Messenger

open Messenger.Lib

/-- Both clients with the server between them, and what is under way in each direction. -/
structure Conversation where
  client : Party → ClientContext
  server : ServerContext
  toServer : Party → List Bytes := fun _ => []
  fromServer : Party → List Bytes := fun _ => []
  sent : Party → List Bytes := fun _ => []

/-- What can happen next. -/
inductive Action
  -- Someone types `/pmess`, with the other as the recipient.
  | pmess (p : Party) (text : Bytes)
  -- The server handles the next message of a client.
  | serve (p : Party)
  -- A client handles the next message from the server.
  | deliver (p : Party)
  deriving DecidableEq, Repr

namespace Conversation

variable (ssl : OpenSSL) (name : Party → Name) (fd : Party → Fd)

/-- The client of `p` runs: what it sends is queued for the server, and what has left its own queue
    for the other is recorded. The record is taken from the difference of the queue, so it counts a
    text as sent when the handler has taken it out, also if it could not be encrypted. -/
def runClient (s : Conversation) (now : UInt64) (p : Party) (x : ClientM Unit) : Conversation :=
  let before := { s.client p with now := now, outgoing := [] }
  let after := finalState x before
  let queued := before.mq.pending (name p.other)
  let left := queued.length - (after.mq.pending (name p.other)).length
  { s with
    client := Function.update s.client p after
    toServer := Function.update s.toServer p (s.toServer p ++ after.outgoing)
    sent := Function.update s.sent p (s.sent p ++ queued.take left) }

/-- The server handles `raw` from `p`: what it sends is queued for the clients. The outbox of the
    server has packets for all descriptors, and each party gets those for its own. -/
def runServer (s : Conversation) (now : UInt64) (p : Party) (raw : Bytes) : Conversation :=
  let after := finalState (MessagingServer.onTcpDataReceived (fd p) raw)
    { s.server with now := now, outbox := [] }
  { s with
    server := after
    fromServer := fun q => s.fromServer q ++ after.outbox.filterMap fun (g, packet) =>
      if g = fd q then some packet.bytes else none }

/-- One action, at a time `now`. With nothing to handle, nothing happens. -/
def step (s : Conversation) (now : UInt64) : Action → Conversation
  | .pmess p text =>
    s.runClient name now p (PrivateMessageCommand.executeOnClient (name p.other) text)
  | .serve p =>
    match s.toServer p with
    | [] => s
    | raw :: rest =>
      runServer fd { s with toServer := Function.update s.toServer p rest } now p raw
  | .deliver p =>
    match s.fromServer p with
    | [] => s
    | raw :: rest =>
      runClient name { s with fromServer := Function.update s.fromServer p rest } now p
        (MessagingClient.onTcpDataReceived ssl raw)

section

variable {s : Conversation} {p : Party} {raw : Bytes} {rest : List Bytes}

theorem step_serve_nil (h : s.toServer p = []) (now : UInt64) :
    s.step ssl name fd now (.serve p) = s := by
  simp only [step, h]

theorem step_serve (h : s.toServer p = raw :: rest) (now : UInt64) :
    s.step ssl name fd now (.serve p)
      = runServer fd { s with toServer := Function.update s.toServer p rest } now p raw := by
  simp only [step, h]

theorem step_deliver_nil (h : s.fromServer p = []) (now : UInt64) :
    s.step ssl name fd now (.deliver p) = s := by
  simp only [step, h]

theorem step_deliver (h : s.fromServer p = raw :: rest) (now : UInt64) :
    s.step ssl name fd now (.deliver p)
      = runClient name { s with fromServer := Function.update s.fromServer p rest } now p
          (MessagingClient.onTcpDataReceived ssl raw) := by
  simp only [step, h]

end

def run (s : Conversation) (actions : List (UInt64 × Action)) : Conversation :=
  actions.foldl (fun s a => s.step ssl name fd a.1 a.2) s

end Conversation

end Messenger
