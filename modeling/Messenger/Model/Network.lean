import Messenger.Lib.Action
import Messenger.Model.Client
import Messenger.Model.Server

/-!
# Any number of clients and a server

Clients that log in and out. Between each client and the server there is a queue of messages
in each direction; everything else may happen in any order.

A client that exits closes its connection. The server comes to know of it sooner or later
(`hangUp`), whether it has handled what the client sent before or not. After that the
descriptor is free, and another client may be given it (`connect`).
-/

set_option autoImplicit false

namespace Messenger

open Messenger.Lib

/-- The clients, the server, and what is under way in each direction between them. -/
structure Network (ι : Type) where
  client : ι → ClientContext
  server : ServerContext := {}
  toServer : ι → List Bytes := fun _ => []
  fromServer : ι → List Bytes := fun _ => []
  -- The connections that the server has closed.
  closed : ι → Bool := fun _ => false

/-- What can happen next. Only logins and exits are typed here, since these are what changes who is
    online. -/
inductive NetworkAction (ι : Type)
  -- Someone types `/login`.
  | login (now : UInt64) (p : ι) (username : Bytes)
  -- Someone types `/exit`.
  | exit (now : UInt64) (p : ι)
  -- The server handles the next message of a client.
  | serve (now : UInt64) (p : ι)
  -- A client handles the next message from the server.
  | deliver (now : UInt64) (p : ι)
  -- The server finds the connection of a client that has exited closed.
  | hangUp (now : UInt64) (p : ι)
  -- A client starts, with keys of its own, and is given a descriptor that is free.
  | connect (p : ι) (encryption : EncryptionService)

namespace Network

variable {ι : Type} [DecidableEq ι] (ssl : OpenSSL) (fd : ι → Fd)

/-- The client of `p` runs: what it sends is queued for the server. -/
def runClient (s : Network ι) (now : UInt64) (p : ι) (x : ClientM Unit) : Network ι :=
  let after := finalState x { s.client p with now := now, outgoing := [] }
  { s with
    client := Function.update s.client p after
    toServer := Function.update s.toServer p (s.toServer p ++ after.outgoing) }

/-- The server runs: what it sends is queued for the clients, each packet for the one that has the
    descriptor. -/
def runServer (s : Network ι) (now : UInt64) (x : ServerM Unit) : Network ι :=
  let after := finalState x { s.server with now := now, outbox := [] }
  { s with
    server := after
    fromServer := fun q => s.fromServer q ++ after.outbox.filterMap fun (g, packet) =>
      if g = fd q then some packet.bytes else none }

/-- One action. With nothing to handle, nothing happens. A hang-up drops what is still under way on
    the connection, and only a client that has exited hangs up. -/
def step (s : Network ι) : NetworkAction ι → Network ι
  | .login now p username => s.runClient now p (LoginCommand.executeOnClient ssl username)
  | .exit now p => s.runClient now p ExitCommand.executeOnClient
  | .serve now p =>
    match s.toServer p with
    | [] => s
    | raw :: rest =>
      runServer fd { s with toServer := Function.update s.toServer p rest } now
        (MessagingServer.onTcpDataReceived (fd p) raw)
  | .deliver now p =>
    match s.fromServer p with
    | [] => s
    | raw :: rest =>
      runClient { s with fromServer := Function.update s.fromServer p rest } now p
        (MessagingClient.onTcpDataReceived ssl raw)
  | .hangUp now p =>
    if (s.client p).connected then s
    else
      let s := runServer fd s now (MessagingServer.onDisconnected (fd p))
      { s with
        toServer := Function.update s.toServer p []
        fromServer := Function.update s.fromServer p []
        closed := Function.update s.closed p true }
  | .connect p encryption =>
    if s.closed p then { s with
      client := Function.update s.client p { encryption := encryption }
      closed := Function.update s.closed p false }
    else s

section

variable {s : Network ι} {p : ι} {raw : Bytes} {rest : List Bytes}

theorem step_serve_nil (h : s.toServer p = []) (now : UInt64) :
    s.step ssl fd (.serve now p) = s := by
  simp only [step, h]

theorem step_serve (h : s.toServer p = raw :: rest) (now : UInt64) :
    s.step ssl fd (.serve now p)
      = runServer fd { s with toServer := Function.update s.toServer p rest } now
          (MessagingServer.onTcpDataReceived (fd p) raw) := by
  simp only [step, h]

theorem step_deliver_nil (h : s.fromServer p = []) (now : UInt64) :
    s.step ssl fd (.deliver now p) = s := by
  simp only [step, h]

theorem step_deliver (h : s.fromServer p = raw :: rest) (now : UInt64) :
    s.step ssl fd (.deliver now p)
      = runClient { s with fromServer := Function.update s.fromServer p rest } now p
          (MessagingClient.onTcpDataReceived ssl raw) := by
  simp only [step, h]

end

def run (s : Network ι) (actions : List (NetworkAction ι)) : Network ι :=
  actions.foldl (step ssl fd) s

end Network

end Messenger
