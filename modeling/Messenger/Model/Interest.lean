import Messenger.Model.EventLoop

/-!
# `transport/{server,peer,event_loop}.cpp`: write interest

A message that is to be sent is put into the send buffer, and `epoll` is asked to report when
the socket can be written. On such a report the buffer is flushed, and when `flush` says that it
is done, `epoll` is asked to stop.

The server does that for its connections and a peer for its sessions. `Writer` is one descriptor
of either; the functions of the server that write are then given over all its descriptors, as in
`Model/EventLoop`, with the interest that is left out there.
-/

set_option autoImplicit false

namespace Messenger

open Messenger.Lib

/-- What there is for one descriptor. -/
structure Writer where
  transport : ITransport
  -- `send_buffer` of a `ClientConnection`, `out` of a `PeerSession`.
  buffer : Bytes := []
  -- `EPOLLOUT` is among the events that `epoll` watches for.
  writeInterest : Bool

/-- `WriterEvent`s are the calls that reach one descriptor. -/
inductive WriterEvent
  -- `Server::send`, or `send_to_peer`.
  | send (data : Bytes)
  -- `EPOLLOUT`
  | writable (a : WriteAnswer)
  deriving DecidableEq, Repr

namespace Writer

def enableWrite (w : Writer) : Writer := { w with writeInterest := true }

def disableWrite (w : Writer) : Writer := { w with writeInterest := false }

/-- `queue_send`, or `send_to_buffer`. -/
def queueSend (w : Writer) (data : Bytes) : Writer :=
  { w with buffer := FramerMessage.formMessage data w.buffer }

def flush (w : Writer) (a : WriteAnswer) : Bool × Writer :=
  let f := w.transport.flushBuffer w.buffer a
  (f.done, { w with buffer := f.buffer })

/-- `Server::send`, and `send_to_peer`. The interest is asked for after the bytes are in the
    buffer. -/
def send (w : Writer) (data : Bytes) : Writer := (w.queueSend data).enableWrite

/-- `Server::on_client_writable`, and `on_peer_writable`. The interest is given up when `flush`
    returns `true`, which it also does where the socket was full and nothing has gone out. -/
def onWritable (w : Writer) (a : WriteAnswer) : Writer :=
  let (done, w) := w.flush a
  if done then w.disableWrite else w

def step (w : Writer) : WriterEvent → Writer
  | .send data => w.send data
  | .writable a => w.onWritable a

def run (w : Writer) (events : List WriterEvent) : Writer := events.foldl step w

end Writer

/-- A connection of the server, with what its loop watches for. -/
def ClientConnection.writer (c : ClientConnection) (writeInterest : Bool) : Writer :=
  ⟨.stream c.transport, c.sendBuffer, writeInterest⟩

/-- The server, with what `epoll` watches for. -/
structure WatchingServer where
  server : Server
  -- Whether `EPOLLOUT` is among the events, for each descriptor that is registered.
  watched : Table Fd Bool := .empty

namespace WatchingServer

/-- `enable_write` and `disable_write`. `EPOLL_CTL_MOD` fails for a descriptor that is not
    registered, and nothing looks at that. -/
def setWriteInterest (s : WatchingServer) (fd : Fd) (interest : Bool) : WatchingServer :=
  match s.watched fd with
  | none => s
  | some _ => { s with watched := s.watched.insert fd interest }

def send (s : WatchingServer) (fd : Fd) (data : Bytes) : WatchingServer :=
  let connections := sendToBuffer s.server.connections fd data
  setWriteInterest { s with server := { s.server with connections := connections } } fd true

/-- `Server::on_client_writable`, with its last line. -/
def onClientWritable (s : WatchingServer) (fd : Fd) (r : SendResult) : WatchingServer :=
  match s.server.connections fd with
  | none => s
  | some conn =>
    let (done, conn, _emitted) := conn.flush r
    let s := { s with server := s.server.setConnection fd conn }
    if done then s.setWriteInterest fd false else s

def step (s : WatchingServer) : Fd × WriterEvent → WatchingServer
  | (fd, .send data) => s.send fd data
  | (fd, .writable a) => s.onClientWritable fd a.written

def run (s : WatchingServer) (events : List (Fd × WriterEvent)) : WatchingServer :=
  events.foldl step s

end WatchingServer

def PeerSession.writer (session : PeerSession) (writeInterest : Bool) : Writer :=
  ⟨.stream session.transport, session.out, writeInterest⟩

end Messenger
