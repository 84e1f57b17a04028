import Messenger.Lib.Table
import Messenger.Model.Server
import Messenger.Model.Transport

/-!
# The transport of the server: `transport/{server,handling,event_loop,tls}.cpp`

The event loop wakes up for a descriptor, looks its handler up and calls it. What a client is
for the server is spread over four tables: the connection manager owns the connection, the
handler has a weak pointer to it, the server has its TLS state, and the loop has the handler.

An event is what `epoll_wait` reports together with what the system calls answer that its
handling makes. It is not asked whether `epoll` could report it, so the interest that
`enable_write` and `disable_write` register has no place here: `Model/Interest.lean` keeps it.

A null pointer that is dereferenced is a `Failure` like an index past the end.
-/

set_option autoImplicit false

namespace Messenger

open Messenger.Lib

/-- The language gives the use of a null pointer no more meaning than that of an element which
    is not there. -/
abbrev nullPointer : Failure := .outOfBounds

/-! ## TLS -/

/-- What `SSL_accept` comes to: `1`, an error that asks for another try, any other error. -/
inductive HandshakeResult
  | done
  | wouldBlock
  | failed
  deriving DecidableEq, Repr

/-- Of the wrapper, whether the handshake is done. The records of TLS themselves are below this
    model. -/
structure ServerTLSWrapper where
  handshakeDone : Bool := false
  deriving DecidableEq, Repr

/-- An error that does not go away throws, and nothing on the way up to `main` catches it. -/
def ServerTLSWrapper.tlsHandshake (w : ServerTLSWrapper) :
    HandshakeResult → Except Failure ServerTLSWrapper
  | .done => .ok { w with handshakeDone := true }
  | .wouldBlock => .ok w
  | .failed => .error (runtimeError "TLS SSL accept error")

/-- The constructor makes the first attempt. -/
def ServerTLSWrapper.new (r : HandshakeResult) : Except Failure ServerTLSWrapper :=
  ServerTLSWrapper.tlsHandshake {} r

/-! ## The server and its tables -/

/-- One event, and what the calls made for it answer. Fields that the handling of the event does not
    come to are not looked at. -/
structure EpollEvent where
  fd : Fd
  -- `EPOLLIN`
  readable : Bool := false
  -- `EPOLLOUT`
  writable : Bool := false
  -- `EPOLLERR`, `EPOLLHUP` or `EPOLLRDHUP`
  hangUp : Bool := false
  -- `::accept`; `none` for `-1`
  accepted : Option Fd := none
  handshake : HandshakeResult := .wouldBlock
  -- `SSL_read`
  net : List RecvResult := []
  -- `SSL_write`
  sent : SendResult := ⟨none, false⟩
  now : UInt64 := 0

/-- The two handlers that the server registers with the loop. -/
inductive EventHandler
  | acceptHandler
  | serverHandler
  deriving DecidableEq, Repr

/-- The four tables in which a client of the server appears. They are changed one after the other,
    and an exception in between leaves some of them behind; what they owe each other is an invariant
    of `Proof/EventLoop`. -/
structure Server where
  -- `connection_manager`
  connections : Table Fd ClientConnection := .empty
  -- `handler->clients`. The pointers are weak: they lead to what `connections` owns.
  clients : Table Fd Unit := .empty
  -- The pointers are null in entries that `operator[]` has made.
  tlsWrapper : Table Fd (Option ServerTLSWrapper) := .empty
  -- Of `event_loop`.
  fdToHandler : Table Fd EventHandler := .empty
  -- What the two callbacks work on.
  context : ServerContext := {}
  -- The calls of `on_client_message` so far.
  handedOn : List (Fd × Bytes) := []

abbrev TransportM := EStateM Failure Server

/-- `connection_manager.send_to_buffer(fd, data)`. For a descriptor without a connection the data is
    dropped. -/
def sendToBuffer (connections : Table Fd ClientConnection) (fd : Fd) (data : Bytes) :
    Table Fd ClientConnection :=
  match connections fd with
  | none => connections
  | some conn => connections.insert fd (conn.queueSend data)

/-- What a callback has passed to `send`, in order. -/
def sendAllToBuffers (connections : Table Fd ClientConnection) (outbox : List (Fd × Packet)) :
    Table Fd ClientConnection :=
  outbox.foldl (fun connections sent => sendToBuffer connections sent.1 sent.2.bytes) connections

namespace Server

/-- What the pointers for `fd` lead to is `conn` now. -/
def setConnection (s : Server) (fd : Fd) (conn : ClientConnection) : Server :=
  { s with connections := s.connections.insert fd conn }

/-- After a callback: what it has sent is in the send buffers. -/
def afterCallback (s : Server) (context : ServerContext) : Server :=
  { s with
    context := context
    connections := sendAllToBuffers s.connections context.outbox }

/-- A callback runs on the context of the messaging server. Nothing reads the send buffers while it
    does, so it makes no difference that what it sends gets there only at its end. What it has sent
    before it throws has been sent. -/
def callback (now : UInt64) (x : ServerM Unit) : TransportM Unit := fun s =>
  match x { s.context with now := now, outbox := [] } with
  | .ok _ context => .ok () (s.afterCallback context)
  | .error e context => .error e (s.afterCallback context)

/-- `tls_wrapper_[fd]`, which makes an entry where there is none. Its pointer is null, and the next
    use of it is the end. -/
def wrapperAt (fd : Fd) : TransportM (Option ServerTLSWrapper) := do
  let s ← get
  match s.tlsWrapper fd with
  | some w => return w
  | none =>
    set { s with tlsWrapper := s.tlsWrapper.insert fd none }
    return none

/-- `tls_wrapper_[fd]->handshake_done()`. -/
def tlsHandshakeDone (fd : Fd) : TransportM Bool := do
  match ← wrapperAt fd with
  | none => throw nullPointer
  | some w => return w.handshakeDone

def tlsHandshake (fd : Fd) (r : HandshakeResult) : TransportM Unit := do
  match ← wrapperAt fd with
  | none => throw nullPointer
  | some w =>
    let w ← liftExcept (w.tlsHandshake r)
    modify fun s => { s with tlsWrapper := s.tlsWrapper.insert fd (some w) }

/-- The wrapper is made before `tls_wrapper_[fd]` is evaluated: an assignment evaluates its right
    side first. If the handshake throws at once, the client is in the other three tables by then. -/
def onClientConnected (fd : Fd) (conn : ClientConnection) (r : HandshakeResult) :
    TransportM Unit := do
  modify fun s => s.setConnection fd conn
  modify fun s => { s with clients := s.clients.insert fd () }
  modify fun s => { s with fdToHandler := s.fdToHandler.insert fd .serverHandler }
  let w ← liftExcept (ServerTLSWrapper.new r)
  modify fun s => { s with tlsWrapper := s.tlsWrapper.insert fd (some w) }
  modify fun s => s.setConnection fd { conn with transport := .tls {} }

/-- The loop forgets the descriptor first, then the application hears of it, then the connection
    goes. If the callback throws, connection and wrapper stay. -/
def onClientDisconnected (fd : Fd) (now : UInt64) : TransportM Unit := do
  modify fun s => { s with fdToHandler := s.fdToHandler.erase fd }
  callback now (MessagingServer.onDisconnected fd)
  modify fun s => { s with connections := s.connections.erase fd }
  modify fun s => { s with tlsWrapper := s.tlsWrapper.erase fd }

/-- An empty message and `/exit` end here. The second is the whole message as it comes off the wire,
    which a client of this program never sends. -/
def onClientMessage (fd : Fd) (data : Bytes) (now : UInt64) : TransportM Unit := do
  modify fun s => { s with handedOn := s.handedOn ++ [(fd, data)] }
  if data.isEmpty then return
  else if data = bytes "/exit" then return
  else callback now (MessagingServer.onTcpDataReceived fd data)

/-- The buffer is flushed. Whether the interest is given up is in `Model/Interest.lean`. -/
def onClientWritable (fd : Fd) (r : SendResult) : TransportM Unit := do
  let s ← get
  match s.connections fd with
  | none => return
  | some conn =>
    let (_done, conn, _emitted) := conn.flush r
    set (s.setConnection fd conn)

end Server

/-! ## The handlers -/

/-- A new connection gets a plain transport at first. It is replaced by a TLS transport when the
    wrapper has been made. -/
def AcceptHandler.handleEvent (e : EpollEvent) : TransportM Unit :=
  if e.readable then
    match e.accepted with
    | none => return
    | some fd => Server.onClientConnected fd { transport := .tcp {} } e.handshake
  else return

namespace ServerHandler

/-- `remove_client(fd); server.lock()->on_client_disconnected(fd);` -/
def drop (fd : Fd) (now : UInt64) : TransportM Unit := do
  modify fun s => { s with clients := s.clients.erase fd }
  Server.onClientDisconnected fd now

/-- The part for `EPOLLIN`. It is `false` where `handle_event` returns from within. Of the messages
    in the buffer it takes one. Those behind it wait for the next event, which comes only when more
    arrives. -/
def receive (e : EpollEvent) : TransportM Bool := do
  let s ← get
  match s.clients e.fd with
  | none => return false
  | some () =>
    match s.connections e.fd with
    | none => throw nullPointer
    | some conn =>
      let (received, conn, _net) := conn.tryReceive e.net
      set (s.setConnection e.fd conn)
      if received then
        if FramerMessage.hasMessageInBuffer conn.recvBuffer then
          let (msg, rest) ← liftExcept (FramerMessage.extractMessage conn.recvBuffer)
          modify fun s => s.setConnection e.fd { conn with recvBuffer := rest }
          Server.onClientMessage e.fd msg e.now
          return true
        else return false
      else
        drop e.fd e.now
        return true

/-- The part for `EPOLLOUT`. -/
def write (e : EpollEvent) : TransportM Unit := do
  let s ← get
  match s.clients e.fd with
  | none => return
  | some () => Server.onClientWritable e.fd e.sent

/-- A hang-up is handled before anything else, and alone. Until the handshake is done, any other
    event only takes it further, whichever way the socket is ready. -/
def handleEvent (e : EpollEvent) : TransportM Unit := do
  if e.hangUp then drop e.fd e.now
  else if ← Server.tlsHandshakeDone e.fd then
    let goesOn ← if e.readable then receive e else pure true
    if goesOn ∧ e.writable then write e
  else if e.readable ∨ e.writable then Server.tlsHandshake e.fd e.handshake

end ServerHandler

/-- One event in `EventLoop::run_once`. The call is not in a `try`, here or further up. An event for
    a descriptor that has been forgotten is skipped. -/
def EventLoop.handleEvent (e : EpollEvent) : TransportM Unit := do
  let s ← get
  match s.fdToHandler e.fd with
  | none => return
  | some .acceptHandler => AcceptHandler.handleEvent e
  | some .serverHandler => ServerHandler.handleEvent e

namespace Server

/-- `start`: the loop waits for connections on `socket`. -/
def started (socket : Fd) (context : ServerContext) : Server where
  fdToHandler := Table.empty.insert socket .acceptHandler
  context := context

/-- The server after an event, also when its handling has thrown. In that case the program is over,
    and this is the state it ends in. -/
def step (s : Server) (e : EpollEvent) : Server := finalState (EventLoop.handleEvent e) s

def run (s : Server) (events : List EpollEvent) : Server := events.foldl step s

end Server

end Messenger
