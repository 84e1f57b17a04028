import Messenger.Model.EventLoop

/-!
# The transport of a client: `transport/{client,handling,event_loop,tls}.cpp`

A client has one socket, for which its loop waits, a TLS wrapper and a transport. All three are
made by `connect`, which `ClientFactory` calls once; the loop runs while the socket has a
descriptor. `disconnect` may be called from the handler and by the application.

The loop is woken up for `EPOLLIN` and `EPOLLRDHUP`, and by `EPOLLERR` and `EPOLLHUP`; whether
`EPOLLOUT` may come is left open, as in the handler. As there is one descriptor, a turn of the loop
handles one event.

The callback is the application's. It has a state of its own, so what it does is a function of all
its calls so far: it sends, it may disconnect, and it may throw.

Nothing in the loop catches what is thrown in it, and neither does the thread that runs it
(`runtime.cpp`), so an exception ends the process; so does `SIGPIPE`, which nothing ignores, when
something is written to a connection that is gone. `TransportClient.performs` stops there. That
`epoll_wait` itself fails, other than by a signal, is left out.
-/

set_option autoImplicit false

namespace Messenger

open Messenger.Lib

structure ClientTLSWrapper where
  handshakeDone : Bool := false
  deriving DecidableEq, Repr

/-- The same as for the server, with what `SSL_connect` comes to. -/
def ClientTLSWrapper.tlsHandshake (w : ClientTLSWrapper) :
    HandshakeResult → Except Failure ClientTLSWrapper
  | .done => .ok { w with handshakeDone := true }
  | .wouldBlock => .ok w
  | .failed => .error (runtimeError "TLS SSL accept error")

/-- The constructor makes the first attempt. -/
def ClientTLSWrapper.new (r : HandshakeResult) : Except Failure ClientTLSWrapper :=
  ClientTLSWrapper.tlsHandshake {} r

/-- What the application does to a client. The answer to a write is `none` if the process does not
    live to see it, which may happen as soon as either side has shut the connection down. -/
inductive ClientAction
  | sendToServer (data : Bytes) (r : Option SendResult)
  | disconnect

/-- What a call of `on_data_callback` does, in order, and how it fails if it does. -/
structure ClientDataAnswer where
  does : List ClientAction := []
  failure : Option Failure := none

/-- `class Client`, but for the address of the server. -/
structure TransportClient where
  -- `socket_visitor->fd`; `none` for `-1`.
  socket : Option Fd := none
  -- Of `event_loop`. The handler is always the same.
  fdToHandler : Table Fd Unit := .empty
  -- `handler->client` is not null.
  initialized : Bool := false
  tlsWrapper : Option ClientTLSWrapper := none
  transport : Option StreamTransport := none
  recvBuffer : Bytes := []
  -- `ssl_ctx_` is not null.
  sslCtx : Bool := true
  -- `on_data_callback`, with all its calls so far, the present one last.
  onData : List Bytes → ClientDataAnswer := fun _ => {}
  -- The calls of `on_data_callback` so far.
  handedOn : List Bytes := []
  -- What has been written to the socket.
  emitted : Bytes := []

abbrev TransportClientM := EStateM Failure TransportClient

/-- What the system answers to `connect`. When `setup_connection` fails, it may have made a
    descriptor before. -/
inductive ConnectAnswer
  | connected (fd : Fd) (handshake : HandshakeResult)
  | failed (fd : Option Fd)

/-- One event, and what the calls made for it answer. -/
structure LoopEvent where
  fd : Fd
  -- `EPOLLIN`
  readable : Bool := false
  -- `EPOLLOUT`
  writable : Bool := false
  -- `EPOLLERR`, `EPOLLHUP` or `EPOLLRDHUP`
  hangUp : Bool := false
  handshake : HandshakeResult := .wouldBlock
  -- `SSL_read`
  net : List RecvResult := []

namespace TransportClient

/-- What `setup_connection` returns is looked at after it has set the descriptor. With a context
    that has been freed, there is no `SSL` to set the descriptor of. -/
def connect : ConnectAnswer → TransportClientM Bool
  | .failed fd => do
    modify fun s => { s with initialized := true, socket := fd }
    return false
  | .connected fd r => do
    modify fun s => { s with initialized := true, socket := some fd }
    modify fun s => { s with fdToHandler := s.fdToHandler.insert fd () }
    let s ← get
    if s.sslCtx then
      let w ← liftExcept (ClientTLSWrapper.new r)
      modify fun s => { s with tlsWrapper := some w }
      modify fun s => { s with transport := some (.tls {}) }
      return true
    else throw nullPointer

/-- The socket is shut down, and not closed. -/
def disconnect : TransportClientM Unit := do
  let s ← get
  match s.socket with
  | none => pure ()
  | some fd => set { s with fdToHandler := s.fdToHandler.erase fd, socket := none }
  modify fun s => { s with sslCtx := false }

def sendToServer (data : Bytes) (r : Option SendResult) : TransportClientM Unit := do
  let s ← get
  match s.transport with
  | none => throw nullPointer
  | some transport =>
    let packet := FramerMessage.formMessage data []
    match r with
    | none => throw .killed
    | some r => set { s with emitted := s.emitted ++ (transport.send packet r).2 }

def act : ClientAction → TransportClientM Unit
  | .sendToServer data r => sendToServer data r
  | .disconnect => disconnect

/-- `while (framer->has_message_in_buffer(recv_buffer)) { … }`, for a number of turns. A message
    takes four bytes or more off the buffer, so there are fewer than the buffer has bytes. -/
def handleMessages : Nat → TransportClientM Unit
  | 0 => return
  | turns + 1 => do
    let s ← get
    if FramerMessage.hasMessageInBuffer s.recvBuffer then
      match FramerMessage.extractMessage s.recvBuffer with
      | .error e => throw e
      | .ok (msg, rest) =>
        set { s with recvBuffer := rest, handedOn := s.handedOn ++ [msg] }
        let answer := s.onData (s.handedOn ++ [msg])
        answer.does.forM act
        match answer.failure with
        | some e => throw e
        | none => handleMessages turns
    else return

/-- What comes with another status than `OK` is dropped. `on_disconnected` only writes a line to
    the log. -/
def onServerMessage (net : List RecvResult) : TransportClientM Unit := do
  let s ← get
  match s.transport with
  | none => throw nullPointer
  | some transport =>
    let (call, transport) := transport.receive net
    match call.result.status with
    | .ok =>
      let buffer := s.recvBuffer ++ call.result.data
      set { s with transport := some transport, recvBuffer := buffer }
      handleMessages (buffer.length + 1)
    | _ => set { s with transport := some transport }

/-- `ClientHandler::handle_event`. -/
def handleEvent (e : LoopEvent) : TransportClientM Unit := do
  let s ← get
  if !s.initialized then return
  else
    match s.tlsWrapper with
    | none => throw nullPointer
    | some w =>
      if !w.handshakeDone then
        if e.readable ∨ e.writable then
          let w ← liftExcept (w.tlsHandshake e.handshake)
          modify fun s => { s with tlsWrapper := some w }
      else if e.hangUp then disconnect
      else if e.readable then onServerMessage e.net

def isConnected (s : TransportClient) : Bool := s.socket.isSome

/-- `while (isConnected()) event_loop->run_once(50);`, one turn. -/
def runOnce (e : LoopEvent) : TransportClientM Unit := do
  let s ← get
  if s.isConnected then
    match s.fdToHandler e.fd with
    | none => return
    | some () => handleEvent e

end TransportClient

/-- What happens to a client after `connect`, in any order. -/
inductive ClientCall
  | runOnce (e : LoopEvent)
  | act (a : ClientAction)

def ClientCall.perform : ClientCall → TransportClientM Unit
  | .runOnce e => TransportClient.runOnce e
  | .act a => TransportClient.act a

namespace TransportClient

/-- One call after the other, up to the first that fails: with it the process is over. -/
def performs (calls : List ClientCall) : TransportClientM Unit := calls.forM ClientCall.perform

/-- The client after a call, also when it has failed. -/
def step (s : TransportClient) (call : ClientCall) : TransportClient := finalState call.perform s

/-- The client after calls of which the last may have failed. Of calls that come after a failure it
    says what would be if the process had survived. -/
def run (s : TransportClient) (calls : List ClientCall) : TransportClient := calls.foldl step s

/-- `ClientFactory::tcp_client`, and the callback that `init_client` sets. -/
def tcpClient (answer : ConnectAnswer) (onData : List Bytes → ClientDataAnswer) :
    TransportClient :=
  finalState (connect answer) { onData := onData }

end TransportClient

end Messenger
