import Messenger.Model.Framing

/-!
# `transport/transport.cpp`, `transport/connection.cpp`: the stream transports

The stream transports read a non-blocking socket. What the socket will answer is a list
of results, one for each `recv` (or `SSL_read`) to come; a list that has run out stands
for a socket on which nothing more has arrived. The results a call has not used are left
for the next one.

The two stream transports have the same body for `receive`, over `recv` and `SSL_read`, and for
`send`, over `::send` and `SSL_write`. What a call of those does is a `SendResult`.

Of the datagram transport `send` is here.
-/

set_option autoImplicit false

namespace Messenger

open Messenger.Lib

/-- What `recv(fd, temp, sizeof(temp), 0)` can put into `temp`. It is never empty, since a count of
    zero means that the connection is closed, and never longer than `temp`. -/
structure Chunk where
  bytes : Bytes
  nonempty : bytes ≠ []
  fits : bytes.length ≤ 4096

/-- One result of `recv` or `SSL_read`. -/
inductive RecvResult
  -- A positive count.
  | data (chunk : Chunk)
  -- `0`.
  | closed
  -- `-1` with `EAGAIN` or `EWOULDBLOCK`.
  | wouldBlock
  -- `-1` with any other `errno`.
  | failed (errno : Int)

inductive ReceiveStatus
  | ok
  | wouldBlock
  | closed
  | error
  deriving DecidableEq, Repr

structure ReceiveResult where
  status : ReceiveStatus
  data : Bytes
  errorCode : Int
  deriving DecidableEq, Repr

/-- A call of `receive`: its result, `accumulation_buffer` as it leaves it, and the socket results
    it has not used. A complete packet ends the call at once, so there may be many of those. -/
structure Call where
  result : ReceiveResult
  accumulationBuffer : Bytes
  net : List RecvResult

/-- `while (true) { bytes = ::recv(…); … }`, with the buffer accumulated so far. The call ends with
    the first complete packet. What has been read beyond its end is left in the buffer, and what the
    caller gets with another status is the buffer as it is, length field and all. -/
def receiveLoop (acc : Bytes) : List RecvResult → Call
  | [] => ⟨⟨.wouldBlock, acc, 0⟩, acc, []⟩
  | .data chunk :: net =>
    match extractCompleteMessage (acc ++ chunk.bytes) with
    | some (message, rest) => ⟨⟨.ok, message, 0⟩, rest, net⟩
    | none => receiveLoop (acc ++ chunk.bytes) net
  | .closed :: net => ⟨⟨.closed, acc, 0⟩, acc, net⟩
  | .wouldBlock :: net => ⟨⟨.wouldBlock, acc, 0⟩, acc, net⟩
  | .failed errno :: net => ⟨⟨.error, acc, errno⟩, acc, net⟩

structure TCPTransport where
  accumulationBuffer : Bytes := []

structure TLSTransport where
  accumulationBuffer : Bytes := []

/-- `send_buffer` of `TCPTransport::send` and `TLSTransport::send`: a packet with its length,
    which `htonl` takes as 32 bits. -/
def sendBuffer (data : Bytes) : Bytes := beBytes 4 (UInt32.ofNat data.length).toNat ++ data

/-- `accumulation_buffer.clear()`, whatever the last call has left in it, and the loop. So what was
    read together with a packet and lies behind it is lost, and so is a packet that has only partly
    arrived, unless the caller keeps what it is given with `WOULDBLOCK`. -/
def streamReceive (_accumulationBuffer : Bytes) (net : List RecvResult) : Call :=
  receiveLoop [] net

def TCPTransport.receive (t : TCPTransport) (net : List RecvResult) : Call :=
  streamReceive t.accumulationBuffer net

def TLSTransport.receive (t : TLSTransport) (net : List RecvResult) : Call :=
  streamReceive t.accumulationBuffer net

/-- The stream transports of `ITransport`'s variant. -/
inductive StreamTransport
  | tcp (t : TCPTransport)
  | tls (t : TLSTransport)

/-- `std::visit` over the variant: the call, and the transport after it. -/
def StreamTransport.receive : StreamTransport → List RecvResult → Call × StreamTransport
  | .tcp t, net => (t.receive net, .tcp ⟨(t.receive net).accumulationBuffer⟩)
  | .tls t, net => (t.receive net, .tls ⟨(t.receive net).accumulationBuffer⟩)

/-- The connection of a client as the server keeps it. -/
structure ClientConnection where
  transport : StreamTransport
  recvBuffer : Bytes := []
  sendBuffer : Bytes := []

/-- Whatever `receive` hands over is appended to `recv_buffer`, also on would-block. The value is
    `try_receive`'s own, then the connection and the socket afterwards. A part of a packet that is
    appended like this still has its length field, which the transport's packets have lost by
    then. -/
def ClientConnection.tryReceive (c : ClientConnection) (net : List RecvResult) :
    Bool × ClientConnection × List RecvResult :=
  let (call, transport) := c.transport.receive net
  let status := call.result.status
  (status = .ok ∨ status = .wouldBlock,
    { c with transport := transport, recvBuffer := c.recvBuffer ++ call.result.data }, call.net)

/-! ## Sending -/

/-- What a call of `::send` or `SSL_write` does with the bytes that it is offered. -/
structure SendResult where
  -- How many it takes, or all if there are no more; `none` for `-1`.
  accepted : Option Nat
  -- Whether `errno` is `EAGAIN` or `EWOULDBLOCK` afterwards. Only a call that fails sets it.
  wouldBlock : Bool := false
  deriving DecidableEq, Repr

/-- The value of the call. -/
def SendResult.count (r : SendResult) (offered : Bytes) : Int :=
  match r.accepted with
  | none => -1
  | some n => min n offered.length

/-- The bytes that go out on the socket. -/
def SendResult.emitted (r : SendResult) (offered : Bytes) : Bytes :=
  match r.accepted with
  | none => []
  | some n => offered.take n

/-- `::send(fd, send_buffer.data(), send_buffer.size(), 0) - sizeof(uint32_t)`, with the bytes on
    the socket. The subtraction is unsigned, but its result is a `ssize_t`. Of a short write the
    four bytes of the length are taken off as well, so the count speaks of the data only as long as
    the whole length field went out. -/
def streamSend (data : Bytes) (r : SendResult) : Int × Bytes :=
  (r.count (sendBuffer data) - 4, r.emitted (sendBuffer data))

def TCPTransport.send (_t : TCPTransport) (data : Bytes) (r : SendResult) : Int × Bytes :=
  streamSend data r

def TLSTransport.send (_t : TLSTransport) (data : Bytes) (r : SendResult) : Int × Bytes :=
  streamSend data r

def StreamTransport.send : StreamTransport → Bytes → SendResult → Int × Bytes
  | .tcp t, data, r => t.send data r
  | .tls t, data, r => t.send data r

/-- A call of `flush`: its value, the buffer as it leaves it, and the bytes on the socket. -/
structure Flush where
  done : Bool
  buffer : Bytes
  emitted : Bytes
  deriving DecidableEq, Repr

/-- The body that the functions called `flush` share. An empty buffer makes no call. What is left
    after a short write is sent with a length field of its own the next time, as a new packet. The
    error is recognised by `-1`, which a stream transport reports as `-5`. -/
def flushBuffer (transport : StreamTransport) (buffer : Bytes) (r : SendResult) : Flush :=
  if buffer.isEmpty then ⟨true, buffer, []⟩
  else
    let (sent, emitted) := transport.send buffer r
    if sent > 0 then
      let buffer := buffer.drop sent.toNat
      ⟨buffer.isEmpty, buffer, emitted⟩
    else ⟨sent = -1 ∧ r.wouldBlock, buffer, emitted⟩

def ClientConnection.queueSend (c : ClientConnection) (data : Bytes) : ClientConnection :=
  { c with sendBuffer := FramerMessage.formMessage data c.sendBuffer }

def ClientConnection.flush (c : ClientConnection) (r : SendResult) :
    Bool × ClientConnection × Bytes :=
  let f := flushBuffer c.transport c.sendBuffer r
  (f.done, { c with sendBuffer := f.buffer }, f.emitted)

/-- What `flush` uses of a session between two peers. -/
structure PeerSession where
  transport : StreamTransport
  out : Bytes := []

def PeerSession.sendToBuffer (session : PeerSession) (data : Bytes) : PeerSession :=
  { session with out := FramerMessage.formMessage data session.out }

def PeerSession.flush (session : PeerSession) (r : SendResult) : Bool × PeerSession × Bytes :=
  let f := flushBuffer session.transport session.out r
  (f.done, { session with out := f.buffer }, f.emitted)

/-! ### Datagrams -/

/-- What the system calls of one `send` answer. -/
structure WriteAnswer where
  -- `::connect`, which only the datagram transport calls.
  connected : Bool := true
  -- `::send`, `SSL_write` or `::sendto`.
  written : SendResult
  deriving DecidableEq, Repr

/-- `UDPTransport::send`. The `-1` of `::sendto` is passed on as it is, other than by the stream
    transports, so here a full socket is recognised. -/
def udpSend (data : Bytes) (a : WriteAnswer) : Int × Bytes :=
  if a.connected then
    let sent := a.written.count (sendBuffer data)
    (if sent > 0 then sent - 4 else sent, a.written.emitted (sendBuffer data))
  else (0, [])

/-- `ITransport`'s variant. Nothing here looks into a datagram transport. -/
inductive ITransport
  | stream (t : StreamTransport)
  | udp

def ITransport.send : ITransport → Bytes → WriteAnswer → Int × Bytes
  | .stream t, data, a => t.send data a.written
  | .udp, data, a => udpSend data a

/-- `flush` over the whole variant. -/
def ITransport.flushBuffer (transport : ITransport) (buffer : Bytes) (a : WriteAnswer) : Flush :=
  if buffer.isEmpty then ⟨true, buffer, []⟩
  else
    let (sent, emitted) := transport.send buffer a
    if sent > 0 then
      let buffer := buffer.drop sent.toNat
      ⟨buffer.isEmpty, buffer, emitted⟩
    else ⟨sent = -1 ∧ a.written.wouldBlock, buffer, emitted⟩

/-! ## The client's side of a connection -/

/-- What `on_server_message` uses of `Client`. -/
structure Client where
  transport : StreamTransport
  recvBuffer : Bytes := []

/-- One call of `receive`, and the loop over what it has brought: the messages that
    `on_data_callback` gets, the client and the socket afterwards. Bytes that come with another
    status than `OK` are dropped, other than by the server, so a packet that arrives in two pieces
    with a pause in between is lost. -/
def Client.onServerMessage (c : Client) (net : List RecvResult) :
    Except Failure (List Bytes × Client × List RecvResult) :=
  let (call, transport) := c.transport.receive net
  match call.result.status with
  | .ok => do
    let r ← drainMessages (c.recvBuffer ++ call.result.data)
    return (r.1, { transport := transport, recvBuffer := r.2 }, call.net)
  | _ => return ([], { c with transport := transport }, call.net)

end Messenger
