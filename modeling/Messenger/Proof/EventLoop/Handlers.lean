import Messenger.Model.EventLoop
import Messenger.Proof.Framing
import Messenger.Proof.Server.Bytes

/-!
# What the handlers of the server do

One equation for each way a call can go, and what the callbacks and the sending leave alone:
they see the connections only through `queue_send` and `flush`, so the tables, the receive
buffers and the messages handed on are the same afterwards (`Server.outline`).

The equations are stated with the case as a hypothesis (`hopen`, `hnext` and so on), so that a proof
about an event makes its case distinction once and rewrites with the equation for the case. No later
module unfolds a handler of the transport.
-/

set_option autoImplicit false

namespace Messenger

open Messenger.Lib

variable {s : Server} {fd : Fd} {now : UInt64}

/-! ## Callbacks and sending -/

/-- What a client is for the server, but for what it is to be sent. Of a connection it has the
    receive buffer only: the send buffer is what callbacks change. -/
structure Outline where
  clients : Table Fd Unit
  tlsWrapper : Table Fd (Option ServerTLSWrapper)
  fdToHandler : Table Fd EventHandler
  handedOn : List (Fd × Bytes)
  recvBuffer : Fd → Option Bytes

def Server.outline (s : Server) : Outline :=
  ⟨s.clients, s.tlsWrapper, s.fdToHandler, s.handedOn,
    fun fd => (s.connections fd).map ClientConnection.recvBuffer⟩

/-- A connection replaced by one with the same receive buffer is not seen by those who look at
    receive buffers. -/
theorem insert_recvBuffer {t : Table Fd ClientConnection} {conn conn' : ClientConnection}
    (hconn : t fd = some conn) (hbuffer : conn'.recvBuffer = conn.recvBuffer) (g : Fd) :
    (t.insert fd conn' g).map ClientConnection.recvBuffer
      = (t g).map ClientConnection.recvBuffer := by
  by_cases hg : g = fd
  · subst hg
    rw [Table.insert_self, hconn, Option.map_some, Option.map_some, hbuffer]
  · rw [Table.insert_of_ne hg]

theorem sendToBuffer_recvBuffer (t : Table Fd ClientConnection) (fd : Fd) (data : Bytes) (g : Fd) :
    (sendToBuffer t fd data g).map ClientConnection.recvBuffer
      = (t g).map ClientConnection.recvBuffer := by
  unfold sendToBuffer
  cases hconn : t fd with
  | none => rfl
  | some conn =>
    exact insert_recvBuffer hconn (show (conn.queueSend data).recvBuffer = _ from rfl) g

/-- Whatever a callback sends, and to whom, nothing is added to a receive buffer. -/
theorem sendAllToBuffers_recvBuffer (t : Table Fd ClientConnection)
    (outbox : List (Fd × Packet)) (g : Fd) :
    (sendAllToBuffers t outbox g).map ClientConnection.recvBuffer
      = (t g).map ClientConnection.recvBuffer := by
  induction outbox generalizing t with
  | nil => rfl
  | cons sent outbox ih => exact (ih _).trans (sendToBuffer_recvBuffer t sent.1 sent.2.bytes g)

/-- The application cannot change what the transport keeps of its clients. -/
theorem afterCallback_outline (s : Server) (context : ServerContext) :
    (s.afterCallback context).outline = s.outline := by
  unfold Server.outline Server.afterCallback
  simp only [sendAllToBuffers_recvBuffer]

theorem callback_ok {x : ServerM Unit} {context : ServerContext}
    (h : x { s.context with now := now, outbox := [] } = .ok () context) :
    Server.callback now x s = .ok () (s.afterCallback context) := by
  unfold Server.callback
  rw [h]

theorem callback_error {x : ServerM Unit} {e : Failure} {context : ServerContext}
    (h : x { s.context with now := now, outbox := [] } = .error e context) :
    Server.callback now x s = .error e (s.afterCallback context) := by
  unfold Server.callback
  rw [h]

/-- Flushing always returns, whether there is a connection or not, and nothing but a send buffer
    changes. -/
theorem write_ok (e : EpollEvent) (s : Server) :
    ∃ s', ServerHandler.write e s = .ok () s' ∧ s'.outline = s.outline := by
  unfold ServerHandler.write Server.onClientWritable
  rw [get_bind_run]
  cases s.clients e.fd with
  | none => exact ⟨s, rfl, rfl⟩
  | some u =>
    dsimp only
    rw [get_bind_run]
    cases hconn : s.connections e.fd with
    | none => exact ⟨s, rfl, rfl⟩
    | some conn =>
      -- the connection is written back with what `flush` has left to be sent
      refine ⟨_, rfl, ?_⟩
      unfold Server.outline Server.setConnection
      simp only [insert_recvBuffer hconn (show (conn.flush e.sent).2.1.recvBuffer
        = conn.recvBuffer from rfl)]

/-! ## A connection that ends -/

/-- The server without the client, whatever the callback has made of the context. -/
def Server.without (s : Server) (fd : Fd) : Server :=
  { s with
    connections := s.connections.erase fd
    clients := s.clients.erase fd
    tlsWrapper := s.tlsWrapper.erase fd
    fdToHandler := s.fdToHandler.erase fd }

/-- The disconnect callback never throws, so a connection that ends is taken out of all four
    tables. -/
theorem drop_ok (fd : Fd) (now : UInt64) (s : Server) :
    ∃ s' : Server, ServerHandler.drop fd now s = .ok () (s'.without fd) ∧
      s'.outline = s.outline := by
  obtain ⟨context, hcallback, -⟩ :=
    onDisconnected_returns fd { s.context with now := now, outbox := [] }
  refine ⟨s.afterCallback context, ?_, afterCallback_outline s context⟩
  have hrun := callback_ok (s := { s with
    clients := s.clients.erase fd, fdToHandler := s.fdToHandler.erase fd }) hcallback
  exact bind_ok hrun

/-! ## TLS -/

variable {w : ServerTLSWrapper}

theorem wrapperAt_ok (h : s.tlsWrapper fd = some (some w)) :
    Server.wrapperAt fd s = .ok (some w) s := by
  unfold Server.wrapperAt
  rw [get_bind_run, h]
  rfl

theorem tlsHandshakeDone_ok (h : s.tlsWrapper fd = some (some w)) :
    Server.tlsHandshakeDone fd s = .ok w.handshakeDone s :=
  bind_ok (wrapperAt_ok h)

theorem tlsHandshake_ok (h : s.tlsWrapper fd = some (some w)) {r : HandshakeResult}
    {w' : ServerTLSWrapper} (hr : w.tlsHandshake r = .ok w') :
    Server.tlsHandshake fd r s
      = .ok () { s with tlsWrapper := s.tlsWrapper.insert fd (some w') } := by
  refine (bind_ok (wrapperAt_ok h)).trans ?_
  dsimp only
  rw [hr]
  rfl

theorem tlsHandshake_failed (h : s.tlsWrapper fd = some (some w)) :
    Server.tlsHandshake fd .failed s = .error (runtimeError "TLS SSL accept error") s :=
  bind_ok (wrapperAt_ok h)

/-! ## A new connection -/

/-- The server with one more client. -/
def Server.withClient (s : Server) (fd : Fd) (conn : ClientConnection) (w : ServerTLSWrapper) :
    Server :=
  { s with
    connections := s.connections.insert fd conn
    clients := s.clients.insert fd ()
    tlsWrapper := s.tlsWrapper.insert fd (some w)
    fdToHandler := s.fdToHandler.insert fd .serverHandler }

/-- A connection is accepted, and its first handshake does not fail. It is put in twice, with its
    plain transport and then with TLS, of which the second one stays. -/
theorem onClientConnected_ok {r : HandshakeResult} (hr : ServerTLSWrapper.new r = .ok w) (fd : Fd)
    (conn : ClientConnection) (s : Server) :
    Server.onClientConnected fd conn r s
      = .ok () (s.withClient fd { conn with transport := .tls {} } w) := by
  unfold Server.onClientConnected Server.withClient
  rw [hr, ← Table.insert_insert s.connections fd conn]
  rfl

/-- The exception comes when three of the four entries are made, and nothing takes them out
    again. -/
theorem onClientConnected_failed (fd : Fd) (conn : ClientConnection) (s : Server) :
    Server.onClientConnected fd conn .failed s =
      .error (runtimeError "TLS SSL accept error") { s with
        connections := s.connections.insert fd conn
        clients := s.clients.insert fd ()
        fdToHandler := s.fdToHandler.insert fd .serverHandler } :=
  rfl

/-! ## Messages -/

/-- `on_client_message` makes nothing of it. -/
def Ignored (msg : Bytes) : Prop := msg = [] ∨ msg = bytes "/exit"

/-- The server with one more message handed on. -/
def Server.noted (s : Server) (fd : Fd) (msg : Bytes) : Server :=
  { s with handedOn := s.handedOn ++ [(fd, msg)] }

variable {msg : Bytes}

theorem onClientMessage_ignored (h : Ignored msg) (fd : Fd) (now : UInt64) (s : Server) :
    Server.onClientMessage fd msg now s = .ok () (s.noted fd msg) := by
  rcases h with rfl | rfl
  · rfl
  · rfl

theorem onClientMessage_callback (h : ¬Ignored msg) (fd : Fd) (now : UInt64) (s : Server) :
    Server.onClientMessage fd msg now s =
      Server.callback now (MessagingServer.onTcpDataReceived fd msg) (s.noted fd msg) := by
  have hnil : msg.isEmpty = false := by
    cases msg with
    | nil => exact absurd (.inl rfl) h
    | cons b msg => rfl
  have hexit : msg ≠ bytes "/exit" := fun heq => h (.inr heq)
  show (if msg.isEmpty then _ else if msg = bytes "/exit" then _ else _ : TransportM Unit) _ = _
  rw [hnil, if_neg Bool.false_ne_true, if_neg hexit]
  rfl

/-- A message that can be decoded is handled, and whatever the handler does, the call returns. -/
theorem onClientMessage_ok (h : ¬Ignored msg) {m : Message}
    (hm : Serializer.deserialize msg = .ok m) (fd : Fd) (now : UInt64) (s : Server) :
    ∃ s', Server.onClientMessage fd msg now s = .ok () s' ∧
      s'.outline = (s.noted fd msg).outline := by
  obtain ⟨context, hhandle, -⟩ :=
    handleMessage_returns fd m { s.context with now := now, outbox := [] }
  rw [← onTcpDataReceived_ok hm] at hhandle
  refine ⟨(s.noted fd msg).afterCallback context, ?_, afterCallback_outline _ context⟩
  rw [onClientMessage_callback h]
  exact callback_ok hhandle

/-- The exception is the decoder's, and comes when the message has been handed on. No `try` is
    between it and the event loop. -/
theorem onClientMessage_error (h : ¬Ignored msg) {x : Failure}
    (hx : Serializer.deserialize msg = .error x) (fd : Fd) (now : UInt64) (s : Server) :
    ∃ s', Server.onClientMessage fd msg now s = .error x s' ∧
      s'.outline = (s.noted fd msg).outline := by
  refine ⟨_, ?_, afterCallback_outline (s.noted fd msg)
    { s.context with now := now, outbox := [] }⟩
  rw [onClientMessage_callback h]
  exact callback_error (onTcpDataReceived_error hx fd _)

/-! ## Receiving -/

section Receive

variable {e : EpollEvent} {conn : ClientConnection}

/-- The connection after `try_receive`. -/
def ClientConnection.received (conn : ClientConnection) (net : List RecvResult) :
    ClientConnection :=
  (conn.tryReceive net).2.1

/-- The connection has been closed by the other side, or has failed: the client is dropped. -/
theorem receive_closed (hclient : s.clients e.fd = some ()) (hconn : s.connections e.fd = some conn)
    (hclosed : (conn.tryReceive e.net).1 = false) :
    ServerHandler.receive e s = (ServerHandler.drop e.fd e.now >>= fun _ => pure true)
      (s.setConnection e.fd (conn.received e.net)) := by
  unfold ServerHandler.receive
  rw [get_bind_run, hclient]
  dsimp only
  rw [hconn]
  dsimp only
  rw [hclosed]
  rfl

/-- What is left of `try_receive` when the connection is open: one turn of the receiving loop. The
    source has the test and the extraction as two calls; `nextMessage` is both of them. -/
theorem receive_open (hclient : s.clients e.fd = some ()) (hconn : s.connections e.fd = some conn)
    (hopen : (conn.tryReceive e.net).1 = true) :
    ServerHandler.receive e s = (do
      match ← liftExcept (nextMessage (conn.received e.net).recvBuffer) with
      | none => return false
      | some (msg, rest) =>
        modify fun s => s.setConnection e.fd { conn.received e.net with recvBuffer := rest }
        Server.onClientMessage e.fd msg e.now
        return true : TransportM Bool) (s.setConnection e.fd (conn.received e.net)) := by
  unfold ServerHandler.receive
  rw [get_bind_run, hclient]
  dsimp only
  rw [hconn]
  dsimp only
  rw [hopen]
  -- the two sides agree in each of the three cases of the test and the extraction
  unfold nextMessage ClientConnection.received
  cases FramerMessage.hasMessageInBuffer (conn.tryReceive e.net).2.1.recvBuffer with
  | true =>
    cases FramerMessage.extractMessage (conn.tryReceive e.net).2.1.recvBuffer with
    | ok r => rfl
    | error x => rfl
  | false => rfl

theorem setConnection_setConnection (s : Server) (fd : Fd) (conn conn' : ClientConnection) :
    (s.setConnection fd conn).setConnection fd conn' = s.setConnection fd conn' := by
  unfold Server.setConnection
  rw [Table.insert_insert]

theorem receive_none (hclient : s.clients e.fd = some ()) (hconn : s.connections e.fd = some conn)
    (hopen : (conn.tryReceive e.net).1 = true)
    (hnext : nextMessage (conn.received e.net).recvBuffer = .ok none) :
    ServerHandler.receive e s = .ok false (s.setConnection e.fd (conn.received e.net)) := by
  rw [receive_open hclient hconn hopen, hnext]
  rfl

theorem receive_error (hclient : s.clients e.fd = some ()) (hconn : s.connections e.fd = some conn)
    (hopen : (conn.tryReceive e.net).1 = true) {x : Failure}
    (hnext : nextMessage (conn.received e.net).recvBuffer = .error x) :
    ServerHandler.receive e s = .error x (s.setConnection e.fd (conn.received e.net)) := by
  rw [receive_open hclient hconn hopen, hnext]
  rfl

/-- There is a message. The connection is written back twice, with what was received and with what
    is left of it, of which the second stays. -/
theorem receive_some (hclient : s.clients e.fd = some ()) (hconn : s.connections e.fd = some conn)
    (hopen : (conn.tryReceive e.net).1 = true) {msg rest : Bytes}
    (hnext : nextMessage (conn.received e.net).recvBuffer = .ok (some (msg, rest))) :
    ServerHandler.receive e s
      = (Server.onClientMessage e.fd msg e.now >>= fun _ => pure true)
        (s.setConnection e.fd { conn.received e.net with recvBuffer := rest }) := by
  rw [receive_open hclient hconn hopen, hnext]
  show (Server.onClientMessage e.fd msg e.now >>= fun _ => pure true)
    ((s.setConnection e.fd (conn.received e.net)).setConnection e.fd _) = _
  rw [setConnection_setConnection]

/-! ## `handle_event` -/

theorem handleEvent_hangUp (h : e.hangUp = true) :
    ServerHandler.handleEvent e s = ServerHandler.drop e.fd e.now s := by
  unfold ServerHandler.handleEvent
  rw [if_pos h]

/-- Until the handshake is done, an event takes it one step further and does nothing else. -/
theorem handleEvent_handshake (hup : e.hangUp = false) (hw : s.tlsWrapper e.fd = some (some w))
    (hdone : w.handshakeDone = false) :
    ServerHandler.handleEvent e s =
      (if e.readable ∨ e.writable then Server.tlsHandshake e.fd e.handshake else pure ()) s := by
  unfold ServerHandler.handleEvent
  rw [if_neg (by simp [hup]), bind_ok (tlsHandshakeDone_ok hw), hdone, if_neg Bool.false_ne_true]

/-- After the handshake, reading comes first, and writing only if it has not ended the event. -/
theorem handleEvent_done (hup : e.hangUp = false) (hw : s.tlsWrapper e.fd = some (some w))
    (hdone : w.handshakeDone = true) :
    ServerHandler.handleEvent e s =
      ((if e.readable then ServerHandler.receive e else pure true) >>= fun goesOn =>
        if goesOn ∧ e.writable then ServerHandler.write e else pure ()) s := by
  unfold ServerHandler.handleEvent
  rw [if_neg (by simp [hup]), bind_ok (tlsHandshakeDone_ok hw), hdone, if_pos rfl]
  cases e.readable with
  | true => rfl
  | false => rfl

end Receive

end Messenger
