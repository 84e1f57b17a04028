import Messenger.Proof.EventLoop.Handlers

/-!
# Messages that wait in the server

`flush` writes all of a send buffer as one packet, so a packet can hold several messages. The
client and the peers take messages out of their receive buffer until there is none left. The
server takes one for each event. The others wait, and as their bytes have been read no event
announces them: they wait until the client sends something else.

So nothing waits exactly when the buffer has no more than one message (`nothing_waits_iff`).
-/

set_option autoImplicit false

namespace Messenger

open Messenger.Lib

/-! ## The messages in a buffer -/

theorem extractCompleteMessage_shrinks {buffer msg rest : Bytes}
    (h : extractCompleteMessage buffer = some (msg, rest)) : rest.length < buffer.length := by
  rw [extractCompleteMessage_eq] at h
  split at h
  · cases h
  · cases h
    rw [List.length_drop]
    omega

/-- The messages whose frames are complete, from the front. This is what a receiving loop would hand
    on, said without the server. -/
def completeMessages (buffer : Bytes) : List Bytes :=
  match h : extractCompleteMessage buffer with
  | none => []
  | some (msg, rest) =>
    have := extractCompleteMessage_shrinks h
    msg :: completeMessages rest
  termination_by buffer.length

theorem completeMessages_none {buffer : Bytes} (h : extractCompleteMessage buffer = none) :
    completeMessages buffer = [] := by
  rw [completeMessages]
  split
  · rfl
  · rename_i hsome
    rw [h] at hsome
    cases hsome

theorem completeMessages_some {buffer msg rest : Bytes}
    (h : extractCompleteMessage buffer = some (msg, rest)) :
    completeMessages buffer = msg :: completeMessages rest := by
  rw [completeMessages]
  split
  · rename_i hnone
    rw [h] at hnone
    cases hnone
  · rename_i hsome
    rw [h] at hsome
    cases hsome
    rfl

theorem completeMessages_eq_nil_iff {buffer : Bytes} :
    completeMessages buffer = [] ↔ extractCompleteMessage buffer = none := by
  cases h : extractCompleteMessage buffer with
  | none => simp [completeMessages_none h]
  | some r => simp [completeMessages_some h]

/-! ## One event -/

variable {s : Server} {e : EpollEvent} {conn : ClientConnection}

/-- Handing a message on is noted, and nothing else changes but what is to be sent. This holds
    whether the message can be decoded or not: the note is made before the decoder runs. -/
theorem onClientMessage_respects (fd : Fd) (msg : Bytes) (now : UInt64) (s : Server) :
    Respects (fun _ t => t.outline = (s.noted fd msg).outline) Failure.IsThrown
      (Server.onClientMessage fd msg now) s := by
  by_cases hignored : Ignored msg
  · exact .of_ok (onClientMessage_ignored hignored fd now s) rfl
  · cases hdecode : Serializer.deserialize msg with
    | ok m =>
      obtain ⟨s', hs', houtline⟩ := onClientMessage_ok hignored hdecode fd now s
      exact .of_ok hs' houtline
    | error x =>
      -- the decoder throws; what it throws is an exception
      obtain ⟨s', hs', houtline⟩ := onClientMessage_error hignored hdecode fd now s
      refine ⟨?_, fun hx => ?_⟩
      · rw [finalState_error hs']
        exact houtline
      · rw [hs'] at hx
        cases hx
        exact deserialize_isThrown hdecode

/-- The rest of the event does not touch what has been received. After the message, the event may
    still have something to write. -/
theorem handedOn_respects (e : EpollEvent) (msg : Bytes) (s : Server) :
    Respects (fun _ t => t.outline = (s.noted e.fd msg).outline) Failure.IsThrown
      ((Server.onClientMessage e.fd msg e.now >>= fun _ => pure true) >>= fun goesOn =>
        if goesOn ∧ e.writable then ServerHandler.write e else pure ()) s := by
  have hmessage := (onClientMessage_respects e.fd msg e.now s).bind_pure fun _ => true
  refine hmessage.bind (fun goesOn s' hs' => ?_) (fun _ h => h) fun _ _ _ h => h
  by_cases hwrites : goesOn ∧ e.writable
  · rw [if_pos hwrites]
    obtain ⟨t, ht, houtline⟩ := write_ok e s'
    exact .of_ok ht (houtline.trans hs')
  · rw [if_neg hwrites]
    exact .pure () hs'

/-- After the event every complete message of `buffer` has been handed on, in order, and there is no
    complete frame in the receive buffer. -/
structure Server.ServesAll (s : Server) (e : EpollEvent) (buffer : Bytes) : Prop where
  inBounds : ∀ s', ServerHandler.handleEvent e s ≠ .error .outOfBounds s'
  handedOn : (finalState (ServerHandler.handleEvent e) s).handedOn
    = s.handedOn ++ (completeMessages buffer).map (e.fd, ·)
  nothingLeft : ∃ conn, (finalState (ServerHandler.handleEvent e) s).connections e.fd = some conn ∧
    extractCompleteMessage conn.recvBuffer = none

section Readable

variable (hup : e.hangUp = false) (hreadable : e.readable = true)
  (hdone : s.tlsWrapper e.fd = some (some ⟨true⟩)) (hclient : s.clients e.fd = some ())
  (hconn : s.connections e.fd = some conn) (hopen : (conn.tryReceive e.net).1 = true)

include hup hreadable hdone hclient hconn hopen

theorem readable_none (hnext : nextMessage (conn.received e.net).recvBuffer = .ok none) :
    ServerHandler.handleEvent e s = .ok () (s.setConnection e.fd (conn.received e.net)) := by
  rw [handleEvent_done hup hdone rfl, if_pos hreadable,
    bind_ok (receive_none hclient hconn hopen hnext), if_neg (by simp)]
  rfl

/-- A header whose sum wraps: the extraction reads past the end of the buffer. -/
theorem readable_error {x : Failure}
    (hnext : nextMessage (conn.received e.net).recvBuffer = .error x) :
    ServerHandler.handleEvent e s = .error x (s.setConnection e.fd (conn.received e.net)) := by
  rw [handleEvent_done hup hdone rfl, if_pos hreadable,
    bind_error (receive_error hclient hconn hopen hnext)]

/-- A message: it is handed on, and the rest of the buffer stays. That the rest stays is the point
    of this module. The client's loop would go on with it. -/
theorem readable_some {msg rest : Bytes}
    (hnext : nextMessage (conn.received e.net).recvBuffer = .ok (some (msg, rest))) :
    Respects (fun _ t => t.handedOn = s.handedOn ++ [(e.fd, msg)] ∧
        ∃ conn, t.connections e.fd = some conn ∧ conn.recvBuffer = rest)
      Failure.IsThrown (ServerHandler.handleEvent e) s := by
  let kept := s.setConnection e.fd { conn.received e.net with recvBuffer := rest }
  have hevent : ServerHandler.handleEvent e s
      = ((Server.onClientMessage e.fd msg e.now >>= fun _ => pure true) >>= fun goesOn =>
        if goesOn ∧ e.writable then ServerHandler.write e else pure ()) kept := by
    rw [handleEvent_done hup hdone rfl, if_pos hreadable]
    exact bind_congr_run (receive_some hclient hconn hopen hnext) _
  refine .of_run hevent (handedOn_respects e msg kept) fun t ht => ⟨?_, ?_⟩
  · exact congrArg Outline.handedOn ht
  · -- the connection was put back with `rest`, and the outline says that nothing later changed it
    have hbuffer : (t.connections e.fd).map ClientConnection.recvBuffer = some rest := by
      have houtline := congrArg (Outline.recvBuffer · e.fd) ht
      simpa [Server.outline, Server.noted, kept, Server.setConnection] using houtline
    exact Option.map_eq_some_iff.mp hbuffer

/-- With no complete frame there is nothing to serve, and the event serves all of it. -/
theorem servesAll_of_none (hnext : nextMessage (conn.received e.net).recvBuffer = .ok none)
    (hframe : extractCompleteMessage (conn.received e.net).recvBuffer = none) :
    s.ServesAll e (conn.received e.net).recvBuffer := by
  have hok := readable_none hup hreadable hdone hclient hconn hopen hnext
  refine ⟨fun s' h => ?_, ?_, conn.received e.net, ?_, hframe⟩
  · rw [hok] at h
    cases h
  · rw [finalState_ok hok, completeMessages_none hframe]
    simp [Server.setConnection]
  · rw [finalState_ok hok]
    simp [Server.setConnection]

theorem servesAll_iff_of_some {msg rest : Bytes}
    (hnext : nextMessage (conn.received e.net).recvBuffer = .ok (some (msg, rest)))
    (hframe : extractCompleteMessage (conn.received e.net).recvBuffer = some (msg, rest)) :
    s.ServesAll e (conn.received e.net).recvBuffer ↔ completeMessages rest = [] := by
  have hevent := readable_some hup hreadable hdone hclient hconn hopen hnext
  obtain ⟨hhanded, conn', hconn', hrest⟩ := hevent.state
  constructor
  · -- the buffer that is left is `rest`, so `rest` has no complete frame
    intro h
    obtain ⟨conn'', hconn'', hnone⟩ := h.nothingLeft
    rw [hconn'] at hconn''
    cases hconn''
    rw [hrest] at hnone
    exact completeMessages_none hnone
  · intro hnil
    refine ⟨fun s' h => hevent.fails h, ?_, conn', hconn', ?_⟩
    · rw [hhanded, completeMessages_some hframe, hnil]
      rfl
    · rw [hrest]
      exact completeMessages_eq_nil_iff.mp hnil

end Readable

/-- **When no message waits**: an `EPOLLIN` event at a connection that is open and has done its
    handshake leaves no message in the receive buffer if and only if the buffer, with what has been
    received, does not hold more than one message and does not begin with a header whose sum wraps.

    There are three cases, which `nextMessage` tells apart: the header wraps, and the server reads
    out of bounds; there is no complete frame; or there is one, and all depends on what is behind
    it. -/
theorem nothing_waits_iff {s : Server} {e : EpollEvent} {conn : ClientConnection}
    (hup : e.hangUp = false) (hreadable : e.readable = true)
    (hdone : s.tlsWrapper e.fd = some (some ⟨true⟩)) (hclient : s.clients e.fd = some ())
    (hconn : s.connections e.fd = some conn) (hopen : (conn.tryReceive e.net).1 = true) :
    s.ServesAll e (conn.received e.net).recvBuffer ↔
      ¬WrapsAround (conn.received e.net).recvBuffer ∧
        (completeMessages (conn.received e.net).recvBuffer).length ≤ 1 := by
  by_cases hwraps : WrapsAround (conn.received e.net).recvBuffer
  · have herror := readable_error hup hreadable hdone hclient hconn hopen
      (nextMessage_of_wrapsAround hwraps)
    exact iff_of_false (fun h => h.inBounds _ herror) fun h => h.1 hwraps
  have hnext := nextMessage_eq hwraps
  cases hframe : extractCompleteMessage (conn.received e.net).recvBuffer with
  | none =>
    rw [hframe] at hnext
    exact iff_of_true (servesAll_of_none hup hreadable hdone hclient hconn hopen hnext hframe)
      ⟨hwraps, by simp [completeMessages_none hframe]⟩
  | some r =>
    rw [hframe] at hnext
    rw [servesAll_iff_of_some hup hreadable hdone hclient hconn hopen hnext hframe,
      completeMessages_some hframe]
    simp [hwraps]

/-! ## A client with two messages -/

/-- A server with one client, whose handshake is done. -/
def oneClient : Server := (Server.started 3 {}).withClient 5 { transport := .tls {} } ⟨true⟩

def hiMessage : Bytes := bytes "\x00\x00\x00\x00\x00\x02hi"

/-- One message in a packet. -/
theorem one_message_served :
    let e : EpollEvent :=
      { fd := 5, readable := true, net := [.data ⟨frame (frame hiMessage), by decide, by decide⟩] }
    oneClient.ServesAll e (frame hiMessage) := by
  intro e
  have hconn : oneClient.connections e.fd = some { transport := .tls {} } := rfl
  refine (nothing_waits_iff rfl rfl rfl rfl hconn rfl).mpr
    ⟨fun h => absurd h.2.1 (by decide), ?_⟩
  show (completeMessages (frame hiMessage)).length ≤ 1
  rw [completeMessages_some (show extractCompleteMessage (frame hiMessage) = some (hiMessage, [])
    from rfl), completeMessages_none rfl]
  decide

/-- Two messages in a packet, as `flush` makes it of two calls of `queue_send`. The second one
    stays where it is. -/
theorem second_message_waits :
    let e : EpollEvent := { fd := 5, readable := true, net :=
      [.data ⟨frame (frame hiMessage ++ frame hiMessage), by decide, by decide⟩] }
    (finalState (ServerHandler.handleEvent e) oneClient).handedOn = [(5, hiMessage)] ∧
      ((finalState (ServerHandler.handleEvent e) oneClient).connections 5).map
        ClientConnection.recvBuffer = some (frame hiMessage) ∧
      ¬oneClient.ServesAll e (frame hiMessage ++ frame hiMessage) := by
  intro e
  have hleft : ((finalState (ServerHandler.handleEvent e) oneClient).connections 5).map
      ClientConnection.recvBuffer = some (frame hiMessage) := by decide +kernel
  refine ⟨by decide +kernel, hleft, fun h => ?_⟩
  obtain ⟨conn, hconn, hnone⟩ := h.nothingLeft
  have hbuffer : conn.recvBuffer = frame hiMessage := by
    rw [show (5 : Fd) = e.fd from rfl, hconn] at hleft
    exact Option.some.inj hleft
  rw [hbuffer] at hnone
  exact absurd hnone (by decide)

end Messenger
