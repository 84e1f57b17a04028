import Mathlib.Algebra.Order.BigOperators.Group.List
import Messenger.Proof.Transport

/-!
# What `flush` puts on the socket

Each call of `flush` offers all of the send buffer to the socket as one packet, behind a
header made for that call, and takes the value of the write less four as the number of
buffered bytes that are out. That is right when the write takes everything or nothing. A
write that stops elsewhere leaves a header on the socket that announces more than follows:
the next call makes a header of its own.

A stream that has been flushed whole goes through both framers and comes out on the other
side as the messages that were queued (`double_framing_transparent`).

The last part is the converse, for one write that stops in the middle
(`not_wellFramed_of_short`). It is not enough that the stream is not the expected one: it
must not be any packets at all that make up the queued bytes. Lengths rule out a header
that is cut; for a packet that is cut, the sum of the bytes shows that there is a header
too many.
-/

set_option autoImplicit false

namespace Messenger

open Messenger.Lib

/-! ## One call -/

/-- The write takes nothing. -/
def SendResult.Idle (r : SendResult) : Prop := r.accepted = none ∨ r.accepted = some 0

/-- The write takes all that it is offered. -/
def SendResult.TakesAll (r : SendResult) (offered : Bytes) : Prop :=
  ∃ n, r.accepted = some n ∧ offered.length ≤ n

theorem sendBuffer_length (data : Bytes) : (sendBuffer data).length = 4 + data.length := by
  simp [sendBuffer]

theorem send_eq (transport : StreamTransport) (data : Bytes) (r : SendResult) :
    transport.send data r = streamSend data r := by
  cases transport with
  | tcp t => rfl
  | tls t => rfl

/-- A write of `n` bytes drops `n - 4` from the buffer, and none if it has not got past the header.
    A socket cannot take more than it is offered, which is where the minimum comes from. -/
theorem flushBuffer_accepted (transport : StreamTransport) {buffer : Bytes} (hne : buffer ≠ [])
    {r : SendResult} {n : Nat} (hr : r.accepted = some n) :
    (flushBuffer transport buffer r).buffer = buffer.drop (n - 4) ∧
      (flushBuffer transport buffer r).emitted = (sendBuffer buffer).take n := by
  have hnonempty : ¬buffer.isEmpty = true := by simp [hne]
  have hcount : r.count (sendBuffer buffer) = min (n : Int) (4 + buffer.length) := by
    simp [SendResult.count, hr, sendBuffer_length]
  have hemitted : r.emitted (sendBuffer buffer) = (sendBuffer buffer).take n := by
    simp [SendResult.emitted, hr]
  unfold flushBuffer
  rw [if_neg hnonempty, send_eq, streamSend, hcount, hemitted]
  dsimp only
  split
  · refine ⟨?_, rfl⟩
    rcases Nat.lt_or_ge n (4 + buffer.length) with hn | hn
    · have hsent : (min (n : Int) (4 + buffer.length) - 4).toNat = n - 4 := by omega
      rw [hsent]
    · have hsent : (min (n : Int) (4 + buffer.length) - 4).toNat = buffer.length := by omega
      rw [hsent, List.drop_length, List.drop_eq_nil_of_le (by omega)]
  · have hn : n - 4 = 0 := by
      have hlength := List.length_pos_iff.mpr hne
      omega
    rw [hn]
    exact ⟨rfl, rfl⟩

/-- A write that takes nothing changes nothing: a failed one returns `-5` here, which is not a count
    of bytes. -/
theorem flushBuffer_idle (transport : StreamTransport) (buffer : Bytes) {r : SendResult}
    (hr : r.Idle) :
    (flushBuffer transport buffer r).buffer = buffer ∧
      (flushBuffer transport buffer r).emitted = [] := by
  by_cases hne : buffer = []
  · subst hne
    exact ⟨rfl, rfl⟩
  · rcases hr with hr | hr
    · have hnonempty : ¬buffer.isEmpty = true := by simp [hne]
      unfold flushBuffer
      rw [if_neg hnonempty, send_eq, streamSend]
      simp [SendResult.count, SendResult.emitted, hr]
    · exact flushBuffer_accepted transport hne hr

/-- A write that takes everything empties the buffer, and a whole packet is on the socket. -/
theorem flushBuffer_all (transport : StreamTransport) {buffer : Bytes} (hne : buffer ≠ [])
    {r : SendResult} (hr : r.TakesAll (sendBuffer buffer)) :
    (flushBuffer transport buffer r).buffer = [] ∧
      (flushBuffer transport buffer r).emitted = sendBuffer buffer := by
  obtain ⟨n, hn, hlength⟩ := hr
  obtain ⟨hbuffer, hemitted⟩ := flushBuffer_accepted transport hne hn
  rw [hbuffer, hemitted]
  refine ⟨List.drop_eq_nil_of_le ?_, List.take_of_length_le hlength⟩
  rw [sendBuffer_length] at hlength
  omega

/-! ## Both framers -/

theorem foldl_queueSend (msgs : List Bytes) (c : ClientConnection) :
    (msgs.foldl ClientConnection.queueSend c).sendBuffer
      = msgs.foldl (fun buffer data => FramerMessage.formMessage data buffer) c.sendBuffer := by
  induction msgs generalizing c with
  | nil => rfl
  | cons m msgs ih => exact ih (c.queueSend m)

theorem length_flatMap_frame (msgs : List Bytes) :
    (msgs.flatMap frame).length = (msgs.map fun m => 4 + m.length).sum := by
  induction msgs with
  | nil => rfl
  | cons m msgs ih => rw [List.flatMap_cons, List.length_append, frame_length, ih, List.map_cons,
      List.sum_cons]

/-- A packet that arrives whole is handed to the framer, behind what it had. -/
theorem Client.onServerMessage_received (c : Client) {net net' : List RecvResult}
    {packet lost : Bytes} (hloop : receiveLoop [] net = ⟨⟨.ok, packet, 0⟩, lost, net'⟩)
    {msgs : List Bytes} {rest : Bytes}
    (hdrain : drainMessages (c.recvBuffer ++ packet) = .ok (msgs, rest)) :
    ∃ c', c.onServerMessage net = .ok (msgs, c', net') ∧ c'.recvBuffer = rest := by
  obtain ⟨transport, hcall⟩ := c.transport.receive_eq net
  refine ⟨{ transport := transport, recvBuffer := rest }, ?_, rfl⟩
  unfold Client.onServerMessage
  rw [hcall, hloop]
  dsimp only
  rw [hdrain]
  rfl

/-- Whatever arrives without making a packet complete is not handed to the framer at all. -/
theorem Client.onServerMessage_nothing (c : Client) {net : List RecvResult}
    (hloop : (receiveLoop [] net).result.status ≠ .ok) :
    ∃ c' net', c.onServerMessage net = .ok ([], c', net') ∧ c'.recvBuffer = c.recvBuffer := by
  obtain ⟨transport, hcall⟩ := c.transport.receive_eq net
  refine ⟨{ c with transport := transport }, (receiveLoop [] net).net, ?_, rfl⟩
  unfold Client.onServerMessage
  rw [hcall]
  dsimp only
  generalize (receiveLoop [] net).result.status = status at hloop
  cases status with
  | ok => exact absurd rfl hloop
  | _ => rfl

/-- **Two framers, one after the other, are none.** Messages that are queued and flushed at once
    come out of the client's loop as they went in, however the socket cuts the packet. The bound on
    the sizes is that of the inner framer, whose sum must not wrap; the header of the outer one is
    then large enough. -/
theorem double_framing_transparent (msgs : List Bytes) (hne : msgs ≠ [])
    (hsize : (msgs.map fun m => 4 + m.length).sum < 2 ^ 32 - 4) (conn : ClientConnection)
    (hconn : conn.sendBuffer = []) (client : Client) (hclient : client.recvBuffer = [])
    (r : SendResult)
    (hr : r.TakesAll (sendBuffer (msgs.foldl ClientConnection.queueSend conn).sendBuffer))
    (chunks : List Chunk)
    (hcut : chunks.flatMap Chunk.bytes
      = ((msgs.foldl ClientConnection.queueSend conn).flush r).2.2) (net : List RecvResult) :
    ((msgs.foldl ClientConnection.queueSend conn).flush r).2.1.sendBuffer = [] ∧
      ∃ client', client.onServerMessage (chunks.map .data ++ net) = .ok (msgs, client', net) ∧
        client'.recvBuffer = [] := by
  have hmsgs : ∀ m ∈ msgs, m.length < 2 ^ 32 - 4 := by
    intro m hm
    have hle := List.single_le_sum (fun _ _ => Nat.zero_le _) _
      (List.mem_map_of_mem (f := fun m : Bytes => 4 + m.length) hm)
    omega
  have hqueued : (msgs.foldl ClientConnection.queueSend conn).sendBuffer = msgs.flatMap frame := by
    rw [foldl_queueSend, hconn]
    exact formStream_eq hmsgs
  have hlength := length_flatMap_frame msgs
  have hstream : msgs.flatMap frame ≠ [] := fun h => hne (flatMap_frame_eq_nil h)
  rw [hqueued] at hr
  obtain ⟨hbuffer, hemitted⟩ := flushBuffer_all
    (msgs.foldl ClientConnection.queueSend conn).transport hstream hr
  rw [← hqueued] at hbuffer hemitted
  refine ⟨hbuffer, ?_⟩
  have hpacket : chunks.flatMap Chunk.bytes = frame (msgs.flatMap frame) := by
    rw [hcut, ← sendBuffer_eq (by omega), ← hqueued]
    exact hemitted
  refine client.onServerMessage_received
    (receiveLoop_packet (by omega) net hpacket (frame_ne_nil _).symm) ?_
  rw [hclient]
  exact drainMessages_stream hmsgs

theorem double_framing_two_messages :
    ∃ client', Client.onServerMessage { transport := .tls {} }
        ([⟨bytes "\x00\x00\x00\x0c\x00", by decide, by decide⟩,
          ⟨bytes "\x00\x00\x02hi\x00\x00\x00\x02yo", by decide, by decide⟩].map .data ++ [])
        = .ok ([bytes "hi", bytes "yo"], client', []) ∧ client'.recvBuffer = [] :=
  (double_framing_transparent [bytes "hi", bytes "yo"] (by decide) (by decide)
    { transport := .tcp {} } rfl { transport := .tls {} } rfl { accepted := some 16 }
    ⟨16, rfl, by decide⟩ _ (by decide) []).2

/-! ## Runs of a sender

The two classes that hold back what they send are the connections of the server and the
sessions between peers. -/

/-- The two classes that hold back what they send. -/
inductive Sender
  | connection (c : ClientConnection)
  | peer (session : PeerSession)

namespace Sender

def buffer : Sender → Bytes
  | .connection c => c.sendBuffer
  | .peer session => session.out

def queue : Sender → Bytes → Sender
  | .connection c, data => .connection (c.queueSend data)
  | .peer session, data => .peer (session.sendToBuffer data)

/-- The sender after a call of `flush`, and the bytes on the socket. -/
def flush : Sender → SendResult → Sender × Bytes
  | .connection c, r => (.connection (c.flush r).2.1, (c.flush r).2.2)
  | .peer session, r => (.peer (session.flush r).2.1, (session.flush r).2.2)

end Sender

inductive SenderEvent
  | queue (data : Bytes)
  | flush (r : SendResult)
  deriving DecidableEq, Repr

/-- A sender, and all that has gone out on its socket. -/
structure Outbox where
  sender : Sender
  stream : Bytes := []

/-- Queueing puts nothing on the socket, and writing is the only thing that does. -/
def Outbox.step (o : Outbox) : SenderEvent → Outbox
  | .queue data => { o with sender := o.sender.queue data }
  | .flush r => ⟨(o.sender.flush r).1, o.stream ++ (o.sender.flush r).2⟩

def Outbox.run (o : Outbox) (events : List SenderEvent) : Outbox := events.foldl Outbox.step o

/-- The messages that are queued in a run. -/
def queuedMessages (events : List SenderEvent) : List Bytes :=
  events.filterMap fun
    | .queue data => some data
    | .flush _ => none

/-- Packets, each behind its length, that together are the bytes `queued`. How the bytes are divided
    among the packets is left open, since the receiver puts them together again. -/
def WellFramed (stream queued : Bytes) : Prop :=
  ∃ packets : List Bytes, (∀ p ∈ packets, p.length < 2 ^ 32) ∧ packets.flatMap frame = stream ∧
    packets.flatten = queued

/-- No write of the run stops in the middle, or is offered more than a header can say. -/
def Outbox.WritesWhole (o : Outbox) : List SenderEvent → Prop
  | [] => True
  | .queue data :: events => (o.step (.queue data)).WritesWhole events
  | .flush r :: events =>
    (o.sender.buffer = [] ∨ r.Idle ∨
        r.TakesAll (sendBuffer o.sender.buffer) ∧ o.sender.buffer.length < 2 ^ 32) ∧
      (o.step (.flush r)).WritesWhole events

variable {o : Outbox}

theorem step_queue_buffer (o : Outbox) (data : Bytes) :
    (o.step (.queue data)).sender.buffer = FramerMessage.formMessage data o.sender.buffer := by
  obtain ⟨sender, stream⟩ := o
  cases sender with
  | connection c => rfl
  | peer session => rfl

theorem step_flush (o : Outbox) (r : SendResult) :
    ∃ transport, (o.step (.flush r)).sender.buffer
      = (flushBuffer transport o.sender.buffer r).buffer ∧
      (o.step (.flush r)).stream
        = o.stream ++ (flushBuffer transport o.sender.buffer r).emitted := by
  obtain ⟨sender, stream⟩ := o
  cases sender with
  | connection c => exact ⟨c.transport, rfl, rfl⟩
  | peer session => exact ⟨session.transport, rfl, rfl⟩

theorem step_flush_empty (hempty : o.sender.buffer = []) (r : SendResult) :
    (o.step (.flush r)).sender.buffer = o.sender.buffer ∧
      (o.step (.flush r)).stream = o.stream := by
  obtain ⟨transport, hbuffer, hstream⟩ := step_flush o r
  rw [hbuffer, hstream, hempty]
  exact ⟨rfl, List.append_nil _⟩

theorem step_flush_idle {r : SendResult} (hr : r.Idle) :
    (o.step (.flush r)).sender.buffer = o.sender.buffer ∧
      (o.step (.flush r)).stream = o.stream := by
  obtain ⟨transport, hbuffer, hstream⟩ := step_flush o r
  obtain ⟨hsame, hnothing⟩ := flushBuffer_idle transport o.sender.buffer hr
  rw [hbuffer, hstream, hsame, hnothing]
  exact ⟨rfl, List.append_nil _⟩

theorem step_flush_accepted {r : SendResult} (hne : o.sender.buffer ≠ []) {n : Nat}
    (hr : r.accepted = some n) :
    (o.step (.flush r)).sender.buffer = o.sender.buffer.drop (n - 4) ∧
      (o.step (.flush r)).stream = o.stream ++ (sendBuffer o.sender.buffer).take n := by
  obtain ⟨transport, hbuffer, hstream⟩ := step_flush o r
  obtain ⟨hleft, hemitted⟩ := flushBuffer_accepted transport hne hr
  rw [hbuffer, hstream, hleft, hemitted]
  exact ⟨rfl, rfl⟩

theorem step_flush_all {r : SendResult} (hne : o.sender.buffer ≠ [])
    (hr : r.TakesAll (sendBuffer o.sender.buffer)) :
    (o.step (.flush r)).sender.buffer = [] ∧
      (o.step (.flush r)).stream = o.stream ++ sendBuffer o.sender.buffer := by
  obtain ⟨transport, hbuffer, hstream⟩ := step_flush o r
  obtain ⟨hgone, hemitted⟩ := flushBuffer_all transport hne hr
  rw [hbuffer, hstream, hgone, hemitted]
  exact ⟨rfl, rfl⟩

/-- What is on the socket is well framed, and what is queued besides is in the buffer. It is the
    invariant of a run whose writes are whole. -/
def Outbox.Accounts (o : Outbox) (queued : Bytes) : Prop :=
  ∃ sent, WellFramed o.stream sent ∧ sent ++ o.sender.buffer = queued

theorem WellFramed.concat {stream sent packet : Bytes} (h : WellFramed stream sent)
    (hpacket : packet.length < 2 ^ 32) : WellFramed (stream ++ frame packet) (sent ++ packet) := by
  obtain ⟨packets, hsmall, rfl, rfl⟩ := h
  refine ⟨packets ++ [packet], ?_, ?_, ?_⟩
  · intro p hp
    rcases List.mem_append.mp hp with hp | hp
    · exact hsmall p hp
    · rw [List.mem_singleton.mp hp]
      exact hpacket
  · simp
  · simp

theorem formMessage_append (data before buffer : Bytes) :
    FramerMessage.formMessage data (before ++ buffer)
      = before ++ FramerMessage.formMessage data buffer := by
  unfold FramerMessage.formMessage
  rw [List.append_assoc, List.append_assoc, List.append_assoc]

/-- **One message more** in the buffer, and among what is queued. -/
theorem Outbox.Accounts.queue {queued : Bytes} (h : o.Accounts queued) (data : Bytes) :
    (o.step (.queue data)).Accounts (FramerMessage.formMessage data queued) := by
  obtain ⟨sent, hframed, rfl⟩ := h
  refine ⟨sent, hframed, ?_⟩
  rw [step_queue_buffer, formMessage_append]

/-- **One write.** It has nothing to do, or does nothing, or moves all of the buffer to the socket
    as one packet. -/
theorem Outbox.Accounts.flush {queued : Bytes} (h : o.Accounts queued) {r : SendResult}
    (hr : o.sender.buffer = [] ∨ r.Idle ∨
      r.TakesAll (sendBuffer o.sender.buffer) ∧ o.sender.buffer.length < 2 ^ 32) :
    (o.step (.flush r)).Accounts queued := by
  obtain ⟨sent, hframed, rfl⟩ := h
  by_cases hempty : o.sender.buffer = []
  · obtain ⟨hbuffer, hstream⟩ := step_flush_empty hempty r
    exact ⟨sent, hstream ▸ hframed, by rw [hbuffer]⟩
  rcases hr.resolve_left hempty with hidle | ⟨hall, hsize⟩
  · obtain ⟨hbuffer, hstream⟩ := step_flush_idle (o := o) hidle
    exact ⟨sent, hstream ▸ hframed, by rw [hbuffer]⟩
  · obtain ⟨hbuffer, hstream⟩ := step_flush_all hempty hall
    refine ⟨sent ++ o.sender.buffer, ?_, ?_⟩
    · rw [hstream, sendBuffer_eq hsize]
      exact hframed.concat hsize
    · rw [hbuffer, List.append_nil]

/-- **A run.** By induction on the events, with what is queued so far as the accumulator. -/
theorem Outbox.Accounts.run {queued : Bytes} (h : o.Accounts queued) {events : List SenderEvent}
    (hwhole : o.WritesWhole events) :
    (o.run events).Accounts ((queuedMessages events).foldl
      (fun buffer data => FramerMessage.formMessage data buffer) queued) := by
  induction events generalizing o queued with
  | nil => exact h
  | cons e events ih =>
    cases e with
    | queue data => exact ih (h.queue data) hwhole
    | flush r => exact ih (h.flush hwhole.1) hwhole.2

/-! ## A write that stops in the middle -/

/-- The sum of the bytes. It tells how many headers there are apart from those of nothing: a header
    of zeros adds nothing, any other does. -/
def byteSum (s : Bytes) : Nat := (s.map UInt8.toNat).sum

theorem byteSum_append (s t : Bytes) : byteSum (s ++ t) = byteSum s + byteSum t := by
  unfold byteSum
  rw [List.map_append, List.sum_append]

theorem header_inj {m n : Nat} (hm : m < 2 ^ 32) (hn : n < 2 ^ 32)
    (h : beBytes 4 m = beBytes 4 n) : m = n := by
  have hvalue := congrArg beValue h
  rw [beValue_beBytes, beValue_beBytes, show 256 ^ 4 = 2 ^ 32 from rfl, Nat.mod_eq_of_lt hm,
    Nat.mod_eq_of_lt hn] at hvalue
  exact hvalue

theorem byteSum_header_pos {n : Nat} (hpos : 0 < n) (hn : n < 2 ^ 32) :
    0 < byteSum (beBytes 4 n) := by
  apply Nat.pos_of_ne_zero
  intro hsum
  have hzeros : beBytes 4 n = beBytes 4 0 := by
    rw [show beBytes 4 0 = List.replicate 4 0 by decide, List.eq_replicate_iff]
    refine ⟨beBytes_length 4 n, ?_⟩
    intro b hb
    have hzero := List.sum_eq_zero_iff.mp hsum b.toNat (List.mem_map_of_mem hb)
    exact UInt8.toNat_inj.mp hzero
  exact hpos.ne' (header_inj hn (by decide) hzeros)

/-- A well-framed stream begins with the packet that its first header announces. -/
theorem WellFramed.first {n : Nat} (hn : n < 2 ^ 32) {rest queued : Bytes}
    (h : WellFramed (beBytes 4 n ++ rest) queued) :
    ∃ (packet : Bytes) (others : List Bytes), packet.length = n ∧
      packet ++ others.flatMap frame = rest ∧
      packet ++ others.flatten = queued := by
  obtain ⟨packets, hsmall, hstream, hqueued⟩ := h
  cases packets with
  | nil =>
    have hlength := congrArg List.length hstream
    rw [List.flatMap_nil, List.length_nil, List.length_append, beBytes_length] at hlength
    omega
  | cons packet others =>
    rw [List.flatMap_cons, frame, List.append_assoc] at hstream
    obtain ⟨hheader, hrest⟩ := List.append_inj hstream (by simp)
    exact ⟨packet, others, header_inj (hsmall packet List.mem_cons_self) hn hheader, hrest, hqueued⟩

theorem WellFramed.length {stream queued : Bytes} (h : WellFramed stream queued) :
    ∃ k, stream.length = 4 * k + queued.length := by
  obtain ⟨packets, -, rfl, rfl⟩ := h
  refine ⟨packets.length, ?_⟩
  induction packets with
  | nil => rfl
  | cons p packets ih =>
    rw [List.flatMap_cons, List.flatten_cons, List.length_append, List.length_append, ih,
      frame_length, List.length_cons]
    omega

theorem byteSum_empty_frames {packets : List Bytes} (h : packets.flatten = []) :
    byteSum (packets.flatMap frame) = 0 := by
  induction packets with
  | nil => rfl
  | cons p packets ih =>
    rw [List.flatten_cons, List.append_eq_nil_iff] at h
    rw [List.flatMap_cons, byteSum_append, ih h.2, h.1]
    rfl

/-- **A short write, and then a whole one.** Too few bytes have followed the first header, or not
    all of it is there. The second case is the hard one: the lengths are those of one more header,
    which could be that of an empty packet. The header of what was left is not all zeros, and so the
    stream has more in it than the queued bytes and empty packets would. -/
theorem not_wellFramed_of_short {buffer : Bytes} (hsize : buffer.length < 2 ^ 32) {n : Nat}
    (hpos : 0 < n) (hshort : n < (sendBuffer buffer).length) :
    ¬WellFramed ((sendBuffer buffer).take n ++ sendBuffer (buffer.drop (n - 4))) buffer := by
  intro h
  rw [sendBuffer_length] at hshort
  rw [sendBuffer_eq hsize, sendBuffer_eq (by rw [List.length_drop]; omega), frame, frame] at h
  rcases Nat.lt_or_ge n 4 with hn | hn
  · -- The length of the stream leaves no room for a part of a header.
    obtain ⟨k, hk⟩ := h.length
    simp only [List.length_append, List.length_take, List.length_drop, beBytes_length] at hk
    omega
  · -- The packet that the first header announces is all there is, so the others are empty;
    -- but then the second header cannot be there.
    rw [List.take_append, beBytes_length, List.take_of_length_le (by simp; omega),
      List.append_assoc] at h
    obtain ⟨packet, others, hlength, hrest, hqueued⟩ := h.first hsize
    have hwhole : packet = buffer ∧ others.flatten = [] :=
      List.append_inj (hqueued.trans (List.append_nil buffer).symm) hlength
    obtain ⟨rfl, hempty⟩ := hwhole
    have hsum := congrArg byteSum hrest
    rw [byteSum_append, byteSum_empty_frames hempty, byteSum_append, byteSum_append] at hsum
    have hsplit := byteSum_append (packet.take (n - 4)) (packet.drop (n - 4))
    rw [List.take_append_drop] at hsplit
    have hheader : 0 < byteSum (beBytes 4 (packet.drop (n - 4)).length) := by
      apply byteSum_header_pos
      · rw [List.length_drop]
        omega
      · rw [List.length_drop]
        omega
    omega

/-- Of the writes that empty a buffer one stops in the middle, the last takes what is left, and the
    others take nothing. Two that stop in the middle may make up for each other, so one is what can
    be said in general. -/
inductive OneShortWrite (buffer : Bytes) : List SendResult → Prop
  | intro {before after : List SendResult} {r last : SendResult} {n m : Nat}
      (hne : buffer ≠ []) (hbefore : ∀ q ∈ before, q.Idle) (hr : r.accepted = some n) (hpos : 0 < n)
      (hshort : n < (sendBuffer buffer).length) (hafter : ∀ q ∈ after, q.Idle)
      (hlast : last.accepted = some m) (hall : (sendBuffer buffer).length ≤ m) :
      OneShortWrite buffer (before ++ r :: (after ++ [last]))

theorem run_append (o : Outbox) (events later : List SenderEvent) :
    o.run (events ++ later) = (o.run events).run later := List.foldl_append ..

theorem run_queue (o : Outbox) (msgs : List Bytes) :
    (o.run (msgs.map .queue)).sender.buffer
        = msgs.foldl (fun buffer data => FramerMessage.formMessage data buffer) o.sender.buffer ∧
      (o.run (msgs.map .queue)).stream = o.stream := by
  induction msgs generalizing o with
  | nil => exact ⟨rfl, rfl⟩
  | cons m msgs ih =>
    obtain ⟨hbuffer, hstream⟩ := ih (o.step (.queue m))
    rw [step_queue_buffer] at hbuffer
    exact ⟨hbuffer, hstream⟩

theorem run_idle {results : List SendResult} (h : ∀ q ∈ results, q.Idle) (o : Outbox) :
    (o.run (results.map .flush)).sender.buffer = o.sender.buffer ∧
      (o.run (results.map .flush)).stream = o.stream := by
  induction results generalizing o with
  | nil => exact ⟨rfl, rfl⟩
  | cons r results ih =>
    obtain ⟨hbuffer, hstream⟩ :=
      ih (fun q hq => h q (List.mem_cons_of_mem r hq)) (o.step (.flush r))
    obtain ⟨hbuffer', hstream'⟩ := step_flush_idle (o := o) (h r List.mem_cons_self)
    exact ⟨hbuffer.trans hbuffer', hstream.trans hstream'⟩

/-- A buffer that is emptied with one write that stops in the middle. The four parts of the run are
    followed one by one: nothing, the short write, nothing, the rest. -/
theorem run_oneShortWrite {results : List SendResult} (h : OneShortWrite o.sender.buffer results)
    (hsize : o.sender.buffer.length < 2 ^ 32) (hstart : o.stream = []) :
    (o.run (results.map .flush)).sender.buffer = [] ∧
      ¬WellFramed (o.run (results.map .flush)).stream o.sender.buffer := by
  cases h with
  | @intro before after r last n m hne hbefore hr hpos hshort hafter hlast hall =>
    have hsplit : (before ++ r :: (after ++ [last])).map SenderEvent.flush
        = before.map .flush ++ ([.flush r] ++ (after.map .flush ++ [.flush last])) := by simp
    rw [hsplit, run_append, run_append, run_append]
    -- The writes in the order of the run, each from where the one before it stopped.
    obtain ⟨hbuffer₁, hstream₁⟩ := run_idle hbefore o
    obtain ⟨hbuffer₂, hstream₂⟩ :=
      step_flush_accepted (o := o.run (before.map .flush)) (hbuffer₁ ▸ hne) hr
    rw [hbuffer₁] at hbuffer₂ hstream₂
    obtain ⟨hbuffer₃, hstream₃⟩ := run_idle hafter ((o.run (before.map .flush)).step (.flush r))
    rw [hbuffer₂] at hbuffer₃
    rw [hstream₂, hstream₁, hstart, List.nil_append] at hstream₃
    have hleft : o.sender.buffer.drop (n - 4) ≠ [] := by
      rw [sendBuffer_length] at hshort
      have hlength : 0 < (o.sender.buffer.drop (n - 4)).length := by
        rw [List.length_drop]
        have := List.length_pos_iff.mpr hne
        omega
      exact List.length_pos_iff.mp hlength
    have htakes : last.TakesAll (sendBuffer (o.sender.buffer.drop (n - 4))) := by
      refine ⟨m, hlast, ?_⟩
      rw [sendBuffer_length] at hall ⊢
      rw [List.length_drop]
      omega
    rw [← hbuffer₃] at hleft htakes
    obtain ⟨hbuffer₄, hstream₄⟩ := step_flush_all hleft htakes
    rw [hbuffer₃, hstream₃] at hstream₄
    refine ⟨hbuffer₄, ?_⟩
    have hframes := not_wellFramed_of_short hsize hpos hshort
    rw [← hstream₄] at hframes
    exact hframes

/-- **When partial writes do no harm**: when they are none. If every write of a run takes nothing
    or all, what is out is well framed; after one that stops elsewhere it is not. -/
theorem flushed_stream_framed (sender : Sender) (hempty : sender.buffer = []) :
    (∀ events : List SenderEvent, Outbox.WritesWhole ⟨sender, []⟩ events →
      (Outbox.run ⟨sender, []⟩ events).sender.buffer = [] →
        WellFramed (Outbox.run ⟨sender, []⟩ events).stream (formStream (queuedMessages events))) ∧
    ∀ (msgs : List Bytes) (results : List SendResult), (formStream msgs).length < 2 ^ 32 →
      OneShortWrite (formStream msgs) results →
        (Outbox.run ⟨sender, []⟩ (msgs.map .queue ++ results.map .flush)).sender.buffer = [] ∧
          ¬WellFramed (Outbox.run ⟨sender, []⟩ (msgs.map .queue ++ results.map .flush)).stream
            (formStream msgs) := by
  constructor
  · intro events hwhole hdone
    have hstart : Outbox.Accounts ⟨sender, []⟩ [] := by
      refine ⟨[], ⟨[], fun _ hp => (by cases hp), rfl, rfl⟩, ?_⟩
      exact hempty
    obtain ⟨sent, hframed, hsent⟩ := hstart.run hwhole
    rw [hdone, List.append_nil] at hsent
    rw [hsent] at hframed
    exact hframed
  · intro msgs results hsize hshort
    obtain ⟨hbuffer, hstream⟩ := run_queue ⟨sender, []⟩ msgs
    have hqueued : (Outbox.run ⟨sender, []⟩ (msgs.map .queue)).sender.buffer = formStream msgs := by
      rw [hbuffer, hempty]
      rfl
    rw [← hqueued] at hsize hshort ⊢
    rw [run_append]
    exact run_oneShortWrite hshort hsize hstream

-- Two short writes can make up for each other: here the two halves of a header that is all zeros
-- but for its last byte are the header of an empty packet.
example :
    let o := Outbox.run ⟨.peer { transport := .tcp {} }, []⟩
      [.queue (bytes "hi"), .flush { accepted := some 2 }, .flush { accepted := some 2 },
        .flush { accepted := some 10 }]
    o.stream = [[], formStream [bytes "hi"]].flatMap frame := by decide

theorem flushed_stream_of_two_writes :
    WellFramed (bytes "\x00\x00\x00\x06\x00\x00\x00\x02hi\x00\x00\x00\x06\x00\x00\x00\x02yo")
      (bytes "\x00\x00\x00\x02hi\x00\x00\x00\x02yo") := by
  have hwhole : Outbox.WritesWhole ⟨.peer { transport := .tcp {} }, []⟩
      [.queue (bytes "hi"), .flush { accepted := none }, .flush { accepted := some 10 },
        .queue (bytes "yo"), .flush { accepted := some 10 }] :=
    ⟨.inr (.inl (.inl rfl)), .inr (.inr ⟨⟨10, rfl, by decide⟩, by decide⟩),
      .inr (.inr ⟨⟨10, rfl, by decide⟩, by decide⟩), trivial⟩
  exact (flushed_stream_framed (.peer { transport := .tcp {} }) rfl).1 _ hwhole rfl

/-- Of the ten bytes of a packet the socket takes seven. -/
theorem short_write_breaks_stream :
    let o := Outbox.run ⟨.peer { transport := .tcp {} }, []⟩
      [.queue (bytes "hi"), .flush { accepted := some 7 }, .flush { accepted := some 7 }]
    o.sender.buffer = [] ∧
      o.stream = bytes "\x00\x00\x00\x06\x00\x00\x00\x00\x00\x00\x03\x02hi" ∧
      ¬WellFramed o.stream (formStream [bytes "hi"]) := by
  intro o
  have hstream : o.stream = (sendBuffer (formStream [bytes "hi"])).take 7
      ++ sendBuffer ((formStream [bytes "hi"]).drop 3) := by decide
  refine ⟨by decide, by decide, ?_⟩
  rw [hstream]
  exact not_wellFramed_of_short (by decide) (by decide) (by decide)

end Messenger
