import Messenger.Model.MessagingPeer
import Messenger.Proof.Framing
import Messenger.Proof.Peer.Events

/-!
# What goes through the buffers of a node

Let `G` be a property of messages. If a node is only told to send messages with this property, and
only frames of such messages come, then its buffers hold nothing else, and it hands nothing else
on (`handleEvent_carrying`). Of the callback it is enough to know that it answers a message with the
property by such messages (`Polite`).

The property is a parameter, so that the proof is about buffers only. It is used with `Honest` for
`G`: that a message is one of those that peers of a group say.

Reading keeps frames whole as the loop takes one after the other off the front, and what has been
received before it is nothing but frames by assumption. Writing does not: `flush` takes off what
the socket has taken, and that may be part of a frame. So for an event at which something is
written it is assumed that the rest is in frames again (`handleEvent_writable`); a socket that
takes all or nothing satisfies this.
-/

set_option autoImplicit false

namespace Messenger

open Messenger.Lib PeerNode

variable {G G' : Bytes → Prop} {buffer data : Bytes}

/-! ## Frames of good messages -/

/-- The buffer is a sequence of frames of messages with the property, and nothing else. Partial
    frames are left out, which is right for what is queued, and for what is received if packets come
    whole. -/
def Framed (G : Bytes → Prop) (buffer : Bytes) : Prop :=
  ∃ msgs : List Bytes, buffer = msgs.flatMap frame ∧ ∀ m ∈ msgs, G m

theorem Framed.nil : Framed G [] := ⟨[], rfl, fun _ h => by cases h⟩

theorem Framed.mono (hG : ∀ m, G m → G' m) (h : Framed G buffer) : Framed G' buffer := by
  obtain ⟨msgs, hbuffer, hmsgs⟩ := h
  exact ⟨msgs, hbuffer, fun m hm => hG m (hmsgs m hm)⟩

theorem Framed.append {more : Bytes} (h : Framed G buffer) (hmore : Framed G more) :
    Framed G (buffer ++ more) := by
  obtain ⟨msgs, rfl, hmsgs⟩ := h
  obtain ⟨msgs', rfl, hmsgs'⟩ := hmore
  refine ⟨msgs ++ msgs', List.flatMap_append.symm, fun m hm => ?_⟩
  exact (List.mem_append.mp hm).elim (hmsgs m) (hmsgs' m)

/-- A message that is queued is one more frame. The bound is that of the frame's length field, with
    the four bytes of the outer frame added. -/
theorem Framed.formMessage (hG : ∀ m, G m → m.length < 2 ^ 32 - 4) (h : Framed G buffer)
    (hdata : G data) : Framed G (FramerMessage.formMessage data buffer) := by
  have hshort : data.length < 2 ^ 32 := by
    have hlength := hG data hdata
    omega
  rw [formMessage_eq hshort]
  refine h.append ⟨[data], by simp, fun m hm => ?_⟩
  rw [List.mem_singleton.mp hm]
  exact hdata

/-- There is nothing in the buffer, or the loop finds a good message at its front. There is no third
    case, in which `extract_message` would fail or return something that has not been put in. -/
theorem Framed.next (hG : ∀ m, G m → m.length < 2 ^ 32 - 4) (h : Framed G buffer) :
    FramerMessage.hasMessageInBuffer buffer = false ∨
      ∃ msg rest, FramerMessage.hasMessageInBuffer buffer = true ∧
        FramerMessage.extractMessage buffer = .ok (msg, rest) ∧ G msg ∧ Framed G rest := by
  obtain ⟨msgs, rfl, hmsgs⟩ := h
  cases msgs with
  | nil => exact .inl rfl
  | cons msg msgs =>
    have hmsg : G msg := hmsgs msg List.mem_cons_self
    have hnext := nextMessage_frameDecoder.whole (hG msg hmsg) (msgs.flatMap frame)
    obtain ⟨hhas, hextract⟩ := nextMessage_eq_some hnext
    rw [List.flatMap_cons]
    refine .inr ⟨msg, msgs.flatMap frame, hhas, hextract, hmsg, msgs, rfl, fun m hm => ?_⟩
    exact hmsgs m (List.mem_cons_of_mem _ hm)

/-! ## Nodes -/

/-- Good messages are answered by good messages. Of the calls before this one nothing is asked: they
    have been looked at when they were made. -/
def Polite (G : Bytes → Prop) (callback : List (Fd × Bytes) → DataAnswer) : Prop :=
  ∀ calls fd msg, G msg → ∀ r ∈ (callback (calls ++ [(fd, msg)])).sent, G r.2

/-- The buffers hold good messages, and such have been handed on since the `n`-th. The callback is a
    field of the node, and the invariant says which one it is, since what it answers has to be
    known. -/
structure PeerNode.Carrying (G : Bytes → Prop) (n : Nat)
    (callback : Option (List (Fd × Bytes) → DataAnswer)) (s : PeerNode) : Prop where
  out : ∀ fd session, s.byFd fd = some session → Framed G session.out
  inBuffer : ∀ fd session, s.byFd fd = some session → Framed G session.inBuffer
  handedOn : ∀ call ∈ s.handedOn.drop n, G call.2
  callback : s.callbacks.onData = callback

section

variable {n : Nat} {callback : Option (List (Fd × Bytes) → DataAnswer)} {s : PeerNode} {fd : Fd}
  {session : Session}

/-- All that the calls do to a session is to put another one in its place. -/
theorem PeerNode.Carrying.setSession (hs : s.Carrying G n callback) (fd : Fd) (session : Session)
    (hout : Framed G session.out) (hin : Framed G session.inBuffer) :
    (s.setSession fd session).Carrying G n callback where
  out other session' h := by
    by_cases hother : other = fd
    · subst hother
      obtain rfl : session = session' := by simpa [PeerNode.setSession] using h
      exact hout
    · exact hs.out other session'
        (by simpa [PeerNode.setSession, Table.insert_of_ne hother] using h)
  inBuffer other session' h := by
    by_cases hother : other = fd
    · subst hother
      obtain rfl : session = session' := by simpa [PeerNode.setSession] using h
      exact hin
    · exact hs.inBuffer other session'
        (by simpa [PeerNode.setSession, Table.insert_of_ne hother] using h)
  handedOn := hs.handedOn
  callback := hs.callback

theorem PeerNode.Carrying.without (hs : s.Carrying G n callback) (fd : Fd) (ip : Bytes) :
    (s.without fd ip).Carrying G n callback where
  out other session h := hs.out other session (Table.of_erase h)
  inBuffer other session h := hs.inBuffer other session (Table.of_erase h)
  handedOn := hs.handedOn
  callback := hs.callback

theorem PeerNode.Carrying.withPeers (hs : s.Carrying G n callback) (peers : Table Fd Unit) :
    { s with peers := peers }.Carrying G n callback :=
  ⟨hs.out, hs.inBuffer, hs.handedOn, hs.callback⟩

/-- A session that is looked up has good messages in its buffers. If there is none, the call fails,
    and the node is as it was. -/
theorem sessionAt_bind_carrying {α : Type} {f : Session → PeerM α} (hs : s.Carrying G n callback)
    (hf : ∀ session, s.byFd fd = some session →
      EndsIn (PeerNode.Carrying G n callback) (f session) s) :
    EndsIn (PeerNode.Carrying G n callback) (sessionAt fd >>= f) s := by
  cases hfd : s.byFd fd with
  | none =>
    have hrun : (sessionAt fd >>= f) s = .error .sessionGone s := bind_error (sessionAt_none hfd)
    refine ⟨?_, fun _ => trivial⟩
    rw [finalState_error hrun]
    exact hs
  | some session => exact .of_run (bind_ok (sessionAt_some hfd)) (hf session hfd) fun _ h => h

theorem setWriteInterest_carrying (hs : s.Carrying G n callback) (fd : Fd) (interest : Bool) :
    EndsIn (PeerNode.Carrying G n callback) (setWriteInterest fd interest) s := by
  refine .get_bind ?_
  split
  · exact .pure _ hs
  · exact .of_ok rfl ⟨hs.out, hs.inBuffer, hs.handedOn, hs.callback⟩

theorem sendToPeer_carrying (hG : ∀ m, G m → m.length < 2 ^ 32 - 4) (hs : s.Carrying G n callback)
    (fd : Fd) (hdata : G data) :
    EndsIn (PeerNode.Carrying G n callback) (sendToPeer fd data) s := by
  refine .get_bind ?_
  split
  · exact .pure _ hs
  · rename_i session hfd
    have hqueued := hs.setSession fd
      { session with out := FramerMessage.formMessage data session.out }
      ((hs.out fd session hfd).formMessage hG hdata) (hs.inBuffer fd session hfd)
    exact EndsIn.set_bind (setWriteInterest_carrying hqueued fd true)

theorem broadcast_carrying (hG : ∀ m, G m → m.length < 2 ^ 32 - 4) (hs : s.Carrying G n callback)
    (peerFds : List Fd) (hdata : G data) :
    EndsIn (PeerNode.Carrying G n callback) (broadcast peerFds data) s := by
  refine EndsIn.forM (fun fd _ s hs => sessionAt_bind_carrying hs fun session hfd => ?_) hs
  refine EndsIn.bind (.modify (hs.setSession fd _ ?_ (hs.inBuffer fd session hfd))) fun _ t ht =>
    setWriteInterest_carrying ht fd true
  exact (hs.out fd session hfd).formMessage hG hdata

/-- A new session has to have good buffers; those that are registered here have empty ones. -/
theorem registerPeerConnection_carrying (hs : s.Carrying G n callback) (hout : Framed G session.out)
    (hin : Framed G session.inBuffer) :
    EndsIn (PeerNode.Carrying G n callback) (registerPeerConnection session) s := by
  have hentered {t : PeerNode} (ht : t.Carrying G n callback) :
      { t with
        byIp := t.byIp.insert session.ip session.fd
        byFd := t.byFd.insert session.fd session }.Carrying G n callback := by
    obtain ⟨hout', hin', hhanded, hcallback⟩ := ht.setSession session.fd session hout hin
    exact ⟨hout', hin', hhanded, hcallback⟩
  refine .get_bind ?_
  split
  · exact .pure _ hs
  · have hadded : EndsIn (PeerNode.Carrying G n callback) (addPeer session) s :=
      .modify (hs.withPeers _)
    refine EndsIn.bind hadded fun _ t ht => EndsIn.bind ?_ fun _ t ht => ?_
    · obtain ⟨watched, hrun⟩ := addFd_run session.fd t
      exact .of_ok hrun ⟨ht.out, ht.inBuffer, ht.handedOn, ht.callback⟩
    · dsimp only
      split
      · refine EndsIn.bind (.modify ⟨ht.out, ht.inBuffer, ht.handedOn, ht.callback⟩)
          fun _ t ht => ?_
        exact EndsIn.bind (.modify (hentered ht)) fun _ t ht => .pure _ ht
      · exact EndsIn.bind (.modify (hentered ht)) fun _ t ht => .pure _ ht

theorem connectToPeer_carrying (hs : s.Carrying G n callback) (peerIp : Bytes)
    (connected : Option Fd) :
    EndsIn (PeerNode.Carrying G n callback) (connectToPeer peerIp connected) s := by
  unfold connectToPeer
  split
  · exact .pure _ hs
  · exact EndsIn.bind (registerPeerConnection_carrying hs .nil .nil) fun _ t ht => .pure _ ht

theorem disconnectFromPeer_carrying (hs : s.Carrying G n callback) (fd : Fd) :
    EndsIn (PeerNode.Carrying G n callback) (disconnectFromPeer fd) s := by
  cases hfd : s.byFd fd with
  | none =>
    refine ⟨?_, fun _ => trivial⟩
    rw [finalState_error (disconnect_gone hfd)]
    exact hs
  | some session =>
    cases hip : s.byIp session.ip with
    | none => exact .of_ok (disconnect_not_found hfd hip) hs
    | some fd' => exact .of_ok (disconnect_found hfd hip) (hs.without fd session.ip)

theorem stop_carrying (hs : s.Carrying G n callback) (peerFds : List Fd) :
    EndsIn (PeerNode.Carrying G n callback) (stop peerFds) s := by
  refine .get_bind ?_
  split
  · exact .pure _ hs
  · refine EndsIn.bind (EndsIn.forM (fun fd _ t ht => ?_) hs) fun _ t ht =>
      .modify ⟨ht.out, ht.inBuffer, ht.handedOn, ht.callback⟩
    exact EndsIn.bind (disconnectFromPeer_carrying ht fd) fun _ t ht => .pure _ ht

/-- What is left in the buffer has to be frames again. This is not so in general: a partial write
    leaves a rest that begins in the middle of a frame, so it is a hypothesis, which a network with
    whole writes fulfils. -/
theorem onPeerWritable_carrying (hs : s.Carrying G n callback) {a : WriteAnswer}
    (hleft : ∀ session, s.byFd fd = some session →
      Framed G (session.transport.flushBuffer session.out a).buffer) :
    EndsIn (PeerNode.Carrying G n callback) (onPeerWritable fd a) s := by
  refine sessionAt_bind_carrying hs fun session hfd => ?_
  refine EndsIn.bind (.modify (hs.setSession fd _ (hleft session hfd) (hs.inBuffer fd session hfd)))
    fun _ t ht => ?_
  split
  · exact setWriteInterest_carrying ht fd false
  · exact .pure _ ht

/-! ## What is handed on -/

variable (hG : ∀ m, G m → m.length < 2 ^ 32 - 4) (hpolite : ∀ f, callback = some f → Polite G f)
include hG hpolite

/-- The message is noted, and what the callback answers is queued. Both are good: the message by
    assumption, the answer as the callback is polite. -/
theorem onData_carrying (hs : s.Carrying G n callback) (fd : Fd) {msg : Bytes} (hmsg : G msg) :
    EndsIn (PeerNode.Carrying G n callback) (PeerEventHandler.onData fd msg) s := by
  refine .get_bind ?_
  split
  · exact .pure _ hs
  · rename_i f hf
    have hanswers : Polite G f := hpolite f (hs.callback ▸ hf)
    have hcalled : { s with handedOn := s.handedOn ++ [(fd, msg)] }.Carrying G n callback := by
      refine ⟨hs.out, hs.inBuffer, fun call hcall => ?_, hs.callback⟩
      rw [List.drop_append] at hcall
      rcases List.mem_append.mp hcall with hold | hnew
      · exact hs.handedOn call hold
      · rw [List.mem_singleton.mp (List.mem_of_mem_drop hnew)]
        exact hmsg
    refine EndsIn.set_bind ?_
    refine EndsIn.bind (EndsIn.forM (fun r hr t ht => ?_) hcalled) fun _ t ht => ?_
    · exact sendToPeer_carrying hG ht r.1 (hanswers s.handedOn fd msg hmsg r hr)
    · split
      · exact .pure _ ht
      · exact .throw ht trivial

theorem handleMessages_carrying (fd : Fd) (turns : Nat) (hs : s.Carrying G n callback) :
    EndsIn (PeerNode.Carrying G n callback) (PeerEventHandler.handleMessages fd turns) s := by
  induction turns generalizing s with
  | zero => exact .pure _ hs
  | succ turns ih =>
    refine sessionAt_bind_carrying hs fun session hfd => ?_
    rcases (hs.inBuffer fd session hfd).next hG with hnone |
      ⟨msg, rest, hhas, hextract, hmsg, hrest⟩
    · rw [hnone]
      exact .pure _ hs
    · rw [hhas, if_pos rfl, hextract]
      refine EndsIn.bind (.modify (hs.setSession fd _ (hs.out fd session hfd) hrest))
        fun _ t ht => ?_
      exact EndsIn.bind (onData_carrying hG hpolite ht fd hmsg) fun _ t ht => ih ht

/-- Each way through `receive`: no such peer, no session behind it, bytes, or a connection that is
    lost. In none of them anything is put in a buffer but what has come. -/
theorem receive_carrying {e : PeerEvent} (hs : s.Carrying G n callback)
    (hdata : Framed G e.received.data) :
    EndsIn (PeerNode.Carrying G n callback) (PeerEventHandler.receive e) s := by
  refine .get_bind ?_
  split
  · exact .pure _ hs
  · split
    · have hremoved : EndsIn (PeerNode.Carrying G n callback) (removePeer e.fd) s :=
        .modify (hs.withPeers _)
      refine EndsIn.bind hremoved fun _ t ht => ?_
      split
      · exact EndsIn.bind (.modify ⟨ht.out, ht.inBuffer, ht.handedOn, ht.callback⟩) fun _ t ht =>
          .pure _ ht
      · exact .throw ht trivial
    · rename_i session hfd
      let session' : Session := { session with inBuffer := session.inBuffer ++ e.received.data }
      have hcame := hs.setSession e.fd session' (hs.out e.fd session hfd)
        ((hs.inBuffer e.fd session hfd).append hdata)
      refine EndsIn.set_bind ?_
      split
      · exact EndsIn.bind (handleMessages_carrying hG hpolite e.fd _ hcame) fun _ t ht => .pure _ ht
      · refine EndsIn.bind ?_ fun _ t ht => .pure _ ht
        refine ⟨?_, fun _ => trivial⟩
        rw [finalState_error (dropPeer_gone e.fd (s.setSession e.fd session'))]
        exact hcame.withPeers _

/-- **An event at which nothing is written.** Reading and hanging up need no assumption about how
    the socket behaves, unlike writing. -/
theorem handleEvent_carrying {e : PeerEvent} (hs : s.Carrying G n callback)
    (hmask : e.mask &&& EPOLLOUT = 0) (hdata : Framed G e.received.data) :
    EndsIn (PeerNode.Carrying G n callback) (PeerEventHandler.handleEvent e) s := by
  cases hinit : s.initialized with
  | false => exact .of_ok (peerEvent_uninitialized hinit) hs
  | true =>
    by_cases hup : e.mask &&& (EPOLLERR ||| EPOLLHUP ||| EPOLLRDHUP) = 0
    · refine .of_run (peerEvent_ready hinit hup) (EndsIn.bind ?_ fun goesOn t ht => ?_) fun _ h => h
      · split
        · exact receive_carrying hG hpolite hs hdata
        · exact .pure _ hs
      · rw [if_neg (by simp [hmask])]
        exact .pure _ ht
    · refine .of_run (peerEvent_hangUp hinit hup) (EndsIn.bind ?_ fun _ t ht => .pure _ ht)
        fun _ h => h
      exact disconnectFromPeer_carrying (hs.withPeers _) e.fd

end

theorem peerEvent_writable {s : PeerNode} (hinit : s.initialized = true) (fd : Fd)
    (a : WriteAnswer) :
    PeerEventHandler.handleEvent { fd := fd, mask := EPOLLOUT, written := a } s
      = onPeerWritable fd a s := by
  have hup : EPOLLOUT &&& (EPOLLERR ||| EPOLLHUP ||| EPOLLRDHUP) = 0 := by decide
  have hin : EPOLLOUT &&& EPOLLIN = 0 := by decide
  have hout : EPOLLOUT &&& EPOLLOUT ≠ 0 := by decide
  rw [peerEvent_ready hinit hup]
  dsimp only
  rw [if_neg (not_not.mpr hin)]
  have hpure : (pure true : PeerM Bool) s = .ok true s := rfl
  rw [bind_ok hpure, if_pos ⟨rfl, hout⟩]

/-- **A socket becomes writable.** The other half, with the assumption about what is left. -/
theorem handleEvent_writable {n : Nat} {callback : Option (List (Fd × Bytes) → DataAnswer)}
    {s : PeerNode} {fd : Fd} {a : WriteAnswer} (hs : s.Carrying G n callback)
    (hleft : ∀ session, s.byFd fd = some session →
      Framed G (session.transport.flushBuffer session.out a).buffer) :
    EndsIn (PeerNode.Carrying G n callback)
      (PeerEventHandler.handleEvent { fd := fd, mask := EPOLLOUT, written := a }) s := by
  cases hinit : s.initialized with
  | false => exact .of_ok (peerEvent_uninitialized hinit) hs
  | true =>
    exact .of_run (peerEvent_writable hinit fd a) (onPeerWritable_carrying hs hleft) fun _ h => h

end Messenger
