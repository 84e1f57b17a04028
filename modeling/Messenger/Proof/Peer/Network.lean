import Messenger.Model.PeerNetwork
import Messenger.Proof.Peer.Lines
import Messenger.Proof.Transport

/-!
# Any number of peers

Whatever order things happen in, and wherever the packets go: all that a peer ever knows of others
is true (`peer_knowledge_authentic`). The keys under a name are the keys of one peer, all three of
them, and that peer has logged in under the name; and what is printed has been typed.

Nothing of this needs the signature that comes with the keys, which is stored and not checked. It
needs that nobody makes packets up, and that packets stay what they are on their way: the network
of `Model/PeerNetwork` is one in which every write takes the whole buffer and every receive brings
one packet.

The invariant is that every peer is `Faithful` and every packet on its way was said. An event
concerns one peer, and takes from the others no more than packets. What is said grows with the
events, by the line that is typed, so the first thing in each step is to carry what was known so
far over to the larger group.

The hard event is a receive. The packet is one that was said, it is cut into frames by the node,
each frame is handed to the callback, and what the callback answers is queued: each of these has
its own lemma, and they fit together because all of them are about frames of `Honest` messages.
-/

set_option autoImplicit false

namespace Messenger

open Messenger.Lib

variable {P : Type} {ssl : OpenSSL} {own : P → EncryptionService} {p : P} {n : Nat}
  {callback : Option (List (Fd × Bytes) → PeerNode.DataAnswer)} {s : MessagingPeer}

namespace PeerNetwork

/-- The user of `p` has typed `/login u`. It is not said when: a later login may have replaced the
    name, and messages with the first one may still be on their way. -/
def LoggedInAs (events : List (P × PeerNetworkEvent)) (p : P) (u : Name) : Prop :=
  ∃ now text answer msg, (p, .line now text answer) ∈ events ∧
    Parser.parse now text = .ok msg ∧ msg.IsCommand .login ∧ msg.getMeta 1 = u

/-- Somebody has typed the text as a line. -/
def Typed (events : List (P × PeerNetworkEvent)) (text : Bytes) : Prop :=
  ∃ p now answer, (p, .line now text answer) ∈ events

/-- Without a login, the name is empty, and a peer may introduce itself so. -/
def sayings (own : P → EncryptionService) (events : List (P × PeerNetworkEvent)) : Sayings P where
  own := own
  named p u := u = [] ∨ LoggedInAs events p u
  typed := Typed events

theorem sayings_le (own : P → EncryptionService) (events : List (P × PeerNetworkEvent))
    (a : P × PeerNetworkEvent) : (sayings own events).Le (sayings own (events ++ [a])) where
  own := rfl
  named p u h := by
    rcases h with hempty | ⟨now, text, answer, msg, hmem, hrest⟩
    · exact .inl hempty
    · exact .inr ⟨now, text, answer, msg, List.mem_append_left _ hmem, hrest⟩
  typed text h := by
    obtain ⟨p, now, answer, hmem⟩ := h
    exact ⟨p, now, answer, List.mem_append_left _ hmem⟩

/-- A packet of what was said: what one write puts on the wire, which is the frame of all that was
    in the buffer. -/
def SaidPacket (ssl : OpenSSL) (E : Sayings P) (packet : Bytes) : Prop :=
  packet = [] ∨ ∃ data : Bytes, data.length < 2 ^ 32 ∧ packet = frame data ∧
    Framed (Honest ssl E) data

theorem SaidPacket.mono {E E' : Sayings P} {packet : Bytes} (hE : E.Le E')
    (h : SaidPacket ssl E packet) : SaidPacket ssl E' packet := by
  rcases h with hempty | ⟨data, hdata, hpacket, hframed⟩
  · exact .inl hempty
  · exact .inr ⟨data, hdata, hpacket, hframed.mono fun _ => Honest.mono hE⟩

/-! ## The sockets -/

/-- A write that takes everything leaves nothing in the buffer. The transports count differently
    what the system has taken: those for a stream subtract the four bytes of the header always, the
    one for datagrams only if the system has taken something. -/
theorem flushBuffer_allWritten (transport : ITransport) {out : Bytes} (hne : out ≠ []) :
    transport.flushBuffer out (allWritten out) = ⟨true, [], sendBuffer out⟩ := by
  have hcount : (allWritten out).written.count (sendBuffer out) = 4 + out.length := by
    simp [allWritten, SendResult.count, sendBuffer]
  have hemitted : (allWritten out).written.emitted (sendBuffer out) = sendBuffer out := by
    simp [allWritten, SendResult.emitted]
  have hpos : 0 < out.length := List.length_pos_iff.mpr hne
  have hsend : transport.send out (allWritten out) = ((out.length : Int), sendBuffer out) := by
    cases transport with
    | stream t =>
      cases t <;>
      · show ((allWritten out).written.count (sendBuffer out) - 4, _) = _
        rw [hcount, hemitted]
        simp
    | udp =>
      have hconnected : (allWritten out).connected = true := rfl
      unfold ITransport.send udpSend
      dsimp only
      rw [hcount, hemitted, if_pos hconnected, if_pos (by omega)]
      simp
  unfold ITransport.flushBuffer
  rw [if_neg (by simpa using hne), hsend]
  dsimp only
  rw [if_pos (by omega)]
  simp

/-- What it brings to the other end is what was in the buffer. -/
theorem flushBuffer_said {E : Sayings P} (transport : ITransport) {out : Bytes}
    (hsmall : out.length < 2 ^ 32) (hout : Framed (Honest ssl E) out) :
    (transport.flushBuffer out (allWritten out)).buffer = [] ∧
      SaidPacket ssl E (transport.flushBuffer out (allWritten out)).emitted := by
  by_cases hempty : out = []
  · rw [hempty]
    exact ⟨rfl, .inl rfl⟩
  · rw [flushBuffer_allWritten transport hempty]
    exact ⟨rfl, .inr ⟨out, hsmall, sendBuffer_eq hsmall, hout⟩⟩

/-- A packet comes as it was written, however it is cut. Cut into pieces of any size, as long as
    they are all there when `receive` is called: a would-block in between would hand over a part. -/
theorem received_framed {E : Sayings P} {chunks : List Chunk}
    (h : SaidPacket ssl E (chunks.flatMap Chunk.bytes)) :
    Framed (Honest ssl E) (streamReceive [] (chunks.map .data)).result.data := by
  rcases h with hempty | ⟨data, hdata, hframe, hframed⟩
  · rw [chunks_eq_nil hempty]
    exact .nil
  · have hloop :=
      receiveLoop_packet hdata [] (hframe : [] ++ chunks.flatMap Chunk.bytes = frame data)
      (frame_ne_nil data).symm
    rw [List.append_nil] at hloop
    unfold streamReceive
    rw [hloop]
    exact hframed

end PeerNetwork

/-! ## One peer -/

namespace MessagingPeer

variable {E E' : Sayings P}

theorem Faithful.mono (hE : E.Le E') (hs : s.Faithful ssl E p n callback) :
    s.Faithful ssl E' p n callback where
  node := {
    out := fun fd session h => (hs.node.out fd session h).mono fun _ => Honest.mono hE
    inBuffer := fun fd session h => (hs.node.inBuffer fd session h).mono fun _ => Honest.mono hE
    handedOn := fun call h => (hs.node.handedOn call h).mono hE
    callback := hs.node.callback }
  context := hs.context.mono hE

theorem Faithful.at (hs : s.Faithful ssl E p n callback) (now : UInt64) :
    { s with context := { s.context with now := now } }.Faithful ssl E p n callback :=
  ⟨hs.node, ⟨hs.context.dhKey, hs.context.identityKey, hs.context.name, hs.context.short⟩,
    hs.context.directory, hs.context.shown⟩

/-- An event of the node, of which it is known what the node does with it. The callback is set anew
    for each event, so the count of what has been handed on starts again. -/
theorem handleEvent_faithful (hssl : ssl.Correct) (hs : s.Faithful ssl E p n callback)
    {e : PeerEvent}
    (hnode : ∀ (node : PeerNode) (n : Nat) callback,
      node.Carrying (Honest ssl E) n (some callback) → Polite (Honest ssl E) callback →
      node.byFd = s.node.byFd →
      EndsIn (PeerNode.Carrying (Honest ssl E) n (some callback)) (PeerEventHandler.handleEvent e)
        node) :
    ∃ n callback, (handleEvent ssl s e).Faithful ssl E p n callback := by
  let callback' := onDataCallback ssl s.context s.node.handedOn.length
  have hstart :
      { s.node with callbacks := { s.node.callbacks with onData := some callback' } }.Carrying
      (Honest ssl E) s.node.handedOn.length (some callback') := by
    refine ⟨hs.node.out, hs.node.inBuffer, fun call hcall => ?_, rfl⟩
    rw [List.drop_length] at hcall
    cases hcall
  have hpolite := onDataCallback_polite hssl hs.context.toIs s.node.handedOn.length
  have hafter := (hnode _ _ callback' hstart hpolite rfl).state
  exact ⟨_, _, hafter, afterCalls_informed hssl hafter.handedOn hs.context⟩

end MessagingPeer

namespace PeerNetwork

open MessagingPeer

/-- The socket takes what is in the buffer. If it is 4 GiB or more nothing is done, as a frame could
    not hold it. -/
theorem written_faithful {E : Sayings P} (hssl : ssl.Correct)
    (hs : s.Faithful ssl E p n callback) (now : UInt64) (fd : Fd) :
    (∃ n callback, (handle ssl s (.written now fd)).1.Faithful ssl E p n callback) ∧
      ∀ packet ∈ (handle ssl s (.written now fd)).2, SaidPacket ssl E packet := by
  have hnothing : ∀ packet ∈ ([] : List Bytes), SaidPacket ssl E packet := fun _ h => by cases h
  unfold handle
  dsimp only
  split
  · exact ⟨⟨n, callback, hs⟩, hnothing⟩
  · rename_i session hfd
    split
    · rename_i hsmall
      obtain ⟨hbuffer, hsaid⟩ :=
        flushBuffer_said session.transport hsmall (hs.node.out fd session hfd)
      refine ⟨handleEvent_faithful hssl (hs.at now) ?_, fun packet hpacket => ?_⟩
      · intro node n' callback' hnode _ hbyFd
        refine handleEvent_writable hnode fun session' hfd' => ?_
        rw [hbyFd] at hfd'
        obtain rfl : session = session' := Option.some.inj (hfd.symm.trans hfd')
        rw [hbuffer]
        exact .nil
      · rw [List.mem_singleton.mp hpacket]
        exact hsaid
    · exact ⟨⟨n, callback, hs⟩, hnothing⟩

/-- **An event of one of the peers.** By cases on the event. A line is where something new is said,
    and the event itself is among those that have happened, so it counts as typed. A packet is where
    something is heard, and it has been said by the assumption about the wire. -/
theorem handle_faithful (hssl : ssl.Correct) {events : List (P × PeerNetworkEvent)}
    (e : PeerNetworkEvent) (hs : s.Faithful ssl (sayings own events) p n callback)
    (hshort : ∀ now text answer, e = .line now text answer → text.length < 65535)
    (hreads : ∀ packet ∈ reads e, SaidPacket ssl (sayings own events) packet) :
    (∃ n callback,
        (handle ssl s e).1.Faithful ssl (sayings own (events ++ [(p, e)])) p n callback) ∧
      ∀ packet ∈ (handle ssl s e).2, SaidPacket ssl (sayings own (events ++ [(p, e)])) packet := by
  have hle := sayings_le own events (p, e)
  have hmem : (p, e) ∈ events ++ [(p, e)] := List.mem_append_right _ (List.mem_singleton_self _)
  have hnothing : ∀ packet ∈ ([] : List Bytes),
      SaidPacket ssl (sayings own (events ++ [(p, e)])) packet := fun _ h => by cases h
  have hs' := hs.mono hle
  cases e with
  | line now text answer =>
    refine ⟨⟨n, callback, ?_⟩, hnothing⟩
    refine (sendMsg_faithful hssl (hs'.at now) answer (hshort now text answer rfl) ?_ ?_).state
    · exact ⟨p, now, answer, hmem⟩
    · exact fun msg hmsg hlogin => .inr ⟨now, text, answer, msg, hmem, hmsg, hlogin, rfl⟩
  | accepted fd ip =>
    exact ⟨⟨n, callback, (registerPeerConnection_carrying hs'.node .nil .nil).state, hs'.context⟩,
      hnothing⟩
  | written now fd => exact written_faithful hssl hs' now fd
  | received now fd chunks =>
    have hframed := (received_framed (hreads _ rfl)).mono fun _ => Honest.mono hle
    refine ⟨handleEvent_faithful hssl (hs'.at now) ?_, hnothing⟩
    intro node n' callback' hnode hpolite _
    refine handleEvent_carrying (fun _ h => h.short) ?_ hnode ?_ hframed
    · rintro f ⟨⟩
      exact hpolite
    · exact (by decide : EPOLLIN &&& EPOLLOUT = 0)
  | hungUp now fd =>
    refine ⟨handleEvent_faithful hssl (hs'.at now) ?_, hnothing⟩
    intro node n' callback' hnode hpolite _
    refine handleEvent_carrying (fun _ h => h.short) ?_ hnode ?_ .nil
    · rintro f ⟨⟩
      exact hpolite
    · exact (by decide : EPOLLHUP &&& EPOLLOUT = 0)

theorem new_faithful (ssl : OpenSSL) (hdh : (own p).dhKeys = .empty)
    (hed : (own p).identityKeys = .empty) :
    (MessagingPeer.new (own p)).Faithful ssl (sayings own []) p 0 none where
  node := {
    out := fun _ _ h => by cases h
    inBuffer := fun _ _ h => by cases h
    handedOn := fun _ h => by cases h
    callback := rfl }
  context := {
    dhKey := rfl
    identityKey := rfl
    name := .inl rfl
    short := show 0 < 2 ^ 30 by decide
    directory := fun u => .unknown rfl (congrFun hdh u) (congrFun hed u)
    shown := fun _ h => by cases h }

end PeerNetwork

open PeerNetwork

/-- **What peers know of each other is true.** In every run of any number of peers, of which each
    knows nobody at the start and none types a line of 64 KB, over sockets that write whole buffers
    and receive one packet at a time:

    * the keys that a peer has under a name are the public keys of one peer, who has logged in
      under that name (or has not logged in, if it is the empty one); they are in all tables, the
      signature is good, and the secret derived from them is the one that the other derives;
    * of other names nothing is known;
    * the lines that it prints are texts that somebody has typed. -/
theorem peer_knowledge_authentic [DecidableEq P] (hssl : ssl.Correct)
    (hown : ∀ p, (own p).dhKeys = .empty ∧ (own p).identityKeys = .empty)
    (events : List (P × PeerNetworkEvent))
    (hshort : ∀ p now text answer, (p, .line now text answer) ∈ events → text.length < 65535)
    (p : P) :
    let c := (((PeerNetwork.start own).run (handling ssl) events).process p).context
    (∀ u keys, c.users u = some keys → ∃ q, (u = [] ∨ LoggedInAs events q u) ∧
      keys = (own q).publicKeys ssl ∧
      c.encryption.dhKeys u = some keys.publicDHKey ∧
      c.encryption.identityKeys u = some keys.publicIdentityKey ∧
      ssl.edVerify keys.publicIdentityKey keys.publicDHKey keys.signature = true ∧
      ssl.dhDerive (own p).dhKey keys.publicDHKey
        = ssl.dhDerive (own q).dhKey ((own p).publicKeys ssl).publicDHKey) ∧
    (∀ u, c.users u = none → c.encryption.dhKeys u = none ∧ c.encryption.identityKeys u = none) ∧
    ∀ line ∈ c.shown, ∃ text, Typed events text ∧ line = bytes "Peer got message " ++ text := by
  intro c
  have hrun := Wired.run_invariant (h := handling ssl) (s := PeerNetwork.start own)
    (I := fun done p s => ∃ n callback, s.Faithful ssl (sayings own done) p n callback)
    (G := fun done packet => SaidPacket ssl (sayings own done) packet)
    (K := fun a => ∀ now text answer, a.2 = .line now text answer → text.length < 65535)
    (fun done a q t ⟨n, callback, ht⟩ => ⟨n, callback, ht.mono (sayings_le own done a)⟩)
    (fun done a packet hpacket => hpacket.mono (sayings_le own done a))
    (fun done q e t hK ⟨n, callback, ht⟩ hreads => handle_faithful hssl e ht hK hreads)
    ⟨fun q => ⟨0, none, new_faithful ssl (hown q).1 (hown q).2⟩, fun _ h => by cases h⟩
    (fun a ha now text answer heq => hshort a.1 now text answer (heq ▸ ha))
  obtain ⟨n, callback, -, hinformed⟩ := hrun.process p
  refine ⟨fun u keys hkeys => ?_, fun u hnone => ?_, hinformed.shown⟩
  · cases hinformed.directory u with
    | unknown huser => exact absurd (hkeys.symm.trans huser) (by simp)
    | known q hname huser hdh hed =>
      obtain rfl : keys = (own q).publicKeys ssl := Option.some.inj (hkeys.symm.trans huser)
      exact ⟨q, hname, rfl, hdh, hed, hssl.ed_verifies _ _, hssl.dh_agrees _ _⟩
  · cases hinformed.directory u with
    | unknown _ hdh hed => exact ⟨hdh, hed⟩
    | known q _ huser => exact absurd (hnone.symm.trans huser) (by simp)

/-- The private keys of Alice (`true`) and Bob (`false`). -/
def twoServices (p : Bool) : EncryptionService where
  dhKey := List.replicate 32 (if p then 1 else 2)
  identityKey := List.replicate 32 (if p then 3 else 4)
  entropy := zeroEntropy

/-- Alice logs in and connects, and her socket takes what she has to say. -/
def aliceConnects : List (Bool × PeerNetworkEvent) :=
  [(true, .line 0 (bytes "/login alice") {}),
    (true, .line 0 (bytes "/connect 10.0.0.2 9000") { connected := some 5 }),
    (false, .accepted 6 (bytes "10.0.0.1")), (true, .written 0 5)]

/-- All of it in one piece. -/
def alicePiece : Chunk where
  bytes := ((PeerNetwork.start twoServices).run (handling clearSSL) aliceConnects).wire.flatten
  nonempty := by decide +kernel
  fits := by decide +kernel

def bobListens : List (Bool × PeerNetworkEvent) :=
  aliceConnects ++ [(false, .received 0 6 [alicePiece])]

theorem bob_knows_alice :
    (((PeerNetwork.start twoServices).run (handling clearSSL) bobListens).process
      false).context.users
        (bytes "alice") = some ((twoServices true).publicKeys clearSSL) ∧
      ∃ q, (bytes "alice" = [] ∨ LoggedInAs bobListens q (bytes "alice")) ∧
        (twoServices true).publicKeys clearSSL = (twoServices q).publicKeys clearSSL := by
  have hshort : ∀ p now text answer, (p, .line now text answer) ∈ bobListens →
      text.length < 65535 := by
    intro p now text answer hmem
    simp only [bobListens, aliceConnects, List.cons_append, List.nil_append, List.mem_cons,
      Prod.mk.injEq, PeerNetworkEvent.line.injEq, reduceCtorEq, and_false, List.not_mem_nil,
      or_false] at hmem
    rcases hmem with ⟨-, -, rfl, -⟩ | ⟨-, -, rfl, -⟩ <;> decide
  have hfresh : ∀ p, (twoServices p).dhKeys = .empty ∧ (twoServices p).identityKeys = .empty :=
    fun _ => ⟨rfl, rfl⟩
  obtain ⟨hknown, -⟩ := peer_knowledge_authentic clearSSL_correct hfresh bobListens hshort false
  have hkeys : (((PeerNetwork.start twoServices).run (handling clearSSL) bobListens).process
      false).context.users (bytes "alice") = some ((twoServices true).publicKeys clearSSL) := by
    decide +kernel
  obtain ⟨q, hname, hq, -⟩ := hknown (bytes "alice") _ hkeys
  exact ⟨hkeys, q, hname, hq⟩

end Messenger
