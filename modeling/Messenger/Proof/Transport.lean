import Messenger.Model.Transport
import Messenger.Proof.Framing

/-!
# Receiving over a stream transport

`receive` clears `accumulation_buffer` when it starts, so a call gets right exactly one
frame whose bytes are the whole of the socket results it uses:

* bytes behind the first complete frame stay in `accumulation_buffer`, and the next call
  clears them;
* on would-block the bytes accumulated so far are handed over as they are, header
  included, and the rest of the frame is later taken for a frame of its own.

A socket is `Aligned` with the packets when neither can happen: no result reaches over
the end of a frame, and no would-block falls inside one. This is exactly when every call
is clean (`aligned_of_clean`), and then nothing is lost (`after_aligned`).

One direction follows the socket: on an aligned one each call ends at the end of a frame or with
nothing, and the rest is aligned again. The other is the hard one. From calls that are clean it has
to be found where the frames lie in the results, and all that a call tells about this is the
message that it has handed over. `Returns` lists what the results of a call must have been for each
way it can end; that a stream of frames can be read in one way only (`frame_append_inj`) then says
that these frames are the packets.
-/

set_option autoImplicit false

namespace Messenger

open Messenger.Lib

/-! ## The socket and the packets -/

/-- The bytes of the stream that a socket result carries. -/
def RecvResult.bytes : RecvResult → Bytes
  | .data chunk => chunk.bytes
  | _ => []

/-- The results of a connection that stays up. -/
def RecvResult.Live : RecvResult → Prop
  | .data _ => True
  | .wouldBlock => True
  | .closed => False
  | .failed _ => False

/-- Every frame arrives in results of its own, with nothing between them.

    A would-block may come between two frames, as often as it likes, and a frame may come in several
    results. -/
inductive Aligned : List Bytes → List RecvResult → Prop
  | done : Aligned [] []
  | wait {packets : List Bytes} {net : List RecvResult} :
      Aligned packets net → Aligned packets (.wouldBlock :: net)
  | packet {p : Bytes} {packets : List Bytes} {chunks : List Chunk} {net : List RecvResult} :
      chunks.flatMap Chunk.bytes = sendBuffer p → Aligned packets net →
        Aligned (p :: packets) (chunks.map .data ++ net)

/-- A connection and its socket. -/
structure Link where
  connection : ClientConnection
  net : List RecvResult

/-- The call of `receive` that comes next. -/
def Link.nextCall (s : Link) : Call := (s.connection.transport.receive s.net).1

/-- One call of `try_receive`. -/
def Link.step (s : Link) : Link :=
  let r := s.connection.tryReceive s.net
  ⟨r.2.1, r.2.2⟩

/-- A number of calls, one after the other. -/
def Link.after (s : Link) (n : Nat) : Link := Link.step^[n] s

/-- Nothing is left behind in `accumulation_buffer`, and nothing but a payload handed over. In the
    second case nothing may be handed over, since what is handed over on would-block is raw
    bytes. -/
def Call.Clean (c : Call) : Prop :=
  c.result.status = .ok ∧ c.accumulationBuffer = [] ∨
    c.result.status = .wouldBlock ∧ c.result.data = []

/-! ## One call -/

theorem sendBuffer_eq {data : Bytes} (h : data.length < 2 ^ 32) : sendBuffer data = frame data := by
  unfold sendBuffer frame
  rw [UInt32.toNat_ofNat_of_lt' h]

theorem StreamTransport.receive_eq (t : StreamTransport) (net : List RecvResult) :
    ∃ t', t.receive net = (receiveLoop [] net, t') := by
  cases t with
  | tcp t => exact ⟨_, rfl⟩
  | tls t => exact ⟨_, rfl⟩

/-- Whatever the last call has left in `accumulation_buffer`, the next one starts without it. -/
theorem nextCall_eq (s : Link) : s.nextCall = receiveLoop [] s.net := by
  obtain ⟨t', hcall⟩ := s.connection.transport.receive_eq s.net
  exact congrArg Prod.fst hcall

theorem step_recvBuffer (s : Link) :
    s.step.connection.recvBuffer = s.connection.recvBuffer
      ++ (receiveLoop [] s.net).result.data := by
  rw [← nextCall_eq]
  rfl

theorem step_net (s : Link) : s.step.net = (receiveLoop [] s.net).net := by
  rw [← nextCall_eq]
  rfl

/-- A result of `recv` has at least one byte, so none at all brings nothing. -/
theorem chunks_eq_nil {chunks : List Chunk} (h : chunks.flatMap Chunk.bytes = []) :
    chunks = [] := by
  cases chunks with
  | nil => rfl
  | cons chunk chunks =>
    rw [List.flatMap_cons] at h
    exact absurd (List.append_eq_nil_iff.mp h).1 chunk.nonempty

/-- The result that completes a frame ends the call. What it brings beyond the frame stays in
    `accumulation_buffer`, which the next call clears. The induction is on the results before it,
    each of which leaves the frame incomplete. -/
theorem receiveLoop_completes {p lost acc : Bytes} (hp : p.length < 2 ^ 32) {chunks : List Chunk}
    {last : Chunk} (net : List RecvResult)
    (hshort : (acc ++ chunks.flatMap Chunk.bytes).length < (frame p).length)
    (hcut : acc ++ chunks.flatMap Chunk.bytes ++ last.bytes = frame p ++ lost) :
    receiveLoop acc (chunks.map .data ++ .data last :: net) = ⟨⟨.ok, p, 0⟩, lost, net⟩ := by
  induction chunks generalizing acc with
  | nil =>
    rw [List.flatMap_nil, List.append_nil] at hcut
    rw [List.map_nil, List.nil_append]
    unfold receiveLoop
    rw [hcut, extractCompleteMessage_whole hp lost]
  | cons chunk chunks ih =>
    rw [List.flatMap_cons, ← List.append_assoc] at hshort hcut
    have hlength : (acc ++ chunk.bytes).length < (frame p).length := by
      rw [List.length_append] at hshort
      omega
    have hpre : acc ++ chunk.bytes <+: frame p := by
      refine List.prefix_of_prefix_length_le ?_ (List.prefix_append _ lost) hlength.le
      rw [← hcut, List.append_assoc]
      exact List.prefix_append _ _
    have hne : acc ++ chunk.bytes ≠ frame p := fun h => by
      rw [h] at hlength
      exact lt_irrefl _ hlength
    rw [List.map_cons, List.cons_append]
    unfold receiveLoop
    rw [extractCompleteMessage_short hp hpre hne]
    exact ih hshort hcut

/-- A frame in results of its own is handed over, and nothing is left behind. -/
theorem receiveLoop_packet {p : Bytes} (hp : p.length < 2 ^ 32) {chunks : List Chunk}
    {acc : Bytes} (net : List RecvResult) (hframe : acc ++ chunks.flatMap Chunk.bytes = frame p)
    (hne : acc ≠ frame p) :
    receiveLoop acc (chunks.map .data ++ net) = ⟨⟨.ok, p, 0⟩, [], net⟩ := by
  rcases List.eq_nil_or_concat chunks with rfl | ⟨chunks, last, rfl⟩
  · rw [List.flatMap_nil, List.append_nil] at hframe
    exact absurd hframe hne
  · rw [List.concat_eq_append] at hframe ⊢
    rw [List.flatMap_append, List.flatMap_singleton, ← List.append_assoc] at hframe
    rw [List.map_append, List.append_assoc]
    refine receiveLoop_completes hp net ?_ (hframe.trans (List.append_nil _).symm)
    have hlast : 0 < last.bytes.length := List.length_pos_of_ne_nil last.nonempty
    rw [← hframe]
    simp only [List.length_append]
    omega

/-- Results that end before a frame is complete bring no packet, whatever they end with. -/
theorem receiveLoop_short {p acc : Bytes} (hp : p.length < 2 ^ 32) {chunks : List Chunk}
    {net : List RecvResult} (hstop : ∀ chunk, net.head? ≠ some (.data chunk))
    (hpre : acc ++ chunks.flatMap Chunk.bytes <+: frame p)
    (hne : acc ++ chunks.flatMap Chunk.bytes ≠ frame p) :
    (receiveLoop acc (chunks.map .data ++ net)).result.status ≠ .ok := by
  induction chunks generalizing acc with
  | nil =>
    rw [List.map_nil, List.nil_append]
    cases net with
    | nil => simp [receiveLoop]
    | cons r net =>
      cases r with
      | data chunk => exact absurd rfl (hstop chunk)
      | closed => simp [receiveLoop]
      | wouldBlock => simp [receiveLoop]
      | failed errno => simp [receiveLoop]
  | cons chunk chunks ih =>
    rw [List.flatMap_cons, ← List.append_assoc] at hpre hne
    have hfirst : acc ++ chunk.bytes <+: frame p := (List.prefix_append _ _).trans hpre
    have hfirst_ne : acc ++ chunk.bytes ≠ frame p := by
      intro hwhole
      -- then the other results would have to be empty
      refine hne (List.IsPrefix.eq_of_length_le hpre ?_)
      rw [← hwhole]
      simp only [List.length_append]
      omega
    rw [List.map_cons, List.cons_append]
    unfold receiveLoop
    rw [extractCompleteMessage_short hp hfirst hfirst_ne]
    exact ih hpre hne

/-- The ways a call can come back while the connection is up: with a message, at a would-block, or
    at the end of what has arrived. In each case it is said which results the call has used,
    `chunks`, and which are left. -/
inductive Returns (acc : Bytes) (chunks : List Chunk) : List RecvResult → Call → Prop
  | message {msg rest : Bytes} {net : List RecvResult} :
      extractCompleteMessage (acc ++ chunks.flatMap Chunk.bytes) = some (msg, rest) →
        Returns acc chunks (chunks.map .data ++ net) ⟨⟨.ok, msg, 0⟩, rest, net⟩
  | pause {net : List RecvResult} :
      Returns acc chunks (chunks.map .data ++ .wouldBlock :: net)
        ⟨⟨.wouldBlock, acc ++ chunks.flatMap Chunk.bytes, 0⟩,
          acc ++ chunks.flatMap Chunk.bytes, net⟩
  | idle :
      Returns acc chunks (chunks.map .data)
        ⟨⟨.wouldBlock, acc ++ chunks.flatMap Chunk.bytes, 0⟩,
          acc ++ chunks.flatMap Chunk.bytes, []⟩

theorem Returns.cons {acc : Bytes} {chunk : Chunk} {chunks : List Chunk} {net : List RecvResult}
    {call : Call} (h : Returns (acc ++ chunk.bytes) chunks net call) :
    Returns acc (chunk :: chunks) (.data chunk :: net) call := by
  have happend : acc ++ chunk.bytes ++ chunks.flatMap Chunk.bytes
      = acc ++ (chunk :: chunks).flatMap Chunk.bytes := by
    rw [List.flatMap_cons, List.append_assoc]
  cases h with
  | message hmsg =>
    rw [happend] at hmsg
    exact .message hmsg
  | pause =>
    rw [happend]
    exact .pause
  | idle =>
    rw [happend]
    exact .idle

/-- Every call comes back in one of these ways. The induction follows the loop, over the results. -/
theorem receiveLoop_returns {net : List RecvResult} (hlive : ∀ r ∈ net, r.Live) (acc : Bytes) :
    ∃ chunks, Returns acc chunks net (receiveLoop acc net) := by
  induction net generalizing acc with
  | nil =>
    refine ⟨[], ?_⟩
    have h : Returns acc [] [] _ := .idle
    simpa [receiveLoop] using h
  | cons r net ih =>
    have hr := hlive r List.mem_cons_self
    have hnet : ∀ r ∈ net, r.Live := fun q hq => hlive q (List.mem_cons_of_mem r hq)
    cases r with
    | data chunk =>
      unfold receiveLoop
      cases hextract : extractCompleteMessage (acc ++ chunk.bytes) with
      | some m =>
        refine ⟨[chunk], ?_⟩
        have hmsg : extractCompleteMessage (acc ++ [chunk].flatMap Chunk.bytes)
            = some (m.1, m.2) := by
          simpa using hextract
        exact .message hmsg
      | none =>
        obtain ⟨chunks, hreturns⟩ := ih hnet (acc ++ chunk.bytes)
        exact ⟨chunk :: chunks, hreturns.cons⟩
    | wouldBlock =>
      refine ⟨[], ?_⟩
      have h : Returns acc [] (.wouldBlock :: net) _ := .pause
      simpa [receiveLoop] using h
    | closed => exact absurd hr id
    | failed errno => exact absurd hr id

theorem receiveLoop_net_length (acc : Bytes) (net : List RecvResult) :
    (receiveLoop acc net).net.length ≤ net.length - 1 := by
  induction net generalizing acc with
  | nil => simp [receiveLoop]
  | cons r net ih =>
    cases r with
    | data chunk =>
      unfold receiveLoop
      cases extractCompleteMessage (acc ++ chunk.bytes) with
      | some m => simp
      | none =>
        have h := ih (acc ++ chunk.bytes)
        simp only [List.length_cons]
        omega
    | closed => simp [receiveLoop]
    | wouldBlock => simp [receiveLoop]
    | failed errno => simp [receiveLoop]

/-! ## Aligned sockets -/

/-- **One call on an aligned socket** is clean, hands over the next payload or nothing, and leaves
    an aligned socket. -/
theorem step_aligned {s : Link} {todo : List Bytes} (htodo : ∀ p ∈ todo, p.length < 2 ^ 32)
    (h : Aligned todo s.net) :
    s.nextCall.Clean ∧ ∃ new todo', todo = new ++ todo' ∧
      s.step.connection.recvBuffer = s.connection.recvBuffer ++ new.flatten ∧
      Aligned todo' s.step.net := by
  rw [nextCall_eq, step_recvBuffer, step_net]
  generalize s.net = net at h
  cases h with
  | done => exact ⟨.inr ⟨rfl, rfl⟩, [], [], rfl, rfl, .done⟩
  | wait hrest => exact ⟨.inr ⟨rfl, rfl⟩, [], todo, rfl, rfl, hrest⟩
  | @packet p packets chunks net hframe hrest =>
    have hp : p.length < 2 ^ 32 := htodo p List.mem_cons_self
    rw [sendBuffer_eq hp] at hframe
    rw [receiveLoop_packet hp net hframe (frame_ne_nil p).symm]
    exact ⟨.inl ⟨rfl, rfl⟩, [p], packets, rfl, by simp, hrest⟩

theorem after_zero (s : Link) : s.after 0 = s := rfl

theorem after_succ (s : Link) (n : Nat) : s.after (n + 1) = s.step.after n := rfl

/-- **A run on an aligned socket**: after any number of calls, the payloads of the first packets
    have been handed over and the others are still to come, aligned. -/
theorem after_aligned {s : Link} {todo : List Bytes} (htodo : ∀ p ∈ todo, p.length < 2 ^ 32)
    (h : Aligned todo s.net) (n : Nat) :
    (s.after n).nextCall.Clean ∧ ∃ new todo', todo = new ++ todo' ∧
      (s.after n).connection.recvBuffer = s.connection.recvBuffer ++ new.flatten ∧
      Aligned todo' (s.after n).net := by
  induction n generalizing s todo with
  | zero =>
    rw [after_zero]
    exact ⟨(step_aligned htodo h).1, [], todo, rfl, by simp, h⟩
  | succ n ih =>
    obtain ⟨-, new, todo₁, rfl, hbuffer, hnet⟩ := step_aligned htodo h
    have htodo₁ : ∀ p ∈ todo₁, p.length < 2 ^ 32 := fun p hp =>
      htodo p (List.mem_append_right new hp)
    obtain ⟨hclean, new', todo', rfl, hbuffer', hnet'⟩ := ih htodo₁ hnet
    rw [after_succ]
    refine ⟨hclean, new ++ new', todo', by simp, ?_, hnet'⟩
    rw [hbuffer', hbuffer, List.flatten_append, List.append_assoc]

/-- No packet is outstanding when nothing is left on the socket: even an empty one has a header. -/
theorem Aligned.eq_nil {packets : List Bytes} (h : Aligned packets []) : packets = [] := by
  generalize hnet : ([] : List RecvResult) = net at h
  cases h with
  | done => rfl
  | wait _ => cases hnet
  | @packet p packets chunks net hframe _ =>
    have hchunks : chunks = [] := by
      have := (List.append_eq_nil_iff.mp hnet.symm).1
      simpa using this
    rw [hchunks, sendBuffer] at hframe
    have hlen := congrArg List.length hframe
    simp at hlen
    omega

/-! ## Clean calls come from aligned sockets -/

/-- A message with nothing behind it is the whole buffer, header included. That the header is the
    one that `frame` would make is because four bytes have one reading only. -/
theorem eq_frame_of_extract {buffer msg : Bytes}
    (h : extractCompleteMessage buffer = some (msg, [])) :
    buffer = frame msg ∧ msg.length < 2 ^ 32 := by
  rw [extractCompleteMessage_eq] at h
  split at h
  · cases h
  · rename_i hle
    have hlt := (declaredLength buffer).toNat_lt
    simp only [Option.some.injEq, Prod.mk.injEq, List.drop_eq_nil_iff] at h
    obtain ⟨hmsg, hend⟩ := h
    have hlen : msg.length = (declaredLength buffer).toNat := by
      rw [← hmsg, List.length_take, List.length_drop]
      omega
    have hdrop : buffer.drop 4 = msg := by
      rw [← hmsg, List.take_of_length_le]
      rw [List.length_drop]
      omega
    have hheader : buffer.take 4 = beBytes 4 msg.length := by
      refine (be_spelling ?_).mp ⟨?_, ?_⟩
      · rw [hlen]
        exact hlt
      · rw [List.length_take]
        omega
      · rw [hlen]
        unfold declaredLength
        rw [UInt32.toNat_ofNat_of_lt' ?_]
        have hvalue := beValue_lt (buffer.take 4)
        rw [List.length_take, Nat.min_eq_left (by omega)] at hvalue
        exact hvalue
    refine ⟨?_, hlen ▸ hlt⟩
    rw [frame, ← hheader, ← hdrop, List.take_append_drop]

/-- A stream can be read in one way only. The extractor is what shows it: from either reading it
    takes the first message. -/
theorem frame_append_inj {p q t u : Bytes} (hp : p.length < 2 ^ 32) (hq : q.length < 2 ^ 32)
    (h : frame p ++ t = frame q ++ u) : p = q ∧ t = u := by
  have hextract := extractCompleteMessage_whole hp t
  rw [h, extractCompleteMessage_whole hq] at hextract
  cases hextract
  exact ⟨rfl, rfl⟩

theorem flatMap_frame_eq_nil {packets : List Bytes} (h : packets.flatMap frame = []) :
    packets = [] := by
  cases packets with
  | nil => rfl
  | cons p packets =>
    rw [List.flatMap_cons] at h
    exact absurd (List.append_eq_nil_iff.mp h).1 (frame_ne_nil p)

/-- A stream of frames that begins with the frame of `msg` has `msg` as its first packet. -/
theorem packets_eq_cons {packets : List Bytes} (hpackets : ∀ p ∈ packets, p.length < 2 ^ 32)
    {msg t : Bytes} (hmsg : msg.length < 2 ^ 32) (h : frame msg ++ t = packets.flatMap frame) :
    ∃ rest, packets = msg :: rest ∧ t = rest.flatMap frame := by
  cases packets with
  | nil => exact absurd (List.append_eq_nil_iff.mp h).1 (frame_ne_nil msg)
  | cons p packets =>
    rw [List.flatMap_cons] at h
    obtain ⟨rfl, htail⟩ := frame_append_inj hmsg (hpackets p List.mem_cons_self) h
    exact ⟨packets, rfl, htail⟩

theorem flatMap_bytes_data (chunks : List Chunk) :
    (chunks.map RecvResult.data).flatMap RecvResult.bytes = chunks.flatMap Chunk.bytes := by
  rw [List.flatMap_map]
  rfl

/-- If every call is clean, the socket is aligned. What is known is what the calls have handed over;
    that these are the packets, and that the results were cut between them, has to be found out.

    The first call comes back in one of three ways. With a message, which is the hard case: nothing
    is left behind, so the results it has used are exactly the frame of that message, and since a
    stream can be read in one way only, that message is the first packet. At a would-block or at the
    end, nothing has been handed over, so no result was used before it. -/
theorem aligned_of_clean {net : List RecvResult} {packets : List Bytes}
    (hpackets : ∀ p ∈ packets, p.length < 2 ^ 32) (hlive : ∀ r ∈ net, r.Live)
    (hstream : net.flatMap RecvResult.bytes = packets.flatMap frame) {c : ClientConnection}
    (hclean : ∀ n, (Link.after ⟨c, net⟩ n).nextCall.Clean) : Aligned packets net := by
  -- By induction on the number of results left: the first call uses some of them.
  induction hn : net.length using Nat.strong_induction_on generalizing net packets c with
  | _ k ih =>
    obtain ⟨chunks, hreturns⟩ := receiveLoop_returns hlive []
    have hfirst := hclean 0
    have hlater : ∀ n, (Link.after (Link.step ⟨c, net⟩) n).nextCall.Clean := fun n => hclean (n + 1)
    have hrest := step_net ⟨c, net⟩
    rw [after_zero, nextCall_eq] at hfirst
    generalize receiveLoop [] net = call at hreturns hfirst hrest
    generalize Link.step ⟨c, net⟩ = s at hlater hrest
    obtain ⟨c', net'⟩ := s
    cases hreturns with
    | @message msg rest net'' hmsg =>
      rcases hfirst with ⟨-, hempty⟩ | ⟨hstatus, -⟩
      · subst hempty hrest
        obtain ⟨hframe, hlen⟩ := eq_frame_of_extract hmsg
        rw [List.nil_append] at hframe
        rw [List.flatMap_append, flatMap_bytes_data, hframe] at hstream
        -- the message is the first packet, and the other packets are the rest of the stream
        obtain ⟨packets, rfl, htail⟩ := packets_eq_cons hpackets hlen hstream
        have hchunks : chunks ≠ [] := by
          intro hnil
          rw [hnil] at hframe
          exact frame_ne_nil msg hframe.symm
        -- an empty frame has a header too, so at least one result has been used
        have hshorter : net'.length < k := by
          have hpos := List.length_pos_iff.mpr hchunks
          have hsum : chunks.length + net'.length = k := by simpa using hn
          omega
        refine .packet (by rw [hframe, sendBuffer_eq hlen]) (ih _ hshorter ?_ ?_ htail hlater rfl)
        · exact fun q hq => hpackets q (List.mem_cons_of_mem msg hq)
        · exact fun r hr => hlive r (List.mem_append_right _ hr)
      · cases hstatus
    | @pause net'' =>
      rcases hfirst with ⟨hstatus, -⟩ | ⟨-, hdata⟩
      · cases hstatus
      · subst hrest
        have hnone : chunks = [] := chunks_eq_nil hdata
        subst hnone
        refine .wait (ih _ ?_ hpackets ?_ hstream hlater rfl)
        · rw [← hn]
          simp
        · exact fun r hr => hlive r (List.mem_cons_of_mem _ hr)
    | idle =>
      rcases hfirst with ⟨hstatus, -⟩ | ⟨-, hdata⟩
      · cases hstatus
      · have hnone : chunks = [] := chunks_eq_nil hdata
        subst hnone
        rw [flatMap_frame_eq_nil hstream.symm]
        exact .done

/-! ## The result -/

theorem after_net_length (s : Link) (n : Nat) : (s.after n).net.length ≤ s.net.length - n := by
  induction n generalizing s with
  | zero => rw [after_zero, Nat.sub_zero]
  | succ n ih =>
    have hstep := receiveLoop_net_length [] s.net
    rw [← step_net] at hstep
    have h := ih s.step
    rw [after_succ]
    omega

theorem flatMap_sendBuffer {packets : List Bytes} (h : ∀ p ∈ packets, p.length < 2 ^ 32) :
    packets.flatMap sendBuffer = packets.flatMap frame :=
  List.flatMap_congr fun p hp => sendBuffer_eq (h p hp)

/-- **What reaches the connection over a stream transport.** For a socket that carries the
    frames of the packets, cut and interrupted in any way:

    * it is aligned exactly when every call of `receive` is clean;
    * when it is, the bytes in `recv_buffer` are after every call the payloads of the first
      packets, and those of all packets once the stream is consumed;
    * as many calls as there are results consume it. -/
theorem receive_lossless_of_aligned (packets : List Bytes) (net : List RecvResult)
    (transport : StreamTransport) (hpackets : ∀ p ∈ packets, p.length < 2 ^ 32)
    (hlive : ∀ r ∈ net, r.Live)
    (hstream : net.flatMap RecvResult.bytes = packets.flatMap sendBuffer) :
    let start : Link := ⟨{ transport := transport }, net⟩
    (Aligned packets net ↔ ∀ n, (start.after n).nextCall.Clean) ∧
    (Aligned packets net → ∀ n,
      (∃ done, done <+: packets ∧ (start.after n).connection.recvBuffer = done.flatten) ∧
      ((start.after n).net = [] → (start.after n).connection.recvBuffer = packets.flatten)) ∧
    (start.after net.length).net = [] := by
  intro start
  rw [flatMap_sendBuffer hpackets] at hstream
  refine ⟨⟨?_, ?_⟩, ?_, ?_⟩
  · intro haligned n
    exact (after_aligned (s := start) hpackets haligned n).1
  · intro hclean
    exact aligned_of_clean hpackets hlive hstream hclean
  · intro haligned n
    obtain ⟨-, new, todo, hsplit, hbuffer, hnet⟩ := after_aligned (s := start) hpackets haligned n
    rw [show start.connection.recvBuffer = [] from rfl, List.nil_append] at hbuffer
    refine ⟨⟨new, ⟨todo, hsplit.symm⟩, hbuffer⟩, ?_⟩
    intro hconsumed
    rw [hconsumed] at hnet
    rw [hbuffer, hsplit, hnet.eq_nil, List.append_nil]
  · have hlen := after_net_length start net.length
    rw [show start.net = net from rfl, Nat.sub_self] at hlen
    exact List.length_eq_zero_iff.mp (Nat.le_zero.mp hlen)

/-- A frame in two results, a would-block, an empty frame. -/
theorem receive_lossless_hi :
    let net : List RecvResult := [.data ⟨[0, 0, 0, 2, 104], by decide, by decide⟩,
      .data ⟨[105], by decide, by decide⟩, .wouldBlock, .data ⟨[0, 0, 0, 0], by decide, by decide⟩]
    (Link.after ⟨{ transport := .tcp {} }, net⟩ net.length).connection.recvBuffer = bytes "hi" := by
  intro net
  have hempty : Aligned [[]] ([⟨[0, 0, 0, 0], by decide, by decide⟩].map .data ++ []) :=
    .packet (by decide) .done
  have haligned : Aligned [bytes "hi", []] ([⟨[0, 0, 0, 2, 104], by decide, by decide⟩,
      ⟨[105], by decide, by decide⟩].map .data ++ _) := .packet (by decide) (.wait hempty)
  have hlive : ∀ r ∈ net, r.Live := by simp [net, RecvResult.Live]
  obtain ⟨-, hlossless, hconsumed⟩ := receive_lossless_of_aligned [bytes "hi", []] net (.tcp {})
    (by decide) hlive (by decide)
  exact (hlossless haligned net.length).2 hconsumed

/-- Two packets that arrive in one result: the second is lost. -/
theorem receive_loses_second_packet :
    let packets : List Bytes := [[1], [2]]
    let net : List RecvResult := [.data ⟨[0, 0, 0, 1, 1, 0, 0, 0, 1, 2], by decide, by decide⟩]
    net.flatMap RecvResult.bytes = packets.flatMap sendBuffer ∧
      ∀ transport ∈ [StreamTransport.tcp {}, StreamTransport.tls {}],
        (Link.after ⟨{ transport := transport }, net⟩ 1).net = [] ∧
        (Link.after ⟨{ transport := transport }, net⟩ 1).connection.recvBuffer = [1] ∧
        (Link.after ⟨{ transport := transport }, net⟩ 1).connection.recvBuffer
          ≠ packets.flatten := by
  intro packets net
  refine ⟨by decide, ?_⟩
  intro transport htransport
  rcases List.mem_pair.mp htransport with rfl | rfl
  · exact ⟨rfl, by decide, by decide⟩
  · exact ⟨rfl, by decide, by decide⟩

end Messenger
