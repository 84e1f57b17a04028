import Messenger.Lib.Stream
import Messenger.Model.Framing

/-!
# Framing

Two results about taking frames off a buffer.

*The two extractors.* `FramerMessage` and the transport parse the same frames with their
own code. They agree on every buffer except where the 32-bit sum of the framer wraps
(`framersAgree_iff`): there the guard promises a message that is not in the buffer, and
`extract_message` reads past its end.

*Fragmentation.* For the frames that `form_message` makes of messages short enough not
to wrap, the receiving loop delivers the messages however the stream is cut. The frame
facts below are what `Lib/Stream.lean` asks of a decoder; the rest of the argument is
there.
-/

set_option autoImplicit false

namespace Messenger

open Messenger.Lib

/-! ## The guard and the two extractors -/

/-- The transport's extractor, as one test. Its first test, for a header, follows from the
    second. -/
theorem extractCompleteMessage_eq (buffer : Bytes) :
    extractCompleteMessage buffer =
      if buffer.length < 4 + (declaredLength buffer).toNat then none
      else some ((buffer.drop 4).take (declaredLength buffer).toNat,
        buffer.drop (4 + (declaredLength buffer).toNat)) := by
  unfold extractCompleteMessage
  by_cases hshort : buffer.length < 4
  · have hlen : buffer.length < 4 + (declaredLength buffer).toNat := by omega
    simp [hshort, hlen]
  · simp [hshort]

theorem extractCompleteMessage_length_lt {buffer msg rest : Bytes}
    (h : extractCompleteMessage buffer = some (msg, rest)) : msg.length < 2 ^ 32 := by
  rw [extractCompleteMessage_eq] at h
  split at h
  · cases h
  · cases h
    have hlt := (declaredLength buffer).toNat_lt
    rw [List.length_take]
    omega

/-- The declared length is so large that the framer's sum wraps, and the frame is not there. When it
    is there, four gigabytes of it, the guard is right by chance. -/
def WrapsAround (buffer : Bytes) : Prop :=
  4 ≤ buffer.length ∧ 2 ^ 32 - 4 ≤ (declaredLength buffer).toNat ∧
    buffer.length < 4 + (declaredLength buffer).toNat

/-- The sum of the source is one of 32-bit words. -/
theorem framedSize_toNat (len : UInt32) : (4 + len).toNat = (4 + len.toNat) % 2 ^ 32 := by
  rw [UInt32.toNat_add]
  rfl

/-- Where nothing wraps, the guard is the comparison of natural numbers. -/
theorem hasMessageInBuffer_iff {buffer : Bytes} (h : ¬WrapsAround buffer) :
    FramerMessage.hasMessageInBuffer buffer = true ↔
      4 + (declaredLength buffer).toNat ≤ buffer.length := by
  unfold FramerMessage.hasMessageInBuffer
  unfold WrapsAround at h
  have hlt := (declaredLength buffer).toNat_lt
  by_cases hshort : buffer.length < 4
  · simp only [hshort, if_true, Bool.false_eq_true, false_iff]
    omega
  · simp only [hshort, if_false, decide_eq_true_eq, framedSize_toNat]
    by_cases hwrap : 4 + (declaredLength buffer).toNat < 2 ^ 32
    · rw [Nat.mod_eq_of_lt hwrap]
    · omega

/-- Where the sum wraps, the guard lets through anything that has a header: what is left of the sum
    is less than four. -/
theorem hasMessageInBuffer_of_wrapsAround {buffer : Bytes} (h : WrapsAround buffer) :
    FramerMessage.hasMessageInBuffer buffer = true := by
  obtain ⟨hheader, hwrap, -⟩ := h
  have hlt := (declaredLength buffer).toNat_lt
  unfold FramerMessage.hasMessageInBuffer
  simp only [Nat.not_lt.mpr hheader, if_false, decide_eq_true_eq, framedSize_toNat]
  omega

/-- The guard is exact, the framer stays in the buffer, and both extractors do the same. -/
structure FramersAgree (buffer : Bytes) : Prop where
  guard : FramerMessage.hasMessageInBuffer buffer = true ↔
    ∃ r, extractCompleteMessage buffer = some r
  within : FramerMessage.hasMessageInBuffer buffer = true →
    4 + (declaredLength buffer).toNat ≤ buffer.length
  same : FramerMessage.hasMessageInBuffer buffer = true →
    ∃ msg rest, FramerMessage.extractMessage buffer = .ok (msg, rest) ∧
      extractCompleteMessage buffer = some (msg, rest)

/-- Outside of that case everything is one comparison, made on both sides. -/
theorem framersAgree_of_not_wrapsAround {buffer : Bytes} (h : ¬WrapsAround buffer) :
    FramersAgree buffer := by
  have hguard := hasMessageInBuffer_iff h
  refine ⟨?_, hguard.mp, ?_⟩
  · rw [hguard, extractCompleteMessage_eq]
    constructor
    · intro hle
      exact ⟨_, if_neg (Nat.not_lt.mpr hle)⟩
    · intro hsome
      by_contra hle
      rw [if_pos (Nat.lt_of_not_le hle)] at hsome
      obtain ⟨r, hr⟩ := hsome
      cases hr
  · intro hhas
    have hle := Nat.not_lt.mpr (hguard.mp hhas)
    rw [extractMessage_eq, extractCompleteMessage_eq, if_neg hle, if_neg hle]
    exact ⟨_, _, rfl, rfl⟩

/-- **Where the framer and the transport agree**: everywhere but on a header that declares at
    least `2 ^ 32 - 4` bytes which are not all there. -/
theorem framersAgree_iff (buffer : Bytes) :
    FramersAgree buffer ↔
      ¬(4 ≤ buffer.length ∧ 2 ^ 32 - 4 ≤ (declaredLength buffer).toNat ∧
        buffer.length < 4 + (declaredLength buffer).toNat) := by
  constructor
  · intro hagree hwrap
    have hle := hagree.within (hasMessageInBuffer_of_wrapsAround hwrap)
    exact Nat.not_lt.mpr hle hwrap.2.2
  · intro h
    exact framersAgree_of_not_wrapsAround h

/-- A header of all ones: the guard holds, nothing is there, and the slice is out of bounds. -/
theorem not_framersAgree_ones :
    FramerMessage.hasMessageInBuffer [0xFF, 0xFF, 0xFF, 0xFF] = true ∧
      extractCompleteMessage [0xFF, 0xFF, 0xFF, 0xFF] = none ∧
      FramerMessage.extractMessage [0xFF, 0xFF, 0xFF, 0xFF] = .error .outOfBounds ∧
      ¬FramersAgree [0xFF, 0xFF, 0xFF, 0xFF] := by
  refine ⟨by decide, by decide, by decide, ?_⟩
  intro h
  have hsome := h.guard.mp (by decide)
  obtain ⟨r, hr⟩ := hsome
  cases hr

/-! ## One frame -/

/-- A length that fits, and the data: what `form_message` and the transport's `send` emit. -/
def frame (data : Bytes) : Bytes := beBytes 4 data.length ++ data

@[simp] theorem frame_length (data : Bytes) : (frame data).length = 4 + data.length := by
  simp [frame]

theorem frame_ne_nil (data : Bytes) : frame data ≠ [] := by
  intro h
  have hlen := frame_length data
  rw [h, List.length_nil] at hlen
  omega

/-- For data whose length fits, `form_message` appends a frame. For more, the length would be
    cut. -/
theorem formMessage_eq {data : Bytes} (h : data.length < 2 ^ 32) (buffer : Bytes) :
    FramerMessage.formMessage data buffer = buffer ++ frame data := by
  unfold FramerMessage.formMessage frame
  rw [UInt32.toNat_ofNat_of_lt' h, List.append_assoc]

theorem declaredLength_header {data s : Bytes} (h : data.length < 2 ^ 32)
    (hs : s.take 4 = beBytes 4 data.length) : (declaredLength s).toNat = data.length := by
  unfold declaredLength
  rw [hs, beValue_beBytes, show 256 ^ 4 = 2 ^ 32 from rfl, Nat.mod_eq_of_lt h]
  exact UInt32.toNat_ofNat_of_lt' h

/-- Any part of a stream that starts with a frame declares the frame's length, once it has
    the header. -/
theorem declaredLength_of_frame_start {data s t : Bytes} (h : data.length < 2 ^ 32)
    (hs : s <+: frame data ++ t) (hheader : 4 ≤ s.length) :
    (declaredLength s).toNat = data.length := by
  apply declaredLength_header h
  have htake : s.take 4 = (frame data ++ t).take 4 := by
    rw [List.prefix_iff_eq_take.mp hs, List.take_take, Nat.min_eq_left hheader]
  rw [htake, frame, List.append_assoc, List.take_left' (beBytes_length 4 _)]

theorem extractCompleteMessage_whole {data : Bytes} (h : data.length < 2 ^ 32) (t : Bytes) :
    extractCompleteMessage (frame data ++ t) = some (data, t) := by
  have hlen : (declaredLength (frame data ++ t)).toNat = data.length :=
    declaredLength_of_frame_start h (List.prefix_refl _) (by simp; omega)
  rw [extractCompleteMessage_eq, hlen, if_neg (by simp)]
  have hdata : ((frame data ++ t).drop 4).take data.length = data := by
    rw [frame, List.append_assoc, List.drop_left' (beBytes_length 4 _), List.take_left]
  have hrest : (frame data ++ t).drop (4 + data.length) = t :=
    List.drop_left' (frame_length data)
  rw [hdata, hrest]

/-- A part of a frame is not. With fewer than four bytes there is no length to compare, and with
    more it is the right one, and not reached. -/
theorem extractCompleteMessage_short {data s : Bytes} (h : data.length < 2 ^ 32)
    (hs : s <+: frame data) (hne : s ≠ frame data) : extractCompleteMessage s = none := by
  rw [extractCompleteMessage_eq, if_pos]
  have hlt : s.length < 4 + data.length := by
    rw [← frame_length]
    exact Nat.lt_of_not_le fun hle => hne (hs.eq_of_length_le hle)
  by_cases hheader : s.length < 4
  · omega
  · have hs' : s <+: frame data ++ [] := by simpa using hs
    rw [declaredLength_of_frame_start h hs' (Nat.not_lt.mp hheader)]
    exact hlt

/-! ## The receiving loop -/

/-- One turn of the loop: is there a message, and which. The source asks first and takes then, and
    the second may fail. -/
def nextMessage (buffer : Bytes) : Except Failure (Option (Bytes × Bytes)) :=
  if FramerMessage.hasMessageInBuffer buffer then (FramerMessage.extractMessage buffer).map some
  else .ok none

/-- Where nothing wraps, a turn of the loop does what the transport's extractor does, and does not
    fail. -/
theorem nextMessage_eq {buffer : Bytes} (h : ¬WrapsAround buffer) :
    nextMessage buffer = .ok (extractCompleteMessage buffer) := by
  have hagree := framersAgree_of_not_wrapsAround h
  unfold nextMessage
  cases hhas : FramerMessage.hasMessageInBuffer buffer with
  | true =>
    obtain ⟨msg, rest, hmsg, hcomplete⟩ := hagree.same hhas
    rw [hmsg, hcomplete]
    rfl
  | false =>
    cases hcomplete : extractCompleteMessage buffer with
    | none => rfl
    | some r => rw [hagree.guard.mpr ⟨r, hcomplete⟩] at hhas; cases hhas

/-- Where the sum wraps, the turn reads past the end of the buffer. -/
theorem nextMessage_of_wrapsAround {buffer : Bytes} (h : WrapsAround buffer) :
    nextMessage buffer = .error .outOfBounds := by
  unfold nextMessage
  rw [if_pos (hasMessageInBuffer_of_wrapsAround h), extractMessage_eq, if_pos h.2.2]
  rfl

/-- Frames of messages shorter than `2 ^ 32 - 4` bytes are found exactly when they are there. Longer
    ones are excluded because of the wrapping: their frames would be asked for before they have
    arrived. -/
theorem nextMessage_frameDecoder :
    FrameDecoder nextMessage frame (fun data => data.length < 2 ^ 32 - 4) where
  whole {data} h t := by
    have hlt : data.length < 2 ^ 32 := by omega
    rw [nextMessage_eq, extractCompleteMessage_whole hlt]
    -- the sum of header and length stays below `2 ^ 32` for messages this short
    rintro ⟨hheader, hwrap, -⟩
    rw [declaredLength_of_frame_start hlt (List.prefix_refl _) hheader] at hwrap
    omega
  short {data s} h hs hne := by
    have hlt : data.length < 2 ^ 32 := by omega
    rw [nextMessage_eq, extractCompleteMessage_short hlt hs hne]
    rintro ⟨hheader, hwrap, -⟩
    have hs' : s <+: frame data ++ [] := by simpa using hs
    rw [declaredLength_of_frame_start hlt hs' hheader] at hwrap
    omega
  empty := rfl

theorem nextMessage_eq_some {buffer msg rest : Bytes}
    (h : nextMessage buffer = .ok (some (msg, rest))) :
    FramerMessage.hasMessageInBuffer buffer = true ∧
      FramerMessage.extractMessage buffer = .ok (msg, rest) := by
  unfold nextMessage at h
  split at h
  · rename_i hhas
    refine ⟨hhas, ?_⟩
    cases hextract : FramerMessage.extractMessage buffer with
    | error x =>
      rw [hextract] at h
      cases h
    | ok taken =>
      rw [hextract] at h
      cases h
      rfl
  · cases h

theorem drainMessages_eq (buffer : Bytes) :
    drainMessages buffer =
      match nextMessage buffer with
      | .error x => .error x
      | .ok none => .ok ([], buffer)
      | .ok (some r) => (drainMessages r.2).map fun q => (r.1 :: q.1, q.2) := by
  rw [drainMessages, nextMessage]
  by_cases hhas : FramerMessage.hasMessageInBuffer buffer = true
  · rw [if_pos hhas, if_pos hhas]
    split
    · rename_i x hx
      rw [hx]
      rfl
    · rename_i msg rest hmsg
      simp only [hmsg]
      rfl
  · rw [if_neg hhas, if_neg hhas]

/-- The loop of the source is the library's loop over `nextMessage`. -/
theorem drainMessages_of_drains {buffer final : Bytes} {msgs : List Bytes}
    (h : Drains nextMessage buffer msgs final) : drainMessages buffer = .ok (msgs, final) := by
  induction h with
  | stop hnext => rw [drainMessages_eq, hnext]
  | step hnext _ ih =>
    rw [drainMessages_eq, hnext]
    simp only [ih]
    rfl

/-! ## Any cut of the stream -/

/-- The stream that successive `form_message` calls make. -/
def formStream (msgs : List Bytes) : Bytes :=
  msgs.foldl (fun buffer data => FramerMessage.formMessage data buffer) []

/-- The stream is one frame after the other. The induction is on the messages, with any buffer
    before them. -/
theorem formStream_eq {msgs : List Bytes} (h : ∀ m ∈ msgs, m.length < 2 ^ 32 - 4) :
    formStream msgs = msgs.flatMap frame := by
  have hfold : ∀ buffer, msgs.foldl (fun buffer data => FramerMessage.formMessage data buffer)
      buffer = buffer ++ msgs.flatMap frame := by
    induction msgs with
    | nil => simp
    | cons m msgs ih =>
      intro buffer
      have hm : m.length < 2 ^ 32 := by
        have := h m List.mem_cons_self
        omega
      rw [List.foldl_cons, ih (fun k hk => h k (List.mem_cons_of_mem m hk)), formMessage_eq hm,
        List.flatMap_cons, List.append_assoc]
  exact hfold []

/-- What the state of the loop is worth after the bytes `s`: the messages whose frames are complete
    have been delivered, and the rest of the bytes is in the buffer. -/
def Inbox.After (msgs : List Bytes) (s : Bytes) (inbox : Inbox) : Prop :=
  Received frame msgs s inbox.delivered inbox.recvBuffer

/-- **One chunk.** The loop takes off all frames that have become complete, and stops in front of
    one that is not. -/
theorem onChunk_after {msgs : List Bytes} (hmsgs : ∀ m ∈ msgs, m.length < 2 ^ 32 - 4)
    {s chunk : Bytes} {inbox : Inbox} (h : inbox.After msgs s)
    (hs : s ++ chunk <+: msgs.flatMap frame) :
    ∃ inbox', inbox.onChunk chunk = .ok inbox' ∧ inbox'.After msgs (s ++ chunk) := by
  obtain ⟨new, buf, hdrain, hrec⟩ := Received.feed nextMessage_frameDecoder hmsgs h hs
  refine ⟨{ recvBuffer := buf, delivered := inbox.delivered ++ new }, ?_, hrec⟩
  unfold Inbox.onChunk
  rw [drainMessages_of_drains hdrain]
  rfl

theorem drainMessages_stream {msgs : List Bytes} (hmsgs : ∀ m ∈ msgs, m.length < 2 ^ 32 - 4) :
    drainMessages (msgs.flatMap frame) = .ok (msgs, []) := by
  have hstart : Received frame msgs [] [] [] := Received.nil fun m _ => frame_ne_nil m
  obtain ⟨new, buf, hdrain, hrec⟩ :=
    Received.feed nextMessage_frameDecoder hmsgs hstart (List.prefix_refl (msgs.flatMap frame))
  obtain ⟨hnew, hbuf⟩ := Received.complete hrec
  rw [List.nil_append] at hnew hdrain
  subst hnew hbuf
  exact drainMessages_of_drains hdrain

/-- **A run.** By induction on the chunks, each of which continues what has arrived before it. -/
theorem onChunks_after {msgs : List Bytes} (hmsgs : ∀ m ∈ msgs, m.length < 2 ^ 32 - 4)
    {chunks : List Bytes} {s : Bytes} {inbox : Inbox} (h : inbox.After msgs s)
    (hs : s ++ chunks.flatten <+: msgs.flatMap frame) :
    ∃ inbox', chunks.foldlM Inbox.onChunk inbox = .ok inbox' ∧
      inbox'.After msgs (s ++ chunks.flatten) := by
  induction chunks generalizing s inbox with
  | nil => exact ⟨inbox, rfl, by simpa using h⟩
  | cons chunk chunks ih =>
    rw [List.flatten_cons, ← List.append_assoc] at hs
    have hfirst : s ++ chunk <+: msgs.flatMap frame := (List.prefix_append _ _).trans hs
    obtain ⟨inbox₁, hstep, h₁⟩ := onChunk_after hmsgs h hfirst
    obtain ⟨inbox', hrun, h'⟩ := ih h₁ hs
    refine ⟨inbox', ?_, ?_⟩
    · rw [List.foldlM_cons, hstep]
      exact hrun
    · rw [List.flatten_cons, ← List.append_assoc]
      exact h'

/-- **The receiving loop does not see how the stream was cut.** After every chunk the messages
    delivered are a prefix of those sent, and the buffer is the rest of what has arrived, short
    of the next frame; at the end everything is delivered and the buffer is empty. -/
theorem drain_insensitive_to_fragmentation (msgs chunks : List Bytes)
    (hmsgs : ∀ m ∈ msgs, m.length < 2 ^ 32 - 4) (hcut : chunks.flatten = formStream msgs) :
    chunks.foldlM Inbox.onChunk {} = .ok { recvBuffer := [], delivered := msgs } ∧
    ∀ arrived, arrived <+: chunks →
      ∃ inbox, arrived.foldlM Inbox.onChunk {} = .ok inbox ∧ inbox.delivered <+: msgs ∧
        formStream inbox.delivered ++ inbox.recvBuffer = arrived.flatten ∧
        ∀ m, inbox.delivered ++ [m] <+: msgs →
          inbox.recvBuffer <+: FramerMessage.formMessage m [] ∧
            inbox.recvBuffer ≠ FramerMessage.formMessage m [] := by
  rw [formStream_eq hmsgs] at hcut
  have hstart : Inbox.After msgs [] {} := Received.nil fun m _ => frame_ne_nil m
  constructor
  · have hall : [] ++ chunks.flatten <+: msgs.flatMap frame :=
      ⟨[], (List.append_nil _).trans hcut⟩
    obtain ⟨inbox, hrun, hafter⟩ := onChunks_after hmsgs hstart hall
    rw [List.nil_append, hcut] at hafter
    obtain ⟨hdelivered, hbuffer⟩ := Received.complete hafter
    rw [hrun, ← hdelivered, ← hbuffer]
  · intro arrived harrived
    have hpre : [] ++ arrived.flatten <+: msgs.flatMap frame := by
      obtain ⟨later, hlater⟩ := harrived
      rw [List.nil_append, ← hcut, ← hlater, List.flatten_append]
      exact List.prefix_append _ _
    obtain ⟨inbox, hrun, hafter⟩ := onChunks_after hmsgs hstart hpre
    have hsub : ∀ m ∈ inbox.delivered, m.length < 2 ^ 32 - 4 := fun m hm =>
      hmsgs m (hafter.delivered.subset hm)
    refine ⟨inbox, hrun, hafter.delivered, ?_, ?_⟩
    · rw [formStream_eq hsub]
      exact hafter.split.symm
    · intro m hm
      have hlen : m.length < 2 ^ 32 := by
        have := hmsgs m (hm.subset (by simp))
        omega
      rw [formMessage_eq hlen, List.nil_append]
      exact hafter.short m hm

/-- Three messages, one of them empty and one that looks like a header, cut inside the headers. -/
theorem drain_three_messages :
    [[0, 0], [0, 2, 104, 105, 0, 0, 0], [0, 0, 0, 0, 4, 0, 0, 0], [9]].foldlM Inbox.onChunk {}
      = .ok { recvBuffer := [], delivered := [bytes "hi", [], [0, 0, 0, 9]] } :=
  (drain_insensitive_to_fragmentation [bytes "hi", [], [0, 0, 0, 9]]
    [[0, 0], [0, 2, 104, 105, 0, 0, 0], [0, 0, 0, 0, 4, 0, 0, 0], [9]]
    (by decide) (by decide)).1

end Messenger
