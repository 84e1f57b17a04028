import Messenger.Proof.Wire.Fields

/-!
# The decoder is exact

`Serializer::deserialize` accepts the wire grammar of `Spec/Wire.lean` and nothing else.
The proof follows the decoder: `frameReader` is the part of it that reads, one rule of
`Lib/Reader.lean` for each of its lines, and `deserialize_eq` says that the rest only
puts the fields into a message.

A field of the grammar and the line of the decoder that reads it are joined by `Recognises`, in
both directions at once: what is spelled is read, and what is read was spelled so. The rules for
sequences and repetitions do the rest, which is why there is no induction over the input here. The
hard place is the second byte. In a compact frame it counts the entries, in an extended one it is a
version with the highest bit set, and the two formats are told apart by this bit alone, so a
compact frame must not have more than 127 entries.

The size that is computed for a compact message is the only check of the decoder that the grammar
does not have. It cannot fail for an input below 4 GiB, and the theorems carry that bound.
-/

set_option autoImplicit false

namespace Messenger

open Messenger.Lib

/-! ## The shared parts of the formats -/

/-- An entry is its length and then as many bytes. In both directions the length that was read is
    the length of what comes behind it, which determines the two bytes. -/
theorem metadataEntry_recognises :
    Recognises Failure.IsThrown metadataEntry
      (fun m e => m.length < 2 ^ 16 ∧ e = entryBytes m) := by
  refine ((u16Field_recognises _).bind fun len _ _ =>
    sliceField_recognises len.toNat _).congr fun m e => ⟨?_, ?_⟩
  · rintro ⟨len, _, _, rfl, rfl, hlen, rfl⟩
    exact ⟨hlen ▸ len.toNat_lt, by rw [entryBytes, hlen]⟩
  · rintro ⟨hm, rfl⟩
    have hlen : (UInt16.ofNat m.length).toNat = m.length := UInt16.toNat_ofNat_of_lt' hm
    exact ⟨UInt16.ofNat m.length, _, m, by rw [hlen, entryBytes], rfl, hlen.symm, rfl⟩

theorem metadataEntries_recognises (metalen : UInt8) :
    Recognises Failure.IsThrown (metadataEntries metalen)
      (fun ms e => ms.length = metalen.toNat ∧
        (∀ m ∈ ms, m.length < 2 ^ 16) ∧ e = ms.flatMap entryBytes) :=
  (metadataEntry_recognises.times metalen.toNat).congr fun _ _ => and_congr_right' many_spelled

theorem payloadField_recognises :
    Recognises Failure.IsThrown payloadField
      (fun p e => p.length < 2 ^ 32 ∧ e = payloadBytes p) := by
  refine ((u32Field_recognises _).bind fun plen _ _ =>
    sliceField_recognises plen.toNat _).congr fun p e => ⟨?_, ?_⟩
  · rintro ⟨plen, _, _, rfl, rfl, hlen, rfl⟩
    exact ⟨hlen ▸ plen.toNat_lt, by rw [payloadBytes, hlen]⟩
  · rintro ⟨hp, rfl⟩
    have hlen : (UInt32.ofNat p.length).toNat = p.length := UInt32.toNat_ofNat_of_lt' hp
    exact ⟨UInt32.ofNat p.length, _, p, by rw [hlen, payloadBytes], rfl, hlen.symm, rfl⟩

/-! ## Fields after the second byte -/

/-- The entries and the payload are what `Body` spells, in either format. The count is not part of
    it: in the compact format it is the second byte of the frame, in the extended one it comes much
    later. -/
theorem compactFields_recognises (metalen : UInt8) :
    Recognises Failure.IsThrown (compactFields metalen)
      (fun x e => ∃ b : Body, b.metadata.length = metalen.toNat ∧
        x = (b.metadata, b.payload) ∧ e = b.bytes) := by
  refine ((metadataEntries_recognises metalen).bind fun metadata _ _ =>
    payloadField_recognises.bind fun payload _ _ =>
      Recognises.pure (metadata, payload)).congr fun x e => ⟨?_, ?_⟩
  · rintro ⟨metadata, _, _, rfl, ⟨hcount, hfit, rfl⟩, payload, _, _, rfl, ⟨hp, rfl⟩, rfl, rfl⟩
    exact ⟨⟨metadata, payload, hfit, hp⟩, hcount, rfl, by rw [List.append_nil]; rfl⟩
  · rintro ⟨b, hcount, rfl, rfl⟩
    exact ⟨b.metadata, _, _, rfl, ⟨hcount, b.entries_fit, rfl⟩, b.payload, _, [],
      (List.append_nil _).symm, ⟨b.payload_fits, rfl⟩, rfl, rfl⟩

/-- The fields of an extended frame, as the decoder reads them. -/
def ExtendedFrame.fields (f : ExtendedFrame) : ExtendedFields where
  flags₁ := f.flags₁
  timestamp := f.timestamp
  sender := f.sender
  recipient := f.recipient
  sequenceNumber := f.sequenceNumber
  flags := f.flags
  metalen := UInt8.ofNat f.metadata.length
  metadata := f.metadata
  payload := f.payload

/-- The spelling of the fields after the version byte, in the pieces the decoder reads.
    `ExtendedFrame.bytes` groups them as the grammar does; with this grouping the rules of the
    reader apply from left to right. -/
def ExtendedFrame.tail (f : ExtendedFrame) : Bytes :=
  beBytes 4 f.flags₁.toNat ++ (leBytes 8 f.timestamp.toNat ++
    ([UInt8.ofNat f.sender.length] ++ (f.sender ++
      ([UInt8.ofNat f.recipient.length] ++ (f.recipient ++
        (leBytes 8 f.sequenceNumber.toNat ++ (beBytes 4 f.flags.toNat ++
          ([UInt8.ofNat f.metadata.length] ++
            (f.metadata.flatMap entryBytes ++ payloadBytes f.payload)))))))))

theorem ExtendedFrame.bytes_eq_tail (f : ExtendedFrame) :
    f.bytes = [f.type, 0x80 ||| f.version] ++ f.tail := by
  simp [ExtendedFrame.bytes, ExtendedFrame.tail, nameBytes, Body.bytes]

theorem toNat_ofNat8 {n : Nat} (h : n < 256) : (UInt8.ofNat n).toNat = n :=
  UInt8.toNat_ofNat_of_lt' h

/-- The type and the version do not occur after the version byte: any will do. The three lengths are
    read before what they count, so from left to right they are arbitrary bytes that happen to be
    right, and from right to left they are what the frame has; each of the two halves of the proof
    takes the eleven fields in turn. -/
theorem extendedFields_recognises (type version : UInt8) (hpos : 0 < version)
    (hfits : version < 128) :
    Recognises Failure.IsThrown extendedFields
      (fun x e => ∃ f : ExtendedFrame, f.type = type ∧ f.version = version ∧
        x = f.fields ∧ e = f.tail) := by
  refine ((u32Field_recognises _).bind fun flags₁ _ _ =>
    (u64Field_recognises _).bind fun timestamp _ _ =>
    (byteField_recognises _).bind fun senderLen _ _ =>
    (sliceField_recognises senderLen.toNat _).bind fun sender _ _ =>
    (byteField_recognises _).bind fun recipientLen _ _ =>
    (sliceField_recognises recipientLen.toNat _).bind fun recipient _ _ =>
    (u64Field_recognises _).bind fun sequenceNumber _ _ =>
    (u32Field_recognises _).bind fun flags _ _ =>
    (byteField_recognises _).bind fun metalen _ _ =>
    (metadataEntries_recognises metalen).bind fun metadata _ _ =>
    payloadField_recognises.bind fun payload _ _ =>
    Recognises.pure (ExtendedFields.mk flags₁ timestamp sender recipient sequenceNumber flags
      metalen metadata payload)).congr fun x e => ⟨?_, ?_⟩
  · rintro ⟨flags₁, _, _, rfl, rfl, timestamp, _, _, rfl, rfl, senderLen, _, _, rfl, rfl,
      sender, _, _, rfl, ⟨hsender, rfl⟩, hrest⟩
    obtain ⟨recipientLen, _, _, rfl, rfl, recipient, _, _, rfl, ⟨hrecipient, rfl⟩,
      sequenceNumber, _, _, rfl, rfl, flags, _, _, rfl, rfl, hrest⟩ := hrest
    obtain ⟨metalen, _, _, rfl, rfl, metadata, _, _, rfl, ⟨hcount, hfit, rfl⟩,
      payload, _, _, rfl, ⟨hp, rfl⟩, rfl, rfl⟩ := hrest
    -- the lengths that were read are those of what was read
    have hsl : senderLen = UInt8.ofNat sender.length := by rw [hsender, UInt8.ofNat_toNat]
    have hrl : recipientLen = UInt8.ofNat recipient.length := by rw [hrecipient, UInt8.ofNat_toNat]
    have hml : metalen = UInt8.ofNat metadata.length := by rw [hcount, UInt8.ofNat_toNat]
    have hs : sender.length < 256 := hsender ▸ senderLen.toNat_lt
    have hr : recipient.length < 256 := hrecipient ▸ recipientLen.toNat_lt
    have hm : metadata.length < 256 := hcount ▸ metalen.toNat_lt
    refine ⟨{ metadata, payload, type, version, flags₁, timestamp, sender, recipient,
              sequenceNumber, flags
              entries_fit := hfit
              payload_fits := hp
              version_pos := hpos
              version_fits := hfits
              sender_fits := hs
              recipient_fits := hr
              count_fits := hm }, rfl, rfl, ?_, ?_⟩
    · rw [hml]
      rfl
    · rw [hsl, hrl, hml, List.append_nil]
      rfl
  · rintro ⟨f, -, -, rfl, rfl⟩
    have hsl := toNat_ofNat8 f.sender_fits
    have hrl := toNat_ofNat8 f.recipient_fits
    have hml := toNat_ofNat8 f.count_fits
    exact ⟨f.flags₁, _, _, rfl, rfl, f.timestamp, _, _, rfl, rfl, UInt8.ofNat f.sender.length,
      _, _, rfl, rfl, f.sender, f.sender, _, rfl, ⟨hsl.symm, rfl⟩,
      UInt8.ofNat f.recipient.length, _, _, rfl, rfl,
      f.recipient, f.recipient, _, rfl, ⟨hrl.symm, rfl⟩, f.sequenceNumber, _, _, rfl, rfl,
      f.flags, _, _, rfl, rfl, UInt8.ofNat f.metadata.length, _, _, rfl, rfl,
      f.metadata, _, _, rfl, ⟨hml.symm, f.entries_fit, rfl⟩,
      f.payload, _, [], (List.append_nil _).symm, ⟨f.payload_fits, rfl⟩, rfl, rfl⟩

/-! ## The second byte -/

theorem forall_byte {P : UInt8 → Prop} (h : ∀ n < 256, P (UInt8.ofNat n)) (b : UInt8) : P b := by
  simpa using h b.toNat b.toNat_lt

/-- The format bit is the highest, so the compact format is the one whose second byte is below
    128. -/
theorem formatBit_eq_zero (b : UInt8) : b &&& kExtendedFormatFlag = 0 ↔ b < 128 := by
  revert b
  exact forall_byte (by decide +kernel)

theorem versionBits_lt (b : UInt8) : b &&& 0x7F < 128 := by
  revert b
  exact forall_byte (by decide +kernel)

theorem versionBits_of_lt (v : UInt8) : v < 128 → v &&& 0x7F = v := by
  revert v
  exact forall_byte (by decide +kernel)

/-- Of a second byte with the format bit set, the version is the rest. -/
theorem formatBit_or_versionBits (b : UInt8) : ¬b < 128 → 0x80 ||| (b &&& 0x7F) = b := by
  revert b
  exact forall_byte (by decide +kernel)

theorem formatBit_or_version (v : UInt8) :
    v < 128 → ¬(0x80 ||| v) < 128 ∧ (0x80 ||| v) &&& 0x7F = v := by
  revert v
  exact forall_byte (by decide +kernel)

/-! ## A whole frame -/

/-- What the decoder has read when it has read a frame. The two formats are kept apart, since the
    message is made of them in different ways: only the compact one has its size computed. -/
inductive FrameFields
  | compact (type count : UInt8) (metadata : List Bytes) (payload : Bytes)
  | extended (type version : UInt8) (x : ExtendedFields)

def Frame.fields : Frame → FrameFields
  | .compact f => .compact f.type (UInt8.ofNat f.metadata.length) f.metadata f.payload
  | .extended f => .extended f.type f.version f.fields

/-- The reading part of `deserialize`, after the first two bytes. The source has it between
    declarations of the message that is filled in; here reading is separate from filling in, and
    `deserialize_eq` puts the two together. -/
def frameRest (type second : UInt8) (raw : Bytes) : Reading FrameFields :=
  if second < 128 then do
    let x ← compactFields second raw
    return .compact type second x.1 x.2
  else do
    throwIf (second &&& 0x7F = 0) (runtimeError "Unsupported protocol version")
    let x ← extendedFields raw
    return .extended type (second &&& 0x7F) x

def frameReader (raw : Bytes) : Reading FrameFields := do
  let type ← byteField "Malformed message: too short" raw
  let second ← byteField "Malformed message: too short" raw
  frameRest type second raw

/-- After the first two bytes, a frame is what the branch for its second byte reads. The hard
    direction is from a frame to the reader: the second byte of a compact frame is its number of
    entries, which has to be below 128 for the right branch to be taken, and that of an extended one
    has the format bit and a version that is not zero. -/
theorem frameRest_recognises (type second : UInt8) :
    Recognises Failure.IsThrown (frameRest type second)
      (fun x e => ∃ f : Frame, x = f.fields ∧ [type, second] ++ e = f.bytes) := by
  refine (Recognises.ite (fun hs => (compactFields_recognises second).bind fun x _ _ =>
      Recognises.pure (FrameFields.compact type second x.1 x.2))
    (fun hs => (Recognises.guard (isThrown_runtimeError _)).bind fun _ _ hv =>
      (extendedFields_recognises type (second &&& 0x7F) (UInt8.pos_iff_ne_zero.mpr hv.1)
        (versionBits_lt second)).bind fun x _ _ =>
          Recognises.pure (FrameFields.extended type (second &&& 0x7F) x))).congr
    fun x e => ⟨?_, ?_⟩
  · split
    · rintro ⟨_, _, _, rfl, ⟨b, hcount, rfl, rfl⟩, rfl, rfl⟩
      have hsecond : second = UInt8.ofNat b.metadata.length := by rw [hcount, UInt8.ofNat_toNat]
      have hfits : b.metadata.length < 128 := hcount ▸ UInt8.lt_iff_toNat_lt.mp ‹second < 128›
      refine ⟨.compact { toBody := b, type := type, count_fits := hfits }, ?_, ?_⟩
      · rw [hsecond]
        rfl
      · rw [hsecond, List.append_nil]
        rfl
    · rintro ⟨_, _, _, rfl, ⟨-, rfl⟩, _, _, _, rfl, ⟨f, rfl, hversion, rfl, rfl⟩, rfl, rfl⟩
      refine ⟨.extended f, by rw [← hversion]; rfl, ?_⟩
      rw [Frame.bytes, f.bytes_eq_tail, hversion, formatBit_or_versionBits second ‹_›]
      simp
  · rintro ⟨f, rfl, he⟩
    -- now from a frame to the branch that reads it
    cases f with
    | compact f =>
      obtain ⟨rfl, rfl, rfl⟩ : type = f.type ∧ second = UInt8.ofNat f.metadata.length ∧
          e = f.toBody.bytes := by simpa [Frame.bytes, CompactFrame.bytes] using he
      have hcount := toNat_ofNat8 (Nat.lt_trans f.count_fits (by decide))
      rw [if_pos (UInt8.lt_iff_toNat_lt.mpr (by rw [hcount]; exact f.count_fits))]
      exact ⟨_, _, [], (List.append_nil _).symm, ⟨f.toBody, hcount.symm, rfl, rfl⟩, rfl, rfl⟩
    | extended f =>
      obtain ⟨rfl, rfl, rfl⟩ : type = f.type ∧ second = 0x80 ||| f.version ∧ e = f.tail := by
        simpa [Frame.bytes, f.bytes_eq_tail] using he
      obtain ⟨hformat, hversion⟩ := formatBit_or_version f.version f.version_fits
      rw [if_neg hformat, hversion]
      exact ⟨(), [], _, rfl, ⟨UInt8.pos_iff_ne_zero.mp f.version_pos, rfl⟩, f.fields, _, [],
        (List.append_nil _).symm, ⟨f, rfl, rfl, rfl, rfl⟩, rfl, rfl⟩

/-- **The reader recognises frames.** The two bytes that the decision rests on are read by two
    fields. -/
theorem frameReader_recognises :
    Recognises Failure.IsThrown frameReader
      (fun x e => ∃ f : Frame, x = f.fields ∧ e = f.bytes) := by
  refine ((byteField_recognises _).bind fun type _ _ => (byteField_recognises _).bind
    fun second _ _ => frameRest_recognises type second).congr fun x e => ⟨?_, ?_⟩
  · rintro ⟨type, _, _, rfl, rfl, second, _, _, rfl, rfl, f, rfl, hf⟩
    exact ⟨f, rfl, hf⟩
  · rintro ⟨f, rfl, rfl⟩
    obtain ⟨type, second, e, he⟩ : ∃ type second e, f.bytes = type :: second :: e := by
      cases f <;> exact ⟨_, _, _, rfl⟩
    exact ⟨type, [type], second :: e, he, rfl, second, [second], e, rfl, rfl, f, rfl, he.symm⟩

/-- The message that `deserialize` makes of the fields. The first flag word of an extended frame is
    read and thrown away. The length in the header is computed for a compact frame and taken from
    the input for an extended one, so behind an extended frame more bytes make it larger. -/
def FrameFields.message (raw : Bytes) : FrameFields → Except Failure Message
  | .compact type count metadata payload => do
    let length ← computeSerializedSize count metadata payload
    return {
      header := { type := .ofByte type, protocolVersion := kProtocolVersion, length := length }
      metalen := count
      metadata := metadata
      payload := payload }
  | .extended type version x =>
    return {
      header := {
        type := .ofByte type, protocolVersion := version, timestamp := x.timestamp,
        length := UInt32.ofNat (raw.length - 2) }
      metalen := x.metalen
      envelope := {
        sender := x.sender, recipient := x.recipient, sequenceNumber := x.sequenceNumber,
        flags := x.flags }
      metadata := x.metadata
      payload := x.payload }

/-- **Past the size check, `deserialize` is the reader followed by `message`.** The check for six
    bytes comes first in the source, and after it the first two are read without another; the reader
    does check for each, which makes no difference once there are six. -/
theorem deserialize_eq {raw : Bytes} (h : 6 ≤ raw.length) :
    Serializer.deserialize raw = (frameReader raw).run 0 >>= fun x => x.1.message raw := by
  obtain ⟨type, second, rest, rfl⟩ : ∃ type second rest, raw = type :: second :: rest := by
    match raw, h with
    | type :: second :: rest, _ => exact ⟨type, second, rest, rfl⟩
  have h₀ := nextByte_run [] (second :: rest) type
  have h₁ := nextByte_run [type] rest second
  have b₀ := (byteField_recognises "Malformed message: too short").complete [] (second :: rest)
    (show [type] = [type] from rfl)
  have b₁ := (byteField_recognises "Malformed message: too short").complete [type] rest
    (show [second] = [second] from rfl)
  simp only [List.nil_append, List.length_nil, List.length_cons, List.cons_append] at h₀ h₁ b₀ b₁
  rw [frameReader, run_bind_ok b₀, run_bind_ok b₁, frameRest]
  simp only [Serializer.deserialize, if_neg (Nat.not_lt.mpr h), h₀, h₁, ok_bind, formatBit_eq_zero]
  -- the same decision on both sides, in terms of the bit and of the number
  by_cases hs : second < 128
  · simp only [if_pos hs, StateT.run_bind]
    cases (compactFields second (type :: second :: rest)).run 2 <;> rfl
  · simp only [if_neg hs]
    by_cases hv : second &&& 0x7F = 0
    · rw [run_bind_error (throwIf_of hv)]
      simp only [hv]
      rfl
    · rw [run_bind_ok (throwIf_not hv)]
      simp only [if_neg hv, StateT.run_bind]
      cases (extendedFields (type :: second :: rest)).run 2 <;> rfl

/-! ## Sizes -/

theorem flatMap_entryBytes_length (metadata : List Bytes) :
    (metadata.flatMap entryBytes).length = (metadata.map fun m => 2 + m.length).sum := by
  simp [List.length_flatMap, entryBytes]

/-- What `compute_serialized_size` counts are the bytes of the body and two more. -/
theorem Body.bytes_length (b : Body) : 2 + b.bytes.length = compactSize b.metadata b.payload := by
  simp only [Body.bytes, List.length_append, flatMap_entryBytes_length, payloadBytes,
    beBytes_length, compactSize]
  omega

theorem CompactFrame.bytes_length (f : CompactFrame) :
    f.bytes.length = compactSize f.metadata f.payload := by
  rw [CompactFrame.bytes, List.length_append, ← f.toBody.bytes_length]
  rfl

/-- In either format a frame has at least the bytes that its content takes in the compact one. -/
theorem Frame.compactSize_le (f : Frame) :
    compactSize f.body.metadata f.body.payload ≤ f.bytes.length := by
  cases f with
  | compact f => exact f.bytes_length.ge
  | extended f =>
    simp only [Frame.body, ← Body.bytes_length, Frame.bytes, ExtendedFrame.bytes,
      List.length_append, List.length_cons]
    omega

theorem Frame.six_le_length (f : Frame) : 6 ≤ f.bytes.length := by
  have h := f.compactSize_le
  rw [compactSize] at h
  omega

theorem Frame.compactSize_lt (f : Frame) {t : Bytes} (h : (f.bytes ++ t).length < 2 ^ 32) :
    compactSize f.body.metadata f.body.payload < 2 ^ 32 := by
  have hle := f.compactSize_le
  rw [List.length_append] at h
  omega

/-- **What `compute_serialized_size` checks**: the count, then the size. The sum is made with a loop
    in the source, and the second check is against the largest value of 32 bits. -/
theorem computeSerializedSize_eq (metalen : UInt8) (metadata : List Bytes) (payload : Bytes) :
    computeSerializedSize metalen metadata payload =
      if metalen.toNat ≠ metadata.length then
        .error (runtimeError "Malformed message metadata count")
      else if compactSize metadata payload > 2 ^ 32 - 1 then
        .error (overflowError "Message is too large")
      else .ok (UInt32.ofNat (compactSize metadata payload)) := by
  -- the loop adds up what `compactSize` adds up
  have hfold : ∀ n, metadata.foldl (fun total m => total + 2 + m.length) n
      = n + (metadata.map fun m => 2 + m.length).sum := by
    induction metadata with
    | nil => simp
    | cons m metadata ih => intro n; rw [List.foldl_cons, ih]; simp; omega
  rw [computeSerializedSize, hfold]
  rfl

theorem computeSerializedSize_ok {metalen : UInt8} {metadata : List Bytes} {payload : Bytes}
    (hcount : metalen.toNat = metadata.length) (hsize : compactSize metadata payload < 2 ^ 32) :
    computeSerializedSize metalen metadata payload
      = .ok (UInt32.ofNat (compactSize metadata payload)) := by
  rw [computeSerializedSize_eq, if_neg (not_not.mpr hcount), if_neg (by omega)]

theorem computeSerializedSize_isThrown {metalen : UInt8} {metadata : List Bytes} {payload : Bytes}
    {x : Failure} (h : computeSerializedSize metalen metadata payload = .error x) :
    x.IsThrown := by
  rw [computeSerializedSize_eq] at h
  split at h
  · cases h; exact isThrown_runtimeError _
  · split at h
    · cases h; exact isThrown_overflowError _
    · cases h

/-! ## The message of a frame -/

/-- The message says what the frame says, and has its time. That of a compact frame is zero, since
    it has none. -/
theorem message_content {raw : Bytes} {f : Frame} {m : Message}
    (h : f.fields.message raw = .ok m) :
    m.content = f.content ∧ m.header.timestamp = f.timestamp := by
  cases f with
  | compact f =>
    simp only [Frame.fields, FrameFields.message] at h
    cases hc : computeSerializedSize (UInt8.ofNat f.metadata.length) f.metadata f.payload with
    | error x => rw [hc] at h; cases h
    | ok length => rw [hc] at h; cases h; exact ⟨rfl, rfl⟩
  | extended f => cases h; exact ⟨rfl, rfl⟩

/-- The one thing that can go wrong is the size of a compact message. -/
theorem message_isThrown {raw : Bytes} {f : Frame} {x : Failure}
    (h : f.fields.message raw = .error x) : x.IsThrown := by
  cases f with
  | compact f =>
    simp only [Frame.fields, FrameFields.message] at h
    cases hc : computeSerializedSize (UInt8.ofNat f.metadata.length) f.metadata f.payload with
    | error y => rw [hc] at h; cases h; exact computeSerializedSize_isThrown hc
    | ok length => rw [hc] at h; cases h
  | extended f => cases h

/-- The size check of the compact format passes for any input below 4 GiB, as the content is part of
    it. -/
theorem message_ok (raw : Bytes) {f : Frame}
    (h : compactSize f.body.metadata f.body.payload < 2 ^ 32) :
    ∃ m, f.fields.message raw = .ok m := by
  cases f with
  | compact f =>
    have hcount := toNat_ofNat8 (Nat.lt_trans f.count_fits (by decide))
    have hsize : compactSize f.metadata f.payload < 2 ^ 32 := h
    simp only [Frame.fields, FrameFields.message, computeSerializedSize_ok hcount hsize]
    exact ⟨_, rfl⟩
  | extended f => exact ⟨_, rfl⟩

/-! ## `deserialize` -/

/-- Every frame is accepted, whatever follows it: the rest of the input is not looked at. -/
theorem deserialize_frame {f : Frame}
    (h : compactSize f.body.metadata f.body.payload < 2 ^ 32) (t : Bytes) :
    ∃ m, Serializer.deserialize (f.bytes ++ t) = .ok m ∧ m.content = f.content ∧
      m.header.timestamp = f.timestamp := by
  obtain ⟨m, hm⟩ := message_ok (f.bytes ++ t) h
  have hread := frameReader_recognises.complete_start ⟨f, rfl, rfl⟩ t
  have hlen : 6 ≤ (f.bytes ++ t).length := by
    rw [List.length_append]
    exact Nat.le_add_right_of_le f.six_le_length
  refine ⟨m, ?_, message_content hm⟩
  rw [deserialize_eq hlen, hread, ok_bind, hm]

theorem frameReader_of_deserialize {raw : Bytes} {m : Message}
    (h : Serializer.deserialize raw = .ok m) :
    ∃ x, (frameReader raw).run 0 = .ok x ∧ x.1.message raw = .ok m := by
  by_cases hlen : raw.length < 6
  · rw [Serializer.deserialize, if_pos hlen] at h
    cases h
  rw [deserialize_eq (by omega)] at h
  exact bind_ok_inv h

/-- Only frames are accepted. With `deserialize_frame` this is all there is to know about the
    decoder, for whoever does not care for the texts of the exceptions. -/
theorem deserialize_sound {raw : Bytes} {m : Message} (h : Serializer.deserialize raw = .ok m) :
    ∃ (f : Frame) (t : Bytes), raw = f.bytes ++ t ∧ m.content = f.content := by
  obtain ⟨x, hread, hm⟩ := frameReader_of_deserialize h
  obtain ⟨_, t, rfl, f, hfields, rfl⟩ := frameReader_recognises.sound_start hread
  rw [hfields] at hm
  exact ⟨f, t, rfl, (message_content hm).1⟩

theorem metadata_of_content {m : Message} {f : Frame} (h : m.content = f.content) :
    m.metadata = f.body.metadata := by
  rw [show m.metadata = f.content.metadata from congrArg Content.metadata h]
  cases f <;> rfl

theorem payload_of_content {m : Message} {f : Frame} (h : m.content = f.content) :
    m.payload = f.body.payload := by
  rw [show m.payload = f.content.payload from congrArg Content.payload h]
  cases f <;> rfl

/-- The entries of a message that was decoded have a length of two bytes. `getMeta` of an entry that
    is not there is empty, as `get_meta` returns an empty vector for it. -/
theorem deserialize_entry_fits {raw : Bytes} {m : Message}
    (h : Serializer.deserialize raw = .ok m) (i : Nat) : (m.getMeta i).length ≤ 65535 := by
  obtain ⟨f, t, -, hcontent⟩ := deserialize_sound h
  unfold Message.getMeta
  rw [metadata_of_content hcontent, List.getD_eq_getElem?_getD]
  cases hentry : f.body.metadata[i]? with
  | none => exact Nat.zero_le _
  | some entry =>
    exact Nat.le_of_lt_succ (f.body.entries_fit entry (List.mem_of_getElem? hentry))

/-- A refusal is an exception: no read leaves the input. The reader has this from its fields, each
    of which throws before it would read too far. -/
theorem deserialize_isThrown {raw : Bytes} {x : Failure}
    (h : Serializer.deserialize raw = .error x) : x.IsThrown := by
  by_cases hlen : raw.length < 6
  · rw [Serializer.deserialize, if_pos hlen] at h
    cases h
    exact isThrown_runtimeError _
  rw [deserialize_eq (by omega)] at h
  rcases bind_error_inv h with hread | ⟨r, hread, hmessage⟩
  · exact frameReader_recognises.fails_start hread
  · obtain ⟨_, t, rfl, f, hfields, rfl⟩ := frameReader_recognises.sound_start hread
    rw [hfields] at hmessage
    exact message_isThrown hmessage

/-- **Acceptance is well-formedness.** The bound on the length is for the size check only, which an
    input of 4 GiB could fail. -/
theorem deserialize_ok_iff {raw : Bytes} (hraw : raw.length < 2 ^ 32) :
    (∃ m, Serializer.deserialize raw = .ok m) ↔ WellFormed raw := by
  constructor
  · rintro ⟨m, hm⟩
    obtain ⟨f, t, hf, -⟩ := deserialize_sound hm
    exact ⟨f, t, hf⟩
  · rintro ⟨f, t, rfl⟩
    obtain ⟨m, hm, -⟩ := deserialize_frame (f.compactSize_lt hraw) t
    exact ⟨m, hm⟩

/-- **A frame cut short is refused.** No frame is the beginning of another, which the reader knows
    from having recognised them (`rejects_truncated`): it would have to stop earlier on the longer
    input, and it stops at the same place on both. -/
theorem deserialize_truncated {f : Frame} {s : Bytes} (hs : s <+: f.bytes)
    (hne : s ≠ f.bytes) : ∃ e, Serializer.deserialize s = .error (.thrown e) := by
  cases h : Serializer.deserialize s with
  | error x =>
    match x, deserialize_isThrown h with
    | .thrown e, _ => exact ⟨e, rfl⟩
  | ok m =>
    obtain ⟨x, hread, -⟩ := frameReader_of_deserialize h
    obtain ⟨e, hrefused⟩ := frameReader_recognises.rejects_truncated ⟨f, rfl, rfl⟩ hs hne
    rw [hrefused] at hread
    cases hread

/-- **`deserialize` accepts exactly the wire grammar.** It succeeds on the byte strings that
    begin with a frame, tells what that frame says whatever follows it, refuses every frame
    that is cut short, and reads no byte outside its input. -/
theorem deserialize_accepts_exactly_frames (raw : Bytes) (hraw : raw.length < 2 ^ 32) :
    ((∃ m, Serializer.deserialize raw = .ok m) ↔ WellFormed raw) ∧
    (∀ (f : Frame) (t : Bytes), raw = f.bytes ++ t →
      (∃ m, Serializer.deserialize raw = .ok m ∧ m.content = f.content) ∧
      ∀ s, s <+: f.bytes → s ≠ f.bytes → ∃ e, Serializer.deserialize s = .error (.thrown e)) ∧
    Serializer.deserialize raw ≠ .error .outOfBounds := by
  refine ⟨deserialize_ok_iff hraw, ?_, fun h => deserialize_isThrown h⟩
  rintro f t rfl
  obtain ⟨m, hm, hcontent, -⟩ := deserialize_frame (f.compactSize_lt hraw) t
  exact ⟨⟨m, hm, hcontent⟩, fun s hs hne => deserialize_truncated hs hne⟩

theorem wellFormed_hi : WellFormed (bytes "\x00\x00\x00\x00\x00\x02hi, and more") :=
  (deserialize_accepts_exactly_frames _ (by decide)).1.mp ⟨_, rfl⟩

end Messenger
