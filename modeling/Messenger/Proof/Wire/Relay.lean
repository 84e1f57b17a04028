import Messenger.Proof.Wire.Encode

/-!
# Decode, then encode again

The server's file handlers decode a message and send on `Serializer::serialize` of it. The
encoder picks the format from the fields of the message and not from the format it came in:
an extended frame whose envelope says nothing goes out as a compact one. That is harmless
as long as the compact format can hold it, and the decoder bounds everything but the number
of entries, which the extended format counts to 255 and the compact one to 127.

For the equivalence both directions are about the one kind of frame that is not passed on
faithfully. That all others are is a matter of bounds, each of which the decoder has established
when it accepted the input. That an overfull frame is not takes an argument about every frame that
its bytes could begin with: a compact frame counts fewer entries, and an extended one with the same
entries and the same payload is longer than all that was sent (`not_carries_of_compact`).
-/

set_option autoImplicit false

namespace Messenger

open Messenger.Lib

/-! ## What the decoder guarantees -/

theorem MessageType.ofCode_code (code : Int) : (MessageType.ofCode code).code = code := by
  unfold MessageType.ofCode
  split_ifs <;> simp_all [MessageType.code]

/-- A type that was read is a byte, so it can be written again. -/
theorem MessageType.ofByte_fits (b : UInt8) :
    0 ≤ (MessageType.ofByte b).code ∧ (MessageType.ofByte b).code ≤ 255 := by
  have hb := b.toNat_lt
  rw [MessageType.ofByte, MessageType.ofCode_code]
  omega

/-- The count that a message keeps is what the decoder has read. It is needed on its own, since
    `content` does not have it and the encoder writes it. -/
theorem message_metalen {raw : Bytes} {f : Frame} {m : Message}
    (h : f.fields.message raw = .ok m) : m.metalen = UInt8.ofNat f.body.metadata.length := by
  cases f with
  | compact f =>
    simp only [Frame.fields, FrameFields.message] at h
    cases hc : computeSerializedSize (UInt8.ofNat f.metadata.length) f.metadata f.payload with
    | error x => rw [hc] at h; cases h
    | ok length => rw [hc] at h; cases h; rfl
  | extended f => cases h; rfl

theorem Frame.count_lt (f : Frame) : f.body.metadata.length < 256 := by
  cases f with
  | compact f => exact Nat.lt_trans f.count_fits (by decide)
  | extended f => exact f.count_fits

/-- `deserialize_sound`, with the count that the message keeps beside its entries. -/
theorem deserialize_sound_metalen {raw : Bytes} {m : Message}
    (h : Serializer.deserialize raw = .ok m) :
    ∃ (f : Frame) (t : Bytes), raw = f.bytes ++ t ∧ m.content = f.content ∧
      m.metalen.toNat = m.metadata.length := by
  obtain ⟨x, hread, hm⟩ := frameReader_of_deserialize h
  obtain ⟨_, t, rfl, f, hfields, rfl⟩ := frameReader_recognises.sound_start hread
  rw [hfields] at hm
  have hcontent := (message_content hm).1
  have hmetadata := metadata_of_content hcontent
  refine ⟨f, t, rfl, hcontent, ?_⟩
  rw [message_metalen hm, hmetadata, toNat_ofNat8 f.count_lt]

/-- A message that says what a frame says fits the format it is sent on in, but for the number of
    its entries. All other bounds of `FitsWire` are those of the frame it was read from; the number
    of entries is bounded by the format it came in, which need not be the one it goes out in. -/
theorem Frame.fitsWire {f : Frame} {m : Message} (hcontent : m.content = f.content)
    (hmetalen : m.metalen.toNat = m.metadata.length)
    (hsize : compactSize f.body.metadata f.body.payload < 2 ^ 32)
    (hcount : m.useExtendedFormat = false → m.metadata.length ≤ 127) : m.FitsWire := by
  have htype : m.header.type = f.content.type := congrArg Content.type hcontent
  have hversion : m.header.protocolVersion = f.content.protocolVersion :=
    congrArg Content.protocolVersion hcontent
  have henvelope : m.envelope = f.content.envelope := congrArg Content.envelope hcontent
  have hmetadata := metadata_of_content hcontent
  have hpayload := payload_of_content hcontent
  refine {
    type_fits := ?_
    version_fits := ?_
    sender_fits := ?_
    recipient_fits := ?_
    entries_fit := ?_
    size_fits := ?_
    metalen_eq := hmetalen
    count_fits := ?_ }
  · rw [htype]
    cases f <;> exact MessageType.ofByte_fits _
  · rw [hversion]
    cases f with
    | compact f => exact (by decide : 1 ≤ kProtocolVersion.toNat ∧ kProtocolVersion.toNat ≤ 127)
    | extended f =>
      exact ⟨UInt8.lt_iff_toNat_lt.mp f.version_pos,
        Nat.le_of_lt_succ (UInt8.lt_iff_toNat_lt.mp f.version_fits)⟩
  · rw [henvelope]
    cases f with
    | compact f => exact Nat.zero_le _
    | extended f => exact Nat.le_of_lt_succ f.sender_fits
  · rw [henvelope]
    cases f with
    | compact f => exact Nat.zero_le _
    | extended f => exact Nat.le_of_lt_succ f.recipient_fits
  · rw [hmetadata]
    exact fun e he => Nat.le_of_lt_succ (f.body.entries_fit e he)
  · rw [hmetadata, hpayload]
    exact Nat.le_pred_of_lt hsize
  · cases hx : m.useExtendedFormat with
    | false => exact hcount hx
    | true =>
      rw [hmetadata]
      exact Nat.le_of_lt_succ f.count_lt

/-! ## What the compact format cannot hold -/

/-- An extended frame that is sent on in the compact format, with more entries than that can count.
    Everything in the envelope is empty or zero and the version is the present one, so
    `use_extended_format` says no. -/
structure ExtendedFrame.Overfull (f : ExtendedFrame) : Prop where
  version : f.version = kProtocolVersion
  sender : f.sender = []
  recipient : f.recipient = []
  sequenceNumber : f.sequenceNumber = 0
  flags : f.flags = 0
  entries : 128 ≤ f.metadata.length

/-- What is written in the compact format has nothing in its envelope, so neither had the frame. -/
theorem ExtendedFrame.overfull_of_compact {f : ExtendedFrame} {m : Message}
    (hcontent : m.content = (Frame.extended f).content) (hx : m.useExtendedFormat = false)
    (hentries : 128 ≤ f.metadata.length) : f.Overfull := by
  obtain ⟨henvelope, hversion⟩ := useExtendedFormat_eq_false.mp hx
  have henv : ({} : MessageEnvelope) = (Frame.extended f).content.envelope :=
    henvelope.symm.trans (congrArg Content.envelope hcontent)
  refine {
    version := (congrArg Content.protocolVersion hcontent).symm.trans hversion
    sender := (congrArg MessageEnvelope.sender henv).symm
    recipient := (congrArg MessageEnvelope.recipient henv).symm
    sequenceNumber := (congrArg MessageEnvelope.sequenceNumber henv).symm
    flags := (congrArg MessageEnvelope.flags henv).symm
    entries := hentries }

/-- And the other way round: such a frame is sent on as a compact one. -/
theorem ExtendedFrame.Overfull.compact {f : ExtendedFrame} (hf : f.Overfull) {m : Message}
    (hcontent : m.content = (Frame.extended f).content) : m.useExtendedFormat = false := by
  have henvelope : m.envelope = (Frame.extended f).content.envelope :=
    congrArg Content.envelope hcontent
  have hversion : m.header.protocolVersion = f.version :=
    congrArg Content.protocolVersion hcontent
  refine useExtendedFormat_eq_false.mpr ⟨?_, hversion.trans hf.version⟩
  rw [henvelope]
  simp only [Frame.content, hf.sender, hf.recipient, hf.sequenceNumber, hf.flags]

theorem ExtendedFrame.compactSize_lt_length (f : ExtendedFrame) :
    compactSize f.metadata f.payload < f.bytes.length := by
  simp only [← Body.bytes_length, ExtendedFrame.bytes, List.length_append, List.length_cons]
  omega

/-- In the compact format nothing with 128 entries arrives: a compact frame counts fewer, and an
    extended frame with these entries and this payload is longer than what was written. The second
    case is the one that has to be thought of: the count of 128 looks like the format bit, so the
    bytes may well begin with an extended frame, but it says something else. -/
theorem not_carries_of_compact {m : Message} (hx : m.useExtendedFormat = false)
    (hentries : 128 ≤ m.metadata.length) : ¬Carries (Serializer.serialize m) m.content := by
  rintro ⟨m', hm', hsame⟩
  obtain ⟨g, t, hbytes, hcontent⟩ := deserialize_sound hm'
  have hg : m.content = g.content := hsame.symm.trans hcontent
  have hmetadata : m.metadata = g.content.metadata := congrArg Content.metadata hg
  have hpayload : m.payload = g.content.payload := congrArg Content.payload hg
  cases g with
  | compact g =>
    have hcount : g.metadata.length < 128 := g.count_fits
    have hlen : m.metadata.length = g.metadata.length := congrArg List.length hmetadata
    omega
  | extended g =>
    have hlong := g.compactSize_lt_length
    have hlen := serialize_compact_length hx
    rw [hbytes, List.length_append, hmetadata, hpayload] at hlen
    have hle : g.bytes.length ≤ compactSize g.metadata g.payload :=
      hlen ▸ Nat.le_add_right _ _
    omega

/-! ## The relay -/

/-- **What is sent on says what was received**, for every input the decoder accepts but the overfull
    frames: those are sent on in a format that cannot count their entries. A sender who means no
    harm does not make such a frame, since the encoder would not; but a client can be written by
    anyone, and the recipient then gets bytes that the server has made and that say something
    else. -/
theorem relay_preserves_iff (raw : Bytes) (hraw : raw.length < 2 ^ 32) (m : Message)
    (hm : Serializer.deserialize raw = .ok m) :
    Carries (Serializer.serialize m) m.content ↔
      ¬∃ f : ExtendedFrame, f.Overfull ∧ f.bytes <+: raw := by
  constructor
  · rintro hcarries ⟨f, hf, t, rfl⟩
    obtain ⟨m', hm', hcontent, -⟩ :=
      deserialize_frame ((Frame.extended f).compactSize_lt hraw) t
    obtain rfl : m' = m := Except.ok.inj (hm'.symm.trans hm)
    have hmetadata : m'.metadata = f.metadata := congrArg Content.metadata hcontent
    exact not_carries_of_compact (hf.compact hcontent) (hmetadata ▸ hf.entries) hcarries
  · intro hnone
    obtain ⟨f, t, rfl, hcontent, hmetalen⟩ := deserialize_sound_metalen hm
    refine (f.fitsWire hcontent hmetalen (f.compactSize_lt hraw) fun hx => ?_).carries
    have hmetadata : m.metadata = f.content.metadata := congrArg Content.metadata hcontent
    cases f with
    | compact f =>
      rw [hmetadata]
      exact Nat.le_of_lt_succ f.count_fits
    | extended f =>
      by_contra hmany
      have hentries : 128 ≤ f.metadata.length := by
        rw [hmetadata] at hmany
        exact Nat.lt_of_not_le hmany
      exact hnone ⟨f, f.overfull_of_compact hcontent hx hentries, t, rfl⟩

/-- Version 2, with a sender and a recipient: this goes out as it came. -/
theorem relay_preserves_envelope :
    let raw := [0x05, 0x82] ++ List.replicate 12 0x00 ++ bytes "\x05alice\x03bob" ++
      List.replicate 12 0x00 ++ bytes "\x01\x00\x01x\x00\x00\x00\x02hi"
    ∃ m, Serializer.deserialize raw = .ok m ∧ Carries (Serializer.serialize m) m.content := by
  intro raw
  obtain ⟨m, hm⟩ : ∃ m, Serializer.deserialize raw = .ok m := ⟨_, rfl⟩
  refine ⟨m, hm, (relay_preserves_iff raw (by decide) m hm).mpr ?_⟩
  rintro ⟨f, hf, t, ht⟩
  have hsecond : some (0x80 ||| f.version) = some 0x82 := congrArg (fun raw : Bytes => raw[1]?) ht
  rw [hf.version] at hsecond
  exact absurd hsecond (by decide)

/-- A file message of version 1 with an empty envelope and 128 empty entries. -/
def crowdedFile : ExtendedFrame where
  type := 0x05
  version := 1
  flags₁ := 0
  timestamp := 0
  sender := []
  recipient := []
  sequenceNumber := 0
  flags := 0
  metadata := List.replicate 128 []
  payload := []
  entries_fit := by simp
  payload_fits := by decide
  version_pos := by decide
  version_fits := by decide
  sender_fits := by decide
  recipient_fits := by decide
  count_fits := by simp

theorem crowdedFile_overfull : crowdedFile.Overfull :=
  ⟨rfl, rfl, rfl, rfl, rfl, by simp [crowdedFile]⟩

/-- The count of its entries goes out in the place where the decoder looks for the format. -/
theorem relay_loses_crowdedFile :
    ∃ m, Serializer.deserialize crowdedFile.bytes = .ok m ∧
      m.content = (Frame.extended crowdedFile).content ∧
      (Serializer.serialize m).take 2 = [0x05, 0x80] ∧
      ¬Carries (Serializer.serialize m) m.content := by
  have hsize : compactSize crowdedFile.metadata crowdedFile.payload < 2 ^ 32 := by
    simp [crowdedFile, compactSize]
  obtain ⟨m, hm, hcontent, -⟩ := deserialize_frame (f := .extended crowdedFile) hsize []
  rw [List.append_nil] at hm
  have hx := crowdedFile_overfull.compact hcontent
  have hmetadata : m.metadata = crowdedFile.metadata := congrArg Content.metadata hcontent
  have htype : m.header.type = .fileStart := congrArg Content.type hcontent
  obtain ⟨_, _, _, _, hmetalen⟩ := deserialize_sound_metalen hm
  have hcount : m.metalen = 0x80 := by
    rw [← UInt8.toNat_inj, hmetalen, hmetadata]
    rfl
  refine ⟨m, hm, hcontent, ?_, not_carries_of_compact hx (hmetadata ▸ crowdedFile_overfull.entries)⟩
  rw [serialize_compact hx, htype, hcount]
  rfl

end Messenger
