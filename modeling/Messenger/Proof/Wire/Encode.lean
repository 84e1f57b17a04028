import Mathlib.Algebra.Order.BigOperators.Group.List
import Messenger.Proof.Wire.Decode

/-!
# What the encoder writes

`Serializer::serialize` writes the frame that says what the message says, provided the
message fits the prefixes of the format (`Message.FitsWire`): with the exactness of the
decoder this is the round trip.

Whether a message fits is decided elsewhere, by the checks of the constructor and the
mutators, and those do not cover the casts of the encoder. The second half of the file
says what they do cover (`Message.Built`) and which prefixes come out wrong.

`serialize` narrows three numbers on the way: the count of the entries is a byte that the message
keeps, the length of an entry is cut to 16 bits and that of the payload to 32. Only the last is
covered by a check. So the equivalence at the end has two conditions, on the lengths of the entries
and on their number: with 128 entries the count sets the bit that the decoder takes for the
extended format.
-/

set_option autoImplicit false

namespace Messenger

open Messenger.Lib

/-! ## The bytes of a message -/

/-- A compact frame, in the pieces of the grammar. The second byte is `metalen` as it stands in the
    message, and not the number of its entries. -/
theorem serialize_compact {m : Message} (h : m.useExtendedFormat = false) :
    Serializer.serialize m = [m.header.type.toByte, m.metalen] ++
      (m.metadata.flatMap entryBytes ++ payloadBytes m.payload) := by
  simp only [Serializer.serialize, h, Bool.not_false, if_true, foldl_writeEntry, writePayload_eq,
    List.append_assoc]

theorem serialize_compact_length {m : Message} (h : m.useExtendedFormat = false) :
    (Serializer.serialize m).length = compactSize m.metadata m.payload := by
  simp only [serialize_compact h, List.length_append, flatMap_entryBytes_length, payloadBytes,
    beBytes_length, compactSize, List.length_cons, List.length_nil]
  omega

/-- An extended frame. The flags are written twice, and of the version seven bits. -/
theorem serialize_extended {m : Message} (h : m.useExtendedFormat = true) :
    Serializer.serialize m =
      [m.header.type.toByte, 0x80 ||| (m.header.protocolVersion &&& 0x7F)] ++
        (beBytes 4 m.envelope.flags.toNat ++ (leBytes 8 m.header.timestamp.toNat ++
          (nameBytes m.envelope.sender ++ (nameBytes m.envelope.recipient ++
            (leBytes 8 m.envelope.sequenceNumber.toNat ++ (beBytes 4 m.envelope.flags.toNat ++
              ([m.metalen] ++ (m.metadata.flatMap entryBytes ++ payloadBytes m.payload)))))))) := by
  simp only [Serializer.serialize, h, Bool.not_true, Bool.false_eq_true, if_false,
    foldl_writeEntry, writeU32_eq, writeU64_eq, beBytes_ofNat32, payloadBytes, nameBytes,
    List.append_assoc]
  rfl

/-- A message in the compact format has nothing in its envelope, and the version of the protocol
    that the code is written for. It is this test, and not where the message came from, that picks
    the format. -/
theorem useExtendedFormat_eq_false {m : Message} :
    m.useExtendedFormat = false ↔
      m.envelope = {} ∧ m.header.protocolVersion = kProtocolVersion := by
  obtain ⟨header, metalen, ⟨sender, recipient, sequenceNumber, flags⟩, metadata, payload⟩ := m
  simp [Message.useExtendedFormat, and_assoc]

/-! ## Round trip -/

/-- A type comes back if it fits a byte. The named ones do; a type that was read from a message may
    be any byte, and keeps its number. -/
theorem MessageType.ofByte_toByte {type : MessageType} (h₀ : 0 ≤ type.code)
    (h₁ : type.code ≤ 255) : MessageType.ofByte type.toByte = type := by
  have hbyte : ((type.toByte.toNat : Nat) : Int) = type.code := by
    rw [MessageType.toByte, UInt8.ofInt, UInt8.toNat_ofNat']
    omega
  rw [MessageType.ofByte, hbyte]
  cases type with
  | other code unnamed =>
    -- what has no name is none of the eight, so `ofCode` finds no name for it
    have hcode : MessageType.code (.other code unnamed) = code := rfl
    rw [hcode, MessageType.ofCode]
    simp only [show code ≠ 0 by omega, show code ≠ 1 by omega, show code ≠ 2 by omega,
      show code ≠ 3 by omega, show code ≠ 4 by omega, show code ≠ 5 by omega,
      show code ≠ 6 by omega, show code ≠ 7 by omega, dite_false]
  | _ => rfl

/-- **A message that fits is written as a frame that says the same.** The frame is built from the
    fields of the message, and `FitsWire` has a field for each of the bounds it asks for. The time
    is in the extended format only. -/
theorem serialize_frame {m : Message} (h : m.FitsWire) :
    ∃ f : Frame, Serializer.serialize m = f.bytes ∧ f.content = m.content ∧
      f.body.metadata = m.metadata ∧ f.body.payload = m.payload ∧
      (m.useExtendedFormat = true → f.timestamp = m.header.timestamp) := by
  have htype := MessageType.ofByte_toByte h.type_fits.1 h.type_fits.2
  have hcount : m.metalen = UInt8.ofNat m.metadata.length := by
    rw [← h.metalen_eq, UInt8.ofNat_toNat]
  have hsize := h.size_fits
  rw [compactSize] at hsize
  have hentries : ∀ e ∈ m.metadata, e.length < 2 ^ 16 := fun e he =>
    Nat.lt_succ_of_le (h.entries_fit e he)
  have hfits := h.count_fits
  cases hx : m.useExtendedFormat with
  | false =>
    rw [hx] at hfits
    obtain ⟨henv, hversion⟩ := useExtendedFormat_eq_false.mp hx
    refine ⟨.compact {
      metadata := m.metadata, payload := m.payload, type := m.header.type.toByte
      entries_fit := hentries
      payload_fits := by omega
      count_fits := Nat.lt_succ_of_le hfits }, ?_, ?_, rfl, rfl, fun h => by cases h⟩
    · rw [serialize_compact hx, hcount]
      rfl
    · simp only [Frame.content, Message.content, htype, henv, hversion]
  | true =>
    rw [hx] at hfits
    have hlt : m.header.protocolVersion < 128 :=
      UInt8.lt_iff_toNat_lt.mpr (Nat.lt_succ_of_le h.version_fits.2)
    have hversion := versionBits_of_lt _ hlt
    refine ⟨.extended {
      metadata := m.metadata, payload := m.payload, type := m.header.type.toByte
      version := m.header.protocolVersion, flags₁ := m.envelope.flags
      timestamp := m.header.timestamp, sender := m.envelope.sender
      recipient := m.envelope.recipient, sequenceNumber := m.envelope.sequenceNumber
      flags := m.envelope.flags
      entries_fit := hentries
      payload_fits := by omega
      version_pos := UInt8.lt_iff_toNat_lt.mpr h.version_fits.1
      version_fits := hlt
      sender_fits := Nat.lt_succ_of_le h.sender_fits
      recipient_fits := Nat.lt_succ_of_le h.recipient_fits
      count_fits := Nat.lt_succ_of_le hfits }, ?_, ?_, rfl, rfl, fun _ => rfl⟩
    · rw [serialize_extended hx, hcount, hversion]
      rfl
    · simp only [Frame.content, Message.content, htype]

/-- **Decoding undoes encoding**, in both formats. -/
theorem deserialize_serialize (m : Message) (h : m.FitsWire) :
    ∃ m', Serializer.deserialize (Serializer.serialize m) = .ok m' ∧ m'.content = m.content ∧
      (m.useExtendedFormat = true → m'.header.timestamp = m.header.timestamp) := by
  obtain ⟨f, hbytes, hcontent, hmetadata, hpayload, htimestamp⟩ := serialize_frame h
  have hsize : compactSize f.body.metadata f.body.payload < 2 ^ 32 := by
    rw [hmetadata, hpayload]
    exact Nat.lt_of_le_of_lt h.size_fits (by decide)
  obtain ⟨m', hm', hcontent', htimestamp'⟩ := deserialize_frame hsize []
  rw [List.append_nil, ← hbytes] at hm'
  exact ⟨m', hm', hcontent'.trans hcontent, fun hx => htimestamp'.trans (htimestamp hx)⟩

/-- A message with a sender and a recipient, in the extended format, with its time. -/
theorem deserialize_serialize_envelope :
    let m : Message := {
      header := { type := .cipherMessage, timestamp := 7 }
      metalen := 1
      envelope := { sender := bytes "alice", recipient := bytes "bob" }
      metadata := [bytes "key"]
      payload := bytes "hi" }
    ∃ m', Serializer.deserialize (Serializer.serialize m) = .ok m' ∧ m'.content = m.content ∧
      m'.header.timestamp = 7 := by
  intro m
  obtain ⟨m', hm', hcontent, htimestamp⟩ := deserialize_serialize m
    ⟨by decide, by decide, by decide, by decide, by decide, by decide, by decide, by decide⟩
  exact ⟨m', hm', hcontent, htimestamp rfl⟩

theorem Message.FitsWire.carries {m : Message} (h : m.FitsWire) :
    Carries (Serializer.serialize m) m.content := by
  obtain ⟨f, hbytes, hcontent, hmetadata, hpayload, -⟩ := serialize_frame h
  have hsize : compactSize f.body.metadata f.body.payload < 2 ^ 32 := by
    rw [hmetadata, hpayload]
    exact Nat.lt_of_le_of_lt h.size_fits (by decide)
  obtain ⟨m', hm', hcontent', -⟩ := deserialize_frame hsize []
  rw [List.append_nil, ← hbytes] at hm'
  exact ⟨m', hm', hcontent'.trans hcontent⟩

/-! ## What the constructor and the mutators check -/

/-- What holds of a message that was built without an exception: it is compact, the count is that of
    its entries, and its size fits 32 bits. Nothing is said about the length of an entry, and the
    count may be up to 255; that is what is missing for `FitsWire`. -/
structure Message.Built (m : Message) : Prop where
  compact : m.useExtendedFormat = false
  metalen_eq : m.metalen.toNat = m.metadata.length
  size_fits : compactSize m.metadata m.payload < 2 ^ 32

theorem computeSerializedSize_inv {metalen : UInt8} {metadata : List Bytes} {payload : Bytes}
    {length : UInt32} (h : computeSerializedSize metalen metadata payload = .ok length) :
    metalen.toNat = metadata.length ∧ compactSize metadata payload < 2 ^ 32 := by
  rw [computeSerializedSize_eq] at h
  split at h
  · cases h
  · split at h
    · cases h
    · exact ⟨not_not.mp ‹_›, by omega⟩

/-- The constructor counts the entries itself: the `metalen` it is given is not used. -/
theorem new_built {now : UInt64} {payload : Bytes} {metalen : UInt8} {metadata : List Bytes}
    {type : MessageType} {m : Message} (h : Message.new now payload metalen metadata type = .ok m) :
    m.Built ∧ m.metadata = metadata := by
  rw [Message.new] at h
  cases hc : computeSerializedSize (UInt8.ofNat metadata.length) metadata payload with
  | error x => rw [hc] at h; cases h
  | ok length =>
    obtain ⟨hcount, hsize⟩ := computeSerializedSize_inv hc
    rw [hc] at h
    cases h
    exact ⟨⟨rfl, hcount, hsize⟩, rfl⟩

theorem new_size {now : UInt64} {payload : Bytes} {metalen : UInt8} {metadata : List Bytes}
    {type : MessageType} {m : Message} (h : Message.new now payload metalen metadata type = .ok m) :
    compactSize metadata payload < 2 ^ 32 := by
  rw [Message.new] at h
  cases hc : computeSerializedSize (UInt8.ofNat metadata.length) metadata payload with
  | error x => rw [hc] at h; cases h
  | ok length => exact (computeSerializedSize_inv hc).2

theorem new_content {now : UInt64} {payload : Bytes} {metalen : UInt8} {metadata : List Bytes}
    {type : MessageType} {m : Message} (h : Message.new now payload metalen metadata type = .ok m) :
    m.content = .plain type metadata payload := by
  rw [Message.new] at h
  cases hc : computeSerializedSize (UInt8.ofNat metadata.length) metadata payload with
  | error x => rw [hc] at h; cases h
  | ok length =>
    rw [hc] at h
    cases h
    rfl

/-- The constructor throws only for a message that is too large or has too many entries. For 256
    entries the count is zero, and it is the check of the count that fails. -/
theorem new_ok (now : UInt64) (metalen : UInt8) (type : MessageType) {payload : Bytes}
    {metadata : List Bytes} (hcount : metadata.length < 256)
    (hsize : compactSize metadata payload < 2 ^ 32) :
    ∃ m, Message.new now payload metalen metadata type = .ok m ∧
      m.content = .plain type metadata payload := by
  rw [Message.new, computeSerializedSize_ok (toNat_ofNat8 hcount) hsize]
  exact ⟨_, rfl, rfl⟩

/-- The compact format has room for any entries, and for a payload of two gigabytes (and what
    encryption adds to it). 127 entries of 65537 bytes are some eight megabytes, so the bound is far
    from being tight. -/
theorem Content.plain_fits {type : MessageType} {metadata : List Bytes} {payload : Bytes}
    (htype : 0 ≤ type.code ∧ type.code ≤ 255) (hcount : metadata.length ≤ 127)
    (hentries : ∀ e ∈ metadata, e.length ≤ 65535) (hpayload : payload.length < 2 ^ 31 + 36) :
    (Content.plain type metadata payload).FitsCompact := by
  refine ⟨htype, hcount, hentries, ?_⟩
  have hsum : (metadata.map fun m => 2 + m.length).sum ≤ metadata.length * 65537 := by
    have hcard := List.sum_le_card_nsmul (metadata.map fun m => 2 + m.length) 65537 ?_
    · rw [List.length_map] at hcard
      exact hcard
    · intro n hn
      obtain ⟨e, he, rfl⟩ := List.mem_map.mp hn
      have hlength := hentries e he
      omega
  show 2 + (metadata.map fun m => 2 + m.length).sum + 4 + payload.length < 2 ^ 32
  omega

/-- What the checks leave open is left to the caller: the length of the entries and their number. -/
theorem Message.Built.fitsWire {m : Message} (hm : m.Built) (h : m.content.FitsCompact) :
    m.FitsWire := by
  obtain ⟨henvelope, hversion⟩ := useExtendedFormat_eq_false.mp hm.compact
  refine {
    type_fits := h.type_fits
    version_fits := ?_
    sender_fits := ?_
    recipient_fits := ?_
    entries_fit := h.entries_fit
    size_fits := Nat.le_pred_of_lt hm.size_fits
    metalen_eq := hm.metalen_eq
    count_fits := ?_ }
  · rw [hversion]
    decide
  · rw [henvelope]
    exact Nat.zero_le _
  · rw [henvelope]
    exact Nat.zero_le _
  · rw [hm.compact]
    exact h.count_fits

/-- **What is constructed within the limits arrives.** But for typed commands and for what the
    server passes on, all that is sent is built with the constructor, so this is the lemma that the
    proofs about it use. -/
theorem new_carries (now : UInt64) (metalen : UInt8) {type : MessageType} {metadata : List Bytes}
    {payload : Bytes} (h : (Content.plain type metadata payload).FitsCompact) :
    ∃ m, Message.new now payload metalen metadata type = .ok m ∧
      Carries (Serializer.serialize m) (.plain type metadata payload) := by
  have hcount : metadata.length ≤ 127 := h.count_fits
  have hfits : compactSize metadata payload < 2 ^ 32 := h.size_fits
  obtain ⟨m, hm, hcontent⟩ := new_ok now metalen type (show metadata.length < 256 by omega) hfits
  rw [← hcontent] at h ⊢
  exact ⟨m, hm, ((new_built hm).1.fitsWire h).carries⟩

theorem Message.of_content {m : Message} {type : MessageType} {metadata : List Bytes}
    {payload : Bytes} (h : m.content = .plain type metadata payload) :
    m.getType = type ∧ (∀ i, m.getMeta i = metadata.getD i []) ∧ m.getPayload = payload := by
  refine ⟨congrArg Content.type h, fun i => ?_, congrArg Content.payload h⟩
  have hmeta : m.metadata = metadata := congrArg Content.metadata h
  unfold Message.getMeta
  rw [hmeta]

theorem new_isThrown {now : UInt64} {payload : Bytes} {metalen : UInt8} {metadata : List Bytes}
    {type : MessageType} {x : Failure}
    (h : Message.new now payload metalen metadata type = .error x) : x.IsThrown := by
  rw [Message.new] at h
  cases hc : computeSerializedSize (UInt8.ofNat metadata.length) metadata payload with
  | error y =>
    rw [hc] at h
    cases h
    exact computeSerializedSize_isThrown hc
  | ok length => rw [hc] at h; cases h

/-- A call that has passed keeps a message in order, and adds its entry. -/
theorem apply_built {m m' : Message} {op : MessageOp} (hm : m.Built) (h : m.apply op = .ok m') :
    m'.Built ∧ m'.metadata = m.metadata ++ insertedEntries [op] := by
  have hcompact := useExtendedFormat_eq_false.mp hm.compact
  cases op with
  | insertMetadata entry =>
    rw [Message.apply, Message.insertMetadata] at h
    cases hc : computeSerializedSize (UInt8.ofNat (m.metadata ++ [entry]).length)
        (m.metadata ++ [entry]) m.payload with
    | error x => rw [hc] at h; cases h
    | ok length =>
      obtain ⟨hcount, hsize⟩ := computeSerializedSize_inv hc
      rw [hc] at h
      cases h
      exact ⟨⟨useExtendedFormat_eq_false.mpr hcompact, hcount, hsize⟩, rfl⟩
  | setPayload payload =>
    rw [Message.apply, Message.setPayload] at h
    cases hc : computeSerializedSize m.metalen m.metadata payload with
    | error x => rw [hc] at h; cases h
    | ok length =>
      obtain ⟨hcount, hsize⟩ := computeSerializedSize_inv hc
      rw [hc] at h
      cases h
      exact ⟨⟨useExtendedFormat_eq_false.mpr hcompact, hcount, hsize⟩, (List.append_nil _).symm⟩

/-- Any number of calls that have passed. By induction on them; the entries add up. -/
theorem foldlM_apply_built {ops : List MessageOp} {m m' : Message} (hm : m.Built)
    (h : ops.foldlM Message.apply m = .ok m') :
    m'.Built ∧ m'.metadata = m.metadata ++ insertedEntries ops := by
  induction ops generalizing m with
  | nil => cases h; exact ⟨hm, (List.append_nil _).symm⟩
  | cons op ops ih =>
    rw [List.foldlM_cons] at h
    obtain ⟨m₁, hop, hrest⟩ := bind_ok_inv h
    obtain ⟨hm₁, hmeta₁⟩ := apply_built hm hop
    obtain ⟨hm', hmeta'⟩ := ih hm₁ hrest
    refine ⟨hm', ?_⟩
    rw [hmeta', hmeta₁, List.append_assoc, insertedEntries, insertedEntries, insertedEntries,
      ← List.filterMap_append]
    rfl

theorem build_built {now : UInt64} {payload : Bytes} {metalen : UInt8} {metadata : List Bytes}
    {type : MessageType} {ops : List MessageOp} {m : Message}
    (h : Message.build now payload metalen metadata type ops = .ok m) :
    m.Built ∧ m.metadata = metadata ++ insertedEntries ops := by
  rw [Message.build] at h
  obtain ⟨m₀, hnew, hops⟩ := bind_ok_inv h
  obtain ⟨hm₀, hmeta₀⟩ := new_built hnew
  rw [← hmeta₀]
  exact foldlM_apply_built hm₀ hops

/-! ## What the prefixes say -/

/-- The two bytes before an entry, read as the decoder would, are its length modulo 65536. -/
theorem readU16_entry (before m t : Bytes) :
    readU16 (before ++ (entryBytes m ++ t)) before.length = .ok (UInt16.ofNat m.length) := by
  have h := readU16_append before (m ++ t) (UInt8.ofNat (m.length / 256)) (UInt8.ofNat m.length)
  have hbe : beBytes 2 m.length = [UInt8.ofNat (m.length / 256), UInt8.ofNat m.length] := by
    simp [beBytes, leBytes]
  rw [← hbe, beValue_beBytes, show 256 ^ 2 = 2 ^ 16 from rfl, UInt16.ofNat_mod_size] at h
  rw [entryBytes, List.append_assoc, h]

theorem readU32_payload (before p t : Bytes) :
    readU32 (before ++ (payloadBytes p ++ t)) before.length = .ok (UInt32.ofNat p.length) := by
  have h := readU32_append before (p ++ t) (UInt8.ofNat (p.length / 256 / 256 / 256))
    (UInt8.ofNat (p.length / 256 / 256)) (UInt8.ofNat (p.length / 256)) (UInt8.ofNat p.length)
  have hbe : beBytes 4 p.length = [UInt8.ofNat (p.length / 256 / 256 / 256),
      UInt8.ofNat (p.length / 256 / 256), UInt8.ofNat (p.length / 256), UInt8.ofNat p.length] := by
    simp [beBytes, leBytes]
  rw [← hbe, beValue_beBytes, show 256 ^ 4 = 2 ^ 32 from rfl, UInt32.ofNat_mod_size] at h
  rw [payloadBytes, List.append_assoc, h]

/-- The offset counts what stands before the prefix: two bytes, and the entries before it with their
    lengths. -/
theorem prefixOffset_eq (a b : UInt8) (metadata : List Bytes) (i : Nat) :
    prefixOffset metadata i = ([a, b] ++ (metadata.take i).flatMap entryBytes).length := by
  rw [prefixOffset, List.length_append, flatMap_entryBytes_length]
  rfl

/-- Where the decoder would look for the length of the entry `i`, it finds it cut to 16 bits. -/
theorem read_entryLength {m : Message} (hm : m.useExtendedFormat = false) {i : Nat} {e : Bytes}
    (he : m.metadata[i]? = some e) :
    readU16 (Serializer.serialize m) (prefixOffset m.metadata i) = .ok (UInt16.ofNat e.length) := by
  obtain ⟨hi, rfl⟩ := List.getElem?_eq_some_iff.mp he
  -- the entries are split at the one whose prefix is read, as the offset counts them
  have hsplit : m.metadata = m.metadata.take i ++ m.metadata[i] :: m.metadata.drop (i + 1) := by
    rw [← List.drop_eq_getElem_cons hi, List.take_append_drop]
  have hflat : m.metadata.flatMap entryBytes = (m.metadata.take i).flatMap entryBytes ++
      (entryBytes m.metadata[i] ++ (m.metadata.drop (i + 1)).flatMap entryBytes) := by
    conv_lhs => rw [hsplit, List.flatMap_append, List.flatMap_cons]
  rw [prefixOffset_eq m.header.type.toByte m.metalen, serialize_compact hm, hflat]
  simpa using readU16_entry ([m.header.type.toByte, m.metalen] ++
    (m.metadata.take i).flatMap entryBytes) m.metadata[i] _

theorem read_payloadLength {m : Message} (hm : m.useExtendedFormat = false) :
    readU32 (Serializer.serialize m) (prefixOffset m.metadata m.metadata.length)
      = .ok (UInt32.ofNat m.payload.length) := by
  have h := readU32_payload ([m.header.type.toByte, m.metalen] ++ m.metadata.flatMap entryBytes)
    m.payload []
  rw [prefixOffset_eq m.header.type.toByte m.metalen, serialize_compact hm, List.take_length]
  rwa [List.append_nil, List.append_assoc] at h

/-- **The checks cover the payload, but neither the entries nor the format bit.** From left to
    right, a true prefix is a number that fits its field. From right to left the three kinds of
    prefixes are taken in turn; for the payload it is the size check that makes its length fit. -/
theorem Message.Built.prefixesTrue_iff {m : Message} (hm : m.Built) :
    m.PrefixesTrue ↔ (∀ e ∈ m.metadata, e.length ≤ 65535) ∧ m.metadata.length ≤ 127 := by
  constructor
  · intro h
    refine ⟨fun e he => ?_, ?_⟩
    · obtain ⟨i, hi⟩ := List.mem_iff_getElem?.mp he
      obtain ⟨len, hread, hlen⟩ := h.entry i e hi
      have := len.toNat_lt
      omega
    · obtain ⟨n, -, hn, hbit⟩ := h.count
      have := UInt8.lt_iff_toNat_lt.mp ((formatBit_eq_zero n).mp hbit)
      exact hn ▸ Nat.le_of_lt_succ this
  · rintro ⟨hentries, hcount⟩
    refine ⟨fun i e he => ⟨_, read_entryLength hm.compact he, ?_⟩,
      ⟨_, read_payloadLength hm.compact, ?_⟩, ⟨m.metalen, ?_, hm.metalen_eq, ?_⟩⟩
    · exact UInt16.toNat_ofNat_of_lt' (Nat.lt_succ_of_le (hentries e (List.mem_of_getElem? he)))
    · have hsize := hm.size_fits
      rw [compactSize] at hsize
      exact UInt32.toNat_ofNat_of_lt' (show _ < 2 ^ 32 by omega)
    · rw [serialize_compact hm.compact]
      rfl
    · rw [formatBit_eq_zero, UInt8.lt_iff_toNat_lt, hm.metalen_eq]
      exact Nat.lt_succ_of_le hcount

/-- **Which messages are written with the lengths and the count they have**: of the messages
    that the constructor and the calls let through, those with entries of at most 65535 bytes
    and at most 127 of them. The others are truncated without an exception. -/
theorem build_prefixesTrue_iff (now : UInt64) (payload : Bytes) (metalen : UInt8)
    (metadata : List Bytes) (type : MessageType) (ops : List MessageOp) (m : Message)
    (h : Message.build now payload metalen metadata type ops = .ok m) :
    m.PrefixesTrue ↔
      (∀ e ∈ metadata ++ insertedEntries ops, e.length ≤ 65535) ∧
        (metadata ++ insertedEntries ops).length ≤ 127 := by
  obtain ⟨hm, hmetadata⟩ := build_built h
  rw [← hmetadata]
  exact hm.prefixesTrue_iff

/-- A login, with the name as the second entry. -/
theorem build_login_prefixesTrue :
    ∃ m, Message.build 0 (bytes "hi") 1 [[0x02]] .command [.insertMetadata (bytes "alice")]
      = .ok m ∧
      m.PrefixesTrue :=
  ⟨_, rfl, (build_prefixesTrue_iff 0 (bytes "hi") 1 [[0x02]] .command
    [.insertMetadata (bytes "alice")] _ rfl).mpr ⟨by decide, by decide⟩⟩

/-- 128 empty entries are let through, and the count byte then reads as the version byte of
    the extended format. -/
theorem build_128_entries_not_prefixesTrue :
    ∃ m, Message.build 0 [] 128 (List.replicate 128 []) .text [] = .ok m ∧ ¬m.PrefixesTrue := by
  obtain ⟨m, hm, -⟩ :=
    new_ok 0 128 .text (show (List.replicate 128 ([] : Bytes)).length < 256 by simp)
    (show compactSize (List.replicate 128 []) [] < 2 ^ 32 by simp [compactSize])
  obtain ⟨hbuilt, hmetadata⟩ := new_built hm
  refine ⟨m, by rw [Message.build, hm]; rfl, fun h => ?_⟩
  have hcount := (hbuilt.prefixesTrue_iff.mp h).2
  rw [hmetadata, List.length_replicate] at hcount
  omega

end Messenger
