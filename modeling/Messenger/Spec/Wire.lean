import Messenger.Lib.Word
import Messenger.Model.Message

/-!
# The wire grammar

What the two formats are, said without a decoder: a `Frame` is a choice of fields that
the formats' length and count prefixes can hold, and `Frame.bytes` spells it. The bounds
are fields of the structures, so a frame that the wire cannot carry cannot be built.

`Content` is what a frame tells its receiver, and what a message has to say: everything
except the bookkeeping of the header (length, checksum, timestamp).
-/

set_option autoImplicit false

namespace Messenger

open Messenger.Lib

/-- A metadata entry: a 16-bit big-endian length and the bytes. -/
def entryBytes (m : Bytes) : Bytes := beBytes 2 m.length ++ m

/-- A payload: a 32-bit big-endian length and the bytes. -/
def payloadBytes (p : Bytes) : Bytes := beBytes 4 p.length ++ p

/-- The part the formats share: metadata entries and a payload. -/
structure Body where
  metadata : List Bytes
  payload : Bytes
  entries_fit : ∀ m ∈ metadata, m.length < 2 ^ 16
  payload_fits : payload.length < 2 ^ 32

def Body.bytes (b : Body) : Bytes := b.metadata.flatMap entryBytes ++ payloadBytes b.payload

/-- The compact format: type, entry count below 128, body. The count shares its byte with the format
    bit, which leaves it seven. -/
structure CompactFrame extends Body where
  type : UInt8
  count_fits : metadata.length < 128

def CompactFrame.bytes (f : CompactFrame) : Bytes :=
  [f.type, UInt8.ofNat f.metadata.length] ++ f.toBody.bytes

/-- The extended format. Its second byte is the version, 1 to 127, under the format bit. The flags
    are there twice; the two words may differ on the wire. -/
structure ExtendedFrame extends Body where
  type : UInt8
  version : UInt8
  flags₁ : UInt32
  timestamp : UInt64
  sender : Bytes
  recipient : Bytes
  sequenceNumber : UInt64
  flags : UInt32
  version_pos : 0 < version
  version_fits : version < 128
  sender_fits : sender.length < 256
  recipient_fits : recipient.length < 256
  count_fits : metadata.length < 256

/-- An envelope name: an 8-bit length and the bytes. -/
def nameBytes (n : Bytes) : Bytes := [UInt8.ofNat n.length] ++ n

def ExtendedFrame.bytes (f : ExtendedFrame) : Bytes :=
  [f.type, 0x80 ||| f.version] ++
    (beBytes 4 f.flags₁.toNat ++ (leBytes 8 f.timestamp.toNat ++ (nameBytes f.sender ++
      (nameBytes f.recipient ++ (leBytes 8 f.sequenceNumber.toNat ++ (beBytes 4 f.flags.toNat ++
        ([UInt8.ofNat f.metadata.length] ++ f.toBody.bytes)))))))

/-- A frame of either format. -/
inductive Frame
  | compact (f : CompactFrame)
  | extended (f : ExtendedFrame)

def Frame.bytes : Frame → Bytes
  | .compact f => f.bytes
  | .extended f => f.bytes

def Frame.body : Frame → Body
  | .compact f => f.toBody
  | .extended f => f.toBody

/-- The size of a message in the compact format. The constructors and mutators compute it whatever
    the envelope is, so it bounds the messages of the extended format as well. -/
def compactSize (metadata : List Bytes) (payload : Bytes) : Nat :=
  2 + (metadata.map fun m => 2 + m.length).sum + 4 + payload.length

/-! ## Contents -/

/-- What a message says, without the bookkeeping. -/
structure Content where
  type : MessageType
  protocolVersion : UInt8
  envelope : MessageEnvelope
  metadata : List Bytes
  payload : Bytes
  deriving DecidableEq, Repr

def Message.content (m : Message) : Content where
  type := m.header.type
  protocolVersion := m.header.protocolVersion
  envelope := m.envelope
  metadata := m.metadata
  payload := m.payload

/-- What a frame says. Of the two flags words of the extended format the second counts. -/
def Frame.content : Frame → Content
  | .compact f => {
      type := .ofByte f.type
      protocolVersion := kProtocolVersion
      envelope := {}
      metadata := f.metadata
      payload := f.payload }
  | .extended f => {
      type := .ofByte f.type
      protocolVersion := f.version
      envelope := {
        sender := f.sender, recipient := f.recipient, sequenceNumber := f.sequenceNumber,
        flags := f.flags }
      metadata := f.metadata
      payload := f.payload }

/-- What a constructor puts into a message. -/
def Content.plain (type : MessageType) (metadata : List Bytes) (payload : Bytes) : Content where
  type := type
  protocolVersion := kProtocolVersion
  envelope := {}
  metadata := metadata
  payload := payload

/-- Only the extended format carries a timestamp. -/
def Frame.timestamp : Frame → UInt64
  | .compact _ => 0
  | .extended f => f.timestamp

/-- The bytes begin with a frame of one of the two formats. More may follow, since the decoder does
    not look at the end. -/
def WellFormed (raw : Bytes) : Prop := ∃ (f : Frame) (t : Bytes), raw = f.bytes ++ t

/-- A message whose fields fit the prefixes of the format that `serialize` picks for it. The code of
    the type is bounded because it is cast to a byte and back. -/
structure Message.FitsWire (m : Message) : Prop where
  type_fits : 0 ≤ m.header.type.code ∧ m.header.type.code ≤ 255
  version_fits : 1 ≤ m.header.protocolVersion.toNat ∧ m.header.protocolVersion.toNat ≤ 127
  sender_fits : m.envelope.sender.length ≤ 255
  recipient_fits : m.envelope.recipient.length ≤ 255
  entries_fit : ∀ e ∈ m.metadata, e.length ≤ 65535
  size_fits : compactSize m.metadata m.payload ≤ 2 ^ 32 - 1
  metalen_eq : m.metalen.toNat = m.metadata.length
  count_fits : m.metadata.length ≤ if m.useExtendedFormat then 255 else 127

/-- The bytes are read as a message that says `c`. -/
def Carries (raw : Bytes) (c : Content) : Prop :=
  ∃ m, Serializer.deserialize raw = .ok m ∧ m.content = c

/-- What the compact format can carry. -/
structure Content.FitsCompact (c : Content) : Prop where
  type_fits : 0 ≤ c.type.code ∧ c.type.code ≤ 255
  count_fits : c.metadata.length ≤ 127
  entries_fit : ∀ e ∈ c.metadata, e.length ≤ 65535
  size_fits : compactSize c.metadata c.payload < 2 ^ 32

/-! ## Messages the program builds -/

/-- The calls that change a message after its construction. -/
inductive MessageOp
  | insertMetadata (entry : Bytes)
  | setPayload (payload : Bytes)
  deriving DecidableEq, Repr

def Message.apply (m : Message) : MessageOp → Except Failure Message
  | .insertMetadata entry => m.insertMetadata entry
  | .setPayload payload => m.setPayload payload

/-- A constructor and then calls, none of which throws. -/
def Message.build (now : UInt64) (payload : Bytes) (metalen : UInt8) (metadata : List Bytes)
    (type : MessageType) (ops : List MessageOp) : Except Failure Message := do
  let m ← Message.new now payload metalen metadata type
  ops.foldlM Message.apply m

/-- The entries that the calls insert. -/
def insertedEntries (ops : List MessageOp) : List Bytes :=
  ops.filterMap fun
    | .insertMetadata entry => some entry
    | .setPayload _ => none

/-- Where the compact format has the length of entry `i`. For `i` the number of entries this is
    where the length of the payload is. -/
def prefixOffset (metadata : List Bytes) (i : Nat) : Nat :=
  2 + ((metadata.take i).map fun m => 2 + m.length).sum

/-- Every length and the count are what the encoder wrote in their place. -/
structure Message.PrefixesTrue (m : Message) : Prop where
  entry : ∀ (i : Nat) (e : Bytes), m.metadata[i]? = some e →
    ∃ len, readU16 (Serializer.serialize m) (prefixOffset m.metadata i) = .ok len ∧
      len.toNat = e.length
  payload : ∃ plen, readU32 (Serializer.serialize m)
      (prefixOffset m.metadata m.metadata.length) = .ok plen ∧ plen.toNat = m.payload.length
  count : ∃ n, byteAt (Serializer.serialize m) 1 = .ok n ∧ n.toNat = m.metadata.length ∧
    n &&& kExtendedFormatFlag = 0

end Messenger
