import Messenger.Lib.Reader
import Messenger.Model.Base

/-!
# `models/message.hpp`, `models/message.cpp`

The message record, its constructors and mutators, and the `Serializer` with its two
wire formats. Names follow the source; the clock (`current_timestamp_seconds`) is an
argument. Sizes are natural numbers: the `uint64_t` total of `compute_serialized_size`
and the decoder's `size_t` offsets stay far below their widths for any vectors that
fit in memory.
-/

set_option autoImplicit false

namespace Messenger

open Messenger.Lib

/-! ## Enumerations -/

/-- `enum class MessageType`. Its underlying type is fixed, so a cast may give a value that has no
    enumerator. The proof in the last constructor keeps those apart from the named ones, so that two
    equal codes are never two different values. -/
inductive MessageType
  | text
  | command
  | handShake
  | cipherMessage
  | response
  | fileStart
  | fileChunk
  | fileEnd
  | other (code : Int) (unnamed : code < 0 ∨ 7 < code)
  deriving DecidableEq, Repr

/-- The value of an enumerator. -/
def MessageType.code : MessageType → Int
  | .text => 0x00
  | .command => 0x01
  | .handShake => 0x02
  | .cipherMessage => 0x03
  | .response => 0x04
  | .fileStart => 0x05
  | .fileChunk => 0x06
  | .fileEnd => 0x07
  | .other code _ => code

/-- `static_cast<MessageType>(code)`. -/
def MessageType.ofCode (code : Int) : MessageType :=
  if h0 : code = 0x00 then .text
  else if h1 : code = 0x01 then .command
  else if h2 : code = 0x02 then .handShake
  else if h3 : code = 0x03 then .cipherMessage
  else if h4 : code = 0x04 then .response
  else if h5 : code = 0x05 then .fileStart
  else if h6 : code = 0x06 then .fileChunk
  else if h7 : code = 0x07 then .fileEnd
  else .other code (by omega)

/-- `static_cast<uint8_t>(type)`. -/
def MessageType.toByte (type : MessageType) : UInt8 := UInt8.ofInt type.code

/-- `static_cast<MessageType>(byte)`. -/
def MessageType.ofByte (b : UInt8) : MessageType := .ofCode b.toNat

/-- `enum class CommandType`, at the values a byte can be cast to. The source only ever casts one
    byte to it. -/
inductive CommandType
  | send
  | login
  | makeRoom
  | join
  | getPubkey
  | getUsername
  | getId
  | privateMessage
  | sendFile
  | help
  | connect
  | disconnect
  | exit
  | unknown
  | other (code : UInt8) (unnamed : code = 0x00 ∨ 0x0C < code ∧ code < 0xFE)
  deriving DecidableEq, Repr

/-- `static_cast<uint8_t>(type)`. -/
def CommandType.toByte : CommandType → UInt8
  | .send => 0x01
  | .login => 0x02
  | .makeRoom => 0x03
  | .join => 0x04
  | .getPubkey => 0x05
  | .getUsername => 0x06
  | .getId => 0x07
  | .privateMessage => 0x08
  | .sendFile => 0x09
  | .help => 0x0A
  | .connect => 0x0B
  | .disconnect => 0x0C
  | .exit => 0xFE
  | .unknown => 0xFF
  | .other code _ => code

/-- `static_cast<CommandType>(byte)`. -/
def CommandType.ofByte (b : UInt8) : CommandType :=
  if _ : b = 0x01 then .send
  else if _ : b = 0x02 then .login
  else if _ : b = 0x03 then .makeRoom
  else if _ : b = 0x04 then .join
  else if _ : b = 0x05 then .getPubkey
  else if _ : b = 0x06 then .getUsername
  else if _ : b = 0x07 then .getId
  else if _ : b = 0x08 then .privateMessage
  else if _ : b = 0x09 then .sendFile
  else if _ : b = 0x0A then .help
  else if _ : b = 0x0B then .connect
  else if _ : b = 0x0C then .disconnect
  else if _ : b = 0xFE then .exit
  else if _ : b = 0xFF then .unknown
  else .other b (by
    have hb := b.toNat_lt
    simp only [← UInt8.toNat_inj, UInt8.lt_iff_toNat_lt] at *
    simp at *
    omega)

/-! ## The record -/

/-- Only the type is sent, and in the extended format the version and the time. `checksum` is
    reserved, and always zero. -/
structure MessageHeader where
  type : MessageType := .text
  length : UInt32 := 0
  checksum : UInt32 := 0
  timestamp : UInt64 := 0
  protocolVersion : UInt8 := 1
  deriving DecidableEq, Repr

/-- Who the message is from and for. It is what the extended format adds; the program itself routes
    by metadata and leaves the envelope empty. -/
structure MessageEnvelope where
  sender : Bytes := []
  recipient : Bytes := []
  sequenceNumber : UInt64 := 0
  flags : UInt32 := 0
  deriving DecidableEq, Repr

/-- The message record. `metalen` is stored beside the list it counts, and the two are kept in step
    by whoever changes the list; `validate` compares them. -/
structure Message where
  header : MessageHeader := {}
  metalen : UInt8 := 0
  envelope : MessageEnvelope := {}
  metadata : List Bytes := []
  payload : Bytes := []
  deriving DecidableEq, Repr

def kProtocolVersion : UInt8 := 1
/-- The highest bit of the second byte tells the formats apart. In the compact format that byte
    counts the entries, so a message with 128 entries or more is taken for an extended one. -/
def kExtendedFormatFlag : UInt8 := 0x80

/-- The size in the compact format. It is where a count that does not fit its byte is found out: the
    narrowed count then differs from the number of entries. -/
def computeSerializedSize (metalen : UInt8) (metadata : List Bytes) (payload : Bytes) :
    Except Failure UInt32 :=
  -- type and metadata count, then each entry with its length, then the payload with its own
  let total := metadata.foldl (fun total m => total + 2 + m.length) 2 + 4 + payload.length
  if metalen.toNat ≠ metadata.length then
    .error (runtimeError "Malformed message metadata count")
  else if total > 2 ^ 32 - 1 then
    .error (overflowError "Message is too large")
  else .ok (UInt32.ofNat total)

/-- The constructors `Message(payload, metalen, metadata, type)`. The `metalen` argument
    is overwritten with the (narrowed) number of entries. -/
def Message.new (now : UInt64) (payload : Bytes) (_metalen : UInt8) (metadata : List Bytes)
    (type : MessageType) : Except Failure Message := do
  let metalen := UInt8.ofNat metadata.length
  let length ← computeSerializedSize metalen metadata payload
  return {
    header := {
      type := type, length := length, checksum := 0, timestamp := now,
      protocolVersion := kProtocolVersion }
    metalen := metalen
    envelope := {}
    metadata := metadata
    payload := payload }

def Message.getType (msg : Message) : MessageType := msg.header.type

/-- The payload is replaced, and the length with it. -/
def Message.setPayload (msg : Message) (newPayload : Bytes) : Except Failure Message := do
  let length ← computeSerializedSize msg.metalen msg.metadata newPayload
  return { msg with payload := newPayload, header := { msg.header with length := length } }

def Message.getPayload (msg : Message) : Bytes := msg.payload

/-- A missing entry reads as empty. -/
def Message.getMeta (msg : Message) (index : Nat) : Bytes := msg.metadata.getD index []

/-- One more entry at the end. The count is taken anew from the list, so it wraps at 256 entries,
    and that makes the size computation throw. -/
def Message.insertMetadata (msg : Message) (entry : Bytes) : Except Failure Message := do
  let metadata := msg.metadata ++ [entry]
  let metalen := UInt8.ofNat metadata.length
  let length ← computeSerializedSize metalen metadata msg.payload
  return { msg with
    metadata := metadata, metalen := metalen, header := { msg.header with length := length } }

/-- The check that a receiver may make. Neither side of the program calls it. -/
def Message.validate (msg : Message) : Bool :=
  msg.header.protocolVersion == kProtocolVersion && msg.metalen.toNat == msg.metadata.length

/-! The two mutators are used where an exception leaves the function that has the message, so
above they are functions of the message. A caller that catches the exception still has it. -/

/-- `header.length = compute_serialized_size(metalen, metadata, payload);`. The length stays as it
    was if that throws. -/
def Message.updateLength : EStateM Failure Message Unit := do
  let msg ← get
  let length ← liftExcept (computeSerializedSize msg.metalen msg.metadata msg.payload)
  set { msg with header := { msg.header with length := length } }

/-- `set_payload` on a message that the caller keeps. -/
def Message.setPayloadInPlace (newPayload : Bytes) : EStateM Failure Message Unit := do
  modify fun msg => { msg with payload := newPayload }
  Message.updateLength

/-- `insert_metadata` on a message that the caller keeps. If it throws, the entry is in, the count
    has wrapped, and the length is the old one. -/
def Message.insertMetadataInPlace (entry : Bytes) : EStateM Failure Message Unit := do
  modify fun msg => { msg with metadata := msg.metadata ++ [entry] }
  modify fun msg => { msg with metalen := UInt8.ofNat msg.metadata.length }
  Message.updateLength

/-! ## `Serializer::serialize` -/

/-- `write_u32`: big-endian. -/
def writeU32 (out : Bytes) (value : UInt32) : Bytes :=
  out ++ [((value >>> 24) &&& 0xFF).toUInt8, ((value >>> 16) &&& 0xFF).toUInt8,
    ((value >>> 8) &&& 0xFF).toUInt8, (value &&& 0xFF).toUInt8]

/-- `write_u64`: little-endian, unlike the other words. -/
def writeU64 (out : Bytes) (value : UInt64) : Bytes :=
  out ++ (List.range 8).map fun i => ((value >>> UInt64.ofNat (i * 8)) &&& 0xFF).toUInt8

/-- One turn of the metadata loop: a narrowed 16-bit length, high byte first, and the bytes. All of
    them are written, also when their number does not fit; the reader then goes wrong. -/
def writeEntry (out : Bytes) (m : Bytes) : Bytes :=
  let len := UInt16.ofNat m.length
  out ++ [(len >>> 8).toUInt8, (len &&& 0xFF).toUInt8] ++ m

/-- A message is written in the extended format if the compact one would lose something of its
    envelope or its version. -/
def Message.useExtendedFormat (msg : Message) : Bool :=
  !msg.envelope.sender.isEmpty || !msg.envelope.recipient.isEmpty ||
    msg.envelope.sequenceNumber != 0 || msg.envelope.flags != 0 ||
    msg.header.protocolVersion != kProtocolVersion

/-- Both formats end in the same way, with the entries and the payload. Every length is narrowed to
    its field and nothing is checked, so serializing cannot fail; what cannot be represented is
    written wrong. -/
def Serializer.serialize (msg : Message) : Bytes :=
  if !msg.useExtendedFormat then
    let out := [msg.header.type.toByte, msg.metalen]
    let out := msg.metadata.foldl writeEntry out
    writeU32 out (UInt32.ofNat msg.payload.length) ++ msg.payload
  else
    let out := [msg.header.type.toByte,
      kExtendedFormatFlag ||| (msg.header.protocolVersion &&& 0x7F)]
    let out := writeU32 out msg.envelope.flags
    let out := writeU64 out msg.header.timestamp
    let out := out ++ [UInt8.ofNat msg.envelope.sender.length] ++ msg.envelope.sender
    let out := out ++ [UInt8.ofNat msg.envelope.recipient.length] ++ msg.envelope.recipient
    let out := writeU64 out msg.envelope.sequenceNumber
    let out := writeU32 out msg.envelope.flags
    let out := out ++ [msg.metalen]
    let out := msg.metadata.foldl writeEntry out
    writeU32 out (UInt32.ofNat msg.payload.length) ++ msg.payload

/-! ## `Serializer::deserialize`

The decoder keeps an offset `off`, here the state of `Reading`. Each of its fields is
the same three statements, with their own width and error text: check that the field
lies in the input, read it (unchecked), advance. -/

/-- The decoder's `off`, and the exception that ends it. -/
abbrev Reading := StateT Nat (Except Failure)

/-- `read_u32`. Like the others it reads without a check; the check stands before the call. -/
def readU32 (raw : Bytes) (off : Nat) : Except Failure UInt32 := do
  let b₀ ← byteAt raw off
  let b₁ ← byteAt raw (off + 1)
  let b₂ ← byteAt raw (off + 2)
  let b₃ ← byteAt raw (off + 3)
  return (b₀.toUInt32 <<< 24) ||| (b₁.toUInt32 <<< 16) ||| (b₂.toUInt32 <<< 8) ||| b₃.toUInt32

/-- `read_u64`, byte by byte. -/
def readU64 (raw : Bytes) (off : Nat) : Except Failure UInt64 :=
  (List.range 8).foldlM (fun value i => do
    let b ← byteAt raw (off + i)
    return value ||| (b.toUInt64 <<< UInt64.ofNat (i * 8))) 0

/-- The 16-bit length of an entry, assembled in place. -/
def readU16 (raw : Bytes) (off : Nat) : Except Failure UInt16 := do
  let b₀ ← byteAt raw off
  let b₁ ← byteAt raw (off + 1)
  return (b₀.toUInt16 <<< 8) ||| b₁.toUInt16

/-- `raw[off++]`. -/
def nextByte (raw : Bytes) : Reading UInt8 := do
  let off ← get
  let b ← byteAt raw off
  set (off + 1)
  return b

/-- A field of one byte: the check, and `raw[off++]`. -/
def byteField (missing : String) (raw : Bytes) : Reading UInt8 := do
  let off ← get
  throwIf (off ≥ raw.length) (runtimeError missing)
  nextByte raw

/-- A field of fixed `width`, read by `read`. The check comes first, and it is the only thing that
    keeps `read` inside the input. -/
def wordField {α : Type} (width : Nat) (read : Bytes → Nat → Except Failure α)
    (missing : String) (raw : Bytes) : Reading α := do
  let off ← get
  throwIf (off + width > raw.length) (runtimeError missing)
  let v ← read raw off
  set (off + width)
  return v

/-- A field whose length has been read before it. -/
def sliceField (len : Nat) (missing : String) (raw : Bytes) : Reading Bytes :=
  wordField len (fun raw off => slice raw off len) missing raw

/-- One turn of the metadata loop. -/
def metadataEntry (raw : Bytes) : Reading Bytes := do
  let len ← wordField 2 readU16 "Malformed message: metadata length missing" raw
  sliceField len.toNat "Malformed message: metadata out of bounds" raw

/-- As many entries as the count says. -/
def metadataEntries (metalen : UInt8) (raw : Bytes) : Reading (List Bytes) :=
  Reader.times metadataEntry metalen.toNat raw

/-- The payload with its length, at the end of both formats. -/
def payloadField (raw : Bytes) : Reading Bytes := do
  let plen ← wordField 4 readU32 "Malformed message: payload length missing" raw
  sliceField plen.toNat "Malformed message: payload out of bounds" raw

/-- What follows the first two bytes in the compact format. -/
def compactFields (metalen : UInt8) (raw : Bytes) : Reading (List Bytes × Bytes) := do
  let metadata ← metadataEntries metalen raw
  let payload ← payloadField raw
  return (metadata, payload)

/-- The fields of the extended format that follow the version byte, in order. The
    first flags word is read and then overwritten by the second. -/
structure ExtendedFields where
  flags₁ : UInt32
  timestamp : UInt64
  sender : Bytes
  recipient : Bytes
  sequenceNumber : UInt64
  flags : UInt32
  metalen : UInt8
  metadata : List Bytes
  payload : Bytes
  deriving DecidableEq, Repr

/-- The fields of the extended format in the order in which they are read, each with the text of its
    own error. -/
def extendedFields (raw : Bytes) : Reading ExtendedFields := do
  let flags₁ ← wordField 4 readU32 "Malformed message: flags missing" raw
  let timestamp ← wordField 8 readU64 "Malformed message: timestamp missing" raw
  let senderLen ← byteField "Malformed message: sender length missing" raw
  let sender ← sliceField senderLen.toNat "Malformed message: sender out of bounds" raw
  let recipientLen ← byteField "Malformed message: recipient length missing" raw
  let recipient ← sliceField recipientLen.toNat "Malformed message: recipient out of bounds" raw
  let sequenceNumber ← wordField 8 readU64 "Malformed message: sequence missing" raw
  let flags ← wordField 4 readU32 "Malformed message: envelope flags missing" raw
  let metalen ← byteField "Malformed message: metadata count missing" raw
  let metadata ← metadataEntries metalen raw
  let payload ← payloadField raw
  return { flags₁, timestamp, sender, recipient, sequenceNumber, flags, metalen, metadata, payload }

/-- Six bytes are the shortest message there is: type, count and the length of an empty payload. The
    compact format has its length computed anew, which can throw once more for a payload near the
    limit; the extended one is given the size of the input instead. What follows the payload is not
    looked at. -/
def Serializer.deserialize (raw : Bytes) : Except Failure Message := do
  if raw.length < 6 then
    throw (runtimeError "Malformed message: too short")
  let (type, off) ← (nextByte raw).run 0
  let (second, off) ← (nextByte raw).run off
  if second &&& kExtendedFormatFlag = 0 then
    let ((metadata, payload), _) ← (compactFields second raw).run off
    let length ← computeSerializedSize second metadata payload
    return {
      header := { type := .ofByte type, protocolVersion := kProtocolVersion, length := length }
      metalen := second
      metadata := metadata
      payload := payload }
  else
    let version := second &&& 0x7F
    if version = 0 then
      throw (runtimeError "Unsupported protocol version")
    let (x, _) ← (extendedFields raw).run off
    return {
      header := {
        type := .ofByte type, protocolVersion := version, timestamp := x.timestamp,
        length := UInt32.ofNat (raw.length - 2) }
      metalen := x.metalen
      envelope := {
        sender := x.sender, recipient := x.recipient, sequenceNumber := x.sequenceNumber,
        flags := x.flags }
      metadata := x.metadata
      payload := x.payload }

end Messenger
