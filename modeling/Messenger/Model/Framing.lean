import Messenger.Lib.Word
import Messenger.Model.Base

/-!
# `protocol/framing.cpp`, and the extractor of `transport/transport.cpp`

The program frames twice: `FramerMessage` puts a length before each message, and the
transport puts one before each packet. Both sides have their own code for taking a
frame off the front of a buffer, and the two add up the size of a frame in different
widths.

`memcpy` and `ntohl` together read a big-endian word, `htonl` and a copy write one.
-/

set_option autoImplicit false

namespace Messenger

open Messenger.Lib

/-- `memcpy(&len, buffer.data(), 4); len = ntohl(len);` for a buffer that has four bytes. Whatever
    the sender has written there is believed. -/
def declaredLength (buffer : Bytes) : UInt32 := UInt32.ofNat (beValue (buffer.take 4))

namespace FramerMessage

/-- `4 + ntohl(len)` is a sum of 32-bit words, and wraps; only then is it compared with the size. So
    for the four largest lengths the answer is yes as soon as there are four bytes. -/
def hasMessageInBuffer (buffer : Bytes) : Bool :=
  if buffer.length < 4 then false
  else buffer.length ≥ (4 + declaredLength buffer).toNat

/-- The message and what is left of the buffer. Nothing is checked here: the iterators
    `buffer.begin() + 4 + len` may lie past the end. In this sum `len` is added to an iterator and
    does not wrap, so it is not the sum that was compared. -/
def extractMessage (buffer : Bytes) : Except Failure (Bytes × Bytes) :=
  if buffer.length < 4 then .error .outOfBounds
  else do
    let len := (declaredLength buffer).toNat
    let msg ← slice buffer 4 len
    return (msg, buffer.drop (4 + len))

/-- Appends the (narrowed) length and the data to `buffer`. What is in the buffer already stays in
    front of it. -/
def formMessage (data buffer : Bytes) : Bytes :=
  buffer ++ beBytes 4 (UInt32.ofNat data.length).toNat ++ data

end FramerMessage

/-- The transport's extractor; `sizeof(uint32_t) + len` is a `size_t`. Here the check and the slice
    use the same sum, so this one never reads outside the buffer. -/
def extractCompleteMessage (buffer : Bytes) : Option (Bytes × Bytes) :=
  if buffer.length < 4 then none
  else
    let len := (declaredLength buffer).toNat
    if buffer.length < 4 + len then none
    else some ((buffer.drop 4).take len, buffer.drop (4 + len))

/-! ## The receiving loop

`Client::on_server_message` and `PeerEventHandler::handle_event` run the same loop over
the receive buffer of a connection. -/

/-- Within its bounds `extract_message` takes the frame off the front; a shorter buffer is read past
    its end. -/
theorem extractMessage_eq (buffer : Bytes) :
    FramerMessage.extractMessage buffer =
      if buffer.length < 4 + (declaredLength buffer).toNat then .error .outOfBounds
      else .ok ((buffer.drop 4).take (declaredLength buffer).toNat,
        buffer.drop (4 + (declaredLength buffer).toNat)) := by
  unfold FramerMessage.extractMessage slice
  by_cases hlen : buffer.length < 4 + (declaredLength buffer).toNat
  · by_cases hshort : buffer.length < 4
    · simp [hlen, hshort]
    · simp only [hshort, hlen, if_true, if_false, Nat.not_le.mpr hlen]
      rfl
  · have hlong : ¬buffer.length < 4 := by omega
    simp only [hlong, hlen, if_false, Nat.not_lt.mp hlen, if_true]
    rfl

/-- Every message takes at least its length field off the buffer, so the loop comes to an end. -/
theorem extractMessage_shrinks {buffer msg rest : Bytes}
    (h : FramerMessage.extractMessage buffer = .ok (msg, rest)) : rest.length < buffer.length := by
  rw [extractMessage_eq] at h
  split at h
  · cases h
  · cases h
    rw [List.length_drop]
    omega

/-- `while (framer->has_message_in_buffer(recv_buffer)) … extract_message(recv_buffer) …`: the
    messages handed to the callback, in order, and the buffer afterwards. The callback is not part
    of this; where it matters what it does between two messages, the loop is modelled with it. -/
def drainMessages (buffer : Bytes) : Except Failure (List Bytes × Bytes) :=
  if FramerMessage.hasMessageInBuffer buffer then
    match h : FramerMessage.extractMessage buffer with
    | .error x => .error x
    | .ok (msg, rest) =>
      have := extractMessage_shrinks h
      (drainMessages rest).map fun r => (msg :: r.1, r.2)
  else .ok ([], buffer)
  termination_by buffer.length

/-- The receive buffer of a connection, and the messages its callback has seen. -/
structure Inbox where
  recvBuffer : Bytes := []
  delivered : List Bytes := []
  deriving DecidableEq, Repr

/-- A chunk arrives: append it, then run the loop. -/
def Inbox.onChunk (s : Inbox) (chunk : Bytes) : Except Failure Inbox := do
  let r ← drainMessages (s.recvBuffer ++ chunk)
  return { recvBuffer := r.2, delivered := s.delivered ++ r.1 }

end Messenger
