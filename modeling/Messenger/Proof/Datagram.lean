import Messenger.Model.Datagram
import Messenger.Proof.Transport

/-!
# Datagrams

A datagram transport hands over what its peer has sent, or nothing: never a part of it, and never
what somebody else has sent (`udp_whole_or_not`). The price is that a message of more than 4092
bytes is sent and never received.
-/

set_option autoImplicit false

namespace Messenger

open Messenger.Lib

variable {addr sender : SockAddr} {bytes data : Bytes}

/-- The checks are those for a frame with nothing behind it. `UDPTransport::receive` makes them one
    by one, so this is the form in which it can be compared. -/
theorem extractCompleteMessage_exact :
    extractCompleteMessage bytes = some (data, []) ↔
      4 ≤ bytes.length ∧ bytes.length = 4 + (declaredLength bytes).toNat ∧
        data = (bytes.drop 4).take (declaredLength bytes).toNat := by
  rw [extractCompleteMessage_eq]
  split
  · rename_i hshort
    exact ⟨fun h => (by cases h), fun h => by omega⟩
  · rename_i hlong
    rw [Option.some.injEq, Prod.mk.injEq, List.drop_eq_nil_iff]
    constructor
    · rintro ⟨hdata, hend⟩
      exact ⟨by omega, by omega, hdata.symm⟩
    · rintro ⟨-, hlength, hdata⟩
      exact ⟨hdata.symm, by omega⟩

theorem extractCompleteMessage_frame_iff :
    extractCompleteMessage bytes = some (data, []) ↔ bytes = frame data ∧ data.length < 2 ^ 32 := by
  constructor
  · exact eq_frame_of_extract
  · rintro ⟨rfl, hdata⟩
    have hwhole := extractCompleteMessage_whole hdata []
    rwa [List.append_nil] at hwhole

/-- A datagram is handed over exactly if it is from the peer and is one frame, as far as the buffer
    holds it. The source returns in four places, and only the last is a message; the earlier ones
    each contradict a part of the right side. -/
theorem udpReceive_ok_iff : udpReceive addr (.datagram sender bytes) = ⟨.ok, data, 0⟩ ↔
    sender = addr ∧ extractCompleteMessage (bytes.take 4096) = some (data, []) := by
  rw [extractCompleteMessage_exact]
  unfold udpReceive
  dsimp only
  split
  · -- a datagram with bytes in it: sender, length field, and whether the length is right, in this
    -- order
    split
    · rename_i hsender
      constructor
      · intro h
        cases h
      · rintro ⟨rfl, -⟩
        simp at hsender
    · rename_i hsender
      have hsame : sender = addr := by
        rw [not_or, not_not, not_not] at hsender
        cases sender
        cases addr
        simpa using hsender
      split
      · rename_i hshort
        exact ⟨fun h => (by cases h), fun h => absurd h.2.1 (by omega)⟩
      · rename_i hlong
        split
        · rename_i hlength
          exact ⟨fun h => (by cases h), fun h => absurd h.2.2.1 hlength⟩
        · rename_i hlength
          constructor
          · intro h
            cases h
            exact ⟨hsame, by omega, not_not.mp hlength, rfl⟩
          · rintro ⟨-, -, -, rfl⟩
            rfl
  · rename_i hempty
    exact ⟨fun h => (by cases h), fun h => absurd h.2.1 (by omega)⟩

/-- **Whole or not at all.** What is handed over is what a datagram of the peer holds, after its
    length, in its first 4096 bytes; and of the messages that are sent, those of at most 4092 bytes
    can be received. -/
theorem udp_whole_or_not (addr : SockAddr) :
    (∀ r data, udpReceive addr r = ⟨.ok, data, 0⟩ ↔
      ∃ bytes, r = .datagram addr bytes ∧ bytes.take 4096 = frame data) ∧
    ∀ data, data.length < 2 ^ 32 →
      (udpReceive addr (.datagram addr (sendBuffer data)) = ⟨.ok, data, 0⟩ ↔
        data.length ≤ 4092) := by
  have hsmall {bytes data : Bytes} (h : bytes.take 4096 = frame data) : data.length ≤ 4092 := by
    have hlength := congrArg List.length h
    rw [List.length_take, frame_length] at hlength
    omega
  have hfirst : ∀ r data, udpReceive addr r = ⟨.ok, data, 0⟩ ↔
      ∃ bytes, r = .datagram addr bytes ∧ bytes.take 4096 = frame data := by
    intro r data
    cases r with
    | wouldBlock => exact ⟨fun h => (by cases h), fun ⟨_, h, _⟩ => by cases h⟩
    | failed errno => exact ⟨fun h => (by cases h), fun ⟨_, h, _⟩ => by cases h⟩
    | datagram sender bytes =>
      rw [udpReceive_ok_iff, extractCompleteMessage_frame_iff]
      constructor
      · rintro ⟨rfl, hframe, -⟩
        exact ⟨bytes, rfl, hframe⟩
      · rintro ⟨_, ⟨⟩, hframe⟩
        exact ⟨rfl, hframe, (hsmall hframe).trans_lt (by decide)⟩
  refine ⟨hfirst, fun data hdata => ?_⟩
  rw [hfirst, sendBuffer_eq hdata]
  constructor
  · rintro ⟨_, ⟨⟩, hframe⟩
    exact hsmall hframe
  · intro hlength
    refine ⟨frame data, rfl, List.take_of_length_le ?_⟩
    rw [frame_length]
    omega

end Messenger
