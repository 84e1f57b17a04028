import Messenger.Proof.Client.Crypto
import Messenger.Proof.Wire.Encode

/-!
# What is on the wire between two clients and the server

Four kinds of messages: the request for the other's key and the reply to it, and a
private message before and after the server has put the sender's keys into it. `ToServer`
and `FromServer` say of the bytes in a queue which of these they carry and, for a private
message, the counter and the text inside.
-/

set_option autoImplicit false

namespace Messenger

open Messenger.Lib

variable (ssl : OpenSSL) (acct : Party → Account)

/-- `p` asks for the other's key. -/
def keyRequest (p : Party) : Content :=
  .plain .command [[CommandType.getPubkey.toByte], (acct p.other).name] []

/-- `p` gets the other's key. -/
def keyReply (p : Party) : Content :=
  .plain .response [[CommandType.getPubkey.toByte], (acct p.other).name,
    (acct p.other).edPublic ssl, (acct p.other).signature ssl] ((acct p.other).dhPublic ssl)

/-- A private message as `p` sends it. -/
def privateMessage (p : Party) (ciphertext : Bytes) : Content :=
  .plain .cipherMessage [(acct p.other).name, (acct p).name] ciphertext

/-- A private message as `p` gets it. -/
def forwardedMessage (p : Party) (ciphertext : Bytes) : Content :=
  .plain .cipherMessage [(acct p).name, (acct p.other).name, (acct p.other).dhPublic ssl,
    (acct p.other).edPublic ssl, (acct p.other).signature ssl] ciphertext

/-- What is in the queue from `p` to the server, with the counter and the text of a private message.
    A request has neither, and stands for nothing in the exchange. -/
inductive ToServer (p : Party) (raw : Bytes) : Option (UInt64 × Bytes) → Prop
  | request : Carries raw (keyRequest acct p) → (acct p.other).name ≠ [] → ToServer p raw none
  | message {n : UInt64} {text ciphertext : Bytes} :
      Carries raw (privateMessage acct p ciphertext) →
      (acct p).SealedFor ssl (acct p.other) n text ciphertext → text.length < 2 ^ 31 →
      ToServer p raw (some (n, text))

/-- What is in the queue from the server to `p`. -/
inductive FromServer (p : Party) (raw : Bytes) : Option (UInt64 × Bytes) → Prop
  | reply : Carries raw (keyReply ssl acct p) → FromServer p raw none
  | message {n : UInt64} {text ciphertext : Bytes} :
      Carries raw (forwardedMessage ssl acct p ciphertext) →
      (acct p.other).SealedFor ssl (acct p) n text ciphertext → FromServer p raw (some (n, text))

/-! ## They can be carried -/

variable {ssl acct}

section

variable (h : Peers ssl acct) (p : Party)

include h

theorem keyRequest_fits : (keyRequest acct p).FitsCompact := by
  have hname := h.names_fit p.other
  exact Content.plain_fits (by decide) (by simp) (by simpa using hname) (by simp)

theorem keyReply_fits : (keyReply ssl acct p).FitsCompact := by
  have hname := h.names_fit p.other
  have hdh := (acct p.other).dhPublic_length h.correct
  have hed := (acct p.other).edPublic_length h.correct
  have hsig := (acct p.other).signature_length h.correct
  exact Content.plain_fits (by decide) (by simp) (by simp [hed, hsig, hname]) (by simp [hdh])

theorem forwardedMessage_fits {ciphertext : Bytes} (hlen : ciphertext.length < 2 ^ 31 + 36) :
    (forwardedMessage ssl acct p ciphertext).FitsCompact := by
  have hname := h.names_fit p
  have hother := h.names_fit p.other
  have hdh := (acct p.other).dhPublic_length h.correct
  have hed := (acct p.other).edPublic_length h.correct
  have hsig := (acct p.other).signature_length h.correct
  exact Content.plain_fits (by decide) (by simp) (by simp [hname, hother, hdh, hed, hsig]) hlen

end

/-! ## Reading them -/

theorem Carries.content_eq {raw : Bytes} {c : Content} {m : Message} (h : Carries raw c)
    (hm : Serializer.deserialize raw = .ok m) : m.content = c := by
  obtain ⟨m', hm', hcontent⟩ := h
  rw [hm] at hm'
  cases hm'
  exact hcontent

theorem messageType_of_carries {raw : Bytes} {type : MessageType} {metadata : List Bytes}
    {payload : Bytes} (h : Carries raw (.plain type metadata payload)) :
    messageType raw = some type := by
  obtain ⟨m, hm, hcontent⟩ := h
  unfold messageType
  rw [hm]
  exact congrArg some (Message.of_content hcontent).1

/-- Of the bytes in a queue, those that carry private messages are those with a counter. -/
theorem ToServer.isSome {p : Party} {raw : Bytes} {item : Option (UInt64 × Bytes)}
    (h : ToServer ssl acct p raw item) :
    item.isSome = decide (messageType raw = some .cipherMessage) := by
  cases h with
  | request hraw _ => rw [messageType_of_carries hraw]; rfl
  | message hraw _ _ => rw [messageType_of_carries hraw]; rfl

theorem FromServer.isSome {p : Party} {raw : Bytes} {item : Option (UInt64 × Bytes)}
    (h : FromServer ssl acct p raw item) :
    item.isSome = decide (messageType raw = some .cipherMessage) := by
  cases h with
  | reply hraw => rw [messageType_of_carries hraw]; rfl
  | message hraw _ => rw [messageType_of_carries hraw]; rfl

end Messenger
