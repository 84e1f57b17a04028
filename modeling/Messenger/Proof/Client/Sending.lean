import Messenger.Proof.Client.Crypto
import Messenger.Proof.Client.Handling
import Messenger.Proof.Client.Queue

/-!
# Queued texts are sent

A key response sends what is queued for the user whose key it is. One text is one private
message, encrypted at the counter for that user (`sendPendingMessage_encrypts`). The loop goes on
until the queue is empty, and no exception ends it before that: there are more turns than a
queue can hold texts (`sendPending_loop`).
-/

set_option autoImplicit false

namespace Messenger

open Messenger.Lib

variable {ssl : OpenSSL} {a b : Account} {c : ClientContext}

/-- **One queued text**, if it can be encrypted and is not too large. The steps are those of the
    source: the counter is made sure of, the text encrypted, the message sent, and the counter
    advanced. `counted` and `ready` are the contexts between them. -/
theorem sendPendingMessage_encrypts {username text ciphertext : Bytes}
    {encryption : EncryptionService}
    (hconnected : c.connected = true)
    (hencrypt : c.encryption.encryptFor ssl c.myUsername username text (c.counters username)
      = (.ok ciphertext, encryption))
    (hsize : compactSize [username, c.myUsername] ciphertext < 2 ^ 32) :
    ∃ msg : Message,
      ResponseMessageHandler.sendPendingMessage ssl username ⟨text⟩ c = .ok () { c with
        messagesCounter := (c.messagesCounter.insert username (c.counters username)).insert username
          (c.counters username + 1)
        encryption := encryption
        outgoing := c.outgoing ++ [Serializer.serialize msg] } ∧
      msg.content = .plain .cipherMessage [username, c.myUsername] ciphertext ∧ msg.Built := by
  let counted : ClientContext :=
    { c with messagesCounter := c.messagesCounter.insert username (c.counters username) }
  let ready : ClientContext := { counted with encryption := encryption }
  have hcounter : counterFor username c = .ok (c.counters username) counted :=
    counterFor_run username c
  have hsealed : encryptFor ssl c.myUsername username text (c.counters username) counted
      = .ok ciphertext ready := by
    unfold encryptFor
    rw [get_bind_run, hencrypt]
    rfl
  obtain ⟨msg, hsend, hcontent, hbuilt⟩ := sendMessage_eq 2 .cipherMessage
    (show [username, c.myUsername].length < 256 by simp) hsize ready
  rw [sendToServer_run (show ready.connected = true from hconnected)] at hsend
  refine ⟨msg, ?_, hcontent, hbuilt⟩
  -- the name is read from the context once, at the start
  unfold ResponseMessageHandler.sendPendingMessage
  rw [get_bind_run]
  refine (bind_ok hcounter).trans ((bind_ok hsealed).trans ((bind_ok hsend).trans ?_))
  exact advanceCounter_run (by simp [ready, counted])

/-- With the keys of a user that the names fit, a text can be sent, and the recipient will read
    it. -/
theorem sendPendingMessage_ok (hssl : ssl.Correct) (hconnected : c.connected = true)
    (hc : c.encryption.IsOf a) (husername : c.myUsername = a.name)
    (hkeys : c.encryption.Holds ssl b)
    (ha : a.name.length ≤ 65535) (hb : b.name.length ≤ 65535) {text : Bytes}
    (htext : text.length < 2 ^ 31) :
    ∃ raw ciphertext encryption,
      ResponseMessageHandler.sendPendingMessage ssl b.name ⟨text⟩ c = .ok () { c with
        messagesCounter := (c.messagesCounter.insert b.name (c.counters b.name)).insert b.name
          (c.counters b.name + 1)
        encryption := encryption
        outgoing := c.outgoing ++ [raw] } ∧
      encryption.IsOf a ∧ encryption.Holds ssl b ∧
      Carries raw (.plain .cipherMessage [b.name, a.name] ciphertext) ∧
      a.SealedFor ssl b (c.counters b.name) text ciphertext := by
  obtain ⟨ciphertext, encryption, hencrypt, hof, hholds, hsealed⟩ :=
    encryptFor_sealed hssl hc hkeys text (c.counters b.name)
  have hlen := hsealed.length
  have hfits : (Content.plain .cipherMessage [b.name, a.name] ciphertext).FitsCompact :=
    Content.plain_fits (by decide) (by simp) (by simp [ha, hb])
      (show ciphertext.length < 2 ^ 31 + 36 by omega)
  rw [← husername] at hencrypt hfits
  obtain ⟨msg, hsend, hcontent, hbuilt⟩ := 
    sendPendingMessage_encrypts hconnected hencrypt hfits.size_fits
  rw [← hcontent] at hfits
  refine ⟨_, ciphertext, encryption, hsend, hof, hholds, ?_, hsealed⟩
  rw [← husername, ← hcontent]
  exact (hbuilt.fitsWire hfits).carries

/-- **The loop.** `P texts` is said of the client while `texts` are still to be sent. If each of
    them can be sent, all are, and no other queue is touched.

    The turns are a bound of the model. It is never reached, since `hturns` says that there are more
    of them than texts, and so the result is one about the loop of the source, which has no bound.
    The induction is on the texts. -/
theorem sendPending_loop {username : Bytes} {P : List Bytes → ClientContext → Prop}
    (hqueue : ∀ texts c mq, P texts c → mq.pending username ⊆ c.mq.pending username →
      P texts { c with mq := mq })
    (hsend : ∀ text texts c, P (text :: texts) c →
      ∃ c', ResponseMessageHandler.sendPendingMessage ssl username ⟨text⟩ c = .ok () c' ∧
        P texts c' ∧ c'.mq = c.mq)
    {texts : List Bytes} {turns : Nat} (hturns : texts.length < turns)
    (hpending : c.mq.pending username = texts) (hc : P texts c) :
    ∃ c', ResponseMessageHandler.sendPending ssl username turns c = .ok () c' ∧ P [] c' ∧
      c'.mq.pending username = [] ∧ ∀ other ≠ username, c'.mq other = c.mq other := by
  induction texts generalizing c turns with
  | nil =>
    -- one more turn, which finds nothing and puts the queue back as it was
    obtain ⟨turns, rfl⟩ : ∃ k, turns = k + 1 := Nat.exists_eq_succ_of_ne_zero (by omega)
    obtain ⟨mq, hfind, hnil⟩ := c.mq.findPending_nil _ hpending
    refine ⟨{ c with mq := mq }, sendPending_none hfind turns, hqueue _ _ _ hc ?_, hnil, ?_⟩
    · rw [hnil]
      exact List.nil_subset _
    · exact fun other hother => MessageQueue.findPending_other hother hfind
  | cons text texts ih =>
    obtain ⟨turns, rfl⟩ : ∃ k, turns = k + 1 := Nat.exists_eq_succ_of_ne_zero (by omega)
    obtain ⟨mq, hfind, hrest⟩ := c.mq.findPending_cons _ hpending
    have hfewer : mq.pending username ⊆ c.mq.pending username := by
      rw [hrest, hpending]
      exact List.subset_cons_self text texts
    obtain ⟨c₁, hsent, hc₁, hmq₁⟩ := hsend text texts _ (hqueue _ _ mq hc hfewer)
    have hpending₁ : c₁.mq.pending username = texts := by
      rw [hmq₁]
      exact hrest
    have hmore : texts.length < turns := by
      rw [List.length_cons] at hturns
      omega
    obtain ⟨c₂, hloop, hc₂, hnil, hothers⟩ := ih hmore hpending₁ hc₁
    refine ⟨c₂, ?_, hc₂, hnil, fun other hother => ?_⟩
    · rw [sendPending_some hfind]
      exact (bind_ok hsent).trans hloop
    · rw [hothers other hother, hmq₁]
      exact MessageQueue.findPending_other hother hfind

end Messenger
