import Messenger.Proof.Client.Sending

/-!
# A key response

The keys are cached, then everything that is queued for the user is sent, one private message
for each text, at consecutive counters. `Flushed` says how far that has got. A key that
OpenSSL does not take ends the handler before it looks at a queue.

A text whose message would have 2^32 bytes or more ends the loop: the constructor of
`Message` throws, when the text is off the queue already. All this is about a client that is
connected; what is sent is what `send_to_server` is called with.

The loop is the one of `sendPending_loop`, with `Flushing` as its invariant, so there is no
induction here: a turn has to be followed through encryption, the construction of a message, the
write and the counter. What a turn needs of encryption is stated for all nonces and counters at
once (`EncryptsFor`), because the service changes from turn to turn by the nonce it has drawn, and
the record of keys it has used.

The last section is the failure that the source does not think of. A text that is too large for a
message is lost, and those behind it stay in the queue until the next response.
-/

set_option autoImplicit false

namespace Messenger

open Messenger.Lib

variable {ssl : OpenSSL} {c : ClientContext} {msg : Message}

/-- Encryption of the texts for the user succeeds, at any counter and with whatever nonce comes
    next. It adds the nonce, the counter and the tag. The length matters because of the bound on the
    size of a message. -/
def EncryptionService.EncryptsFor (ssl : OpenSSL) (e : EncryptionService) (sender username : Bytes)
    (texts : List Bytes) : Prop :=
  ∀ text ∈ texts, ∀ draws counter, ∃ ciphertext,
    (EncryptionService.encryptFor ssl { e with draws := draws } sender username text counter).1
        = .ok ciphertext ∧
      ciphertext.length = text.length + 36

/-- The context once the keys of the response are cached. -/
def ClientContext.cached (ssl : OpenSSL) (c : ClientContext) (msg : Message) : ClientContext :=
  { c with encryption :=
      (c.encryption.cachePublicKey ssl (msg.getMeta 1) msg.getPayload (msg.getMeta 2)).2 }

/-- The message is the private message for the text that was number `i` in the queue, counted
    from zero: to `username`, from the client, encrypted at the `i`-th counter from the one that
    the client had. -/
def ClientContext.Posts (ssl : OpenSSL) (c : ClientContext) (username : Bytes) (i : Nat)
    (text : Bytes) (msg : Message) : Prop :=
  msg.content = .plain .cipherMessage [username, c.myUsername] msg.getPayload ∧
    (EncryptionService.encryptFor ssl { c.encryption with draws := c.encryption.draws + i }
      c.myUsername username text (c.counters username + UInt64.ofNat i)).1 = .ok msg.getPayload

/-- From `c₀` on the texts `sent` have been sent as `msgs`, and nothing else has been done. The
    counter has gone up by one for each text, and the service has drawn one nonce for each; both are
    needed to say what the next text is encrypted with. -/
structure Flushed (ssl : OpenSSL) (username : Bytes) (c₀ : ClientContext) (sent : List Bytes)
    (msgs : List Message) (c : ClientContext) : Prop where
  myUsername : c.myUsername = c₀.myUsername
  connected : c.connected = true
  pendingMessages : c.pendingMessages = c₀.pendingMessages
  encryption : ∃ used, c.encryption
    = { c₀.encryption with draws := c₀.encryption.draws + sent.length, used := used }
  counter : c.counters username = c₀.counters username + UInt64.ofNat sent.length
  others : ∀ other ≠ username, c.messagesCounter other = c₀.messagesCounter other
  outgoing : c.outgoing = c₀.outgoing ++ msgs.map Serializer.serialize
  length : msgs.length = sent.length
  posts : ∀ i text msg, sent[i]? = some text → msgs[i]? = some msg →
    c₀.Posts ssl username i text msg

/-! ## One text -/

/-- The record of what was encrypted has no part in encryption. -/
theorem encryptFor_used (e : EncryptionService) (used : List KeyUse)
    (sender username plaintext : Bytes) (counter : UInt64) :
    (EncryptionService.encryptFor ssl { e with used := used } sender username plaintext counter).1
      = (e.encryptFor ssl sender username plaintext counter).1 := by
  unfold EncryptionService.encryptFor
  cases e.dhKeys username with
  | none => rfl
  | some dhKey =>
    dsimp only
    cases HKDF.deriveForMessaging ssl (ssl.dhDerive e.dhKey dhKey) sender username "encryption" <;>
      rfl

/-- A nonce is drawn for each ciphertext, and besides the record nothing else changes. -/
theorem encryptFor_draws {e e' : EncryptionService} {sender username plaintext ciphertext : Bytes}
    {counter : UInt64}
    (h : e.encryptFor ssl sender username plaintext counter = (.ok ciphertext, e')) :
    ∃ used, e' = { e with draws := e.draws + 1, used := used } := by
  unfold EncryptionService.encryptFor at h
  split at h
  · cases h
  · dsimp only at h
    split at h
    · cases h
    · exact ⟨_, (Prod.mk.inj h).2.symm⟩

theorem compactSize_length {metadata : List Bytes} {payload other : Bytes} {n : Nat}
    (h : payload.length = other.length + n) :
    compactSize metadata payload = compactSize metadata other + n := by
  unfold compactSize
  omega

/-- What the client encrypts next, it encrypts as it would have at the start, with the nonce and the
    counter moved on by what has been sent. -/
theorem Flushed.encrypts {username text : Bytes} {c₀ : ClientContext} {sent : List Bytes}
    {msgs : List Message} (h : Flushed ssl username c₀ sent msgs c)
    (hencrypts : c₀.encryption.EncryptsFor ssl c₀.myUsername username [text]) :
    ∃ ciphertext used,
      c.encryption.encryptFor ssl c.myUsername username text (c.counters username)
        = (.ok ciphertext, { c₀.encryption with
            draws := c₀.encryption.draws + (sent ++ [text]).length, used := used }) ∧
      (EncryptionService.encryptFor ssl { c₀.encryption with
          draws := c₀.encryption.draws + sent.length } c₀.myUsername username text
          (c₀.counters username + UInt64.ofNat sent.length)).1 = .ok ciphertext ∧
      ciphertext.length = text.length + 36 := by
  obtain ⟨used, hencryption⟩ := h.encryption
  obtain ⟨ciphertext, hresult, hlength⟩ := hencrypts text (List.mem_singleton_self text)
    (c₀.encryption.draws + sent.length) (c₀.counters username + UInt64.ofNat sent.length)
  obtain ⟨encryption, hencrypt⟩ : ∃ encryption, c.encryption.encryptFor ssl c.myUsername
      username text
      (c.counters username) = (.ok ciphertext, encryption) := by
    refine ⟨_, Prod.ext ?_ rfl⟩
    rw [h.myUsername, h.counter, hencryption]
    exact (encryptFor_used { c₀.encryption with
      draws := c₀.encryption.draws + sent.length } used ..).trans hresult
  obtain ⟨used', hnext⟩ := encryptFor_draws hencrypt
  refine ⟨ciphertext, used', ?_, hresult, hlength⟩
  rw [hencrypt, hnext, hencryption, List.length_append, List.length_singleton, Nat.add_assoc]

/-- What holds of the pairs at every index still does with one more pair at the end. -/
theorem forall_concat_getElem? {α β : Type} {P : Nat → α → β → Prop} {as : List α} {bs : List β}
    (hlength : bs.length = as.length)
    (h : ∀ i a b, as[i]? = some a → bs[i]? = some b → P i a b) {a : α} {b : β}
    (hlast : P as.length a b) :
    ∀ i a' b', (as ++ [a])[i]? = some a' → (bs ++ [b])[i]? = some b' → P i a' b' := by
  intro i a' b' ha hb
  rcases Nat.lt_trichotomy i as.length with hi | rfl | hi
  · rw [List.getElem?_append_left hi] at ha
    rw [List.getElem?_append_left (hlength ▸ hi)] at hb
    exact h i a' b' ha hb
  · rw [List.getElem?_concat_length] at ha
    rw [← hlength, List.getElem?_concat_length] at hb
    rw [← Option.some.inj ha, ← Option.some.inj hb]
    exact hlast
  · rw [List.getElem?_eq_none (by rw [List.length_append, List.length_singleton]; omega)] at ha
    cases ha

/-- **One text.** It is encrypted, put into a message and sent, and then the counter goes up. Each
    of the fields is about one of these. -/
theorem Flushed.send {username text : Bytes} {c₀ : ClientContext} {sent : List Bytes}
    {msgs : List Message} (h : Flushed ssl username c₀ sent msgs c)
    (hencrypts : c₀.encryption.EncryptsFor ssl c₀.myUsername username [text])
    (hsize : compactSize [username, c₀.myUsername] text + 36 < 2 ^ 32) :
    ∃ c' msg, ResponseMessageHandler.sendPendingMessage ssl username ⟨text⟩ c = .ok () c' ∧
      Flushed ssl username c₀ (sent ++ [text]) (msgs ++ [msg]) c' ∧ c'.mq = c.mq := by
  obtain ⟨ciphertext, used, hencrypt, hresult, hlength⟩ := h.encrypts hencrypts
  have hfits : compactSize [username, c.myUsername] ciphertext < 2 ^ 32 := by
    rw [h.myUsername, compactSize_length hlength]
    exact hsize
  obtain ⟨msg, hsend, hcontent, -⟩ := sendPendingMessage_encrypts h.connected hencrypt hfits
  have hpayload : msg.getPayload = ciphertext := congrArg Content.payload hcontent
  have hposts : c₀.Posts ssl username sent.length text msg := by
    refine ⟨?_, ?_⟩
    · rw [hpayload, hcontent, h.myUsername]
    · rw [hpayload]
      exact hresult
  refine ⟨_, msg, hsend, ?_, rfl⟩
  -- left are the counters, what is on the wire, and the number of messages
  refine ⟨h.myUsername, h.connected, h.pendingMessages, ⟨used, rfl⟩, ?_, ?_, ?_, ?_,
    forall_concat_getElem? h.length h.posts hposts⟩
  · rw [List.length_append, List.length_singleton, UInt64.ofNat_add, ← UInt64.add_assoc,
      ← h.counter]
    show (Table.insert _ username _ username).getD 0 = _
    rw [Table.insert_self]
    rfl
  · intro other hother
    show Table.insert _ username _ other = _
    rw [Table.insert_of_ne hother, Table.insert_of_ne hother, h.others other hother]
  · dsimp only
    rw [h.outgoing, List.map_append, List.append_assoc]
    rfl
  · rw [List.length_append, List.length_append, h.length]
    rfl

/-! ## The handler -/

theorem cachePublicKey_wellFormed (hdh : ssl.dhAccepts msg.getPayload = true)
    (hed : ssl.edAccepts (msg.getMeta 2) = true) :
    cachePublicKey ssl (msg.getMeta 1) msg.getPayload (msg.getMeta 2) c
      = .ok () (c.cached ssl msg) := by
  unfold cachePublicKey ClientContext.cached EncryptionService.cachePublicKey
  rw [get_bind_run, hdh, hed]
  rfl

/-- If one of them is not taken the handler ends here, with the queue untouched. -/
theorem cachePublicKey_fails
    (h : ¬(ssl.dhAccepts msg.getPayload = true ∧ ssl.edAccepts (msg.getMeta 2) = true)) :
    ∃ x, cachePublicKey ssl (msg.getMeta 1) msg.getPayload (msg.getMeta 2) c
      = .error x (c.cached ssl msg) := by
  unfold cachePublicKey ClientContext.cached EncryptionService.cachePublicKey
  rw [get_bind_run]
  cases hdh : ssl.dhAccepts msg.getPayload with
  | false => exact ⟨_, rfl⟩
  | true =>
    cases hed : ssl.edAccepts (msg.getMeta 2) with
    | false => exact ⟨_, rfl⟩
    | true => exact absurd ⟨hdh, hed⟩ h

/-- The loop has sent what was queued before `texts`, and these are still to come. This is the
    invariant that `sendPending_loop` asks for. -/
def Flushing (ssl : OpenSSL) (username : Bytes) (c₀ : ClientContext) (texts : List Bytes)
    (c : ClientContext) : Prop :=
  ∃ sent msgs, sent ++ texts = c₀.mq.pending username ∧ Flushed ssl username c₀ sent msgs c

section Loop

variable {username : Bytes} {c₀ : ClientContext}

theorem Flushing.start (hconnected : c₀.connected = true) :
    Flushing ssl username c₀ (c₀.mq.pending username) c₀ := by
  refine ⟨[], [], rfl, ?_⟩
  refine ⟨rfl, hconnected, rfl, ⟨_, rfl⟩, (UInt64.add_zero _).symm, fun _ _ => rfl,
    (List.append_nil _).symm, rfl, ?_⟩
  intro i text msg htext
  cases htext

theorem Flushing.of_mq {texts : List Bytes} (h : Flushing ssl username c₀ texts c)
    (mq : MessageQueue) : Flushing ssl username c₀ texts { c with mq := mq } := by
  obtain ⟨sent, msgs, hall, h⟩ := h
  exact ⟨sent, msgs, hall, ⟨h.myUsername, h.connected, h.pendingMessages, h.encryption,
    h.counter, h.others, h.outgoing, h.length, h.posts⟩⟩

/-- **One turn.** What is assumed of all queued texts is used for the one that is next. -/
theorem Flushing.turn {text : Bytes} {texts : List Bytes}
    (h : Flushing ssl username c₀ (text :: texts) c)
    (hencrypts : c₀.encryption.EncryptsFor ssl c₀.myUsername username (c₀.mq.pending username))
    (hsize : ∀ text ∈ c₀.mq.pending username,
      compactSize [username, c₀.myUsername] text + 36 < 2 ^ 32) :
    ∃ c', ResponseMessageHandler.sendPendingMessage ssl username ⟨text⟩ c = .ok () c' ∧
      Flushing ssl username c₀ texts c' ∧ c'.mq = c.mq := by
  obtain ⟨sent, msgs, hall, hflushed⟩ := h
  have htext : text ∈ c₀.mq.pending username := by
    rw [← hall]
    exact List.mem_append_right _ List.mem_cons_self
  have hone : c₀.encryption.EncryptsFor ssl c₀.myUsername username [text] := by
    intro text' htext'
    rw [List.mem_singleton.mp htext']
    exact hencrypts text htext
  obtain ⟨c', msg, hrun, hc', hmq⟩ := hflushed.send hone (hsize text htext)
  refine ⟨c', hrun, ⟨sent ++ [text], msgs ++ [msg], ?_, hc'⟩, hmq⟩
  rw [← hall, List.append_assoc]
  rfl

end Loop

/-- **The loop**: all that is queued is sent, in order. -/
theorem flush_all {username : Bytes} (c₀ : ClientContext) (hconnected : c₀.connected = true)
    (hencrypts : c₀.encryption.EncryptsFor ssl c₀.myUsername username (c₀.mq.pending username))
    (hsize : ∀ text ∈ c₀.mq.pending username,
      compactSize [username, c₀.myUsername] text + 36 < 2 ^ 32) :
    ∃ c msgs, ResponseMessageHandler.sendPending ssl username 4096 c₀ = .ok () c ∧
      Flushed ssl username c₀ (c₀.mq.pending username) msgs c ∧ c.mq.pending username = [] ∧
      ∀ other ≠ username, c.mq other = c₀.mq other := by
  obtain ⟨c, hrun, ⟨sent, msgs, hall, hflushed⟩, hnil, hothers⟩ := sendPending_loop
    (P := Flushing ssl username c₀) (fun _ _ _ h _ => h.of_mq _)
    (fun _ _ _ h => h.turn hencrypts hsize) (c₀.mq.pending_length_lt username) rfl
    (Flushing.start hconnected)
  rw [List.append_nil] at hall
  subst hall
  exact ⟨c, msgs, hrun, hflushed, hnil, hothers⟩

/-- The handler: the keys, the loop, and the printing of what has waited, which is nothing. -/
theorem handleGetPubkeyResponse_flushes (hconnected : c.connected = true)
    (hpending : c.pendingMessages = .empty)
    (hkeys : ssl.dhAccepts msg.getPayload = true ∧ ssl.edAccepts (msg.getMeta 2) = true)
    (hencrypts : (c.cached ssl msg).encryption.EncryptsFor ssl c.myUsername (msg.getMeta 1)
      (c.mq.pending (msg.getMeta 1)))
    (hsize : ∀ text ∈ c.mq.pending (msg.getMeta 1),
      compactSize [msg.getMeta 1, c.myUsername] text + 36 < 2 ^ 32) :
    ∃ c₁ msgs, ResponseMessageHandler.handleGetPubkeyResponse ssl msg c
        = .ok () { c₁ with pendingMessages := c₁.pendingMessages.erase (msg.getMeta 1) } ∧
      Flushed ssl (msg.getMeta 1) (c.cached ssl msg) (c.mq.pending (msg.getMeta 1)) msgs c₁ ∧
      c₁.mq.pending (msg.getMeta 1) = [] ∧ ∀ other ≠ msg.getMeta 1, c₁.mq other = c.mq other := by
  obtain ⟨c₁, msgs, hloop, hflushed, hnil, hothers⟩ := flush_all (c.cached ssl msg)
    hconnected hencrypts hsize
  have hnothing : c₁.pendingMessages (msg.getMeta 1) = none := by
    rw [hflushed.pendingMessages]
    exact congrFun hpending (msg.getMeta 1)
  refine ⟨c₁, msgs, ?_, hflushed, hnil, hothers⟩
  unfold ResponseMessageHandler.handleGetPubkeyResponse
  exact (bind_ok (cachePublicKey_wellFormed hkeys.1 hkeys.2)).trans ((bind_ok hloop).trans
    (printPendingReceived_nothing hnothing))

/-- **A key response empties the queue of its user.** For a client that is connected, each text
    becomes one private message that is handed to `send_to_server`, in order and at consecutive
    counters, and no other user is concerned. With keys that are not taken, no queue is. -/
theorem key_response_flushes_queue (ssl : OpenSSL) (c : ClientContext) (msg : Message) :
    (c.connected = true → c.pendingMessages = .empty →
      ssl.dhAccepts msg.getPayload = true ∧ ssl.edAccepts (msg.getMeta 2) = true →
      (c.cached ssl msg).encryption.EncryptsFor ssl c.myUsername (msg.getMeta 1)
        (c.mq.pending (msg.getMeta 1)) →
      (∀ text ∈ c.mq.pending (msg.getMeta 1),
        compactSize [msg.getMeta 1, c.myUsername] text + 36 < 2 ^ 32) →
      ∃ (c' : ClientContext) (msgs : List Message),
        ResponseMessageHandler.handleGetPubkeyResponse ssl msg c = .ok () c' ∧
        c'.outgoing = c.outgoing ++ msgs.map Serializer.serialize ∧
        msgs.length = (c.mq.pending (msg.getMeta 1)).length ∧
        (∀ i text m, (c.mq.pending (msg.getMeta 1))[i]? = some text → msgs[i]? = some m →
          (c.cached ssl msg).Posts ssl (msg.getMeta 1) i text m) ∧
        c'.mq.pending (msg.getMeta 1) = [] ∧
        c'.counters (msg.getMeta 1)
          = c.counters (msg.getMeta 1) + UInt64.ofNat (c.mq.pending (msg.getMeta 1)).length ∧
        ∀ other ≠ msg.getMeta 1, c'.mq other = c.mq other ∧
          c'.messagesCounter other = c.messagesCounter other) ∧
    (¬(ssl.dhAccepts msg.getPayload = true ∧ ssl.edAccepts (msg.getMeta 2) = true) →
      ∃ x c', ResponseMessageHandler.handleGetPubkeyResponse ssl msg c = .error x c' ∧
        c'.mq = c.mq) := by
  constructor
  · intro hconnected hpending hkeys hencrypts hsize
    obtain ⟨c₁, msgs, hrun, hflushed, hnil, hothers⟩ :=
      handleGetPubkeyResponse_flushes hconnected hpending hkeys hencrypts hsize
    refine ⟨_, msgs, hrun, hflushed.outgoing, hflushed.length, hflushed.posts, hnil,
      hflushed.counter, ?_⟩
    intro other hother
    exact ⟨hothers other hother, hflushed.others other hother⟩
  · intro hkeys
    obtain ⟨x, hcache⟩ := cachePublicKey_fails (c := c) hkeys
    unfold ResponseMessageHandler.handleGetPubkeyResponse
    exact ⟨x, _, bind_error hcache, rfl⟩

/-- The keys of bob, as the server sends them. -/
def bobsResponse : Message where
  metadata := [[CommandType.getPubkey.toByte], bytes "bob", List.replicate 32 0]
  payload := List.replicate 32 0

/-- A client with one text for bob, whose keys it has not got. -/
def waitingForBob (myUsername text : Bytes) : ClientContext where
  encryption := { dhKey := [1], identityKey := [2], entropy := zeroEntropy }
  mq := MessageQueue.push .empty (bytes "bob") text
  myUsername := myUsername

theorem waitingForBob_pending (myUsername text : Bytes) :
    (waitingForBob myUsername text).mq.pending (bytes "bob") = [text] :=
  MessageQueue.pending_push_eq .empty (bytes "bob") text

theorem clearSSL_encryptsFor {e : EncryptionService} {username key : Bytes}
    (hkey : e.dhKeys username = some key) (hrandom : e.entropy = zeroEntropy) (sender : Bytes)
    (texts : List Bytes) : e.EncryptsFor clearSSL sender username texts := by
  intro text _ draws counter
  unfold EncryptionService.encryptFor
  dsimp only
  rw [hkey, hrandom]
  refine ⟨_, rfl, ?_⟩
  simp [writeU64]
  omega

theorem waitingForBob_encrypts (myUsername text : Bytes) (texts : List Bytes) :
    ((waitingForBob myUsername text).cached clearSSL bobsResponse).encryption.EncryptsFor
      clearSSL myUsername (bytes "bob") texts := by
  have haccepts : clearSSL.dhAccepts bobsResponse.getPayload = true := by decide
  unfold ClientContext.cached
  dsimp only
  rw [cachePublicKey_accepted haccepts]
  have hkey : Table.insert Table.empty (bytes "bob") bobsResponse.getPayload (bytes "bob")
      = some bobsResponse.getPayload := Table.insert_self ..
  exact clearSSL_encryptsFor hkey rfl _ _

theorem waitingForBob_fits {text' : Bytes}
    (h : text' ∈ (waitingForBob (bytes "alice") (bytes "hi")).mq.pending (bytes "bob")) :
    compactSize [bytes "bob", bytes "alice"] text' + 36 < 2 ^ 32 := by
  rw [waitingForBob_pending] at h
  rw [List.mem_singleton.mp h]
  decide

theorem key_response_sends_one_text :
    ∃ (c' : ClientContext) (msgs : List Message),
      ResponseMessageHandler.handleGetPubkeyResponse clearSSL bobsResponse
        (waitingForBob (bytes "alice") (bytes "hi")) = .ok () c' ∧
      c'.outgoing = msgs.map Serializer.serialize ∧ msgs.length = 1 ∧
      c'.mq.pending (bytes "bob") = [] ∧ c'.counters (bytes "bob") = 1 := by
  have hqueue := waitingForBob_pending (bytes "alice") (bytes "hi")
  obtain ⟨c', msgs, hrun, hout, hlength, -, hnil, hcounter, -⟩ :=
    (key_response_flushes_queue clearSSL
    (waitingForBob (bytes "alice") (bytes "hi")) bobsResponse).1 rfl rfl ⟨by decide, by decide⟩
    (waitingForBob_encrypts _ _ _) (fun _ htext => waitingForBob_fits htext)
  refine ⟨c', msgs, hrun, hout, ?_, hnil, ?_⟩
  · rw [hlength]
    exact congrArg List.length hqueue
  · refine hcounter.trans ?_
    exact congrArg (fun texts : List Bytes => 0 + UInt64.ofNat texts.length) hqueue

/-! ## A text that is too large -/

/-- A text that is too large for a message is taken from the queue and ends the loop. The order of
    the source is what loses it: it is off the queue before it is known whether it can be sent. -/
theorem sendPending_too_large {username text ciphertext : Bytes} {texts : List Bytes}
    {encryption : EncryptionService} (hpending : c.mq.pending username = text :: texts)
    (hencrypt : c.encryption.encryptFor ssl c.myUsername username text (c.counters username)
      = (.ok ciphertext, encryption))
    (hsize : ¬compactSize [username, c.myUsername] ciphertext < 2 ^ 32) (turns : Nat) :
    ∃ x c', ResponseMessageHandler.sendPending ssl username (turns + 1) c = .error x c' ∧
      c'.mq.pending username = texts ∧ c'.outgoing = c.outgoing := by
  obtain ⟨mq, hfind, hrest⟩ := c.mq.findPending_cons _ hpending
  have hcounter := counterFor_run username { c with mq := mq }
  have hsealed : encryptFor ssl c.myUsername username text (c.counters username)
      { c with
        mq := mq
        messagesCounter := c.messagesCounter.insert username (c.counters username) }
      = .ok ciphertext { c with
          mq := mq
          messagesCounter := c.messagesCounter.insert username (c.counters username)
          encryption := encryption } := by
    unfold encryptFor
    rw [get_bind_run, hencrypt]
    rfl
  obtain ⟨e, hlarge⟩ := sendMessage_too_large 2 .cipherMessage hsize { c with
    mq := mq
    messagesCounter := c.messagesCounter.insert username (c.counters username)
    encryption := encryption }
  -- by then the text is off the queue
  refine ⟨.thrown e, { c with
    mq := mq
    messagesCounter := c.messagesCounter.insert username (c.counters username)
    encryption := encryption }, ?_, hrest, rfl⟩
  rw [sendPending_some hfind]
  refine bind_error ?_
  unfold ResponseMessageHandler.sendPendingMessage
  rw [get_bind_run]
  exact (bind_ok hcounter).trans ((bind_ok hsealed).trans (bind_error hlarge))

theorem compactSize_name_text (myUsername text : Bytes) :
    compactSize [bytes "bob", myUsername] text = 13 + myUsername.length + text.length := by
  have hbob : (bytes "bob").length = 3 := rfl
  simp only [compactSize, List.map_cons, List.map_nil, List.sum_cons, List.sum_nil, hbob]
  omega

theorem key_response_too_large {myUsername text : Bytes}
    (hsize : ¬compactSize [bytes "bob", myUsername] text + 36 < 2 ^ 32) :
    ∃ x c', ResponseMessageHandler.handleGetPubkeyResponse clearSSL bobsResponse
        (waitingForBob myUsername text) = .error x c' ∧
      c'.mq.pending (bytes "bob") = [] ∧ c'.outgoing = [] := by
  have hcache : cachePublicKey clearSSL (bobsResponse.getMeta 1) bobsResponse.getPayload
      (bobsResponse.getMeta 2) (waitingForBob myUsername text) = .ok () _ :=
    cachePublicKey_wellFormed (by decide) (by decide)
  obtain ⟨ciphertext, hresult, hlength⟩ := waitingForBob_encrypts myUsername text [text] text
    List.mem_cons_self 0 0
  have hlarge : ¬compactSize [bytes "bob", myUsername] ciphertext < 2 ^ 32 := by
    rw [compactSize_length hlength]
    exact hsize
  obtain ⟨x, c', hloop, hnil, hout⟩ := sendPending_too_large
    (c := (waitingForBob myUsername text).cached clearSSL bobsResponse)
    (waitingForBob_pending myUsername text) (Prod.ext hresult rfl) hlarge 4095
  refine ⟨x, c', ?_, hnil, hout⟩
  unfold ResponseMessageHandler.handleGetPubkeyResponse
  exact (bind_ok hcache).trans (bind_error hloop)

/-- A text of 2^31 - 1 bytes by a user whose name has 2^31 - 4 is lost: it is taken from the queue,
    and no message has room for both. -/
theorem key_response_text_lost :
    ∃ x c', ResponseMessageHandler.handleGetPubkeyResponse clearSSL bobsResponse
        (waitingForBob (List.replicate (2 ^ 31 - 4) 97) (List.replicate (2 ^ 31 - 1) 98))
        = .error x c' ∧
      c'.mq.pending (bytes "bob") = [] ∧ c'.outgoing = [] := by
  refine key_response_too_large ?_
  rw [compactSize_name_text, List.length_replicate, List.length_replicate]
  omega

end Messenger
