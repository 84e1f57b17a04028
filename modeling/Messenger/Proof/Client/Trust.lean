import Messenger.Proof.Client.Replay

/-!
# Whose keys a client trusts

Three kinds of messages bring the keys of a user with a signature of one by the other: the
answer to a `GET_PUBKEY`, a private message and a chunk of a file. Each is taken into the
cache before anything else is done with the message, so the cache is a matter of what came
in last and not of what was verified. Only decryption looks at the signature, with the keys
that are in the cache by then, and nothing is taken back when it fails.

So there are two questions. When does a private message that is refused leave the cache as
it was (`rejected_keeps_trust_iff`)? And which runs never encrypt with a key that nobody
has vouched for (`vouched_run_uses_verified_keys`)? The second is an invariant of runs:
every key in the cache, and every key that was used, goes back to a message whose
signature verifies (`EncryptionService.Verified`).

The proof of the second goes through all handlers, most of which neither take keys nor use them
(`MaintainsAt.of_keeps`). Three take them, and two loops use them: the one over the texts that were
waiting for a key, and the one over the chunks of a file. The hard case is taking in a DH key
together with an identity key that is malformed. The DH key is stored before the identity key is
looked at, so it then stands beside an identity key that came in an earlier message, and it is this
one that has to verify the signature (`KeyReceipt.Vouched`).
-/

set_option autoImplicit false

namespace Messenger

open Messenger.Lib

/-! ## A private message that is refused -/

/-- The cached keys and the counters are the same, a missing counter being zero. -/
structure ClientContext.SameTrust (c c' : ClientContext) : Prop where
  dhKeys : c'.encryption.dhKeys = c.encryption.dhKeys
  identityKeys : c'.encryption.identityKeys = c.encryption.identityKeys
  counters : c'.counters = c.counters

/-- The handler of private messages fails on `msg`. -/
def Message.RejectedBy (msg : Message) (ssl : OpenSSL) (c : ClientContext) : Prop :=
  ∃ x c', CipherMessageHandler.showEncryptedMessage ssl (msg.getMeta 1) (msg.getMeta 0)
    (msg.getMeta 2) msg.getPayload (msg.getMeta 3) (msg.getMeta 4) c = .error x c'

/-- The keys in a private message that are well-formed are in the cache already. A malformed
    DH key stops the handler before it looks at the identity key. -/
def Message.BringsNothingNew (msg : Message) (ssl : OpenSSL) (c : ClientContext) : Prop :=
  ssl.dhAccepts (msg.getMeta 2) = true →
    c.encryption.dhKeys (msg.getMeta 1) = some (msg.getMeta 2) ∧
      (ssl.edAccepts (msg.getMeta 3) = true →
        c.encryption.identityKeys (msg.getMeta 1) = some (msg.getMeta 3))

section Rejected

variable {ssl : OpenSSL} {c c' : ClientContext}

/-- Taking in keys changes nothing exactly if those that are taken in were there. -/
theorem cachePublicKey_same_iff {e : EncryptionService} {username pubkey identityKey : Bytes} :
    (e.cachePublicKey ssl username pubkey identityKey).2.dhKeys = e.dhKeys ∧
        (e.cachePublicKey ssl username pubkey identityKey).2.identityKeys = e.identityKeys ↔
      (ssl.dhAccepts pubkey = true → e.dhKeys username = some pubkey ∧
        (ssl.edAccepts identityKey = true → e.identityKeys username = some identityKey)) := by
  cases hdh : ssl.dhAccepts pubkey with
  | false => simp [cachePublicKey_malformed hdh]
  | true =>
    rw [cachePublicKey_accepted hdh]
    cases ssl.edAccepts identityKey <;> simp [Table.insert_eq_self_iff]

/-- Whatever becomes of the message, its keys have gone into the cache first. -/
theorem showEncryptedMessage_encryption (ssl : OpenSSL)
    (sender recipient pubkeyBytes payload identityKey signature : Bytes) (c : ClientContext) :
    (finalState (CipherMessageHandler.showEncryptedMessage ssl sender recipient pubkeyBytes payload
      identityKey signature) c).encryption
        = (c.encryption.cachePublicKey ssl sender pubkeyBytes identityKey).2 := by
  have hcache := cachePublicKey_finalState ssl sender pubkeyBytes identityKey c
  unfold CipherMessageHandler.showEncryptedMessage
  cases hrun : cachePublicKey ssl sender pubkeyBytes identityKey c with
  | error x c₁ =>
    rw [finalState_error hrun] at hcache
    rw [finalState_bind_error hrun, hcache]
  | ok u c₁ =>
    rw [finalState_ok hrun] at hcache
    rw [finalState_bind_ok hrun]
    have hrest : Keeps ClientContext.encryption (do
        let counter ← counterFor sender
        let plaintext ← decryptFor ssl sender recipient payload signature counter
        advanceCounter sender
        uiCallback (privateText sender plaintext)) := by
      refine .bind (.counterFor (fun _ _ => rfl) sender) fun _ => ?_
      refine .bind (.decryptFor _ _ _ _ _) fun _ => ?_
      exact .bind (.modify fun _ => rfl) fun _ => .uiCallback (fun _ _ => rfl) _
    rw [hrest.finalState c₁, hcache]

/-- A failure comes before the counter is advanced. Each of the three steps that can fail keeps the
    counters. -/
theorem showEncryptedMessage_error
    {sender recipient pubkeyBytes payload identityKey signature : Bytes} {x : Failure}
    (h : CipherMessageHandler.showEncryptedMessage ssl sender recipient pubkeyBytes payload
      identityKey signature c = .error x c') : c'.counters = c.counters := by
  rcases bind_eq_error h with hcache | ⟨_, c₁, hcache, h⟩
  · exact (Keeps.cachePublicKey (fun _ _ => rfl) _ _ _).of_error hcache
  have hc₁ : c₁.counters = c.counters :=
    (Keeps.cachePublicKey (fun _ _ => rfl) _ _ _).of_ok hcache
  rcases bind_eq_error h with hcounter | ⟨n, c₂, hcounter, h⟩
  · exact ((counterFor_keeps sender).of_error hcounter).trans hc₁
  have hc₂ : c₂.counters = c.counters := ((counterFor_keeps sender).of_ok hcounter).trans hc₁
  rcases bind_eq_error h with hdecrypt | ⟨plaintext, c₃, -, h⟩
  · exact ((Keeps.decryptFor _ _ _ _ _).of_error hdecrypt).trans hc₂
  · cases h

end Rejected

/-- **When a refused private message leaves the trust of a client alone**: when it brings no
    key that is not in the cache. -/
theorem rejected_keeps_trust_iff (ssl : OpenSSL) (c : ClientContext) (now : UInt64) (raw : Bytes)
    (msg : Message) (hraw : Serializer.deserialize raw = .ok msg)
    (htype : msg.getType = .cipherMessage) (hrejected : msg.RejectedBy ssl { c with now := now }) :
    c.SameTrust (c.step ssl (.received now raw)) ↔ msg.BringsNothingNew ssl c := by
  obtain ⟨x, c', hrun⟩ := hrejected
  have hhandler : ClientMessageDispatcher.handler ssl msg.getType
      = some (CipherMessageHandler.handleIncoming ssl) := by
    rw [htype]
    rfl
  have hstep : c.step ssl (.received now raw) = c' := by
    calc c.step ssl (.received now raw)
        = finalState (ClientMessageDispatcher.dispatch ssl msg) { c with now := now } :=
          received_ok hraw _
      _ = finalState (CipherMessageHandler.handleIncoming ssl msg) { c with now := now } :=
          clientDispatch_of_handler hhandler _
      _ = c' := (finalState_catchWith ..).trans (finalState_error hrun)
  have hencryption := showEncryptedMessage_encryption ssl (msg.getMeta 1) (msg.getMeta 0)
    (msg.getMeta 2) msg.getPayload (msg.getMeta 3) (msg.getMeta 4) { c with now := now }
  rw [finalState_error hrun] at hencryption
  have hcounters : c'.counters = c.counters :=
    showEncryptedMessage_error (c := { c with now := now }) hrun
  unfold Message.BringsNothingNew
  rw [hstep, ← cachePublicKey_same_iff, ← hencryption]
  exact ⟨fun h => ⟨h.dhKeys, h.identityKeys⟩, fun h => ⟨h.1, h.2, hcounters⟩⟩

/-- A private message to alice in the name of bob, with nothing in it but these keys. -/
def letterOfBob (dhKey identityKey : Bytes) : Bytes :=
  [0x03, 0x05] ++ bytes "\x00\x05alice\x00\x03bob" ++ entryBytes dhKey ++ entryBytes identityKey ++
    bytes "\x00\x00\x00\x00\x00\x00"

/-- A client that has not received anything. -/
def newcomer : ClientContext :=
  { encryption := {
      dhKey := bytes "alice"
      identityKey := bytes "alice"
      entropy := zeroEntropy } }

theorem malformed_letter_keeps_trust :
    ∃ msg, Serializer.deserialize (letterOfBob [] []) = .ok msg ∧
      newcomer.SameTrust (newcomer.step clearSSL (.received 1 (letterOfBob [] []))) := by
  refine ⟨_, rfl, (rejected_keeps_trust_iff clearSSL newcomer 1 _ _ rfl rfl ⟨_, _, rfl⟩).mpr ?_⟩
  intro h
  cases h

/-- The message has no ciphertext and is refused. From now on alice encrypts for bob with a key
    that may be anybody's. -/
theorem rejected_letter_replaces_keys :
    let key := List.replicate 32 0x4B
    ∃ msg, Serializer.deserialize (letterOfBob key key) = .ok msg ∧
      msg.RejectedBy clearSSL { newcomer with now := 1 } ∧
      newcomer.encryption.dhKeys (bytes "bob") = none ∧
      (newcomer.step clearSSL (.received 1 (letterOfBob key key))).encryption.dhKeys (bytes "bob")
        = some key :=
  ⟨_, rfl, ⟨_, _, rfl⟩, rfl, rfl⟩

/-! ## The keys that are encrypted with -/

/-- The keys that a message brings for a user, and the signature that comes with them. -/
structure KeyReceipt where
  username : Bytes
  dhKey : Bytes
  identityKey : Bytes
  signature : Bytes
  deriving DecidableEq, Repr

/-- The three kinds of messages that bring keys. -/
def Message.keyReceipt (msg : Message) : Option KeyReceipt :=
  match msg.getType with
  | .response =>
    if (msg.getMeta 0).head?.map CommandType.ofByte = some .getPubkey then
      some ⟨msg.getMeta 1, msg.getPayload, msg.getMeta 2, msg.getMeta 3⟩
    else none
  | .cipherMessage => some ⟨msg.getMeta 1, msg.getMeta 2, msg.getMeta 3, msg.getMeta 4⟩
  | .fileChunk => some ⟨msg.getMeta 2, msg.getMeta 3, msg.getMeta 4, msg.getMeta 5⟩
  | _ => none

/-- What has come in during a run. -/
def keyReceipts (events : List ClientEvent) : List KeyReceipt :=
  events.filterMap fun e => e.message.bind fun (_, msg) => msg.keyReceipt

section

variable (ssl : OpenSSL)

/-- The DH key came with a signature that the identity key verifies. The identity key is the one at
    the moment of use, which need not have come in the same message. -/
def KeyUse.Verified (receipts : List KeyReceipt) (use : KeyUse) : Prop :=
  ∃ id r, use.identityKey = some id ∧ r ∈ receipts ∧ r.username = use.username ∧
    r.dhKey = use.dhKey ∧ ssl.edVerify id use.dhKey r.signature = true

/-- Every key that was encrypted with is verified, and so is every one in the cache. The second is
    what makes the first an invariant. -/
structure EncryptionService.Verified (receipts : List KeyReceipt) (e : EncryptionService) :
    Prop where
  cached : ∀ u dh, e.dhKeys u = some dh → KeyUse.Verified ssl receipts ⟨u, dh, e.identityKeys u⟩
  used : ∀ use ∈ e.used, use.Verified ssl receipts

/-- If the DH key is well-formed, the signature is verified by the identity key that is in the
    cache afterwards: the one that came with it, or if that is malformed the one before. -/
def KeyReceipt.Vouched (r : KeyReceipt) (e : EncryptionService) : Prop :=
  ssl.dhAccepts r.dhKey = true → ∃ id,
    (if ssl.edAccepts r.identityKey then some r.identityKey else e.identityKeys r.username)
        = some id ∧
      ssl.edVerify id r.dhKey r.signature = true

/-- The keys that the client takes from a message. A chunk of no file is not looked at. -/
def ClientContext.takes (c : ClientContext) (msg : Message) : Option KeyReceipt :=
  if msg.getType = .fileChunk ∧ c.pendingFiles (fileKey msg) = none then none else msg.keyReceipt

/-- All keys that are taken in a run are vouched for. -/
def ClientContext.AllVouched : ClientContext → List ClientEvent → Prop
  | _, [] => True
  | c, e :: events =>
    (∀ now msg r, e.message = some (now, msg) → c.takes msg = some r → r.Vouched ssl c.encryption) ∧
      ClientContext.AllVouched (c.step ssl e) events

end

theorem takes_keyReceipt {c : ClientContext} {msg : Message} {r : KeyReceipt}
    (h : c.takes msg = some r) : msg.keyReceipt = some r := by
  unfold ClientContext.takes at h
  split at h
  · cases h
  · exact h

section Verified

variable {ssl : OpenSSL} {receipts receipts' : List KeyReceipt} {e : EncryptionService}

theorem KeyUse.Verified.mono {use : KeyUse} (h : use.Verified ssl receipts)
    (hsub : receipts ⊆ receipts') : use.Verified ssl receipts' := by
  obtain ⟨id, r, hid, hr, hrest⟩ := h
  exact ⟨id, r, hid, hsub hr, hrest⟩

theorem EncryptionService.Verified.mono (h : e.Verified ssl receipts)
    (hsub : receipts ⊆ receipts') : e.Verified ssl receipts' where
  cached u dh hu := (h.cached u dh hu).mono hsub
  used use huse := (h.used use huse).mono hsub

theorem encryptFor_verified (h : e.Verified ssl receipts) (sender username plaintext : Bytes)
    (counter : UInt64) :
    (e.encryptFor ssl sender username plaintext counter).2.Verified ssl receipts := by
  unfold EncryptionService.encryptFor
  cases hkey : e.dhKeys username with
  | none => exact h
  | some dhKey =>
    have hused : ∀ use ∈ e.used ++ [⟨username, dhKey, e.identityKeys username⟩],
        use.Verified ssl receipts := by
      intro use huse
      rcases List.mem_append.mp huse with huse | huse
      · exact h.used use huse
      · obtain rfl := List.mem_singleton.mp huse
        exact h.cached username dhKey hkey
    dsimp only
    split
    · exact ⟨h.cached, hused⟩
    · exact ⟨h.cached, hused⟩

/-- What is taken into the cache replaces the DH key of one user. If the identity key that came with
    it is malformed the old one stays, and `Vouched` is about that one then. -/
theorem cachePublicKey_verified (h : e.Verified ssl receipts) {r : KeyReceipt} (hr : r ∈ receipts)
    (hvouched : r.Vouched ssl e) :
    (e.cachePublicKey ssl r.username r.dhKey r.identityKey).2.Verified ssl receipts := by
  cases hdh : ssl.dhAccepts r.dhKey with
  | false =>
    rw [cachePublicKey_malformed hdh]
    exact h
  | true =>
    obtain ⟨id, hid, hverify⟩ := hvouched hdh
    rw [cachePublicKey_accepted hdh]
    refine ⟨fun u dh hu => ?_, h.used⟩
    dsimp only at hu ⊢
    by_cases hname : u = r.username
    · subst hname
      rw [Table.insert_self] at hu
      cases hu
      refine ⟨id, r, ?_, hr, rfl, rfl, hverify⟩
      rw [← hid]
      split
      · exact Table.insert_self ..
      · rfl
    · rw [Table.insert_of_ne hname] at hu
      obtain ⟨id', r', hid', hrest⟩ := h.cached u dh hu
      refine ⟨id', r', ?_, hrest⟩
      rw [← hid']
      split
      · exact Table.insert_of_ne hname ..
      · rfl

end Verified

/-! ## Runs -/

section Maintains

variable {ssl : OpenSSL} {receipts : List KeyReceipt} {c : ClientContext}

/-- From `c`, the computation leaves the keys verified if they were. -/
abbrev MaintainsAt {α : Type} (ssl : OpenSSL) (receipts : List KeyReceipt) (x : ClientM α)
    (c : ClientContext) : Prop :=
  Respects (fun c c' => c.encryption.Verified ssl receipts → c'.encryption.Verified ssl receipts)
    (fun _ => True) x c

theorem MaintainsAt.of_keeps {α : Type} {x : ClientM α} (h : Keeps ClientContext.encryption x)
    (c : ClientContext) : MaintainsAt ssl receipts x c :=
  (h c).mono fun _ heq hc => heq ▸ hc

theorem MaintainsAt.bind {α β : Type} {x : ClientM α} {f : α → ClientM β}
    (hx : MaintainsAt ssl receipts x c) (hf : ∀ a c, MaintainsAt ssl receipts (f a) c) :
    MaintainsAt ssl receipts (x >>= f) c :=
  Respects.bind hx (fun a c' _ => hf a c') (fun _ h => h) fun _ _ h h' hc => h' (h hc)

theorem MaintainsAt.after {α β : Type} {x : ClientM α} {f : α → ClientM β}
    (hx : Keeps ClientContext.encryption x)
    (hf : ∀ a c', c'.encryption = c.encryption → MaintainsAt ssl receipts (f a) c') :
    MaintainsAt ssl receipts (x >>= f) c :=
  Respects.bind (hx c) hf (fun _ heq hc => heq ▸ hc) fun _ _ heq h hc => h (heq ▸ hc)

theorem MaintainsAt.encryptFor (sender username plaintext : Bytes) (counter : UInt64)
    (c : ClientContext) :
    MaintainsAt ssl receipts (Messenger.encryptFor ssl sender username plaintext counter) c := by
  refine ⟨fun hc => ?_, fun _ => trivial⟩
  rw [encryptFor_finalState]
  exact encryptFor_verified hc sender username plaintext counter

theorem MaintainsAt.cachePublicKey {r : KeyReceipt} (hr : r ∈ receipts)
    (hvouched : r.Vouched ssl c.encryption) :
    MaintainsAt ssl receipts (Messenger.cachePublicKey ssl r.username r.dhKey r.identityKey) c := by
  refine ⟨fun hc => ?_, fun _ => trivial⟩
  rw [cachePublicKey_finalState]
  exact cachePublicKey_verified hc hr hvouched

theorem sendPendingMessage_maintains (username : Bytes) (msgToSend : OutgoingMessage)
    (c : ClientContext) :
    MaintainsAt ssl receipts
      (ResponseMessageHandler.sendPendingMessage ssl username msgToSend) c := by
  refine .get_bind (MaintainsAt.after (.counterFor (fun _ _ => rfl) username) fun n c₁ _ => ?_)
  refine .bind (.encryptFor _ _ _ _ c₁) fun ciphertext c₂ => ?_
  refine .of_keeps (.bind (.sendMessage (fun _ _ => rfl) _ _ _ _) fun _ => ?_) c₂
  exact .modify fun _ => rfl

theorem sendPending_maintains (username : Bytes) (turns : Nat) (c : ClientContext) :
    MaintainsAt ssl receipts (ResponseMessageHandler.sendPending ssl username turns) c := by
  induction turns generalizing c with
  | zero => exact .of_keeps (.pure _) c
  | succ turns ih =>
    refine ⟨fun hc => ?_, fun _ => trivial⟩
    cases hfind : c.mq.findPending username with
    | mk pending mq =>
      cases pending with
      | none =>
        rw [finalState_ok (sendPending_none hfind turns)]
        exact hc
      | some msgToSend =>
        rw [finalState_congr (sendPending_some hfind turns)]
        have hturn := MaintainsAt.bind
          (sendPendingMessage_maintains username msgToSend { c with mq := mq }) fun _ c => ih c
        exact hturn.state hc

theorem sendChunk_maintains (recipient filename chunk : Bytes) (c : ClientContext) :
    MaintainsAt ssl receipts (SendFileCommand.sendChunk ssl recipient filename chunk) c := by
  refine .after (.counterFor (fun _ _ => rfl) recipient) fun n c₁ _ => ?_
  refine .get_bind (MaintainsAt.bind (.encryptFor _ _ _ _ c₁) fun cipherBytes c₂ => ?_)
  refine .of_keeps (.bind (Keeps.modify fun _ => rfl : Keeps _ (advanceCounter recipient)) ?_) c₂
  exact fun _ => .sendMessage (fun _ _ => rfl) _ _ _ _

theorem sendChunks_maintains (recipient filename : Bytes) (chunks : List Bytes)
    (c : ClientContext) :
    MaintainsAt ssl receipts
      (chunks.forM (SendFileCommand.sendChunk ssl recipient filename)) c := by
  induction chunks generalizing c with
  | nil => exact .of_keeps (.pure _) c
  | cons chunk chunks ih =>
    exact .bind (sendChunk_maintains recipient filename chunk c) fun _ c => ih c

theorem sendFile_maintains (recipient filename : Bytes) (c : ClientContext) :
    MaintainsAt ssl receipts (SendFileCommand.executeOnClient ssl recipient filename) c := by
  refine ⟨fun hc => ?_, fun _ => trivial⟩
  cases hfile : c.contentAt filename with
  | none =>
    rw [finalState_ok (sendFile_of_none hfile)]
    exact hc
  | some content =>
    rw [finalState_congr (sendFile_of_some hfile)]
    have hsends : MaintainsAt ssl receipts
        (SendFileCommand.sendContent ssl c.encryption recipient filename content)
        { c with opened := c.opened ++ [c.fileAt filename] } := by
      refine .bind (.of_keeps (.sendMessage (fun _ _ => rfl) _ _ _ _) _) fun _ c => ?_
      refine .bind (sendChunks_maintains recipient filename _ c) fun _ c => ?_
      exact .of_keeps (.sendMessage (fun _ _ => rfl) _ _ _ _) c
    exact hsends.state hc

theorem clientBusDispatch_maintains (msg : Message) (c : ClientContext) :
    MaintainsAt ssl receipts (ClientCommandBus.dispatch ssl msg) c := by
  cases hcmd : msg.clientCommand with
  | none =>
    rw [clientBusDispatch_of_none hcmd]
    exact .of_keeps (.pure _) c
  | some cmd =>
    rw [clientBusDispatch_of_command hcmd]
    by_cases hfile : cmd = .sendfile
    · subst hfile
      exact sendFile_maintains _ _ c
    · exact .of_keeps (.execute (fun _ _ => rfl) (fun _ _ => rfl) (fun _ _ => rfl) (fun _ _ => rfl)
        hfile msg) c

/-- The keys are taken, and everything that was waiting for them is sent. -/
theorem response_maintains {msg : Message} (htype : msg.getType = .response)
    (hvouched : ∀ r, msg.keyReceipt = some r → r ∈ receipts ∧ r.Vouched ssl c.encryption) :
    MaintainsAt ssl receipts (ResponseMessageHandler.handleIncoming ssl msg) c := by
  unfold ResponseMessageHandler.handleIncoming
  cases hmeta : msg.getMeta 0 with
  | nil => exact .of_keeps (.pure _) c
  | cons code rest =>
    dsimp only
    split
    · rename_i hcode
      have hreceipt : msg.keyReceipt
          = some ⟨msg.getMeta 1, msg.getPayload, msg.getMeta 2, msg.getMeta 3⟩ := by
        unfold Message.keyReceipt
        rw [htype]
        dsimp only
        rw [hmeta, List.head?_cons, Option.map_some, hcode, if_pos rfl]
      obtain ⟨hr, hv⟩ := hvouched _ hreceipt
      refine .bind (.cachePublicKey hr hv) fun _ c => ?_
      refine .bind (sendPending_maintains _ 4096 c) fun _ c => ?_
      exact .of_keeps (.printPendingReceived (fun _ _ => rfl) _) c
    · exact .of_keeps (.pure _) c

theorem cipherMessage_maintains {msg : Message} (htype : msg.getType = .cipherMessage)
    (hvouched : ∀ r, msg.keyReceipt = some r → r ∈ receipts ∧ r.Vouched ssl c.encryption) :
    MaintainsAt ssl receipts (CipherMessageHandler.handleIncoming ssl msg) c := by
  have hreceipt : msg.keyReceipt
      = some ⟨msg.getMeta 1, msg.getMeta 2, msg.getMeta 3, msg.getMeta 4⟩ := by
    unfold Message.keyReceipt
    rw [htype]
  obtain ⟨hr, hv⟩ := hvouched _ hreceipt
  refine ⟨fun hc => ?_, fun _ => trivial⟩
  rw [CipherMessageHandler.handleIncoming, CipherMessageHandler.processEncryptedMessage,
    finalState_catchWith, showEncryptedMessage_encryption]
  exact cachePublicKey_verified hc hr hv

/-- A chunk brings keys if its file is being received. Otherwise they are not looked at, and need
    not be vouched for. -/
theorem fileChunk_maintains {msg : Message} (htype : msg.getType = .fileChunk)
    (hvouched : ∀ r, c.takes msg = some r → r ∈ receipts ∧ r.Vouched ssl c.encryption) :
    MaintainsAt ssl receipts (ClientFileChunkHandler.handleIncoming ssl msg) c := by
  refine .get_bind ?_
  dsimp only
  split
  · exact .pure _ fun hc => hc
  · rename_i file hfile
    have hreceipt : c.takes msg
        = some ⟨msg.getMeta 2, msg.getMeta 3, msg.getMeta 4, msg.getMeta 5⟩ := by
      unfold ClientContext.takes Message.keyReceipt
      rw [if_neg (by simp [hfile]), htype]
    obtain ⟨hr, hv⟩ := hvouched _ hreceipt
    refine MaintainsAt.after (.counterFor (fun _ _ => rfl) _) fun n c₁ hc₁ => ?_
    rw [← hc₁] at hv
    refine .bind (.cachePublicKey hr hv) fun _ c => .of_keeps ?_ c
    exact .bind (.decryptFor _ _ _ _ _) fun _ => .modify fun _ => rfl

/-- All handlers. Three of them take in keys, and only for a chunk does it depend on the context
    whether they do. -/
theorem handler_maintains {msg : Message} {handle : Message → ClientM Unit}
    (h : ClientMessageDispatcher.handler ssl msg.getType = some handle)
    (hvouched : ∀ r, c.takes msg = some r → r ∈ receipts ∧ r.Vouched ssl c.encryption) :
    MaintainsAt ssl receipts (handle msg) c := by
  have htakes : msg.getType ≠ .fileChunk → c.takes msg = msg.keyReceipt := fun hne => by
    unfold ClientContext.takes
    rw [if_neg fun h => hne h.1]
  unfold ClientMessageDispatcher.handler at h
  split at h
  · cases h
    exact .of_keeps (.uiCallback (fun _ _ => rfl) _) c
  · cases h
    exact clientBusDispatch_maintains msg c
  · cases h
    rename_i htype
    rw [htakes (by rw [htype]; decide)] at hvouched
    exact response_maintains htype hvouched
  · cases h
    rename_i htype
    rw [htakes (by rw [htype]; decide)] at hvouched
    exact cipherMessage_maintains htype hvouched
  · cases h
    exact .of_keeps (.fileStart (fun _ _ _ => rfl) msg) c
  · cases h
    rename_i htype
    exact fileChunk_maintains htype hvouched
  · cases h
    exact .of_keeps (.fileEnd (fun _ _ _ => rfl) msg) c
  · cases h

/-- **One event leaves the keys verified**, if those that it brings are vouched for. -/
theorem step_verified (hc : c.encryption.Verified ssl receipts) (e : ClientEvent)
    (hvouched : ∀ now msg r, e.message = some (now, msg) → c.takes msg = some r →
      r ∈ receipts ∧ r.Vouched ssl c.encryption) :
    (c.step ssl e).encryption.Verified ssl receipts := by
  cases hmsg : e.message with
  | none =>
    have hsame : (c.step ssl e).encryption = c.encryption :=
      step_of_no_message (fun _ _ => rfl) (fun _ _ => rfl) hmsg c
    rw [hsame]
    exact hc
  | some event =>
    obtain ⟨now, msg⟩ := event
    rw [step_of_message hmsg]
    cases hhandler : ClientMessageDispatcher.handler ssl msg.getType with
    | none =>
      rw [clientDispatch_unhandled hhandler]
      exact hc
    | some handle =>
      rw [clientDispatch_of_handler hhandler]
      have hmaintains : MaintainsAt ssl receipts (handle msg) { c with now := now } :=
        handler_maintains hhandler fun r hr => hvouched now msg r hmsg hr
      exact hmaintains.state hc

/-- **A run.** By induction on the events; the receipts grow with them. -/
theorem run_verified (hc : c.encryption.Verified ssl receipts) {events : List ClientEvent}
    (hvouched : c.AllVouched ssl events) :
    (c.run ssl events).encryption.Verified ssl (receipts ++ keyReceipts events) := by
  induction events generalizing c receipts with
  | nil => exact hc.mono (List.subset_append_left _ _)
  | cons e events ih =>
    obtain ⟨hnow, hlater⟩ := hvouched
    -- the keys that the event brings count as received from now on
    have hstep : (c.step ssl e).encryption.Verified ssl (receipts ++ keyReceipts [e]) := by
      refine step_verified (hc.mono (List.subset_append_left _ _)) e fun now msg r hmsg hr => ?_
      refine ⟨List.mem_append_right _ ?_, hnow now msg r hmsg hr⟩
      simp [keyReceipts, hmsg, takes_keyReceipt hr]
    have hcons : keyReceipts (e :: events) = keyReceipts [e] ++ keyReceipts events :=
      List.filterMap_append (l := [e])
    rw [hcons, ← List.append_assoc]
    exact ih hstep hlater

end Maintains

theorem ClientContext.AllVouched.of_append {ssl : OpenSSL} {c : ClientContext}
    {before after : List ClientEvent} (h : c.AllVouched ssl (before ++ after)) :
    c.AllVouched ssl before := by
  induction before generalizing c with
  | nil => trivial
  | cons e before ih => exact ⟨h.1, ih h.2⟩

/-- **Which runs encrypt with verified keys only**: those in which every DH key that is taken in
    is signed under the identity key that is cached with it. At every moment of such a run, all
    keys that have been encrypted with came with a signature that the identity key of the
    moment of use verifies. -/
theorem vouched_run_uses_verified_keys (ssl : OpenSSL) (c : ClientContext)
    (hcache : c.encryption.dhKeys = .empty) (hused : c.encryption.used = [])
    (events : List ClientEvent) (hvouched : c.AllVouched ssl events) :
    ∀ before, before <+: events → ∀ use ∈ (c.run ssl before).encryption.used,
      use.Verified ssl (keyReceipts before) := by
  rintro before ⟨after, rfl⟩
  have hstart : c.encryption.Verified ssl [] := by
    constructor
    · intro u dh hu
      rw [hcache] at hu
      cases hu
    · intro use huse
      rw [hused] at huse
      cases huse
  exact (run_verified hstart hvouched.of_append).used

/-- The answer to a `GET_PUBKEY` for bob, with these keys and this signature. -/
def keyOfBob (key signature : Bytes) : Bytes :=
  [0x04, 0x04] ++ entryBytes [CommandType.getPubkey.toByte] ++ entryBytes (bytes "bob") ++
    entryBytes key ++ entryBytes signature ++ payloadBytes key

theorem signed_run_uses_verified_keys :
    let key := List.replicate 32 0x4B
    let signature := List.replicate 64 0
    let events := [.typed 1 (bytes "/pmess bob hi"), .received 2 (keyOfBob key signature)]
    (newcomer.run clearSSL events).encryption.used.length = 1 ∧
      ∀ use ∈ (newcomer.run clearSSL events).encryption.used,
        use.Verified clearSSL (keyReceipts events) := by
  intro key signature events
  refine ⟨by decide +kernel, vouched_run_uses_verified_keys clearSSL newcomer rfl rfl events
    ?_ events
    (List.prefix_refl _)⟩
  refine ⟨fun now msg r hmsg hr => ?_, fun now msg r hmsg hr => ?_, trivial⟩
  · cases hmsg
    cases takes_keyReceipt hr
  · have hreceipt : keyReceipts [.received 2 (keyOfBob key signature)]
        = [⟨bytes "bob", key, key, signature⟩] := by decide +kernel
    simp only [keyReceipts, List.filterMap_cons, hmsg, Option.bind_some, takes_keyReceipt hr,
      List.filterMap_nil, List.cons.injEq, and_true] at hreceipt
    subst hreceipt
    exact fun _ => ⟨key, if_pos rfl, rfl⟩

/-- As `clearSSL`, but there is one signature only. -/
def strictSSL : OpenSSL :=
  { clearSSL with edVerify := fun _ _ signature => signature = List.replicate 64 0 }

/-- A text is waiting for the key of bob, and the server, or whoever is in its place, makes one
    up. The text is encrypted with it. -/
theorem forged_key_is_used :
    let events := [.typed 1 (bytes "/pmess bob hi"),
      .received 2 (keyOfBob (List.replicate 32 0x4B) (bytes "no signature"))]
    let c := newcomer.run strictSSL events
    c.encryption.used = [⟨bytes "bob", List.replicate 32 0x4B, some (List.replicate 32 0x4B)⟩] ∧
      c.outgoing.length = 2 ∧
        ∀ use ∈ c.encryption.used, ¬use.Verified strictSSL (keyReceipts events) := by
  intro events c
  have hused : c.encryption.used
      = [⟨bytes "bob", List.replicate 32 0x4B, some (List.replicate 32 0x4B)⟩] := by decide +kernel
  refine ⟨hused, by decide +kernel, ?_⟩
  rintro use huse ⟨id, r, hid, hr, -, -, hverify⟩
  have hreceipts : keyReceipts events = [⟨bytes "bob", List.replicate 32 0x4B,
    List.replicate 32 0x4B, bytes "no signature"⟩] := rfl
  rw [hreceipts] at hr
  obtain rfl := List.mem_singleton.mp hr
  cases hverify

end Messenger
