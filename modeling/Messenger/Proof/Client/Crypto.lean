import Messenger.Proof.Wire.Fields
import Messenger.Spec.Conversation

/-!
# What is encrypted is decrypted, at the same counter

The layout of a ciphertext is taken apart as it was put together, so a ciphertext made at
counter `n` opens at `n` and at no other counter (`encrypt_sealed`). Two clients that hold
each other's keys derive one key, whichever of them encrypts.

OpenSSL's functions are parameters, and `OpenSSL.Correct` is what is assumed of them: that each
operation undoes its counterpart. That they hide anything is assumed nowhere. `clearSSL` is an
instance, so that the assumptions are not contradictory.

Two layers are to be told apart. A ciphertext of `encrypt` is a nonce, a counter, the encrypted
text and a tag, and the counter is compared before anything is decrypted. Here the work is in
finding the parts again, from both ends, as only the text has no fixed length. Above it,
`encrypt_for` and `decrypt_for` look up the keys of the other user, check a signature and derive a
key for the pair. That both users derive the same key is what `dh_agrees` assumes of OpenSSL, and
for the salt it follows from the order in which the two names are put.

The lemmas about failures say no more than that all failures are exceptions. They are used wherever
a dispatcher has to catch whatever comes.
-/

set_option autoImplicit false

namespace Messenger

open Messenger.Lib

/-- `ciphertext` was made of `plaintext` at the counter `n`. It opens there and is refused
    everywhere else, the counter can be read off it, and its length tells that of the text. -/
structure Sealed (ssl : OpenSSL) (key : Bytes) (n : UInt64) (plaintext ciphertext : Bytes) :
    Prop where
  opens : AESGCMEncryptor.decrypt ssl key ciphertext n = .ok plaintext
  refuses : ∀ m, n ≠ m → AESGCMEncryptor.decrypt ssl key ciphertext m
    = .error (runtimeError "Replay attack detected or counter mismatch")
  counter : readU64 ciphertext 12 = .ok n
  length : ciphertext.length = plaintext.length + 36

/-- The counter stands behind the nonce, as eight bytes. -/
theorem readU64_counter (iv : Iv) (n : UInt64) (rest : Bytes) :
    readU64 (iv.val ++ (writeU64 [] n ++ rest)) 12 = .ok n := by
  have hlen : (writeU64 [] n).length = 8 := by simp [writeU64]
  have hread := readU64_append iv.val (writeU64 [] n) rest hlen
  rw [iv.property, writeU64_eq, List.nil_append, leValue_leBytes] at hread
  rw [writeU64_eq, List.nil_append, hread, show 256 ^ 8 = 2 ^ 64 from rfl,
    Nat.mod_eq_of_lt n.toNat_lt, UInt64.ofNat_toNat]

variable {ssl : OpenSSL}

/-- The parts of a ciphertext are found where they were put: nonce, counter, body and tag. All but
    the body have a fixed length, so the body is found from both ends. -/
theorem ciphertext_parts (iv : Iv) (aad body : Bytes) (tag : Tag) (haad : aad.length = 8) :
    let input := iv.val ++ (aad ++ (body ++ tag.val))
    input.take 12 = iv.val ∧ (input.drop 12).take 8 = aad ∧
      (input.drop 20).take (input.length - 12 - 8 - 16) = body ∧
      input.drop (input.length - 16) = tag.val := by
  intro input
  have hlen : input.length = 36 + body.length := by
    simp only [input, List.length_append, iv.property, haad, tag.property]
    omega
  have hrest : input.drop 12 = aad ++ (body ++ tag.val) := List.drop_left' iv.property
  have htail : input.drop 20 = body ++ tag.val := by
    rw [show 20 = 12 + 8 from rfl, ← List.drop_drop, hrest]
    exact List.drop_left' haad
  refine ⟨List.take_left' iv.property, ?_, ?_, ?_⟩
  · rw [hrest]
    exact List.take_left' haad
  · rw [htail, hlen]
    exact List.take_left' (by omega)
  · rw [hlen, show 36 + body.length - 16 = 20 + body.length by omega, ← List.drop_drop, htail]
    exact List.drop_left' rfl

/-- **A ciphertext opens at its own counter**, and only there. For another counter the refusal comes
    before the cipher is asked. -/
theorem encrypt_sealed (hssl : ssl.Correct) (iv : Iv) (key plaintext : Bytes) (n : UInt64) :
    ∃ ciphertext, AESGCMEncryptor.encrypt ssl (some iv) key plaintext n = .ok ciphertext ∧
      Sealed ssl key n plaintext ciphertext := by
  obtain ⟨body, tag, hseal, hlength, hopen⟩ := hssl.gcm_seals key iv (writeU64 [] n) plaintext
  have haad : (writeU64 [] n).length = 8 := by simp [writeU64]
  obtain ⟨hiv, hcounterBytes, hbody, htag⟩ := ciphertext_parts iv (writeU64 [] n) body tag haad
  refine ⟨iv.val ++ (writeU64 [] n ++ (body ++ tag.val)), ?_, ?_⟩
  · unfold AESGCMEncryptor.encrypt
    simp [hseal]
  · have hlen : (iv.val ++ (writeU64 [] n ++ (body ++ tag.val))).length
        = plaintext.length + 36 := by
      simp only [List.length_append, iv.property, haad, tag.property, hlength]
      omega
    have hcounter := readU64_counter iv n (body ++ tag.val)
    refine ⟨?_, ?_, hcounter, hlen⟩
    · unfold AESGCMEncryptor.decrypt
      rw [dif_neg (by omega), hcounter]
      simp only [ok_bind, ne_eq, not_true_eq_false, if_false, hiv, hcounterBytes, hbody, htag,
        Subtype.coe_eta, hopen]
      rfl
    · intro m hm
      unfold AESGCMEncryptor.decrypt
      rw [dif_neg (by omega), hcounter]
      exact if_pos hm

/-! ## How the service fails -/

/-- How the operations can fail. Each lemma goes through the places where the source throws; the
    point of them is that a dispatcher can catch whatever comes out. -/
theorem cachePublicKey_isThrown {e : EncryptionService} {username pubkey identityKey : Bytes}
    {x : Failure} (h : (e.cachePublicKey ssl username pubkey identityKey).1 = .error x) :
    x.IsThrown := by
  unfold EncryptionService.cachePublicKey at h
  split at h
  · cases h
    exact isThrown_runtimeError _
  · dsimp only at h
    split at h
    · cases h
      exact isThrown_runtimeError _
    · cases h

theorem deriveForMessaging_isThrown {secret sender receiver : Bytes} {purpose : String}
    {x : Failure} (h : HKDF.deriveForMessaging ssl secret sender receiver purpose = .error x) :
    x.IsThrown := by
  unfold HKDF.deriveForMessaging HKDF.derive at h
  split at h
  · cases h
  · cases h
    exact isThrown_runtimeError _

theorem encrypt_isThrown {iv : Option Iv} {key plaintext : Bytes} {counter : UInt64} {x : Failure}
    (h : AESGCMEncryptor.encrypt ssl iv key plaintext counter = .error x) : x.IsThrown := by
  unfold AESGCMEncryptor.encrypt at h
  split at h
  · cases h
    exact isThrown_runtimeError _
  · dsimp only at h
    split at h
    · cases h
      exact isThrown_runtimeError _
    · cases h

/-- What can go wrong is that there are no keys for the recipient, or that OpenSSL refuses; both are
    thrown. -/
theorem encryptFor_isThrown {e : EncryptionService} {sender username plaintext : Bytes}
    {counter : UInt64} {x : Failure}
    (h : (e.encryptFor ssl sender username plaintext counter).1 = .error x) : x.IsThrown := by
  unfold EncryptionService.encryptFor at h
  split at h
  · cases h
    trivial
  · dsimp only at h
    split at h
    · rename_i hderive
      cases h
      exact deriveForMessaging_isThrown hderive
    · exact encrypt_isThrown h

/-- The length is checked before the counter is read, so the read does not fail. -/
theorem decrypt_isThrown {key input : Bytes} {counter : UInt64} {x : Failure}
    (h : AESGCMEncryptor.decrypt ssl key input counter = .error x) : x.IsThrown := by
  unfold AESGCMEncryptor.decrypt at h
  split at h
  · cases h
    exact isThrown_runtimeError _
  · rename_i hlength
    obtain ⟨received, hread⟩ := readU64_ok (show 12 + 8 ≤ input.length by omega)
    rw [hread, ok_bind] at h
    split at h
    · cases h
      exact isThrown_runtimeError _
    · dsimp only at h
      split at h
      · cases h
      · cases h
        exact isThrown_runtimeError _

/-- The failures in the order in which they can occur: no DH key of the sender, no identity key, a
    signature that does not verify, no derived key, and those of the cipher. -/
theorem decryptFor_isThrown {e : EncryptionService} {sender username ciphertext signature : Bytes}
    {counter : UInt64} {x : Failure}
    (h : e.decryptFor ssl sender username ciphertext signature counter = .error x) :
    x.IsThrown := by
  unfold EncryptionService.decryptFor at h
  cases hkey : e.dhKeys sender with
  | none =>
    rw [hkey] at h
    cases h
    trivial
  | some dhKey =>
    rw [hkey] at h
    dsimp only at h
    cases hidentity : e.identityKeys sender with
    | none =>
      rw [hidentity] at h
      cases h
      exact isThrown_runtimeError _
    | some identityKey =>
      rw [hidentity, EncryptionService.verify, ok_bind] at h
      split at h
      · cases h
        exact isThrown_runtimeError _
      · rcases bind_error_inv h with hderive | ⟨key, -, hdecrypt⟩
        · exact deriveForMessaging_isThrown hderive
        · exact decrypt_isThrown hdecrypt

/-- What opens at a counter has that counter in it, whoever made it. -/
theorem decrypt_counter {key input plaintext : Bytes} {n : UInt64}
    (h : AESGCMEncryptor.decrypt ssl key input n = .ok plaintext) : readU64 input 12 = .ok n := by
  unfold AESGCMEncryptor.decrypt at h
  split at h
  · cases h
  · obtain ⟨m, hread, h⟩ := bind_ok_inv h
    by_cases hm : m = n
    · rw [hread, hm]
    · rw [if_pos hm] at h
      cases h

/-- The same with the keys looked up: all that comes before the cipher can only refuse. -/
theorem decryptFor_counter {e : EncryptionService} {sender username ciphertext signature : Bytes}
    {n : UInt64} {plaintext : Bytes}
    (h : e.decryptFor ssl sender username ciphertext signature n = .ok plaintext) :
    readU64 ciphertext 12 = .ok n := by
  unfold EncryptionService.decryptFor at h
  cases hkey : e.dhKeys sender with
  | none =>
    rw [hkey] at h
    cases h
  | some dhKey =>
    rw [hkey] at h
    dsimp only at h
    obtain ⟨verified, -, h⟩ := bind_ok_inv h
    split at h
    · cases h
    · obtain ⟨key, -, hdecrypt⟩ := bind_ok_inv h
      exact decrypt_counter hdecrypt

/-! ## Between two clients -/

/-- `b` can read `ciphertext`, from `a` and made at the counter `n`, as `plaintext`. The key is the
    one that `a` derives; that `b` derives the same is `decryptFor_sealed`. -/
def Account.SealedFor (ssl : OpenSSL) (a b : Account) (n : UInt64) (plaintext ciphertext : Bytes) :
    Prop :=
  ∃ key, HKDF.deriveForMessaging ssl (ssl.dhDerive a.dhKey (b.dhPublic ssl)) a.name b.name
    "encryption" = .ok key ∧ Sealed ssl key n plaintext ciphertext

variable {a b : Account} {e : EncryptionService}

theorem Account.SealedFor.length {n : UInt64} {text ciphertext : Bytes}
    (h : a.SealedFor ssl b n text ciphertext) : ciphertext.length = text.length + 36 := by
  obtain ⟨key, -, hsealed⟩ := h
  exact hsealed.length

theorem Account.SealedFor.counter {n : UInt64} {text ciphertext : Bytes}
    (h : a.SealedFor ssl b n text ciphertext) : readU64 ciphertext 12 = .ok n := by
  obtain ⟨key, -, hsealed⟩ := h
  exact hsealed.counter

theorem Account.dhPublic_length (hssl : ssl.Correct) (a : Account) :
    (a.dhPublic ssl).length = 32 := hssl.dh_length _

theorem Account.edPublic_length (hssl : ssl.Correct) (a : Account) :
    (a.edPublic ssl).length = 32 := hssl.ed_length _

theorem Account.signature_length (hssl : ssl.Correct) (a : Account) :
    (a.signature ssl).length = 64 := hssl.signature_length _ _

theorem EncryptionService.IsOf.getDHBytes (h : e.IsOf a) : e.getDHBytes ssl = a.dhPublic ssl :=
  congrArg ssl.dhPublic h.dhKey

theorem EncryptionService.IsOf.getIdentityBytes (h : e.IsOf a) :
    e.getIdentityBytes ssl = a.edPublic ssl :=
  congrArg ssl.edPublic h.identityKey

theorem EncryptionService.IsOf.sign (h : e.IsOf a) : e.sign ssl = a.signature ssl := by
  unfold EncryptionService.sign Account.signature
  rw [h.identityKey, h.dhKey]
  rfl

/-- After taking in the keys of `b` a user has them, and is who they were. -/
theorem cachePublicKey_holds (hssl : ssl.Correct) (h : e.IsOf a) (b : Account) :
    ∃ e', e.cachePublicKey ssl b.name (b.dhPublic ssl) (b.edPublic ssl) = (.ok (), e') ∧
      e'.IsOf a ∧ e'.Holds ssl b := by
  have hdh : ssl.dhAccepts (b.dhPublic ssl) = true := hssl.dh_accepts _
  have hed : ssl.edAccepts (b.edPublic ssl) = true := hssl.ed_accepts _
  unfold EncryptionService.cachePublicKey
  rw [hdh, hed]
  refine ⟨_, rfl, ⟨h.dhKey, h.identityKey, h.entropy⟩, ⟨?_, ?_⟩⟩
  · exact Table.insert_self ..
  · exact Table.insert_self ..

/-- All that it takes to encrypt: the own key, the other's, and a nonce. The service has used one
    nonce more and one key more afterwards, and is otherwise the same. -/
theorem encryptFor_nonce (hssl : ssl.Correct) (hkey : e.dhKey = a.dhKey) (hb : e.Holds ssl b)
    {iv : Iv} (hiv : e.entropy e.draws = some iv) (plaintext : Bytes) (n : UInt64) :
    ∃ ciphertext, e.encryptFor ssl a.name b.name plaintext n = (.ok ciphertext, { e with
        draws := e.draws + 1
        used := e.used ++ [⟨b.name, b.dhPublic ssl, e.identityKeys b.name⟩] }) ∧
      a.SealedFor ssl b n plaintext ciphertext := by
  have hsecret : ssl.dhDerive a.dhKey (b.dhPublic ssl) ≠ [] := hssl.dh_derives _ _
  obtain ⟨key, hderived⟩ := hssl.hkdf_derives _ (HKDF.messagingSalt a.name b.name)
    (bytes "messaging-key-" ++ bytes "encryption") hsecret
  have hderive : HKDF.deriveForMessaging ssl (ssl.dhDerive a.dhKey (b.dhPublic ssl)) a.name b.name
      "encryption" = .ok key := by
    unfold HKDF.deriveForMessaging HKDF.derive
    rw [hderived]
  obtain ⟨ciphertext, hencrypt, hsealed⟩ := encrypt_sealed hssl iv key plaintext n
  refine ⟨ciphertext, ?_, key, hderive, hsealed⟩
  unfold EncryptionService.encryptFor
  rw [hb.dhKey]
  dsimp only
  rw [hkey, hiv]
  simp only [hderive, hencrypt]

/-- With a source of nonces that never fails, as `IsOf` has it. -/
theorem encryptFor_sealed (hssl : ssl.Correct) (h : e.IsOf a) (hb : e.Holds ssl b)
    (plaintext : Bytes) (n : UInt64) :
    ∃ ciphertext e', e.encryptFor ssl a.name b.name plaintext n = (.ok ciphertext, e') ∧
      e'.IsOf a ∧ e'.Holds ssl b ∧ a.SealedFor ssl b n plaintext ciphertext := by
  obtain ⟨iv, hiv⟩ := h.entropy e.draws
  obtain ⟨ciphertext, hencrypt, hsealed⟩ := encryptFor_nonce hssl h.dhKey hb hiv plaintext n
  exact ⟨ciphertext, _, hencrypt, ⟨h.dhKey, h.identityKey, h.entropy⟩,
    ⟨hb.dhKey, hb.identityKey⟩, hsealed⟩

/-- **The receiver derives the sender's key**, so the counter decides. -/
theorem decryptFor_sealed (hssl : ssl.Correct) (hkey : e.dhKey = b.dhKey) (ha : e.Holds ssl a)
    {n m : UInt64}
    {plaintext ciphertext : Bytes} (hsealed : a.SealedFor ssl b n plaintext ciphertext) :
    e.decryptFor ssl a.name b.name ciphertext (a.signature ssl) m =
      if n = m then .ok plaintext
      else .error (runtimeError "Replay attack detected or counter mismatch") := by
  obtain ⟨key, hderive, hsealed⟩ := hsealed
  have hverify : ssl.edVerify (a.edPublic ssl) (a.dhPublic ssl) (a.signature ssl) = true :=
    hssl.ed_verifies _ _
  -- both sides give the names in the sender's order, so only the secrets have to agree
  have hagree : ssl.dhDerive b.dhKey (a.dhPublic ssl) = ssl.dhDerive a.dhKey (b.dhPublic ssl) :=
    hssl.dh_agrees _ _
  unfold EncryptionService.decryptFor EncryptionService.verify
  rw [ha.dhKey, ha.identityKey, hkey]
  simp only [hverify, ok_bind, Bool.not_true, Bool.false_eq_true, if_false, hagree, hderive]
  by_cases heq : n = m
  · subst heq
    rw [if_pos rfl, hsealed.opens]
  · rw [if_neg heq, hsealed.refuses m heq]

/-- What is too short to have all its parts is refused at once. -/
theorem decrypt_short {key input : Bytes} (h : input.length < 36) (n : UInt64) :
    AESGCMEncryptor.decrypt ssl key input n = .error (runtimeError "Ciphertext too short") :=
  dif_pos h

variable {c : ClientContext}

theorem cachePublicKey_ok (hssl : ssl.Correct) (hc : c.encryption.IsOf a) (b : Account) :
    ∃ encryption, cachePublicKey ssl b.name (b.dhPublic ssl) (b.edPublic ssl) c
        = .ok () { c with encryption := encryption } ∧
      encryption.IsOf a ∧ encryption.Holds ssl b := by
  obtain ⟨encryption, hcache, hof, hholds⟩ := cachePublicKey_holds hssl hc b
  refine ⟨encryption, ?_, hof, hholds⟩
  unfold cachePublicKey
  rw [get_bind_run, hcache]
  rfl

theorem encryptFor_ok (hssl : ssl.Correct) (hc : c.encryption.IsOf a)
    (hkeys : c.encryption.Holds ssl b) (text : Bytes) (n : UInt64) :
    ∃ ciphertext encryption, encryptFor ssl a.name b.name text n c
        = .ok ciphertext { c with encryption := encryption } ∧
      encryption.IsOf a ∧ encryption.Holds ssl b ∧ a.SealedFor ssl b n text ciphertext := by
  obtain ⟨ciphertext, encryption, hencrypt, hof, hholds, hsealed⟩ :=
    encryptFor_sealed hssl hc hkeys text n
  refine ⟨ciphertext, encryption, ?_, hof, hholds, hsealed⟩
  unfold encryptFor
  rw [get_bind_run, hencrypt]
  rfl

theorem decryptFor_eq (hssl : ssl.Correct) (hc : c.encryption.IsOf b)
    (hkeys : c.encryption.Holds ssl a) {n : UInt64} {plaintext ciphertext : Bytes}
    (hsealed : a.SealedFor ssl b n plaintext ciphertext) (m : UInt64) :
    decryptFor ssl a.name b.name ciphertext (a.signature ssl) m c =
      if n = m then .ok plaintext c
      else .error (runtimeError "Replay attack detected or counter mismatch") c := by
  unfold decryptFor
  rw [get_bind_run, decryptFor_sealed hssl hc.dhKey hkeys hsealed]
  split <;> rfl

/-! What the two operations leave, whatever they are given. -/

theorem cachePublicKey_finalState (ssl : OpenSSL) (username pubkey identityKey : Bytes)
    (c : ClientContext) :
    finalState (cachePublicKey ssl username pubkey identityKey) c
      = { c with
          encryption := (c.encryption.cachePublicKey ssl username pubkey identityKey).2 } := by
  unfold cachePublicKey
  rw [finalState_get_bind]
  cases c.encryption.cachePublicKey ssl username pubkey identityKey with
  | mk result encryption => cases result <;> rfl

theorem encryptFor_finalState (ssl : OpenSSL) (sender username plaintext : Bytes) (counter : UInt64)
    (c : ClientContext) :
    finalState (encryptFor ssl sender username plaintext counter) c
      = { c with
          encryption := (c.encryption.encryptFor ssl sender username plaintext counter).2 } := by
  unfold encryptFor
  rw [finalState_get_bind]
  cases c.encryption.encryptFor ssl sender username plaintext counter with
  | mk result encryption => cases result <;> rfl

theorem cachePublicKey_malformed {username pubkey identityKey : Bytes}
    (h : ssl.dhAccepts pubkey = false) :
    (e.cachePublicKey ssl username pubkey identityKey).2 = e := by
  unfold EncryptionService.cachePublicKey
  rw [h]
  rfl

/-- The DH key is stored before the identity key is looked at. So if the latter is refused, the new
    DH key stands beside the old identity key. -/
theorem cachePublicKey_accepted {username pubkey identityKey : Bytes}
    (h : ssl.dhAccepts pubkey = true) :
    (e.cachePublicKey ssl username pubkey identityKey).2 = { e with
      dhKeys := e.dhKeys.insert username pubkey
      identityKeys := if ssl.edAccepts identityKey then e.identityKeys.insert username identityKey
        else e.identityKeys } := by
  unfold EncryptionService.cachePublicKey
  rw [h]
  cases ssl.edAccepts identityKey <;> rfl

theorem cachePublicKey_isOf (h : e.IsOf a) (username pubkey identityKey : Bytes) :
    (e.cachePublicKey ssl username pubkey identityKey).2.IsOf a := by
  cases hdh : ssl.dhAccepts pubkey with
  | false =>
    rw [cachePublicKey_malformed hdh]
    exact h
  | true =>
    rw [cachePublicKey_accepted hdh]
    exact ⟨h.dhKey, h.identityKey, h.entropy⟩

/-- The simplest functions that do what `OpenSSL.Correct` asks for. They hide nothing, which shows
    that none of the results rests on secrecy. -/
def clearSSL : OpenSSL where
  dhPublic k := (k ++ List.replicate 32 0).take 32
  dhAccepts b := b.length = 32
  dhDerive _ _ := [0]
  edPublic k := (k ++ List.replicate 32 0).take 32
  edAccepts b := b.length = 32
  edSign _ _ := List.replicate 64 0
  edVerify _ _ _ := true
  hkdf _ _ _ _ := .ok []
  gcmSeal _ _ _ plaintext := some (plaintext, ⟨List.replicate 16 0, rfl⟩)
  gcmOpen _ _ _ ciphertext _ := .ok ciphertext

/-- Random bytes that are all zero. -/
def zeroEntropy : Nat → Option Iv := fun _ => some ⟨List.replicate 12 0, rfl⟩

theorem clearSSL_correct : clearSSL.Correct where
  dh_accepts k := by simp [clearSSL]
  dh_length k := by simp [clearSSL]
  dh_agrees _ _ := rfl
  dh_derives _ _ := List.cons_ne_nil _ _
  ed_accepts k := by simp [clearSSL]
  ed_length k := by simp [clearSSL]
  ed_verifies _ _ := rfl
  signature_length _ _ := rfl
  hkdf_derives _ _ _ _ := ⟨[], rfl⟩
  gcm_seals _ _ _ plaintext := ⟨plaintext, ⟨List.replicate 16 0, rfl⟩, rfl, rfl, rfl⟩

/-! ## The round trip -/

/-- **Decryption inverts encryption exactly at equal counters**, for any two users with the keys
    of each other. What is too short to have all its parts opens at no counter. -/
theorem decrypts_at_equal_counters (hssl : ssl.Correct) {sender receiver : EncryptionService}
    (hsender : sender.dhKey = a.dhKey) (hreceiver : receiver.dhKey = b.dhKey)
    (hb : sender.Holds ssl b) (ha : receiver.Holds ssl a)
    (hrandom : ∃ iv, sender.entropy sender.draws = some iv) (plaintext : Bytes) (n m : UInt64) :
    (∃ ciphertext sender', sender.encryptFor ssl a.name b.name plaintext n
      = (.ok ciphertext, sender') ∧
      receiver.decryptFor ssl a.name b.name ciphertext (a.signature ssl) m =
        if n = m then .ok plaintext
        else .error (runtimeError "Replay attack detected or counter mismatch")) ∧
      ∀ key input k, input.length < 36 →
        AESGCMEncryptor.decrypt ssl key input k = .error (runtimeError "Ciphertext too short") := by
  obtain ⟨iv, hiv⟩ := hrandom
  obtain ⟨ciphertext, hencrypt, hsealed⟩ := encryptFor_nonce hssl hsender hb hiv plaintext n
  refine ⟨⟨ciphertext, _, hencrypt, decryptFor_sealed hssl hreceiver ha hsealed⟩, ?_⟩
  intro key input k hshort
  exact decrypt_short hshort k

/-- The service of one user with the keys of another. -/
def Account.knowing (owner other : Account) : EncryptionService where
  dhKey := owner.dhKey
  identityKey := owner.identityKey
  dhKeys := Table.empty.insert other.name (other.dhPublic clearSSL)
  identityKeys := Table.empty.insert other.name (other.edPublic clearSSL)
  entropy := zeroEntropy

theorem Account.knowing_holds (owner other : Account) :
    (owner.knowing other).Holds clearSSL other :=
  ⟨Table.insert_self .., Table.insert_self ..⟩

/-- Alice writes `hi` at counter 7, and bob reads it at 7 and not at 8. -/
theorem decrypts_hi :
    let alice : Account := ⟨bytes "alice", [1], [2]⟩
    let bob : Account := ⟨bytes "bob", [3], [4]⟩
    ∀ m ∈ [7, 8], ∃ ciphertext sender',
      (alice.knowing bob).encryptFor clearSSL alice.name bob.name (bytes "hi") 7
          = (.ok ciphertext, sender') ∧
        (bob.knowing alice).decryptFor clearSSL alice.name bob.name ciphertext
            (alice.signature clearSSL) m =
          if 7 = m then .ok (bytes "hi")
          else .error (runtimeError "Replay attack detected or counter mismatch") := by
  intro alice bob m _
  exact (decrypts_at_equal_counters clearSSL_correct rfl rfl (alice.knowing_holds bob)
    (bob.knowing_holds alice) ⟨_, rfl⟩ (bytes "hi") 7 m).1

end Messenger
