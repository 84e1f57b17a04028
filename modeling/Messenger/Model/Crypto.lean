import Messenger.Lib.Table
import Messenger.Model.Message

/-!
# Encryption

`infrastructure/crypto` and `EncryptionService` above it. What the program calls in
OpenSSL is the record `OpenSSL`: the functions it uses, with the failures it checks for.
`OpenSSL.Correct` is what the documentation of these functions promises about keys that
the program has generated itself; nothing else is assumed about them.

A key is the bytes it is made from. A cached public key is never the null key, because
`from_public_bytes` throws before it would return one; the null key of a missing entry
in `identity_keys` is `none`.
-/

set_option autoImplicit false

namespace Messenger

open Messenger.Lib

/-- `std::vector<uint8_t> iv(12)`. -/
abbrev Iv := { b : Bytes // b.length = 12 }

/-- `std::vector<uint8_t> tag(16)`. -/
abbrev Tag := { b : Bytes // b.length = 16 }

/-- The step of `HKDF::derive` that OpenSSL refuses. Each throws with a text of its own. -/
inductive HkdfStep
  | context
  | init
  | hash
  | key
  | salt
  | info
  | derivation
  deriving DecidableEq, Repr

/-- The step of `AESGCMEncryptor::decrypt` that OpenSSL refuses. The first message quotes
    `strerror(errno)`. -/
inductive GcmStep
  | init (strerror : String)
  | update
  | setTag
  | final
  deriving DecidableEq, Repr

/-- The part of OpenSSL that the program calls. Nothing is said here about what these functions do,
    so a theorem without further assumptions holds for any of them, broken ones included. -/
structure OpenSSL where
  -- X25519: the public key of a private one.
  dhPublic : Bytes → Bytes
  -- X25519: whether the bytes are taken as a public key.
  dhAccepts : Bytes → Bool
  -- X25519: private key, public key, shared secret. Empty if a step fails.
  dhDerive : Bytes → Bytes → Bytes
  -- Ed25519: the public key of a private one.
  edPublic : Bytes → Bytes
  -- Ed25519: whether the bytes are taken as a public key.
  edAccepts : Bytes → Bool
  -- Ed25519: private key, message, signature.
  edSign : Bytes → Bytes → Bytes
  -- Ed25519: public key, message, signature.
  edVerify : Bytes → Bytes → Bytes → Bool
  -- HKDF with SHA-256: key material, salt, info, length.
  hkdf : Bytes → Bytes → Bytes → Nat → Except HkdfStep Bytes
  -- AES-256-GCM: key, nonce, associated data, plaintext. Nothing if there is no tag.
  gcmSeal : Bytes → Iv → Bytes → Bytes → Option (Bytes × Tag)
  -- AES-256-GCM: key, nonce, associated data, ciphertext, tag.
  gcmOpen : Bytes → Iv → Bytes → Bytes → Tag → Except GcmStep Bytes

/-- What the documentation promises: keys that have been generated are accepted, the two sides of a
    key exchange agree, signatures verify, and what was sealed can be opened. That nobody else can
    do these things is not among it; no theorem here is about secrecy. -/
structure OpenSSL.Correct (ssl : OpenSSL) : Prop where
  dh_accepts : ∀ k, ssl.dhAccepts (ssl.dhPublic k) = true
  dh_length : ∀ k, (ssl.dhPublic k).length = 32
  dh_agrees : ∀ k l, ssl.dhDerive k (ssl.dhPublic l) = ssl.dhDerive l (ssl.dhPublic k)
  dh_derives : ∀ k l, ssl.dhDerive k (ssl.dhPublic l) ≠ []
  ed_accepts : ∀ k, ssl.edAccepts (ssl.edPublic k) = true
  ed_length : ∀ k, (ssl.edPublic k).length = 32
  ed_verifies : ∀ k m, ssl.edVerify (ssl.edPublic k) m (ssl.edSign k m) = true
  signature_length : ∀ k m, (ssl.edSign k m).length = 64
  hkdf_derives : ∀ ikm salt info, ikm ≠ [] → ∃ key, ssl.hkdf ikm salt info 32 = .ok key
  gcm_seals : ∀ key iv aad plaintext, ∃ ciphertext tag,
    ssl.gcmSeal key iv aad plaintext = some (ciphertext, tag) ∧
      ciphertext.length = plaintext.length ∧
      ssl.gcmOpen key iv aad ciphertext tag = .ok plaintext

/-! ## Key derivation -/

def HkdfStep.what : HkdfStep → String
  | .context => "Failed to create HKDF context"
  | .init => "HKDF init failed"
  | .hash => "Failed to set HKDF hash"
  | .key => "Failed to set HKDF key"
  | .salt => "Failed to set HKDF salt"
  | .info => "Failed to set HKDF info"
  | .derivation => "HKDF derivation failed"

namespace HKDF

variable (ssl : OpenSSL)

/-- `HKDF::derive`. -/
def derive (ikm salt info : Bytes) (outputLen : Nat) : Except Failure Bytes :=
  match ssl.hkdf ikm salt info outputLen with
  | .ok key => .ok key
  | .error step => .error (runtimeError step.what)

/-- The names in the order of `std::vector`'s `<`, so that both sides derive one key. They are put
    together without a mark between them, and two pairs of names may give the same salt. -/
def messagingSalt (senderId receiverId : Bytes) : Bytes :=
  if senderId < receiverId then senderId ++ receiverId else receiverId ++ senderId

def deriveForMessaging (sharedSecret senderId receiverId : Bytes) (purpose : String) :
    Except Failure Bytes :=
  derive ssl sharedSecret (messagingSalt senderId receiverId)
    (bytes "messaging-key-" ++ bytes purpose) 32

end HKDF

/-! ## AES-GCM -/

def GcmStep.what : GcmStep → String
  | .init strerror => "EVP_DecryptInit_ex failed: " ++ strerror
  | .update => "DecryptUpdate failed"
  | .setTag => "SetTag failed"
  | .final => "DecryptFinal failed: authentication failure"

namespace AESGCMEncryptor

variable (ssl : OpenSSL)

/-- The nonce, the counter in little-endian, the ciphertext, the tag. The counter is the associated
    data. There is no nonce when `RAND_bytes` fails. -/
def encrypt (iv : Option Iv) (key plaintext : Bytes) (counter : UInt64) : Except Failure Bytes :=
  match iv with
  | none => .error (runtimeError "Failed to generate IV")
  | some iv =>
    let aad := writeU64 [] counter
    match ssl.gcmSeal key iv aad plaintext with
    | none => .error (runtimeError "Failed to get GCM tag")
    | some (ciphertext, tag) => .ok (iv.val ++ aad ++ ciphertext ++ tag.val)

/-- The counter in the message has to be the one expected. It is compared before anything is
    authenticated, and it is authenticated as the associated data. The widths of nonce and tag
    follow from the length of the input, so they are proved where the slices are made. -/
def decrypt (key input : Bytes) (counter : UInt64) : Except Failure Bytes := do
  if h : input.length < 12 + 8 + 16 then throw (runtimeError "Ciphertext too short")
  else
    let receivedCounter ← readU64 input 12
    if receivedCounter ≠ counter then
      throw (runtimeError "Replay attack detected or counter mismatch")
    else
      let iv : Iv := ⟨input.take 12, by rw [List.length_take]; omega⟩
      let aad := (input.drop 12).take 8
      let ciphertext := (input.drop 20).take (input.length - 12 - 8 - 16)
      let tag : Tag := ⟨input.drop (input.length - 16), by rw [List.length_drop]; omega⟩
      match ssl.gcmOpen key iv aad ciphertext tag with
      | .ok plaintext => return plaintext
      | .error step => throw (runtimeError step.what)

end AESGCMEncryptor

/-! ## `EncryptionService` -/

/-- The keys that stand behind one encryption: the DH key that was used, and the identity key that
    was cached with it. -/
structure KeyUse where
  username : Bytes
  dhKey : Bytes
  identityKey : Option Bytes
  deriving DecidableEq, Repr

/-- The own keys, the cached keys of others, and what `RAND_bytes` will return. `used` is a record
    of the encryptions; the program has none. It is there so that it can be said with which keys a
    text went out. -/
structure EncryptionService where
  dhKey : Bytes
  identityKey : Bytes
  dhKeys : Table Bytes Bytes := .empty
  identityKeys : Table Bytes Bytes := .empty
  entropy : Nat → Option Iv
  draws : Nat := 0
  used : List KeyUse := []

namespace EncryptionService

variable (ssl : OpenSSL)

/-- The own DH key, signed with the identity key. This binds the two keys to each other, and to
    nothing else: neither a name nor a time is signed. -/
def sign (e : EncryptionService) : Bytes := ssl.edSign e.identityKey (ssl.dhPublic e.dhKey)

def getDHBytes (e : EncryptionService) : Bytes := ssl.dhPublic e.dhKey

def getIdentityBytes (e : EncryptionService) : Bytes := ssl.edPublic e.identityKey

/-- `"User public " + username + " key not found"`. -/
def keyNotFound (username : Bytes) : Failure :=
  .thrown (.runtimeError (bytes "User public " ++ username ++ bytes " key not found"))

/-- The ciphertext, and the service with one nonce drawn. The identity key of the recipient is not
    looked at here. -/
def encryptFor (e : EncryptionService) (sender username plaintext : Bytes) (counter : UInt64) :
    Except Failure Bytes × EncryptionService :=
  match e.dhKeys username with
  | none => (.error (keyNotFound username), e)
  | some dhKey =>
    let e := { e with used := e.used ++ [⟨username, dhKey, e.identityKeys username⟩] }
    let sharedSecret := ssl.dhDerive e.dhKey dhKey
    match HKDF.deriveForMessaging ssl sharedSecret sender username "encryption" with
    | .error x => (.error x, e)
    | .ok encryptionKey =>
      (AESGCMEncryptor.encrypt ssl (e.entropy e.draws) encryptionKey plaintext counter,
        { e with draws := e.draws + 1 })

/-- `identity_keys[sender].verify(…)`. `operator[]` makes an entry with a null key where there is
    none, and that key has nothing to verify with. -/
def verify (identityKey : Option Bytes) (pubkey signature : Bytes) : Except Failure Bool :=
  match identityKey with
  | none => .error (runtimeError "No public key")
  | some key => .ok (ssl.edVerify key pubkey signature)

/-- The signature over the sender's DH key is verified with the identity key that is cached for
    them, and only then is anything decrypted. -/
def decryptFor (e : EncryptionService) (sender username ciphertext signature : Bytes)
    (counter : UInt64) : Except Failure Bytes := do
  match e.dhKeys sender with
  | none => throw (keyNotFound sender)
  | some dhKey =>
    let verified ← verify ssl (e.identityKeys sender) dhKey signature
    if !verified then throw (runtimeError "MITM detected!")
    else
      let sharedSecret := ssl.dhDerive e.dhKey dhKey
      let decryptionKey ← HKDF.deriveForMessaging ssl sharedSecret sender username "encryption"
      AESGCMEncryptor.decrypt ssl decryptionKey ciphertext counter

/-- The DH key is assigned before the identity key is looked at. So if the second one is refused,
    the first one has been replaced. -/
def cachePublicKey (e : EncryptionService) (username pubkey identityKey : Bytes) :
    Except Failure Unit × EncryptionService :=
  if !ssl.dhAccepts pubkey then
    (.error (runtimeError "Failed to create IdentityKey from public bytes"), e)
  else
    let e := { e with dhKeys := e.dhKeys.insert username pubkey }
    if !ssl.edAccepts identityKey then
      (.error (runtimeError "Failed to create from public bytes"), e)
    else (.ok (), { e with identityKeys := e.identityKeys.insert username identityKey })

end EncryptionService

end Messenger
