import Messenger.Model.Crypto

/-!
# The own keys: `EncryptionService::set_key` and the file `identity.key`

A program makes a new DH key each time it starts. Its identity key is in a file of the working
directory, and is made and written there when there is none that could be opened.

The state is what is in the file. Whether it can be opened, and how much of it is read or written,
is up to the system at each start: `file_exists` opens the file for reading and says whether that
has worked, `load_file` opens it a second time and takes what it gets, and `save_file` looks at the
opening only. So a file that may be written and not read does not exist for `set_key`.
-/

set_option autoImplicit false

namespace Messenger

open Messenger.Lib

/-- An Ed25519 private key. -/
abbrev IdentityKey := { k : Bytes // k.length = 32 }

/-- What OpenSSL answers when a key is made. -/
inductive Keygen (α : Type)
  | key (k : α)
  | noContext
  | failed

/-- The two functions called `generate` differ in the kind of key. -/
def Keygen.generate {α : Type} (kind : String) : Keygen α → Except Failure α
  | .key k => .ok k
  | .noContext => .error (runtimeError "Failed to create context")
  | .failed => .error (runtimeError ("Failed to generate " ++ kind ++ " key"))

/-- What the system answers when a program starts. The file is opened up to three times, and each
    time the answer may be another. -/
structure SetKeyAnswer where
  dhKey : Keygen Bytes
  identityKey : Keygen IdentityKey
  -- A file that is there can be opened for reading by `file_exists`.
  readable : Bool := true
  -- So many bytes of it are read then, or all if there are no more; `none` if `load_file` cannot
  -- open it.
  read : Option Nat := some 32
  -- The file can be opened for writing.
  opened : Bool := true
  -- So many bytes reach it.
  written : Nat := 32

/-- A computation on the file. `none` is a file that is not there. -/
abbrev KeyFileM := EStateM Failure (Option Bytes)

namespace IdentityKey

def generate (r : Keygen IdentityKey) : Except Failure IdentityKey := r.generate "Ed25519"

/-- OpenSSL takes 32 bytes for a private key, and nothing else. -/
def fromPrivateBytes (bytes : Bytes) : Except Failure IdentityKey :=
  if h : bytes.length = 32 then .ok ⟨bytes, h⟩
  else .error (runtimeError "Failed to create key from private bytes")

/-- `file_exists`, which asks whether the file can be opened for reading. -/
def fileExists (a : SetKeyAnswer) (file : Option Bytes) : Bool := file.isSome && a.readable

/-- The second opening. What is read may be less than there is, and nothing notices that here: it is
    `from_private_bytes` that will refuse it. -/
def loadFile (a : SetKeyAnswer) : KeyFileM Bytes := do
  match ← get, a.read with
  | some bytes, some n => return bytes.take n
  | _, _ => throw (runtimeError "Failed to open file")

/-- A file that is opened for writing is empty then. What has been written of the key is not
    checked, so the file may end up with a part of it. -/
def saveFile (a : SetKeyAnswer) (data : Bytes) : KeyFileM Unit :=
  if a.opened then set (some (data.take a.written))
  else throw (runtimeError "Failed to write file")

end IdentityKey

/-- `load_or_generate_key`, which never loads one. -/
def EncryptionService.loadOrGenerateKey (r : Keygen Bytes) : Except Failure Bytes :=
  r.generate "X25519"

/-- The key in the file is used if it can be read. If it is not a key, the program does not start;
    it is not replaced. If the file cannot be opened, a new key is made and takes its place. -/
def EncryptionService.setKey (entropy : Nat → Option Iv) (a : SetKeyAnswer) :
    KeyFileM EncryptionService := do
  let dhKey ← liftExcept (loadOrGenerateKey a.dhKey)
  let file ← get
  if IdentityKey.fileExists a file then
    let bytes ← IdentityKey.loadFile a
    let identityKey ← liftExcept (IdentityKey.fromPrivateBytes bytes)
    return { dhKey := dhKey, identityKey := identityKey.1, entropy := entropy }
  else
    let identityKey ← liftExcept (IdentityKey.generate a.identityKey)
    IdentityKey.saveFile a identityKey.1
    return { dhKey := dhKey, identityKey := identityKey.1, entropy := entropy }

/-- The file after programs have started, one after the other, also if they have failed. -/
def afterStarts (entropy : Nat → Option Iv) (file : Option Bytes) (starts : List SetKeyAnswer) :
    Option Bytes :=
  starts.foldl (fun file a => finalState (EncryptionService.setKey entropy a) file) file

end Messenger
