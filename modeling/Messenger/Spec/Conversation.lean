import Messenger.Model.Conversation

/-!
# What two clients are promised

The assumptions about the two clients and the server between them, and what should come of
it: every private message that is delivered carries the counter its receiver expects, and
is shown as it was sent.

The program keeps this promise only while the two do not speak at once. `Polite` says
when a client may send: it does so on a key response, and then no private message may be
on its way to it.
-/

set_option autoImplicit false

namespace Messenger

open Messenger.Lib

/-! ## Who takes part -/

/-- A user: a name, an X25519 and an Ed25519 private key. -/
structure Account where
  name : Name
  dhKey : Bytes
  identityKey : Bytes

namespace Account

variable (ssl : OpenSSL) (a : Account)

def dhPublic : Bytes := ssl.dhPublic a.dhKey

def edPublic : Bytes := ssl.edPublic a.identityKey

/-- The account's signature of its own DH key. -/
def signature : Bytes := ssl.edSign a.identityKey (a.dhPublic ssl)

/-- What the server keeps of the account. -/
def user : User where
  publicDHKey := a.dhPublic ssl
  publicIdentityKey := a.edPublic ssl
  signature := a.signature ssl

end Account

/-- The service is that of `a`, and `RAND_bytes` never fails. -/
structure EncryptionService.IsOf (e : EncryptionService) (a : Account) : Prop where
  dhKey : e.dhKey = a.dhKey
  identityKey : e.identityKey = a.identityKey
  entropy : ∀ n, ∃ iv, e.entropy n = some iv

/-- The service has the keys of `b`, both of them and the right ones. How it came by them is not
    asked. -/
structure EncryptionService.Holds (ssl : OpenSSL) (e : EncryptionService) (b : Account) :
    Prop where
  dhKey : e.dhKeys b.name = some (b.dhPublic ssl)
  identityKey : e.identityKeys b.name = some (b.edPublic ssl)

variable (ssl : OpenSSL) (acct : Party → Account) (fd : Party → Fd)

/-- Two users with different names, which the wire can carry. With equal names the two would have
    one entry in every table of the server. -/
structure Peers : Prop where
  correct : ssl.Correct
  names_ne : (acct .alice).name ≠ (acct .bob).name
  names_fit : ∀ p, (acct p).name.length ≤ 65535

/-- Both are logged in, each on its own connection, and the server has their keys. -/
structure LoggedIn (s : ServerContext) : Prop where
  username : ∀ p, s.sessions.getUsername (fd p) = .ok (acct p).name
  connection : ∀ p, s.sessions.getFd (acct p).name = .ok (fd p)
  user : ∀ p, s.users.findUser (acct p).name = .ok ((acct p).user ssl)

/-- A client of `a` that holds the keys of `b`, with no counters and nothing queued. -/
structure ClientContext.Fresh (c : ClientContext) (a b : Account) : Prop where
  encryption : c.encryption.IsOf a
  holds : c.encryption.Holds ssl b
  username : c.myUsername = a.name
  connected : c.connected = true
  counters : c.messagesCounter = .empty
  pendingMessages : c.pendingMessages = .empty
  queues : c.mq = .empty
  ui : c.ui = []

/-- Where a conversation begins: both are logged in and have each other's keys, and nothing has been
    said yet. -/
structure Conversation.Fresh (s : Conversation) : Prop where
  server : LoggedIn ssl acct fd s.server
  client : ∀ p, (s.client p).Fresh ssl (acct p) (acct p.other)
  toServer : ∀ p, s.toServer p = []
  fromServer : ∀ p, s.fromServer p = []
  sent : ∀ p, s.sent p = []

/-! ## What is on its way -/

/-- The type of the message that the bytes carry. -/
def messageType (raw : Bytes) : Option MessageType :=
  match Serializer.deserialize raw with
  | .ok m => some m.getType
  | .error _ => none

/-- The private messages on their way to `p`: those the server has already passed on, and then those
    it has not seen yet. -/
def Conversation.onTheWay (s : Conversation) (p : Party) : List Bytes :=
  (s.fromServer p ++ s.toServer p.other).filter fun raw => messageType raw = some .cipherMessage

/-- A client with texts in its queue handles a key response only while no private message is on its
    way to it. Handling the response sends those texts, which moves the one counter that the client
    has for the other, and the message on its way was numbered before that. -/
def Conversation.Polite (s : Conversation) : Action → Prop
  | .deliver p => ∀ raw rest, s.fromServer p = raw :: rest → messageType raw = some .response →
      (s.client p).mq.pending (acct p.other).name ≠ [] → s.onTheWay p = []
  | _ => True

/-- A text that fits into a message together with names and keys. -/
def Action.Short : Action → Prop
  | .pmess _ text => text.length < 2 ^ 31
  | _ => True

/-- All actions of the run are polite when they happen, and all texts are short. -/
def Conversation.PoliteRun : Conversation → List (UInt64 × Action) → Prop
  | _, [] => True
  | s, (now, a) :: actions => s.Polite acct a ∧ a.Short ∧
      PoliteRun (s.step ssl (fun p => (acct p).name) fd now a) actions

/-! ## The promise -/

/-- The private message that a client handles next has the counter it expects, and what it has shown
    is what the other has sent, except for what is on its way. So nothing is lost, repeated or
    overtaken. -/
structure Conversation.AllShown (s : Conversation) : Prop where
  counter : ∀ p raw rest m, s.fromServer p = raw :: rest → Serializer.deserialize raw = .ok m →
    m.getType = .cipherMessage →
    readU64 m.getPayload 12 = .ok (((s.client p).messagesCounter (m.getMeta 1)).getD 0)
  shown : ∀ p, ∃ delivered waiting,
    (s.client p).ui = delivered.map (privateText (acct p.other).name) ∧
    s.sent p.other = delivered ++ waiting ∧ waiting.length = (s.onTheWay p).length

end Messenger
